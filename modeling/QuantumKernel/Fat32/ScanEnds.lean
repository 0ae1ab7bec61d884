import QuantumKernel.Fat32.FatTable
import QuantumKernel.Fat32.Listing

/-! # When a directory scan returns

`fat32_find_entry`, `fat32_create_entry` and `fat32_readdir` follow the links of the FAT wherever
they lead, and remember nothing of the clusters they have seen.  On a mounted volume each of them
returns exactly if the links lead out of the volume, or to a cluster with a slot that ends its scan.
-/

namespace QuantumKernel.Fat32

open ByteStore LinkedTable TableWalk

/-- The slots at which `fat32_find_entry` returns. -/
def endsFind (shortName : ShortName) (entry : Fat32Dirent) : Bool := atEnd entry || named shortName entry

/-- The slots at which `fat32_readdir` returns. -/
def endsReaddir (entry : Fat32Dirent) : Bool := atEnd entry || notSkipped entry

/-- A slot of the cluster, from number `i` on, passes the test. -/
def Volume.StopsFrom (g : Fat32Fs) (v : Volume) (test : Fat32Dirent → Bool) (c : UInt32) (i : Nat) : Prop :=
  ∃ j < entriesPerCluster g, i ≤ j ∧ test (direntAt (v.data c) (32 * j)) = true

/-- The links from `start` lead out of the volume, or to a cluster with a slot that passes. -/
def Volume.ScanEnds (g : Fat32Fs) (v : Volume) (test : Fat32Dirent → Bool) (start : UInt32) : Prop :=
  g.InRange start → ∃ c, Reach v.fat g.InRange start c ∧ (v.StopsFrom g test c 0 ∨ ¬ g.InRange (v.fat c))

/-- One round of the loop that skips clusters. -/
def Volume.link (v : Volume) (c : UInt32) : UInt32 := if 2 ≤ c then v.fat c else c

/-- The same for a listing: the first cluster it looks at is scanned from a later slot on, when
the walk does not come back to it. -/
def Volume.ListEnds (g : Fat32Fs) (v : Volume) (c : UInt32) (i : Nat) : Prop :=
  g.InRange c → v.StopsFrom g endsReaddir c i ∨ v.ScanEnds g endsReaddir (v.fat c)

variable {g : Fat32Fs} {cwd a c : UInt32} {v : Volume} {s : Fat32State} {i : Nat} {buffer : Bytes}
  {stop accept test : Fat32Dirent → Bool}

/-! ## One cluster -/

theorem scanSlots_exhausted_iff {remaining : Nat} : scanSlots stop accept buffer remaining i = .exhausted ↔
    ∀ j, i ≤ j → j < i + remaining → stop (direntAt buffer (32 * j)) = false ∧
      accept (direntAt buffer (32 * j)) = false := by
  induction remaining generalizing i with
  | zero => simp only [scanSlots, true_iff]; omega
  | succ remaining ih =>
    rw [scanSlots]
    constructor
    · intro exhausted j low high
      split at exhausted
      · cases exhausted
      · rename_i goesOn
        split at exhausted
        · cases exhausted
        · rename_i refused
          by_cases here : j = i
          · rw [here]
            exact ⟨by simpa using goesOn, by simpa using refused⟩
          · exact ih.mp exhausted j (by omega) (by omega)
    · intro passes
      obtain ⟨goesOn, refused⟩ := passes i le_rfl (by omega)
      rw [if_neg (by simp [goesOn]), if_neg (by simp [refused])]
      exact ih.mpr fun j low high => passes j (by omega) (by omega)

/-- The scan of a loaded cluster finds nothing exactly if no slot of the cluster passes. -/
theorem Geometry.exhausted_iff (geo : Geometry g)
    (loaded : ∀ k < g.bytesPerCluster.toNat, buffer k = v.data c k)
    (passes : ∀ entry, test entry = (stop entry || accept entry)) (within : i ≤ entriesPerCluster g) :
    scanSlots stop accept buffer (entriesPerCluster g - i) i = .exhausted ↔ ¬ v.StopsFrom g test c i := by
  have entries := geo.entries_eq
  have slot {j : Nat} (bound : j < entriesPerCluster g) :
      direntAt buffer (32 * j) = direntAt (v.data c) (32 * j) :=
    direntAt_congr fun k small => loaded _ (by omega)
  rw [scanSlots_exhausted_iff, Volume.StopsFrom]
  constructor
  · rintro none ⟨j, bound, low, passed⟩
    obtain ⟨goesOn, refused⟩ := none j low (by omega)
    rw [slot bound] at goesOn refused
    rw [passes, goesOn, refused] at passed
    cases passed
  · intro none j low high
    have bound : j < entriesPerCluster g := by omega
    rw [slot bound, ← Bool.or_eq_false_iff, ← passes]
    exact Bool.eq_false_iff.mpr fun passed => none ⟨j, bound, low, passed⟩

/-! ## `fat32_find_entry` -/

theorem findLoop (g : Fat32Fs) (cwd : UInt32) (v : Volume) (name : ShortName) :
    Loop v.fat g.InRange (fun c => v.StopsFrom g (endsFind name) c 0) (Stores g cwd v)
      (fat32FindLoop name) where
  empty := fun _ _ => rfl
  returns := by
    intro s a h stops
    by_cases inRange : g.InRange a
    · obtain ⟨s₁, read, stores₁, loaded⟩ := fat32ReadCluster_spec h inRange
      have found := (h.geometry.exhausted_iff loaded (fun _ => rfl) (Nat.zero_le _)).not_left.mpr (stops inRange)
      refine ⟨1, ?_⟩
      rw [fat32FindLoop, if_pos ((h.walk_iff a).mpr inRange), read]
      simp only [ne_eq, not_true_eq_false, if_false, stores₁.field_entries]
      cases result : scanSlots atEnd (named name) s₁.clusterBuffer (entriesPerCluster g) 0 with
      | stopped => exact ⟨_, rfl⟩
      | found j => exact ⟨_, rfl⟩
      | exhausted => exact absurd result found
    · exact ⟨1, _, if_neg fun go => inRange ((h.walk_iff a).mp go)⟩
  goes := by
    intro s a h inRange passes
    obtain ⟨s₁, read, stores₁, loaded⟩ := fat32ReadCluster_spec h inRange
    obtain ⟨s₂, next, stores₂, -⟩ := fat32ReadFat_spec stores₁ a
    have exhausted := (h.geometry.exhausted_iff loaded (fun _ => rfl) (Nat.zero_le _)).mpr passes
    refine ⟨s₂, stores₂, fun fuel => ?_⟩
    rw [fat32FindLoop, if_pos ((h.walk_iff a).mpr inRange), read]
    simp only [ne_eq, not_true_eq_false, if_false, stores₁.field_entries]
    rw [Nat.sub_zero] at exhausted
    rw [exhausted]
    simp only [next]

/-! ## `fat32_create_entry` -/

/-- A value that is no cluster ends the walk: what is not an end mark cannot be read. -/
theorem createLoop_outside (h : Stores g cwd v s) (outside : ¬ g.InRange a) (name : ShortName) (attr : UInt8)
    (first : UInt32) (fuel : Nat) : fat32CreateLoop name attr first (fuel + 1) s a = some (-1, s) := by
  rw [fat32CreateLoop]
  split
  · rw [fat32ReadCluster_outside h outside]
    exact if_pos (by decide)
  · rfl

theorem createLoop (g : Fat32Fs) (cwd : UInt32) (v : Volume) (name : ShortName) (attr : UInt8)
    (first : UInt32) :
    Loop v.fat g.InRange (fun c => v.StopsFrom g reusable c 0 ∨ ¬ g.InRange (v.fat c)) (Stores g cwd v)
      (fat32CreateLoop name attr first) where
  empty := fun _ _ => rfl
  returns := by
    intro s a h stops
    by_cases inRange : g.InRange a
    case neg => exact ⟨1, _, createLoop_outside h inRange name attr first 0⟩
    case pos =>
      obtain ⟨s₁, read, stores₁, loaded⟩ := fat32ReadCluster_spec h inRange
      have go : 2 ≤ a ∧ a < fat32EocMin := ⟨inRange.two_le, h.geometry.lt_eoc inRange⟩
      have exhausted : scanSlots (fun _ => false) reusable s₁.clusterBuffer (entriesPerCluster g) 0 = .exhausted ↔
          ¬ v.StopsFrom g reusable a 0 := h.geometry.exhausted_iff loaded (fun _ => rfl) (Nat.zero_le _)
      cases result : scanSlots (fun _ => false) reusable s₁.clusterBuffer (entriesPerCluster g) 0 with
      | found j =>
        refine ⟨1, ?_⟩
        rw [fat32CreateLoop, if_pos go, read]
        simp only [ne_eq, not_true_eq_false, if_false, stores₁.field_entries, result]
        exact ⟨_, rfl⟩
      | stopped =>
        have scanned := scanSlots_eq h.geometry (fun _ => false) reusable loaded (entriesPerCluster g) 0
          (Nat.zero_add _)
        rw [result] at scanned
        obtain ⟨_, _, _, _, impossible, _⟩ := Volume.scan_stopped scanned.symm
        cases impossible
      | exhausted =>
        have leaves : ¬ g.InRange (v.fat a) := (stops inRange).resolve_left (exhausted.mp result)
        by_cases ends : IsEoc (v.fat a)
        · -- the directory grows, or the volume is full
          have full : v.scan (fun _ => false) reusable (g.slotsOf a) = .exhausted := by
            have scanned := scanSlots_eq h.geometry (fun _ => false) reusable loaded (entriesPerCluster g) 0
              (Nat.zero_add _)
            rw [result] at scanned
            exact scanned.symm
          rcases fat32CreateLoop_append name attr first 0 h inRange ends full with
            ⟨s', run, -⟩ | ⟨n, s', -, -, run, -⟩
          · exact ⟨2, _, run⟩
          · exact ⟨2, _, run⟩
        · obtain ⟨s₂, next, stores₂, -⟩ := fat32ReadFat_spec stores₁ a
          have inner : ¬ fat32EocMin ≤ v.fat a := ends
          refine ⟨2, (-1, s₂), ?_⟩
          rw [fat32CreateLoop, if_pos go, read]
          simp only [ne_eq, not_true_eq_false, if_false, stores₁.field_entries, result, next, if_neg inner]
          exact createLoop_outside stores₂ leaves name attr first 0
  goes := by
    intro s a h inRange passes
    obtain ⟨none, onward⟩ := not_or.mp passes
    obtain ⟨s₁, read, stores₁, loaded⟩ := fat32ReadCluster_spec h inRange
    obtain ⟨s₂, next, stores₂, -⟩ := fat32ReadFat_spec stores₁ a
    have go : 2 ≤ a ∧ a < fat32EocMin := ⟨inRange.two_le, h.geometry.lt_eoc inRange⟩
    have inner : ¬ fat32EocMin ≤ v.fat a := h.geometry.inRange_not_eoc _ (not_not.mp onward)
    have exhausted : scanSlots (fun _ => false) reusable s₁.clusterBuffer (entriesPerCluster g) 0 = .exhausted :=
      (h.geometry.exhausted_iff loaded (fun _ => rfl) (Nat.zero_le _)).mpr none
    refine ⟨s₂, stores₂, fun fuel => ?_⟩
    rw [fat32CreateLoop, if_pos go, read]
    simp only [ne_eq, not_true_eq_false, if_false, stores₁.field_entries, exhausted, next, if_neg inner]

/-! ## `fat32_readdir` -/

theorem readdirLoop_returns (index : UInt32) (info : Fat32FileInfo) (within : i ≤ entriesPerCluster g)
    (h : Stores g cwd v s) (stops : g.InRange a → v.StopsFrom g endsReaddir a i) :
    ∃ r, fat32ReaddirLoop index info 1 s a i = some r := by
  rw [fat32ReaddirLoop]
  by_cases inRange : g.InRange a
  · obtain ⟨s₁, read, stores₁, loaded⟩ := fat32ReadCluster_spec h inRange
    have found := (h.geometry.exhausted_iff loaded (fun _ => rfl) within).not_left.mpr (stops inRange)
    rw [if_pos ⟨inRange.two_le, h.geometry.lt_eoc inRange⟩, read]
    simp only [ne_eq, not_true_eq_false, if_false, stores₁.field_entries]
    cases result : scanSlots atEnd notSkipped s₁.clusterBuffer (entriesPerCluster g - i) i with
    | stopped => exact ⟨_, rfl⟩
    | found j => exact ⟨_, rfl⟩
    | exhausted => exact absurd result found
  · split
    · rw [fat32ReadCluster_outside h inRange]
      exact ⟨_, if_pos (by decide)⟩
    · exact ⟨_, rfl⟩

theorem readdirLoop_goes (index : UInt32) (info : Fat32FileInfo) (within : i ≤ entriesPerCluster g)
    (h : Stores g cwd v s) (inRange : g.InRange a) (passes : ¬ v.StopsFrom g endsReaddir a i) :
    ∃ s', Stores g cwd v s' ∧ ∀ fuel,
      fat32ReaddirLoop index info (fuel + 1) s a i = fat32ReaddirLoop index info fuel s' (v.fat a) 0 := by
  obtain ⟨s₁, read, stores₁, loaded⟩ := fat32ReadCluster_spec h inRange
  obtain ⟨s₂, next, stores₂, -⟩ := fat32ReadFat_spec stores₁ a
  have exhausted := (h.geometry.exhausted_iff loaded (fun _ => rfl) within).mpr passes
  refine ⟨s₂, stores₂, fun fuel => ?_⟩
  rw [fat32ReaddirLoop, if_pos ⟨inRange.two_le, h.geometry.lt_eoc inRange⟩, read]
  simp only [ne_eq, not_true_eq_false, if_false, stores₁.field_entries, exhausted, next]

theorem readdirLoop (g : Fat32Fs) (cwd : UInt32) (v : Volume) (index : UInt32) (info : Fat32FileInfo) :
    Loop v.fat g.InRange (fun c => v.StopsFrom g endsReaddir c 0) (Stores g cwd v)
      (fun fuel s c => fat32ReaddirLoop index info fuel s c 0) where
  empty := fun _ _ => rfl
  returns := fun _ _ h stops => ⟨1, readdirLoop_returns index info (Nat.zero_le _) h stops⟩
  goes := fun _ _ h inRange passes => readdirLoop_goes index info (Nat.zero_le _) h inRange passes

theorem scanEnds_iff : Ends v.fat g.InRange (fun c => v.StopsFrom g test c 0) a ↔ v.ScanEnds g test a := ends_iff

/-- The first round of a listing starts at a slot of its own. -/
theorem readdirLoop_returns_iff (index : UInt32) (info : Fat32FileInfo) (within : i ≤ entriesPerCluster g)
    (h : Stores g cwd v s) :
    (∃ fuel r, fat32ReaddirLoop index info fuel s a i = some r) ↔ v.ListEnds g a i := by
  by_cases stops : g.InRange a → v.StopsFrom g endsReaddir a i
  · exact iff_of_true ⟨1, readdirLoop_returns index info within h stops⟩
      (fun inRange => Or.inl (stops inRange))
  · obtain ⟨inRange, passes⟩ := Classical.not_imp.mp stops
    obtain ⟨s', stores, goes⟩ := readdirLoop_goes index info within h inRange passes
    have rest := (readdirLoop g cwd v index info).returns_iff (a := v.fat a) stores
    rw [scanEnds_iff] at rest
    constructor
    · rintro ⟨fuel, r, run⟩ -
      cases fuel with
      | zero => cases run
      | succ fuel => exact Or.inr (rest.mp ⟨fuel, r, (goes fuel).symm.trans run⟩)
    · intro ends
      obtain ⟨fuel, r, run⟩ := rest.mpr ((ends inRange).resolve_left passes)
      exact ⟨fuel + 1, r, (goes fuel).trans run⟩

theorem fat32SkipClusters_link (h : Stores g cwd v s) (k : Nat) (a : UInt32) :
    ∃ s', fat32SkipClusters k s a = (v.link^[k] a, s') ∧ Stores g cwd v s' := by
  induction k generalizing s a with
  | zero => exact ⟨s, rfl, h⟩
  | succ k ih =>
    rw [fat32SkipClusters, Function.iterate_succ_apply, Volume.link]
    split
    · obtain ⟨s₁, next, stores₁, -⟩ := fat32ReadFat_spec h a
      rw [next]
      exact ih stores₁ (v.fat a)
    · rename_i small
      have stays : v.link a = a := if_neg small
      exact ⟨s, by rw [Function.iterate_fixed stays], h⟩

/-! ## The three scans -/

theorem find_returns_iff (h : Stores g cwd v s) (path : CString) :
    (∃ fuel r, fat32FindEntry fuel s a path = some r) ↔ v.ScanEnds g (endsFind (fat32ToShortName path)) a :=
  ((findLoop g cwd v (fat32ToShortName path)).returns_iff h).trans scanEnds_iff

theorem create_returns_iff (h : Stores g cwd v s) (path : CString) (attr : UInt8) (first : UInt32) :
    (∃ fuel r, fat32CreateEntry fuel s a path attr first = some r) ↔ v.ScanEnds g reusable a := by
  refine ((createLoop g cwd v (fat32ToShortName path) attr first).returns_iff h).trans (ends_iff.trans ?_)
  refine imp_congr_right fun _ => exists_congr fun c => and_congr_right fun _ => ?_
  rw [or_assoc, or_self]

theorem readdir_returns_iff (h : Stores g cwd v s) (index : UInt32) (info : Fat32FileInfo) :
    (∃ fuel r, fat32Readdir fuel s a index info = some r) ↔
      v.ListEnds g (v.link^[index.toNat / entriesPerCluster g] a) (index.toNat % entriesPerCluster g) := by
  have within := (Nat.mod_lt index.toNat h.geometry.entries_pos).le
  obtain ⟨s', skip, stores⟩ := fat32SkipClusters_link h (index.toNat / entriesPerCluster g) a
  rw [← readdirLoop_returns_iff index info within stores]
  simp only [fat32Readdir, h.field_entries, skip]

/-- **When directory scans end.**  On a mounted volume without drive errors, whatever its FAT and its
directories contain: `fat32_find_entry` and `fat32_create_entry` return exactly if the links from
their start lead out of the volume or to a cluster with a slot that ends the scan, and so does
`fat32_readdir` from the cluster of its index on. -/
theorem scans_end_iff (mounted : Mounted s) :
    (∀ start path, (∃ fuel r, fat32FindEntry fuel s start path = some r) ↔
      s.volume.ScanEnds s.gFs (endsFind (fat32ToShortName path)) start) ∧
    (∀ start path attr first, (∃ fuel r, fat32CreateEntry fuel s start path attr first = some r) ↔
      s.volume.ScanEnds s.gFs reusable start) ∧
    ∀ start index info, (∃ fuel r, fat32Readdir fuel s start index info = some r) ↔
      s.volume.ListEnds s.gFs (s.volume.link^[index.toNat / entriesPerCluster s.gFs] start)
        (index.toNat % entriesPerCluster s.gFs) := by
  have stores := Stores.of_geometry mounted.geometry mounted.drive
  exact ⟨fun _ path => find_returns_iff stores path,
    fun _ path attr first => create_returns_iff stores path attr first,
    fun _ index info => readdir_returns_iff stores index info⟩

/-- The links of the entries 3 and 4 form a cycle, but the first slot is an end mark. -/
theorem scans_end_iff_cycle :
    ∃ fuel r, fat32FindEntry fuel (mountedOn smallFs cycleDrive) 3 (letterPath 0x41 (by decide)) = some r := by
  refine ((scans_end_iff ⟨smallFs_geometry, fun _ => rfl⟩).1 3 _).mpr fun inRange => ?_
  exact ⟨3, .here inRange, Or.inl ⟨0, by decide, le_rfl, by decide +kernel⟩⟩

/-- A directory whose one cluster is its own successor and holds nothing but parts of long names. -/
def longNamesDrive : Nat → Bytes :=
  smallDrive (fun c => if c = 2 then 2 else 0) fun c k =>
    if c = 2 then if k % 32 = 0 then 0x41 else if k % 32 = 11 then fat32AttrLfn else 0 else 0

/-- Each scan passes over every slot. -/
theorem longNamesDrive_slots : ∀ j < 16,
    atEnd (direntAt ((mountedOn smallFs longNamesDrive).volume.data 2) (32 * j)) = false ∧
      notSkipped (direntAt ((mountedOn smallFs longNamesDrive).volume.data 2) (32 * j)) = false ∧
      reusable (direntAt ((mountedOn smallFs longNamesDrive).volume.data 2) (32 * j)) = false := by
  decide +kernel

theorem longNamesDrive_link : (mountedOn smallFs longNamesDrive).volume.fat 2 = 2 := by decide +kernel

theorem longNamesDrive_endless (passes : ∀ entry, atEnd entry = false → notSkipped entry = false →
    reusable entry = false → test entry = false) :
    ¬ (mountedOn smallFs longNamesDrive).volume.ScanEnds smallFs test 2 := by
  intro ends
  obtain ⟨c, reach, ending⟩ := ends (by decide)
  obtain rfl := reach.fixed longNamesDrive_link
  rcases ending with ⟨j, bound, -, passed⟩ | leaves
  · obtain ⟨notEnd, skipped, taken⟩ := longNamesDrive_slots j bound
    rw [passes _ notEnd skipped taken] at passed
    cases passed
  · rw [longNamesDrive_link] at leaves
    exact leaves (by decide)

/-- None of the three scans of that directory ever returns. -/
theorem scans_run_forever :
    ∃ s, Mounted s ∧ (∀ fuel path, fat32FindEntry fuel s 2 path = none) ∧
      (∀ fuel path attr first, fat32CreateEntry fuel s 2 path attr first = none) ∧
      ∀ fuel info, fat32Readdir fuel s 2 0 info = none := by
  have mounted : Mounted (mountedOn smallFs longNamesDrive) := ⟨smallFs_geometry, fun _ => rfl⟩
  have stores := Stores.of_geometry mounted.geometry mounted.drive
  refine ⟨mountedOn smallFs longNamesDrive, mounted, fun fuel path => ?_, fun fuel path attr first => ?_,
    fun fuel info => ?_⟩
  · refine Option.eq_none_iff_forall_ne_some.mpr fun r run => ?_
    refine longNamesDrive_endless ?_ ((find_returns_iff stores path).mp ⟨fuel, r, run⟩)
    intro entry notEnd skipped _
    rw [endsFind, notEnd, named, skipped]
    rfl
  · refine Option.eq_none_iff_forall_ne_some.mpr fun r run => ?_
    exact longNamesDrive_endless (fun _ _ _ taken => taken)
      ((create_returns_iff stores path attr first).mp ⟨fuel, r, run⟩)
  · refine Option.eq_none_iff_forall_ne_some.mpr fun r run => ?_
    have ends : (mountedOn smallFs longNamesDrive).volume.ListEnds smallFs 2 0 :=
      (readdir_returns_iff stores 0 info).mp ⟨fuel, r, run⟩
    have skips : ∀ entry, atEnd entry = false → notSkipped entry = false → reusable entry = false →
        endsReaddir entry = false := by
      intro entry notEnd skipped _
      rw [endsReaddir, notEnd, skipped]
      rfl
    rcases ends (by decide) with ⟨j, bound, -, passed⟩ | later
    · obtain ⟨notEnd, skipped, taken⟩ := longNamesDrive_slots j bound
      rw [skips _ notEnd skipped taken] at passed
      cases passed
    · rw [longNamesDrive_link] at later
      exact longNamesDrive_endless skips later

end QuantumKernel.Fat32
