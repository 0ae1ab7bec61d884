import QuantumKernel.Fat32.Entries

/-! # Lookup and creation in a directory

`Volume.scan` is the scan of `scanSlots` carried over all the slots of a directory, so
that a walk over the clusters of a chain becomes one pass over a list.  On top of it,
`fat32_find_entry` returns the first slot that carries a name, and `fat32_create_entry`
fills the first reusable slot, appending a blank cluster when there is none.
-/

namespace QuantumKernel.Fat32

open ByteStore LinkedTable

/-- The scan of a directory, slot by slot. -/
def Volume.scan (v : Volume) (stop accept : Fat32Dirent → Bool) : List Slot → Scan Slot
  | [] => .exhausted
  | slot :: rest =>
    if stop (v.dirent slot) then .stopped
    else if accept (v.dirent slot) then .found slot
    else v.scan stop accept rest

/-- The result of a scan inside one cluster, as a scan of slots. -/
def Scan.inCluster (cluster : UInt32) : Scan Nat → Scan Slot
  | .stopped => .stopped
  | .found i => .found (cluster, UInt32.ofNat (32 * i))
  | .exhausted => .exhausted

/-- The slot that `fat32_find_entry` finds. -/
def Volume.lookup (v : Volume) (slots : List Slot) (name : ShortName) : Option Slot :=
  match v.scan atEnd (named name) slots with
  | .found slot => some slot
  | _ => none

variable {g : Fat32Fs} {cwd : UInt32} {v v' : Volume} {s : Fat32State} {a c n : UInt32}
  {l l' : List UInt32} {slots : List Slot} {slot σ τ : Slot} {name : ShortName}
  {stop accept : Fat32Dirent → Bool} {buffer : Bytes}

/-! ## Scans -/

theorem Volume.scan_append (v : Volume) (stop accept : Fat32Dirent → Bool) (p q : List Slot) :
    v.scan stop accept (p ++ q) =
      match v.scan stop accept p with
      | .exhausted => v.scan stop accept q
      | result => result := by
  induction p with
  | nil => rfl
  | cons slot rest ih =>
    simp only [List.cons_append, Volume.scan]
    split
    · rfl
    · split
      · rfl
      · exact ih

theorem Volume.scan_found (found : v.scan stop accept slots = .found σ) :
    ∃ p q, slots = p ++ σ :: q ∧ stop (v.dirent σ) = false ∧ accept (v.dirent σ) = true ∧
      ∀ τ ∈ p, stop (v.dirent τ) = false ∧ accept (v.dirent τ) = false := by
  induction slots with
  | nil => simp [Volume.scan] at found
  | cons slot rest ih =>
    simp only [Volume.scan] at found
    split at found
    · cases found
    · rename_i notStop
      split at found
      · rename_i accepted
        cases found
        exact ⟨[], rest, rfl, by simpa using notStop, accepted, by simp⟩
      · rename_i refused
        obtain ⟨p, q, split, here, there, before⟩ := ih found
        refine ⟨slot :: p, q, by rw [split, List.cons_append], here, there, ?_⟩
        intro τ member
        rcases List.mem_cons.mp member with rfl | later
        · exact ⟨by simpa using notStop, by simpa using refused⟩
        · exact before τ later

theorem Volume.scan_stopped (stopped : v.scan stop accept slots = .stopped) :
    ∃ p σ q, slots = p ++ σ :: q ∧ stop (v.dirent σ) = true ∧
      ∀ τ ∈ p, stop (v.dirent τ) = false ∧ accept (v.dirent τ) = false := by
  induction slots with
  | nil => simp [Volume.scan] at stopped
  | cons slot rest ih =>
    simp only [Volume.scan] at stopped
    split at stopped
    · rename_i here
      exact ⟨[], slot, rest, rfl, here, by simp⟩
    · rename_i notStop
      split at stopped
      · cases stopped
      · rename_i refused
        obtain ⟨p, σ, q, split, here, before⟩ := ih stopped
        refine ⟨slot :: p, σ, q, by rw [split, List.cons_append], here, ?_⟩
        intro τ member
        rcases List.mem_cons.mp member with rfl | later
        · exact ⟨by simpa using notStop, by simpa using refused⟩
        · exact before τ later

theorem Volume.scan_exhausted (exhausted : v.scan stop accept slots = .exhausted) :
    ∀ τ ∈ slots, stop (v.dirent τ) = false ∧ accept (v.dirent τ) = false := by
  induction slots with
  | nil => simp
  | cons slot rest ih =>
    simp only [Volume.scan] at exhausted
    split at exhausted
    · cases exhausted
    · rename_i notStop
      split at exhausted
      · cases exhausted
      · rename_i refused
        intro τ member
        rcases List.mem_cons.mp member with rfl | later
        · exact ⟨by simpa using notStop, by simpa using refused⟩
        · exact ih exhausted τ later

theorem Fat32Fs.slotsOf_drop (g : Fat32Fs) (c : UInt32) {i : Nat}
    (bound : i < entriesPerCluster g) :
    (g.slotsOf c).drop i = (c, UInt32.ofNat (32 * i)) :: (g.slotsOf c).drop (i + 1) := by
  have inside : i < (g.slotsOf c).length := by simpa [Fat32Fs.slotsOf] using bound
  rw [List.drop_eq_getElem_cons inside]
  simp [Fat32Fs.slotsOf]

theorem Fat32Fs.slotsOf_length (g : Fat32Fs) (c : UInt32) :
    (g.slotsOf c).length = entriesPerCluster g := by
  simp [Fat32Fs.slotsOf]

/-- The entry of a loaded cluster at index `i` is the entry of its slot. -/
theorem Geometry.direntAt_loaded (geo : Geometry g)
    (loaded : ∀ k < g.bytesPerCluster.toNat, buffer k = v.data c k) {i : Nat}
    (bound : i < entriesPerCluster g) :
    direntAt buffer (32 * i) = v.dirent (c, UInt32.ofNat (32 * i)) := by
  have entries := geo.entries_eq
  refine direntAt_congr fun k small => ?_
  rw [geo.offset_toNat bound]
  exact loaded _ (by omega)

/-- A scan of `cluster_buffer` is a scan of the slots of the cluster it holds. -/
theorem scanSlots_eq (geo : Geometry g) (stop accept : Fat32Dirent → Bool)
    (loaded : ∀ k < g.bytesPerCluster.toNat, buffer k = v.data c k) (remaining i : Nat)
    (count : i + remaining = entriesPerCluster g) :
    (scanSlots stop accept buffer remaining i).inCluster c =
      v.scan stop accept ((g.slotsOf c).drop i) := by
  induction remaining generalizing i with
  | zero =>
    rw [List.drop_of_length_le (by rw [g.slotsOf_length]; omega)]
    rfl
  | succ remaining ih =>
    have bound : i < entriesPerCluster g := by omega
    rw [g.slotsOf_drop c bound, Volume.scan, scanSlots, geo.direntAt_loaded loaded bound]
    split
    · rfl
    · split
      · rfl
      · exact ih (i + 1) (by omega)

theorem scanSlots_found_lt {remaining i j : Nat}
    (found : scanSlots stop accept buffer remaining i = .found j) : j < i + remaining := by
  induction remaining generalizing i with
  | zero => simp [scanSlots] at found
  | succ remaining ih =>
    simp only [scanSlots] at found
    split at found
    · cases found
    · split at found
      · cases found; omega
      · have later := ih found; omega

theorem Stores.field_entries (h : Stores g cwd v s) :
    entriesPerCluster s.gFs = entriesPerCluster g := by
  rw [entriesPerCluster, h.field_bytes, entriesPerCluster]

/-! ## `fat32_find_entry` -/

theorem fat32FindLoop_spec (name : ShortName) {fuel : Nat} (enough : l.length < fuel)
    (chain : FatChain g v a l) (h : Stores g cwd v s) :
    ∃ s', fat32FindLoop name fuel s a =
        some ((v.lookup (g.dirSlots l) name).map fun σ => ⟨v.dirent σ, σ.1, σ.2⟩, s') ∧
      Stores g cwd v s' := by
  induction l generalizing a s fuel with
  | nil => exact absurd rfl chain.ne_nil
  | cons b rest ih =>
    obtain ⟨t, shape⟩ := chain.eq_cons
    obtain ⟨rfl, -⟩ := List.cons.inj shape
    have inRange := chain.cell_of_mem b chain.head_mem
    obtain ⟨fuel, rfl⟩ : ∃ k, fuel = k + 1 := ⟨fuel - 1, by omega⟩
    obtain ⟨s₁, read, stores₁, loaded⟩ := fat32ReadCluster_spec h inRange
    have scanned := scanSlots_eq h.geometry atEnd (named name) loaded (entriesPerCluster g) 0
      (Nat.zero_add _)
    have slotsEq : g.dirSlots (b :: rest) = g.slotsOf b ++ g.dirSlots rest := rfl
    rw [List.drop_zero] at scanned
    rw [fat32FindLoop, if_pos ((h.walk_iff b).mpr inRange), read]
    simp only [ne_eq, not_true_eq_false, if_false, stores₁.field_entries]
    rw [Volume.lookup, slotsEq, Volume.scan_append, ← scanned]
    cases result : scanSlots atEnd (named name) s₁.clusterBuffer (entriesPerCluster g) 0 with
    | stopped => exact ⟨s₁, rfl, stores₁⟩
    | found i =>
      have bound := scanSlots_found_lt result
      rw [Nat.zero_add] at bound
      refine ⟨s₁, ?_, stores₁⟩
      simp only [Scan.inCluster, Option.map_some, h.geometry.direntAt_loaded loaded bound]
    | exhausted =>
      obtain ⟨s₂, next, stores₂, -⟩ := fat32ReadFat_spec stores₁ b
      simp only [Scan.inCluster, next]
      cases chain with
      | last _ ends =>
        obtain ⟨fuel, rfl⟩ : ∃ k, fuel = k + 1 := ⟨fuel - 1, by simp at enough; omega⟩
        have stop : ¬ g.InRange (v.fat b) := fun valid => h.geometry.excl _ valid ends
        refine ⟨s₂, ?_, stores₂⟩
        rw [fat32FindLoop, if_neg (fun go => stop ((stores₂.walk_iff _).mp go))]
        rfl
      | link _ tail => exact ih (by simpa using enough) tail stores₂

theorem fat32FindEntry_spec (path : CString) {fuel : Nat} (enough : l.length < fuel)
    (chain : FatChain g v a l) (h : Stores g cwd v s) :
    ∃ s', fat32FindEntry fuel s a path =
        some ((v.lookup (g.dirSlots l) (fat32ToShortName path)).map
          fun σ => ⟨v.dirent σ, σ.1, σ.2⟩, s') ∧
      Stores g cwd v s' :=
  fat32FindLoop_spec (fat32ToShortName path) enough chain h

/-! ## What a lookup returns -/

/-- After the first end mark there are only end marks. -/
def Volume.EndMarked (v : Volume) (slots : List Slot) : Prop :=
  slots.Pairwise fun σ τ => (v.dirent σ).IsEnd → (v.dirent τ).IsEnd

/-- No two live entries share a short name. -/
def Volume.UniqueNames (v : Volume) (slots : List Slot) : Prop :=
  ∀ σ ∈ slots, ∀ τ ∈ slots, (v.dirent σ).IsLive → (v.dirent τ).IsLive →
    (v.dirent σ).name = (v.dirent τ).name → σ = τ

/-- A slot with a live entry of the given name. -/
def Volume.Names (v : Volume) (slots : List Slot) (name : ShortName) (σ : Slot) : Prop :=
  σ ∈ slots ∧ (v.dirent σ).IsLive ∧ (v.dirent σ).name = name

instance (v : Volume) (slots : List Slot) : Decidable (v.EndMarked slots) :=
  inferInstanceAs (Decidable (List.Pairwise _ slots))

instance (v : Volume) (slots : List Slot) : Decidable (v.UniqueNames slots) :=
  inferInstanceAs (Decidable (∀ σ ∈ slots, ∀ τ ∈ slots, _ → _ → _ → σ = τ))

theorem atEnd_iff {entry : Fat32Dirent} : atEnd entry = true ↔ entry.IsEnd := by
  simp [atEnd]

theorem reusable_iff {entry : Fat32Dirent} :
    reusable entry = true ↔ entry.IsEnd ∨ entry.IsDeleted := by
  simp [reusable]

theorem notSkipped_iff {entry : Fat32Dirent} :
    notSkipped entry = true ↔ ¬ entry.IsDeleted ∧ entry.attr ≠ fat32AttrLfn := by
  simp [notSkipped]

theorem live_iff {entry : Fat32Dirent} :
    entry.IsLive ↔ atEnd entry = false ∧ notSkipped entry = true := by
  rw [notSkipped_iff, Bool.eq_false_iff, ne_eq, atEnd_iff]
  rfl

theorem named_iff {entry : Fat32Dirent} (notEnd : atEnd entry = false) :
    named name entry = true ↔ entry.IsLive ∧ entry.name = name := by
  simp only [named, Bool.and_eq_true, decide_eq_true_eq, live_iff, notEnd, true_and]

theorem Fat32Dirent.IsLive.not_reusable {entry : Fat32Dirent} (live : entry.IsLive) :
    reusable entry = false := by
  rw [Bool.eq_false_iff, ne_eq, reusable_iff, not_or]
  exact ⟨live.1, live.2.1⟩

theorem Volume.lookup_some (found : v.lookup slots name = some σ) : v.Names slots name σ := by
  rw [Volume.lookup] at found
  split at found
  · rename_i slot result
    cases found
    obtain ⟨p, q, split, notEnd, accepted, -⟩ := Volume.scan_found result
    obtain ⟨live, same⟩ := (named_iff notEnd).mp accepted
    exact ⟨by rw [split]; simp, live, same⟩
  · cases found

/-- In a directory without live entries past its end mark, a failed lookup means that
no live entry has the name. -/
theorem Volume.lookup_none (ends : v.EndMarked slots) (missing : v.lookup slots name = none) :
    ∀ σ, ¬ v.Names slots name σ := by
  rintro σ ⟨member, live, same⟩
  rw [Volume.lookup] at missing
  split at missing
  · cases missing
  · rename_i other
    cases result : v.scan atEnd (named name) slots with
    | found slot => exact other slot result
    | exhausted =>
      obtain ⟨notEnd, refused⟩ := Volume.scan_exhausted result σ member
      have accepted := (named_iff notEnd).mpr ⟨live, same⟩
      rw [refused] at accepted
      cases accepted
    | stopped =>
      obtain ⟨p, mark, q, split, isEnd, before⟩ := Volume.scan_stopped result
      subst split
      rcases List.mem_append.mp member with inFront | inRest
      · obtain ⟨notEnd, refused⟩ := before σ inFront
        have accepted := (named_iff notEnd).mpr ⟨live, same⟩
        rw [refused] at accepted
        cases accepted
      · rcases List.mem_cons.mp inRest with rfl | behind
        · exact live.1 (atEnd_iff.mp isEnd)
        · have later := (List.pairwise_append.mp ends).2.1
          exact live.1 ((List.pairwise_cons.mp later).1 σ behind (atEnd_iff.mp isEnd))

theorem Volume.lookup_absent (absent : ∀ σ, ¬ v.Names slots name σ) : v.lookup slots name = none :=
  Option.eq_none_iff_forall_not_mem.mpr fun σ found => absent σ (Volume.lookup_some found)

/-- A lookup decides whether the name is present. -/
theorem Volume.lookup_isSome (ends : v.EndMarked slots) (present : v.Names slots name σ) :
    ∃ τ, v.lookup slots name = some τ ∧ v.Names slots name τ := by
  cases result : v.lookup slots name with
  | none => exact absurd present (Volume.lookup_none ends result σ)
  | some τ => exact ⟨τ, rfl, Volume.lookup_some result⟩

theorem Volume.lookup_eq_some_iff (ends : v.EndMarked slots) (unique : v.UniqueNames slots) :
    v.lookup slots name = some σ ↔ v.Names slots name σ := by
  refine ⟨Volume.lookup_some, fun present => ?_⟩
  obtain ⟨τ, found, names⟩ := Volume.lookup_isSome ends present
  rw [found, unique τ names.1 σ present.1 names.2.1 present.2.1 (names.2.2.trans present.2.2.symm)]

/-- A scan passes the slots that it neither stops at nor accepts. -/
theorem Volume.scan_pass {stop accept : Fat32Dirent → Bool} {p : List Slot}
    (passed : ∀ τ ∈ p, stop (v.dirent τ) = false ∧ accept (v.dirent τ) = false) (q : List Slot) :
    v.scan stop accept (p ++ q) = v.scan stop accept q := by
  induction p with
  | nil => rfl
  | cons τ rest ih =>
    obtain ⟨notStop, notAccept⟩ := passed τ List.mem_cons_self
    rw [List.cons_append, Volume.scan, notStop, notAccept]
    exact ih fun ρ member => passed ρ (List.mem_cons_of_mem τ member)

/-- The first slot of a name is found, if the directory does not end before it. -/
theorem Volume.lookup_first {p q : List Slot} (split : slots = p ++ σ :: q)
    (noEnd : ∀ τ ∈ p, ¬ (v.dirent τ).IsEnd) (noName : ∀ τ ∈ p, ¬ v.Names slots name τ)
    (names : v.Names slots name σ) : v.lookup slots name = some σ := by
  have passed : ∀ τ ∈ p, atEnd (v.dirent τ) = false ∧ named name (v.dirent τ) = false := by
    intro τ inFront
    have notEnd : atEnd (v.dirent τ) = false :=
      Bool.eq_false_iff.mpr fun isEnd => noEnd τ inFront (atEnd_iff.mp isEnd)
    refine ⟨notEnd, Bool.eq_false_iff.mpr fun accepted => noName τ inFront ?_⟩
    exact ⟨by rw [split]; simp [inFront], (named_iff notEnd).mp accepted⟩
  have here : atEnd (v.dirent σ) = false :=
    Bool.eq_false_iff.mpr fun isEnd => names.2.1.1 (atEnd_iff.mp isEnd)
  rw [Volume.lookup, split, Volume.scan_pass passed, Volume.scan, here,
    (named_iff here).mpr names.2]
  rfl

/-! ## `fat32_create_entry` -/

/-- The volume with a new entry in a slot. -/
def Volume.insertAt (v : Volume) (σ : Slot) (name : ShortName) (attr : UInt8) (first : UInt32) :
    Volume :=
  v.editCluster σ.1 fun b => fillEntry b σ.2.toNat name attr first

/-- The volume with the blank cluster `n` linked behind the cluster `last`. -/
def Volume.appendCluster (v : Volume) (last n : UInt32) : Volume :=
  ((v.setFat n fat32EocMax).setFat last n).setData n fun _ => 0

theorem Fat32Fs.clip_blank (buffer : Bytes) :
    g.clip (fill buffer 0 0 g.bytesPerCluster.toNat) = fun _ => 0 := by
  funext k
  rw [Fat32Fs.clip]
  split
  · exact fill_inside (Nat.zero_le _) (by omega)
  · rfl

theorem direntAt_blank {buffer : Bytes} {offset : Nat} (blank : ∀ k, buffer k = 0) :
    (direntAt buffer offset).IsEnd := blank _

/-- The step of `fat32_create_entry` in a cluster with a reusable slot. -/
theorem fat32CreateLoop_found (name : ShortName) (attr : UInt8) (first : UInt32) (fuel : Nat)
    (h : Stores g cwd v s) (inRange : g.InRange c)
    (found : v.scan (fun _ => false) reusable (g.slotsOf c) = .found σ) :
    ∃ s', fat32CreateLoop name attr first (fuel + 1) s c = some (0, s') ∧
      Stores g cwd (v.insertAt σ name attr first) s' := by
  obtain ⟨s₀, read, stores, loaded⟩ := fat32ReadCluster_spec h inRange
  have scanned := scanSlots_eq h.geometry (fun _ => false) reusable loaded (entriesPerCluster g) 0
    (Nat.zero_add _)
  rw [List.drop_zero, found] at scanned
  cases result : scanSlots (fun _ => false) reusable s₀.clusterBuffer (entriesPerCluster g) 0 with
  | stopped => rw [result] at scanned; cases scanned
  | exhausted => rw [result] at scanned; cases scanned
  | found i =>
    have bound := scanSlots_found_lt result
    rw [Nat.zero_add] at bound
    rw [result] at scanned
    cases scanned
    have entries := h.geometry.entries_eq
    obtain ⟨s₁, s₂, read₁, write, stores₂⟩ := editCluster_spec h inRange
      (fillEntry_local (32 * i) name attr first) (by omega)
    rw [read] at read₁
    cases read₁
    refine ⟨s₂, ?_, ?_⟩
    · have go : 2 ≤ c ∧ c < fat32EocMin := ⟨inRange.two_le, h.geometry.lt_eoc inRange⟩
      rw [fat32CreateLoop, if_pos go, read]
      simp only [ne_eq, not_true_eq_false, if_false, stores.field_entries, result, write]
    · rw [Volume.insertAt]
      simp only [h.geometry.offset_toNat bound]
      exact stores₂

/-- The first slot of a blank cluster is taken. -/
theorem Geometry.scan_blank (geo : Geometry g) (blank : ∀ k, v.data n k = 0) :
    v.scan (fun _ => false) reusable (g.slotsOf n) = .found (n, 0) := by
  have head := g.slotsOf_drop n geo.entries_pos
  rw [List.drop_zero] at head
  have isEnd : reusable (v.dirent (n, UInt32.ofNat (32 * 0))) = true :=
    reusable_iff.mpr (Or.inl (direntAt_blank blank))
  rw [head, Volume.scan, if_neg Bool.false_ne_true, if_pos isEnd]
  rfl

/-- The step of `fat32_create_entry` at a full last cluster. -/
theorem fat32CreateLoop_append (name : ShortName) (attr : UInt8) (first : UInt32) (fuel : Nat)
    (h : Stores g cwd v s) (inRange : g.InRange c) (ends : IsEoc (v.fat c))
    (full : v.scan (fun _ => false) reusable (g.slotsOf c) = .exhausted) :
    (∃ s', fat32CreateLoop name attr first (fuel + 2) s c = some (-1, s') ∧ Stores g cwd v s' ∧ v.Full g) ∨
    ∃ n s', g.InRange n ∧ v.fat n = fat32FreeCluster ∧
      fat32CreateLoop name attr first (fuel + 2) s c = some (0, s') ∧
      Stores g cwd ((v.appendCluster c n).insertAt (n, 0) name attr first) s' := by
  obtain ⟨s₁, read, stores₁, loaded⟩ := fat32ReadCluster_spec h inRange
  have scanned := scanSlots_eq h.geometry (fun _ => false) reusable loaded (entriesPerCluster g) 0
    (Nat.zero_add _)
  rw [List.drop_zero, full] at scanned
  have go : 2 ≤ c ∧ c < fat32EocMin := ⟨inRange.two_le, h.geometry.lt_eoc inRange⟩
  have isEoc : fat32EocMin ≤ v.fat c := ends
  cases result : scanSlots (fun _ => false) reusable s₁.clusterBuffer (entriesPerCluster g) 0 with
  | stopped => rw [result] at scanned; cases scanned
  | found i => rw [result] at scanned; cases scanned
  | exhausted =>
    obtain ⟨s₂, next, stores₂, -⟩ := fat32ReadFat_spec stores₁ c
    rw [fat32CreateLoop, if_pos go, read]
    simp only [ne_eq, not_true_eq_false, if_false, stores₁.field_entries, result, next, if_pos isEoc]
    rcases fat32AllocCluster_spec stores₂ with ⟨s₃, alloc, stores₃, noneFree⟩ | ⟨n, s₃, alloc, rangeN, free, stores₃⟩
    · exact Or.inl ⟨s₃, by simp only [alloc, if_true], stores₃, noneFree⟩
    · obtain ⟨s₄, link, stores₄, -⟩ := fat32WriteFat_spec stores₃ inRange n
      rw [h.geometry.mask_inRange rangeN] at stores₄
      obtain ⟨s₅, zero, stores₅, -⟩ := fat32WriteCluster_spec
        (stores₄.withBuffer (fill s₄.clusterBuffer 0 0 s₄.gFs.bytesPerCluster.toNat)) rangeN
      -- the new cluster is cleared before it is searched
      have blank : g.clip (fill s₄.clusterBuffer 0 0 s₄.gFs.bytesPerCluster.toNat) = fun _ => 0 := by
        rw [stores₄.field_bytes]
        exact Fat32Fs.clip_blank _
      simp only [blank] at stores₅
      have empty : ∀ k, (v.appendCluster c n).data n k = 0 := by
        intro k
        rw [Volume.appendCluster, Volume.setData_data, Function.update_self]
      obtain ⟨s₆, create, stores₆⟩ := fat32CreateLoop_found name attr first fuel stores₅ rangeN
        (h.geometry.scan_blank empty)
      refine Or.inr ⟨n, s₆, rangeN, free, ?_, stores₆⟩
      simp only [alloc, if_neg rangeN.ne_zero, link, zero, create]

/-- `fat32_create_entry` fills the first reusable slot of the directory; if there is
none, it appends a cluster, or fails with the volume full and unchanged. -/
theorem fat32CreateLoop_spec (name : ShortName) (attr : UInt8) (first : UInt32) {fuel : Nat}
    (enough : l.length + 1 < fuel) (chain : FatChain g v a l) (h : Stores g cwd v s) :
    match v.scan (fun _ => false) reusable (g.dirSlots l) with
    | .found σ => ∃ s', fat32CreateLoop name attr first fuel s a = some (0, s') ∧
        Stores g cwd (v.insertAt σ name attr first) s'
    | _ =>
      (∃ s', fat32CreateLoop name attr first fuel s a = some (-1, s') ∧ Stores g cwd v s' ∧ v.Full g) ∨
      ∃ n s', g.InRange n ∧ v.fat n = fat32FreeCluster ∧
        fat32CreateLoop name attr first fuel s a = some (0, s') ∧
        Stores g cwd ((v.appendCluster (l.getLast chain.ne_nil) n).insertAt (n, 0) name attr first)
          s' := by
  induction l generalizing a s fuel with
  | nil => exact absurd rfl chain.ne_nil
  | cons b rest ih =>
    obtain ⟨t, shape⟩ := chain.eq_cons
    obtain ⟨rfl, -⟩ := List.cons.inj shape
    have inRange := chain.cell_of_mem b chain.head_mem
    obtain ⟨fuel, rfl⟩ : ∃ k, fuel = k + 2 := ⟨fuel - 2, by omega⟩
    have slotsEq : g.dirSlots (b :: rest) = g.slotsOf b ++ g.dirSlots rest := rfl
    rw [slotsEq, Volume.scan_append]
    cases here : v.scan (fun _ => false) reusable (g.slotsOf b) with
    | stopped =>
      obtain ⟨_, _, _, _, impossible, _⟩ := Volume.scan_stopped here
      cases impossible
    | found σ => exact fat32CreateLoop_found name attr first (fuel + 1) h inRange here
    | exhausted =>
      cases chain with
      | last _ ends =>
        exact fat32CreateLoop_append name attr first fuel h inRange ends here
      | link _ tail =>
        -- a full cluster that is not the last: the walk goes on
        obtain ⟨s₁, read, stores₁, loaded⟩ := fat32ReadCluster_spec h inRange
        obtain ⟨s₂, next, stores₂, -⟩ := fat32ReadFat_spec stores₁ b
        have scanned := scanSlots_eq h.geometry (fun _ => false) reusable loaded
          (entriesPerCluster g) 0 (Nat.zero_add _)
        rw [List.drop_zero, here] at scanned
        have go : 2 ≤ b ∧ b < fat32EocMin := ⟨inRange.two_le, h.geometry.lt_eoc inRange⟩
        have inner : ¬ fat32EocMin ≤ v.fat b :=
          h.geometry.excl _ (tail.cell_of_mem _ tail.head_mem)
        have stepEq : fat32CreateLoop name attr first (fuel + 2) s b =
            fat32CreateLoop name attr first (fuel + 1) s₂ (v.fat b) := by
          rw [fat32CreateLoop, if_pos go, read]
          cases result : scanSlots (fun _ => false) reusable s₁.clusterBuffer
              (entriesPerCluster g) 0 with
          | stopped => rw [result] at scanned; cases scanned
          | found i => rw [result] at scanned; cases scanned
          | exhausted =>
            simp only [ne_eq, not_true_eq_false, if_false, stores₁.field_entries, result, next,
              if_neg inner]
        rw [stepEq]
        simp only [List.getLast_cons tail.ne_nil]
        exact ih (by simp only [List.length_cons] at enough; omega) tail stores₂

end QuantumKernel.Fat32
