import QuantumKernel.Fat32.Sessions

/-! # Listing a directory

`fat32_readdir` finds the first entry at or after `*index`, but it then adds one to
`*index` instead of moving it behind the slot it found.  `Volume.yields` is the list of
slots that repeated calls return; it is the list of live slots exactly if no deleted or
long-name slot precedes a live one.
-/

namespace QuantumKernel.Fat32

open ByteStore LinkedTable

/-- The loop `while (fat32_readdir(cluster, &index, &info) == 0)` of `fat32_list_dir`: the
values of `info` in its rounds. -/
def fat32ListDir (fuel : Nat) : Nat → Fat32State → (cluster index : UInt32) → Fat32FileInfo →
    Option (List Fat32FileInfo × Fat32State)
  | 0, _, _, _, _ => none
  | rounds + 1, s, cluster, index, info => do
    let (reply, s) ← fat32Readdir fuel s cluster index info
    if reply.status = 0 then
      let (rest, s) ← fat32ListDir fuel rounds s cluster reply.index reply.info
      some (reply.info :: rest, s)
    else some ([], s)

/-- The slots that the rounds of `fat32_list_dir` return, from a list of slots on. -/
def Volume.yields (v : Volume) : List Slot → List Slot
  | [] => []
  | σ :: rest =>
    match v.scan atEnd notSkipped (σ :: rest) with
    | .found τ => τ :: v.yields rest
    | _ => []

/-- The live slots in order. -/
def Volume.liveSlots (v : Volume) (slots : List Slot) : List Slot :=
  slots.filter fun σ => (v.dirent σ).IsLive

/-- No deleted slot and no long-name slot precedes a live one. -/
def Volume.NoHoles (v : Volume) (slots : List Slot) : Prop :=
  slots.Pairwise fun σ τ => (v.dirent τ).IsLive → (v.dirent σ).IsLive

instance (v : Volume) (slots : List Slot) : Decidable (v.NoHoles slots) :=
  inferInstanceAs (Decidable (List.Pairwise _ slots))

variable {g : Fat32Fs} {cwd : UInt32} {v : Volume} {s : Fat32State} {a c index : UInt32}
  {l : List UInt32} {slots rest : List Slot} {σ : Slot} {info : Fat32FileInfo} {fuel : Nat}

/-! ## One call -/

/-- What a call of `fat32_readdir` leaves behind, for the result of its scan. -/
def readdirReply (v : Volume) (index : UInt32) (info : Fat32FileInfo) : Scan Slot → ReaddirReply
  | .found σ => ⟨0, index + 1, readdirInfo (v.dirent σ) info⟩
  | _ => ⟨-1, index, info⟩

/-- The clusters from `c` on are `l`, which may be empty. -/
def Volume.Remaining (g : Fat32Fs) (v : Volume) (c : UInt32) (l : List UInt32) : Prop :=
  l = [] ∧ IsEoc c ∨ FatChain g v c l

theorem Volume.Remaining.tail (chain : FatChain g v a (a :: l)) :
    Volume.Remaining g v (v.fat a) l := by
  cases chain with
  | last _ ends => exact Or.inl ⟨rfl, ends⟩
  | link _ rest => exact Or.inr rest

theorem fat32SkipClusters_remaining (remaining : Volume.Remaining g v a l) {k : Nat}
    (bound : k ≤ l.length) (h : Stores g cwd v s) :
    ∃ c s', fat32SkipClusters k s a = (c, s') ∧ Stores g cwd v s' ∧
      Volume.Remaining g v c (l.drop k) := by
  induction k generalizing a l s with
  | zero => exact ⟨a, s, rfl, h, remaining⟩
  | succ k ih =>
    rcases remaining with ⟨rfl, -⟩ | chain
    · cases bound
    · obtain ⟨t, rfl⟩ := chain.eq_cons
      have inRange := chain.cell_of_mem a chain.head_mem
      obtain ⟨s₁, read, stores₁, -⟩ := fat32ReadFat_spec h a
      obtain ⟨c, s', run, stores, rest⟩ :=
        ih (Volume.Remaining.tail chain) (by simpa using bound) stores₁
      refine ⟨c, s', ?_, stores, rest⟩
      rw [fat32SkipClusters, if_pos inRange.two_le, read]
      exact run

theorem fat32ReaddirLoop_spec (index : UInt32) (info : Fat32FileInfo) {e : Nat}
    (enough : l.length < fuel) (remaining : Volume.Remaining g v a l)
    (within : e < entriesPerCluster g) (h : Stores g cwd v s) :
    ∃ s', fat32ReaddirLoop index info fuel s a e =
        some (readdirReply v index info (v.scan atEnd notSkipped ((g.dirSlots l).drop e)), s') ∧
      Stores g cwd v s' := by
  induction l generalizing a s fuel e with
  | nil =>
    obtain ⟨fuel, rfl⟩ : ∃ k, fuel = k + 1 := ⟨fuel - 1, by omega⟩
    have ends : IsEoc a := by
      rcases remaining with ⟨-, ends⟩ | chain
      · exact ends
      · exact absurd rfl chain.ne_nil
    have stop : ¬ (2 ≤ a ∧ a < fat32EocMin) := fun go => absurd ends (UInt32.not_le.mpr go.2)
    refine ⟨s, ?_, h⟩
    rw [fat32ReaddirLoop, if_neg stop]
    simp [Fat32Fs.dirSlots, Volume.scan, readdirReply]
  | cons b rest ih =>
    have chain : FatChain g v a (b :: rest) := remaining.resolve_left fun empty => by cases empty.1
    obtain ⟨t, shape⟩ := chain.eq_cons
    obtain ⟨rfl, -⟩ := List.cons.inj shape
    have inRange := chain.cell_of_mem b chain.head_mem
    obtain ⟨fuel, rfl⟩ : ∃ k, fuel = k + 1 := ⟨fuel - 1, by omega⟩
    obtain ⟨s₁, read, stores₁, loaded⟩ := fat32ReadCluster_spec h inRange
    have scanned := scanSlots_eq (c := b) h.geometry atEnd notSkipped loaded (entriesPerCluster g - e)
      e (by omega)
    have slotsEq : (g.dirSlots (b :: rest)).drop e = (g.slotsOf b).drop e ++ g.dirSlots rest :=
      List.drop_append_of_le_length (by rw [g.slotsOf_length]; omega)
    rw [fat32ReaddirLoop, if_pos ⟨inRange.two_le, h.geometry.lt_eoc inRange⟩, read]
    simp only [ne_eq, not_true_eq_false, if_false, stores₁.field_entries]
    rw [slotsEq, Volume.scan_append, ← scanned]
    -- the scan of this cluster decides, unless it comes to the end of the cluster
    cases result : scanSlots atEnd notSkipped s₁.clusterBuffer (entriesPerCluster g - e) e with
    | stopped => exact ⟨s₁, rfl, stores₁⟩
    | found i =>
      have bound := scanSlots_found_lt result
      refine ⟨s₁, ?_, stores₁⟩
      simp only [Scan.inCluster, readdirReply, h.geometry.direntAt_loaded loaded
        (by omega : i < entriesPerCluster g)]
    | exhausted =>
      obtain ⟨s₂, next, stores₂, -⟩ := fat32ReadFat_spec stores₁ b
      simp only [Scan.inCluster, next]
      exact ih (by simpa using enough) (Volume.Remaining.tail chain) h.geometry.entries_pos stores₂

theorem dirSlots_length (g : Fat32Fs) (l : List UInt32) :
    (g.dirSlots l).length = l.length * entriesPerCluster g := by
  induction l with
  | nil => simp [Fat32Fs.dirSlots]
  | cons b rest ih =>
    have slotsEq : g.dirSlots (b :: rest) = g.slotsOf b ++ g.dirSlots rest := rfl
    rw [slotsEq, List.length_append, ih, g.slotsOf_length, List.length_cons, Nat.succ_mul,
      Nat.add_comm]

/-- A directory has fewer than `2^32` slots: each of them takes 32 bytes of the volume. -/
theorem FatChain.slots_lt (geo : Geometry g) (chain : FatChain g v a l) :
    (g.dirSlots l).length < 4294967296 := by
  have entries := geo.entries_eq.1
  have size := geo.bytes_toNat
  have fits := geo.data_fits
  have positive := geo.clusterBegin_pos
  have perCluster : entriesPerCluster g = g.sectorsPerCluster.toNat * 16 := by omega
  have count := Nat.mul_le_mul_right g.sectorsPerCluster.toNat (FatChain.length_le geo chain)
  rw [dirSlots_length, perCluster, ← Nat.mul_assoc]
  omega

/-- Dropping slots of a directory drops whole clusters first. -/
theorem dirSlots_drop (g : Fat32Fs) (l : List UInt32) {q : Nat} (bound : q ≤ l.length) (e : Nat) :
    (g.dirSlots l).drop (q * entriesPerCluster g + e) = (g.dirSlots (l.drop q)).drop e := by
  induction q generalizing l with
  | zero => rw [Nat.zero_mul, Nat.zero_add, List.drop_zero]
  | succ q ih =>
    cases l with
    | nil => cases bound
    | cons b rest =>
      have slotsEq : g.dirSlots (b :: rest) = g.slotsOf b ++ g.dirSlots rest := rfl
      rw [List.drop_succ_cons, ← ih rest (by simpa using bound), slotsEq, Nat.succ_mul,
        Nat.add_right_comm, Nat.add_comm, ← List.drop_drop,
        List.drop_left' (g.slotsOf_length b)]

/-- `fat32_readdir` scans the slots from number `*index` on. -/
theorem fat32Readdir_spec (index : UInt32) (info : Fat32FileInfo) (enough : 4294967296 ≤ fuel)
    (chain : FatChain g v a l) (inside : index.toNat ≤ (g.dirSlots l).length)
    (h : Stores g cwd v s) :
    ∃ s', fat32Readdir fuel s a index info = some (readdirReply v index info
        (v.scan atEnd notSkipped ((g.dirSlots l).drop index.toNat)), s') ∧
      Stores g cwd v s' := by
  have short := FatChain.length_lt h.geometry chain
  have positive := h.geometry.entries_pos
  have place := Nat.div_add_mod' index.toNat (entriesPerCluster g)
  have within := Nat.mod_lt index.toNat positive
  have row : index.toNat / entriesPerCluster g ≤ l.length := by
    rw [dirSlots_length] at inside
    exact (Nat.div_le_iff_le_mul_add_pred positive).mpr (by rw [Nat.mul_comm]; omega)
  obtain ⟨c, s₁, skip, stores₁, remaining⟩ :=
    fat32SkipClusters_remaining (Or.inr chain) row h
  obtain ⟨s', run, stores⟩ := fat32ReaddirLoop_spec index info
    (Nat.lt_of_le_of_lt (List.drop_sublist _ l).length_le (by omega : l.length < fuel)) remaining within stores₁
  refine ⟨s', ?_, stores⟩
  rw [fat32Readdir, h.field_entries, skip]
  simp only [run]
  rw [← dirSlots_drop g l row, place]

/-! ## The whole listing -/

theorem Volume.scan_live (live : (v.dirent σ).IsLive) (rest : List Slot) :
    v.scan atEnd notSkipped (σ :: rest) = .found σ := by
  have notEnd : atEnd (v.dirent σ) = false :=
    Bool.eq_false_iff.mpr fun isEnd => live.1 (atEnd_iff.mp isEnd)
  rw [Volume.scan, notEnd, notSkipped_iff.mpr live.2]
  rfl

/-- The dates of `info` stay those of the caller, the rest comes from the entry. -/
theorem readdirInfo_twice (entry entry' : Fat32Dirent) (info : Fat32FileInfo) :
    readdirInfo entry (readdirInfo entry' info) = readdirInfo entry info := rfl

/-- The rounds from a given index on. -/
theorem fat32ListDir_spec (enough : 4294967296 ≤ fuel) (chain : FatChain g v a l)
    (rounds : Nat) (index : UInt32) (info : Fat32FileInfo)
    (split : (g.dirSlots l).drop index.toNat = rest) (inside : index.toNat ≤ (g.dirSlots l).length)
    (room : rest.length < rounds) (h : Stores g cwd v s) :
    ∃ s', fat32ListDir fuel rounds s a index info =
        some ((v.yields rest).map fun σ => readdirInfo (v.dirent σ) info, s') ∧
      Stores g cwd v s' := by
  induction rest generalizing s rounds index info with
  | nil =>
    obtain ⟨rounds, rfl⟩ : ∃ k, rounds = k + 1 := ⟨rounds - 1, by omega⟩
    obtain ⟨s', run, stores⟩ := fat32Readdir_spec index info enough chain inside h
    refine ⟨s', ?_, stores⟩
    rw [fat32ListDir, run, split]
    rfl
  | cons σ rest ih =>
    obtain ⟨rounds, rfl⟩ : ∃ k, rounds = k + 1 := ⟨rounds - 1, by omega⟩
    obtain ⟨s₁, run, stores₁⟩ := fat32Readdir_spec index info enough chain inside h
    have more : index.toNat < (g.dirSlots l).length := by
      by_contra past
      rw [List.drop_of_length_le (by omega)] at split
      cases split
    -- a directory has fewer slots than the index has values
    have next : (index + 1).toNat = index.toNat + 1 := by
      have few := FatChain.slots_lt h.geometry chain
      have one : (1 : UInt32).toNat = 1 := rfl
      rw [UInt32.toNat_add, one]
      omega
    have split' : (g.dirSlots l).drop (index + 1).toNat = rest := by
      rw [next, ← List.drop_drop, split, List.drop_one, List.tail_cons]
    rw [split] at run
    rw [fat32ListDir, run, Volume.yields]
    cases result : v.scan atEnd notSkipped (σ :: rest) with
    | stopped => exact ⟨s₁, rfl, stores₁⟩
    | exhausted => exact ⟨s₁, rfl, stores₁⟩
    | found τ =>
      obtain ⟨s', later, stores⟩ := ih rounds (index + 1) (readdirInfo (v.dirent τ) info) split'
        (by omega) (by simpa using room) stores₁
      refine ⟨s', ?_, stores⟩
      simp only [readdirReply, Option.bind_eq_bind, Option.bind_some, if_true, later, List.map_cons,
        readdirInfo_twice]

/-! ## When the listing is exact -/

/-- A scan finds a live slot if there is one. -/
theorem Volume.scan_isFound (ends : v.EndMarked slots) (member : σ ∈ slots)
    (live : (v.dirent σ).IsLive) : ∃ τ, v.scan atEnd notSkipped slots = .found τ := by
  have accepted := notSkipped_iff.mpr live.2
  cases result : v.scan atEnd notSkipped slots with
  | found τ => exact ⟨τ, rfl⟩
  | exhausted =>
    rw [(Volume.scan_exhausted result σ member).2] at accepted
    cases accepted
  | stopped =>
    obtain ⟨p, mark, q, split, isEnd, before⟩ := Volume.scan_stopped result
    rw [split] at ends member
    rcases List.mem_append.mp member with inFront | inRest
    · rw [(before σ inFront).2] at accepted
      cases accepted
    · rcases List.mem_cons.mp inRest with rfl | behind
      · exact absurd (atEnd_iff.mp isEnd) live.1
      · have later := (List.pairwise_append.mp ends).2.1
        exact absurd ((List.pairwise_cons.mp later).1 σ behind (atEnd_iff.mp isEnd)) live.1

theorem Volume.yields_nobody (nobody : ∀ τ ∈ slots, ¬ (v.dirent τ).IsLive) : v.yields slots = [] := by
  cases slots with
  | nil => rfl
  | cons σ rest =>
    rw [Volume.yields]
    cases result : v.scan atEnd notSkipped (σ :: rest) with
    | stopped => rfl
    | exhausted => rfl
    | found τ =>
      obtain ⟨p, q, split, notEnd, taken, -⟩ := Volume.scan_found result
      exact absurd (live_iff.mpr ⟨notEnd, taken⟩) (nobody τ (by rw [split]; simp))

theorem Volume.liveSlots_nobody (nobody : ∀ τ ∈ slots, ¬ (v.dirent τ).IsLive) :
    v.liveSlots slots = [] :=
  List.filter_eq_nil_iff.mpr fun τ member => by simpa using nobody τ member

theorem Volume.yields_live (live : (v.dirent σ).IsLive) (rest : List Slot) :
    v.yields (σ :: rest) = σ :: v.yields rest := by
  rw [Volume.yields, Volume.scan_live live]

theorem Volume.liveSlots_live (live : (v.dirent σ).IsLive) (rest : List Slot) :
    v.liveSlots (σ :: rest) = σ :: v.liveSlots rest :=
  List.filter_cons_of_pos (by simpa using live)

theorem Volume.NoHoles.yields_eq (noHoles : v.NoHoles slots) : v.yields slots = v.liveSlots slots := by
  induction slots with
  | nil => rfl
  | cons σ rest ih =>
    obtain ⟨front, noHoles'⟩ := List.pairwise_cons.mp noHoles
    by_cases live : (v.dirent σ).IsLive
    · rw [Volume.yields_live live, Volume.liveSlots_live live, ih noHoles']
    · have nobody : ∀ τ ∈ σ :: rest, ¬ (v.dirent τ).IsLive := by
        intro τ member
        rcases List.mem_cons.mp member with rfl | later
        · exact live
        · exact fun liveτ => live (front τ later liveτ)
      rw [Volume.yields_nobody nobody, Volume.liveSlots_nobody nobody]

/-- The listing has at least one entry for every live slot, and more behind a hole. -/
theorem Volume.liveSlots_length (ends : v.EndMarked slots) :
    (v.liveSlots slots).length ≤ (v.yields slots).length ∧
      ((v.yields slots).length = (v.liveSlots slots).length → v.NoHoles slots) := by
  induction slots with
  | nil => exact ⟨Nat.le_refl _, fun _ => List.Pairwise.nil⟩
  | cons σ rest ih =>
    obtain ⟨fewer, exactly⟩ := ih (List.pairwise_cons.mp ends).2
    by_cases live : (v.dirent σ).IsLive
    · rw [Volume.yields_live live, Volume.liveSlots_live live, List.length_cons, List.length_cons]
      exact ⟨by omega, fun same => List.pairwise_cons.mpr ⟨fun _ _ _ => live, exactly (by omega)⟩⟩
    · have skip : v.liveSlots (σ :: rest) = v.liveSlots rest :=
        List.filter_cons_of_neg (by simpa using live)
      by_cases holes : ∃ ρ ∈ rest, (v.dirent ρ).IsLive
      · -- the round that starts at the hole returns an entry of its own
        obtain ⟨ρ, member, liveρ⟩ := holes
        obtain ⟨τ, found⟩ := Volume.scan_isFound ends (List.mem_cons_of_mem σ member) liveρ
        rw [Volume.yields, found, skip]
        simp only [List.length_cons]
        exact ⟨by omega, fun same => by omega⟩
      · have nobody : ∀ τ ∈ σ :: rest, ¬ (v.dirent τ).IsLive := by
          intro τ member
          rcases List.mem_cons.mp member with rfl | later
          · exact live
          · exact fun liveτ => holes ⟨τ, later, liveτ⟩
        rw [Volume.yields_nobody nobody, Volume.liveSlots_nobody nobody]
        refine ⟨Nat.le_refl _, fun _ => ?_⟩
        exact List.pairwise_of_forall_mem_list fun _ _ τ member liveτ =>
          absurd liveτ (nobody τ member)

/-- **A listing is exact if and only if no hole precedes a live slot.**  In a directory
with a deleted or long-name slot in front of a live one, the loop of `fat32_list_dir`
returns some entry more than once. -/
theorem listing_exact_iff (mounted : Mounted s) (enough : 4294967296 ≤ fuel)
    (chain : FatChain s.gFs s.volume a l) (ends : s.volume.EndMarked (s.gFs.dirSlots l))
    (info : Fat32FileInfo) :
    ∃ infos s', fat32ListDir fuel fuel s a 0 info = some (infos, s') ∧
      (infos = (s.volume.liveSlots (s.gFs.dirSlots l)).map
          (fun σ => readdirInfo (s.volume.dirent σ) info) ↔
        s.volume.NoHoles (s.gFs.dirSlots l)) := by
  have stores := Stores.of_geometry mounted.geometry mounted.drive
  have few := FatChain.slots_lt mounted.geometry chain
  obtain ⟨s', run, -⟩ := fat32ListDir_spec enough chain fuel 0 info rfl (Nat.zero_le _)
    (by simpa using Nat.lt_of_lt_of_le few enough) stores
  refine ⟨_, s', run, fun same => ?_, fun noHoles => ?_⟩
  · have lengths := congrArg List.length same
    simp only [List.length_map] at lengths
    exact (Volume.liveSlots_length ends).2 lengths
  · exact congrArg _ noHoles.yields_eq

/-- A `fat32_file_info_t` of zero bytes. -/
def Fat32FileInfo.zero : Fat32FileInfo := ⟨List.replicate 256 0, 0, 0, 0, 0, 0, 0, 0⟩

theorem listing_exact_two_files :
    ∃ infos s', fat32ListDir 4294967296 4294967296 (mountedOn smallFs (rootDrive [0x41, 0x42])) 2 0
        Fat32FileInfo.zero = some (infos, s') ∧ infos.length = 2 := by
  have noHoles : (mountedOn smallFs (rootDrive [0x41, 0x42])).volume.NoHoles
      ((mountedOn smallFs (rootDrive [0x41, 0x42])).gFs.dirSlots [2]) := by decide +kernel
  obtain ⟨infos, s', run, exactly⟩ := listing_exact_iff (a := 2) (l := [2])
    (s := mountedOn smallFs (rootDrive [0x41, 0x42])) ⟨smallFs_geometry, fun _ => rfl⟩
    (by decide : 4294967296 ≤ 4294967296) (.last (by decide) (by decide +kernel))
    (by decide +kernel) Fat32FileInfo.zero
  refine ⟨infos, s', run, ?_⟩
  rw [exactly.mpr noHoles, List.length_map]
  decide +kernel

/-- With the file `A` behind a deleted slot, `A` is listed twice. -/
theorem listing_repeats :
    ∃ s a l info infos s', Mounted s ∧ FatChain s.gFs s.volume a l ∧
      s.volume.EndMarked (s.gFs.dirSlots l) ∧ fat32ListDir 20 20 s a 0 info = some (infos, s') ∧
      infos ≠ (s.volume.liveSlots (s.gFs.dirSlots l)).map
        (fun σ => readdirInfo (s.volume.dirent σ) info) := by
  have listed : (fat32ListDir 20 20 (mountedOn smallFs (rootDrive [0xE5, 0x41])) 2 0
      Fat32FileInfo.zero).map (fun result => result.1.length) = some 2 := by decide +kernel
  have alive : ((mountedOn smallFs (rootDrive [0xE5, 0x41])).volume.liveSlots
      (smallFs.dirSlots [2])).length = 1 := by decide +kernel
  obtain ⟨⟨infos, s'⟩, run, two⟩ := Option.map_eq_some_iff.mp listed
  refine ⟨_, 2, [2], _, infos, s', ⟨smallFs_geometry, fun _ => rfl⟩,
    .last (by decide) (by decide +kernel), by decide +kernel, run, fun same => ?_⟩
  have lengths := congrArg List.length same
  rw [List.length_map, two] at lengths
  exact absurd (lengths.trans alive) (by decide)

end QuantumKernel.Fat32
