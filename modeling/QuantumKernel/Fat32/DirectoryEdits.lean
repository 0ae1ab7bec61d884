import QuantumKernel.Fat32.DirectorySpec

/-! # What creation, close and unlink do to a directory

Two kinds of change are enough.  `EditedSlot`: the entry of one slot is rewritten in
place, as `fat32_close` and `fat32_unlink` do.  `Inserted`: a new entry goes into a
reusable slot, or into a blank cluster appended to the directory.  Both keep the end
mark where it is, and both say for every name what a lookup finds afterwards.
-/

namespace QuantumKernel.Fat32

open ByteStore LinkedTable

/-- Only the 32 bytes of the slot `σ` changed, and they now hold `entry`. -/
structure EditedSlot (g : Fat32Fs) (v v' : Volume) (σ : Slot) (entry : Fat32Dirent) : Prop where
  fat : v'.fat = v.fat
  holds : v'.dirent σ = entry
  kept : ∀ m, ∀ τ ∈ g.dirSlots m, τ ≠ σ → v'.dirent τ = v.dirent τ
  bytes : ∀ c k, c ≠ σ.1 ∨ k < σ.2.toNat ∨ σ.2.toNat + 32 ≤ k → v'.data c k = v.data c k

/-- The directory `a`, with clusters `l`, got a new entry in the slot `σ`, and its
clusters are now `l'`. -/
structure Inserted (g : Fat32Fs) (v v' : Volume) (a : UInt32) (l l' : List UInt32) (σ : Slot)
    (entry : Fat32Dirent) : Prop where
  grown : Grown g v v' a l l'
  member : σ ∈ g.dirSlots l'
  holds : v'.dirent σ = entry
  kept : ∀ τ ∈ g.dirSlots l, τ ≠ σ → v'.dirent τ = v.dirent τ
  blank : ∀ τ ∈ g.dirSlots l', τ ∉ g.dirSlots l → τ ≠ σ → (v'.dirent τ).IsEnd
  vacant : σ ∈ g.dirSlots l → reusable (v.dirent σ) = true
  reached : ∃ p q, g.dirSlots l' = p ++ σ :: q ∧ σ ∉ p ∧ ∀ τ ∈ p, ¬ (v'.dirent τ).IsEnd
  ends : v.EndMarked (g.dirSlots l) → ¬ entry.IsEnd → v'.EndMarked (g.dirSlots l')

variable {g : Fat32Fs} {cwd : UInt32} {v v' w : Volume} {s : Fat32State} {a c n : UInt32}
  {l l' m : List UInt32} {slots : List Slot} {σ τ : Slot} {name : ShortName} {entry : Fat32Dirent}

/-! ## Rewriting one slot -/

theorem editedSlot_of_local (geo : Geometry g) {edit : Bytes → Bytes} (member : σ ∈ g.dirSlots l)
    (isLocal : LocalEdit edit σ.2.toNat (σ.2.toNat + 32)) :
    EditedSlot g v (v.editCluster σ.1 edit) σ (direntAt (edit (v.data σ.1)) σ.2.toNat) where
  fat := rfl
  holds := by
    rw [Volume.dirent_editCluster geo member isLocal member, if_pos rfl]
  kept := by
    intro m τ inOther ne
    rw [Volume.dirent_editCluster geo member isLocal inOther, if_neg ne]
  bytes := by
    intro c k outside
    by_cases same : c = σ.1
    · rw [same, Volume.editCluster, Volume.setData_data, Function.update_self]
      exact isLocal.outside _ k (outside.resolve_left (not_not.mpr same))
    · rw [Volume.editCluster_data_of_ne _ _ same]

/-- The volume after `fat32_close` of `file`. -/
def Volume.closeAt (v : Volume) (σ : Slot) (file : Fat32File) : Volume :=
  v.editCluster σ.1 fun b => closeEntry b σ.2.toNat file

/-- The volume after the entry in a slot was marked deleted. -/
def Volume.eraseAt (v : Volume) (σ : Slot) : Volume :=
  v.editCluster σ.1 fun b => fill b σ.2.toNat 0xE5 1

theorem closeAt_edited (geo : Geometry g) (member : σ ∈ g.dirSlots l) (file : Fat32File) :
    EditedSlot g v (v.closeAt σ file) σ (closedEntry (v.dirent σ) file) := by
  have edited := editedSlot_of_local (v := v) geo member (closeEntry_local σ.2.toNat file)
  rwa [direntAt_closeEntry] at edited

theorem eraseAt_edited (geo : Geometry g) (member : σ ∈ g.dirSlots l) :
    EditedSlot g v (v.eraseAt σ) σ (unlinkedEntry (v.dirent σ)) := by
  have edited := editedSlot_of_local (v := v) geo member (unlinkEntry_local σ.2.toNat)
  rwa [direntAt_unlinkEntry] at edited

theorem insertAt_edited (geo : Geometry g) (member : σ ∈ g.dirSlots l) (name : ShortName)
    (attr : UInt8) (first : UInt32) :
    EditedSlot g v (v.insertAt σ name attr first) σ (newEntry name attr first) := by
  have edited := editedSlot_of_local (v := v) geo member
    (fillEntry_local σ.2.toNat name attr first)
  rwa [direntAt_fillEntry] at edited

/-- Rewriting a slot changes no other cluster. -/
theorem EditedSlot.data_of_ne (edited : EditedSlot g v v' σ entry) (ne : c ≠ σ.1) :
    v'.data c = v.data c :=
  funext fun k => edited.bytes c k (Or.inl ne)

theorem EditedSlot.endMarked (edited : EditedSlot g v v' σ entry) (same : entry.IsEnd ↔ (v.dirent σ).IsEnd)
    (ends : v.EndMarked (g.dirSlots l)) : v'.EndMarked (g.dirSlots l) := by
  have agree : ∀ τ ∈ g.dirSlots l, (v'.dirent τ).IsEnd ↔ (v.dirent τ).IsEnd := by
    intro τ member
    by_cases here : τ = σ
    · rw [here, edited.holds, same]
    · rw [edited.kept l τ member here]
  refine List.Pairwise.imp_of_mem ?_ ends
  intro τ τ' member member' before isEnd
  exact (agree τ' member').mpr (before ((agree τ member).mp isEnd))

/-- The names of a directory after an entry was rewritten under its own name. -/
theorem EditedSlot.names_iff (edited : EditedSlot g v v' σ entry)
    (sameName : entry.name = (v.dirent σ).name) (sameLive : entry.IsLive ↔ (v.dirent σ).IsLive) :
    v'.Names (g.dirSlots l) name τ ↔ v.Names (g.dirSlots l) name τ := by
  refine and_congr_right fun member => ?_
  by_cases here : τ = σ
  · rw [here, edited.holds, sameName, sameLive]
  · rw [edited.kept l τ member here]

/-- The names of a directory after an entry was deleted. -/
theorem EditedSlot.names_erased (edited : EditedSlot g v v' σ entry) (gone : ¬ entry.IsLive) :
    v'.Names (g.dirSlots l) name τ ↔ v.Names (g.dirSlots l) name τ ∧ τ ≠ σ := by
  by_cases here : τ = σ
  · subst here
    refine ⟨fun names => absurd (edited.holds ▸ names.2.1) gone, fun names => absurd rfl names.2⟩
  · rw [and_iff_left here]
    refine and_congr_right fun member => ?_
    rw [edited.kept l τ member here]

/-! ## Inserting an entry -/

theorem inserted_at (geo : Geometry g) (chain : FatChain g v a l)
    (found : v.scan (fun _ => false) reusable (g.dirSlots l) = .found σ) (name : ShortName)
    (attr : UInt8) (first : UInt32) :
    Inserted g v (v.insertAt σ name attr first) a l l σ (newEntry name attr first) := by
  obtain ⟨p, q, split, -, vacant, before⟩ := Volume.scan_found found
  have member : σ ∈ g.dirSlots l := by rw [split]; simp
  have edited := insertAt_edited (v := v) geo member name attr first
  have distinct := geo.dirSlots_nodup (chain.nodup geo.excl)
  rw [split] at distinct
  have notLater : σ ∉ q := (List.nodup_cons.mp (List.nodup_append.mp distinct).2.1).1
  have notFront : ∀ τ ∈ p, τ ≠ σ := fun τ inFront =>
    (List.nodup_append.mp distinct).2.2 τ inFront σ (by simp)
  -- no slot in front of the vacant one is an end mark
  have frontLive : ∀ τ ∈ p, ¬ ((v.insertAt σ name attr first).dirent τ).IsEnd := by
    intro τ inFront isEnd
    rw [edited.kept l τ (by rw [split]; simp [inFront]) (notFront τ inFront)] at isEnd
    have taken := (before τ inFront).2
    rw [reusable_iff.mpr (Or.inl isEnd)] at taken
    cases taken
  refine ⟨Grown.setData chain (mem_dirSlots.mp member).1 _, member, edited.holds,
    fun τ inDir ne => edited.kept l τ inDir ne, fun τ inDir out => absurd inDir out,
    fun _ => vacant, ⟨p, q, split, fun inFront => notFront σ inFront rfl, frontLive⟩,
    fun ends notEnd => ?_⟩
  rw [split] at ends ⊢
  obtain ⟨front, rest, across⟩ := List.pairwise_append.mp ends
  refine List.pairwise_append.mpr ⟨?_, List.pairwise_cons.mpr ⟨?_, ?_⟩, ?_⟩
  · exact List.Pairwise.imp_of_mem (fun inFront _ _ isEnd => absurd isEnd (frontLive _ inFront)) front
  · intro τ _ isEnd
    rw [edited.holds] at isEnd
    exact absurd isEnd notEnd
  · refine List.Pairwise.imp_of_mem ?_ (List.pairwise_cons.mp rest).2
    intro τ τ' member member' carry isEnd
    have kept : ∀ x ∈ q, (v.insertAt σ name attr first).dirent x = v.dirent x := by
      intro x inRest
      exact edited.kept l x (by rw [split]; simp [inRest]) fun same => notLater (same ▸ inRest)
    rw [kept τ member] at isEnd
    rw [kept τ' member']
    exact carry isEnd
  · intro τ inFront _ _ isEnd
    exact absurd isEnd (frontLive τ inFront)

/-- Linking a blank cluster to the end of a directory. -/
theorem Grown.appendCluster (geo : Geometry g) (chain : FatChain g v a l) (inRange : g.InRange n)
    (free : v.fat n = fat32FreeCluster) :
    Grown g v (v.appendCluster (l.getLast chain.ne_nil) n) a l (l ++ [n]) := by
  have linked := Grown.append geo chain inRange free
  exact linked.trans (Grown.setData linked.chain (by simp) _)

theorem inserted_behind (geo : Geometry g) (chain : FatChain g v a l) (inRange : g.InRange n)
    (free : v.fat n = fat32FreeCluster)
    (full : ∀ τ ∈ g.dirSlots l, reusable (v.dirent τ) = false) (name : ShortName) (attr : UInt8)
    (first : UInt32) :
    Inserted g v ((v.appendCluster (l.getLast chain.ne_nil) n).insertAt (n, 0) name attr first) a l
      (l ++ [n]) (n, 0) (newEntry name attr first) := by
  have notIn : n ∉ l := fun member => FatChain.ne_free geo chain n member free
  have appended := Grown.appendCluster geo chain inRange free
  have slotsEq : g.dirSlots (l ++ [n]) = g.dirSlots l ++ g.slotsOf n := by
    rw [dirSlots_append, dirSlots_singleton]
  have head : g.slotsOf n = (n, 0) :: (g.slotsOf n).drop 1 := g.slotsOf_drop n geo.entries_pos
  have member : (n, (0 : UInt32)) ∈ g.dirSlots (l ++ [n]) := by
    rw [slotsEq, head]
    simp
  have edited := insertAt_edited (v := v.appendCluster (l.getLast chain.ne_nil) n) geo member name
    attr first
  have oldSlot : ∀ τ ∈ g.dirSlots l, τ.1 ≠ n := by
    rintro τ inDir rfl
    exact notIn (mem_dirSlots.mp inDir).1
  -- the slots of the old clusters are as they were
  have kept : ∀ τ ∈ g.dirSlots l,
      ((v.appendCluster (l.getLast chain.ne_nil) n).insertAt (n, 0) name attr first).dirent τ =
        v.dirent τ := by
    intro τ inDir
    rw [edited.kept l τ inDir fun same => oldSlot τ inDir (by rw [same])]
    rw [Volume.dirent, Volume.appendCluster, Volume.setData_data,
      Function.update_of_ne (oldSlot τ inDir)]
    rfl
  -- the other slots of the new cluster are end marks
  have blank : ∀ τ ∈ g.slotsOf n, τ ≠ (n, 0) →
      (((v.appendCluster (l.getLast chain.ne_nil) n).insertAt (n, 0) name attr first).dirent
        τ).IsEnd := by
    intro τ inNew ne
    have cluster := (mem_slotsOf.mp inNew).1
    rw [edited.kept (l ++ [n]) τ (by rw [slotsEq]; simp [inNew]) ne]
    refine direntAt_blank fun k => ?_
    rw [cluster, Volume.appendCluster, Volume.setData_data, Function.update_self]
  have oldLive : ∀ τ ∈ g.dirSlots l,
      ¬ (((v.appendCluster (l.getLast chain.ne_nil) n).insertAt (n, 0) name attr first).dirent
        τ).IsEnd := by
    intro τ inDir isEnd
    rw [kept τ inDir] at isEnd
    have taken := full τ inDir
    rw [reusable_iff.mpr (Or.inl isEnd)] at taken
    cases taken
  refine ⟨appended.trans (Grown.setData appended.chain (by simp) _), member, edited.holds,
    fun τ inDir _ => kept τ inDir, fun τ inDir out ne => ?_, fun old => ?_,
    ⟨g.dirSlots l, (g.slotsOf n).drop 1, by rw [slotsEq, ← head], fun old => oldSlot _ old rfl,
      oldLive⟩, fun _ notEnd => ?_⟩
  · rw [slotsEq] at inDir
    exact blank τ ((List.mem_append.mp inDir).resolve_left out) ne
  · exact absurd rfl (oldSlot _ old)
  · -- behind an end mark there are end marks only
    have distinct := geo.slotsOf_nodup n
    rw [slotsEq, head]
    rw [head] at distinct
    refine List.pairwise_append.mpr ⟨?_, List.pairwise_cons.mpr ⟨?_, ?_⟩, ?_⟩
    · exact List.pairwise_of_forall_mem_list fun τ inDir τ' _ isEnd => absurd isEnd (oldLive τ inDir)
    · intro τ _ isEnd
      rw [edited.holds] at isEnd
      exact absurd isEnd notEnd
    · refine List.pairwise_of_forall_mem_list fun τ _ τ' inRest _ => ?_
      refine blank τ' (List.mem_of_mem_drop inRest) ?_
      rintro rfl
      exact (List.nodup_cons.mp distinct).1 inRest
    · intro τ inDir _ _ isEnd
      exact absurd isEnd (oldLive τ inDir)

/-- `fat32_create_entry`: an entry is inserted, or the disk is full and nothing changed. -/
theorem fat32CreateEntry_spec (path : CString) (attr : UInt8) (first : UInt32) {fuel : Nat}
    (enough : l.length + 1 < fuel) (chain : FatChain g v a l) (h : Stores g cwd v s) :
    (∃ s', fat32CreateEntry fuel s a path attr first = some (-1, s') ∧ Stores g cwd v s' ∧ v.Full g) ∨
    ∃ s' v' l' σ, fat32CreateEntry fuel s a path attr first = some (0, s') ∧ Stores g cwd v' s' ∧
      Inserted g v v' a l l' σ (newEntry (fat32ToShortName path) attr first) := by
  have spec := fat32CreateLoop_spec (fat32ToShortName path) attr first enough chain h
  cases result : v.scan (fun _ => false) reusable (g.dirSlots l) with
  | found σ =>
    rw [result] at spec
    obtain ⟨s', run, stores⟩ := spec
    exact Or.inr ⟨s', _, l, σ, run, stores, inserted_at h.geometry chain result _ _ _⟩
  | stopped =>
    obtain ⟨_, _, _, _, impossible, _⟩ := Volume.scan_stopped result
    cases impossible
  | exhausted =>
    rw [result] at spec
    rcases spec with ⟨s', run, stores, full⟩ | ⟨n, s', inRange, free, run, stores⟩
    · exact Or.inl ⟨s', run, stores, full⟩
    · exact Or.inr ⟨s', _, l ++ [n], (n, 0), run, stores, inserted_behind h.geometry chain inRange
        free (fun τ inDir => (Volume.scan_exhausted result τ inDir).2) _ _ _⟩

/-! ## Names after an insertion -/

theorem Inserted.not_live_before (inserted : Inserted g v v' a l l' σ entry)
    (member : σ ∈ g.dirSlots l) : ¬ (v.dirent σ).IsLive := by
  intro live
  have vacant := inserted.vacant member
  rw [live.not_reusable] at vacant
  cases vacant

theorem Inserted.slots_subset (inserted : Inserted g v v' a l l' σ entry) :
    g.dirSlots l ⊆ g.dirSlots l' := by
  obtain ⟨t, rfl⟩ := inserted.grown.extends_
  rw [dirSlots_append]
  exact List.subset_append_left _ _

/-- The live entries afterwards: the new one and those from before. -/
theorem Inserted.names_iff (inserted : Inserted g v v' a l l' σ entry) :
    v'.Names (g.dirSlots l') name τ ↔
      (τ = σ ∧ entry.IsLive ∧ entry.name = name) ∨ v.Names (g.dirSlots l) name τ := by
  by_cases here : τ = σ
  · subst here
    constructor
    · rintro ⟨-, live, same⟩
      rw [inserted.holds] at live same
      exact Or.inl ⟨rfl, live, same⟩
    · rintro (⟨-, live, same⟩ | ⟨member, live, -⟩)
      · exact ⟨inserted.member, by rwa [inserted.holds], by rwa [inserted.holds]⟩
      · exact absurd live (inserted.not_live_before member)
  · constructor
    · rintro ⟨member, live, same⟩
      by_cases old : τ ∈ g.dirSlots l
      · rw [inserted.kept τ old here] at live same
        exact Or.inr ⟨old, live, same⟩
      · exact absurd (inserted.blank τ member old here) live.1
    · rintro (⟨same, -⟩ | ⟨member, live, same⟩)
      · exact absurd same here
      · rw [← inserted.kept τ member here] at live same
        exact ⟨inserted.slots_subset member, live, same⟩

/-- The new entry is found under its name, if that was absent. -/
theorem Inserted.lookup_new (inserted : Inserted g v v' a l l' σ entry) (live : entry.IsLive)
    (called : entry.name = name) (absent : ∀ τ, ¬ v.Names (g.dirSlots l) name τ) :
    v'.lookup (g.dirSlots l') name = some σ := by
  obtain ⟨p, q, split, notFront, frontLive⟩ := inserted.reached
  refine Volume.lookup_first split frontLive (fun τ inFront names => ?_)
    (inserted.names_iff.mpr (Or.inl ⟨rfl, live, called⟩))
  rcases inserted.names_iff.mp names with ⟨rfl, -⟩ | old
  · exact notFront inFront
  · exact absent τ old

/-- An entry that is not live is not found. -/
theorem Inserted.lookup_dead (inserted : Inserted g v v' a l l' σ entry) (dead : ¬ entry.IsLive)
    (absent : ∀ τ, ¬ v.Names (g.dirSlots l) name τ) : v'.lookup (g.dirSlots l') name = none := by
  cases result : v'.lookup (g.dirSlots l') name with
  | none => rfl
  | some τ =>
    rcases inserted.names_iff.mp (Volume.lookup_some result) with ⟨-, live, -⟩ | old
    · exact absurd live dead
    · exact absurd old (absent τ)

theorem Volume.UniqueNames.of_names (unique : v.UniqueNames slots) {slots' : List Slot}
    (fewer : ∀ name σ, v'.Names slots' name σ → v.Names slots name σ) : v'.UniqueNames slots' := by
  intro σ memberσ τ memberτ liveσ liveτ same
  obtain ⟨oldσ, oldLiveσ, nameσ⟩ := fewer _ σ ⟨memberσ, liveσ, rfl⟩
  obtain ⟨oldτ, oldLiveτ, nameτ⟩ := fewer _ τ ⟨memberτ, liveτ, rfl⟩
  exact unique σ oldσ τ oldτ oldLiveσ oldLiveτ (nameσ.trans (same.trans nameτ.symm))

/-- Names stay unique when the new name was absent. -/
theorem Inserted.uniqueNames (inserted : Inserted g v v' a l l' σ entry)
    (absent : entry.IsLive → ∀ τ, ¬ v.Names (g.dirSlots l) entry.name τ)
    (unique : v.UniqueNames (g.dirSlots l)) : v'.UniqueNames (g.dirSlots l') := by
  intro τ memberτ ρ memberρ liveτ liveρ same
  have namesτ := inserted.names_iff.mp ⟨memberτ, liveτ, rfl⟩
  have namesρ := inserted.names_iff.mp ⟨memberρ, liveρ, rfl⟩
  rcases namesτ with ⟨rfl, live, nameτ⟩ | oldτ
  · rcases namesρ with ⟨rfl, -⟩ | oldρ
    · rfl
    · refine absurd oldρ ?_
      rw [← same, ← nameτ]
      exact absent live ρ
  · rcases namesρ with ⟨rfl, live, nameρ⟩ | oldρ
    · refine absurd oldτ ?_
      rw [same, ← nameρ]
      exact absent live τ
    · exact unique τ oldτ.1 ρ oldρ.1 oldτ.2.1 oldρ.2.1
        (oldτ.2.2.trans (same.trans oldρ.2.2.symm))

end QuantumKernel.Fat32
