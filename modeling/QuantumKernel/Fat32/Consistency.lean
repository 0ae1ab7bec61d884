import QuantumKernel.Fat32.Refinement

/-! # The invariant is preserved

Each outcome of a call is a composition of a few elementary changes of the store: a
handle is added, an entry is inserted, rewritten or erased, a chain grows, or a chain
that nobody needs any more is released.  Each elementary change keeps the store
consistent, and so does each call of a careful caller.
-/

namespace QuantumKernel.Fat32

open ByteStore LinkedTable

variable {g : Fat32Fs} {cwd : UInt32} {A B : FileStore} {v' : Volume} {a c n : UInt32}
  {l l' m : List UInt32} {σ τ : Slot} {h k : Nat} {f : Fat32File} {entry : Fat32Dirent}

/-! ## Handles -/

/-- `f'` is open if `f` is, and then on the same file. -/
structure SameHandle (f f' : Fat32File) : Prop where
  isOpen : f'.isOpen = f.isOpen
  slot : f.isOpen = true → f'.slot = f.slot
  firstCluster : f.isOpen = true → f'.firstCluster = f.firstCluster
  flags : f.isOpen = true → f'.flags = f.flags
  attr : f.isOpen = true → f'.attr = f.attr

theorem SameHandle.refl (f : Fat32File) : SameHandle f f :=
  ⟨rfl, fun _ => rfl, fun _ => rfl, fun _ => rfl, fun _ => rfl⟩

theorem SameHandle.of_closed {f f' : Fat32File} (closed : f.isOpen = false)
    (closed' : f'.isOpen = false) : SameHandle f f' := by
  have no : f.isOpen ≠ true := by simp [closed]
  exact ⟨closed'.trans closed.symm, fun yes => absurd yes no, fun yes => absurd yes no,
    fun yes => absurd yes no, fun yes => absurd yes no⟩

theorem Fat32Dirent.live_congr {e e' : Fat32Dirent} (name : e'.name = e.name) (attr : e'.attr = e.attr) :
    e'.IsLive ↔ e.IsLive := by
  rw [Fat32Dirent.IsLive, Fat32Dirent.IsLive, name, attr]

/-- A handle stays in order when its entry keeps its name and attributes. -/
theorem FileStore.HandleOk.transport (ok : A.HandleOk g cwd k) (file : B.file k = A.file k)
    (opened : B.opened k = A.opened k) (member : (A.file k).slot ∈ B.slots g)
    (name : (B.dirent (A.file k).slot).name = (A.dirent (A.file k).slot).name)
    (attr : (B.dirent (A.file k).slot).attr = (A.dirent (A.file k).slot).attr)
    (owned : B.Owned cwd (A.file k).firstCluster (A.file k).slot) : B.HandleOk g cwd k := by
  refine ⟨?_, ?_, ?_, ?_, ?_⟩ <;> rw [file]
  · exact member
  · exact (Fat32Dirent.live_congr name attr).mpr ok.live
  · rw [name, opened, ok.name]
  · rw [attr, ok.attr]
  · exact owned

/-- Changes of positions, of cached clusters and of closed handles. -/
theorem FileStore.Consistent.sameHandles (consistent : A.Consistent g cwd) {file : Nat → Fat32File}
    {opened : Nat → ShortName} (same : ∀ k, SameHandle (A.file k) (file k))
    (names : ∀ k, (A.file k).isOpen = true → opened k = A.opened k) :
    ({ A with file := file, opened := opened } : FileStore).Consistent g cwd where
  geometry := consistent.geometry
  separate := consistent.separate
  directory := consistent.directory
  chain := consistent.chain
  ends := consistent.ends
  entries := by
    intro σ member live
    refine (consistent.entries σ member live).imp_left ?_
    rintro ⟨k, isOpen, slot, trunc⟩
    refine ⟨k, (same k).isOpen.trans isOpen, ((same k).slot isOpen).trans slot, ?_⟩
    rw [(same k).flags isOpen]
    exact trunc
  handles := by
    intro k isOpen
    have wasOpen := (same k).isOpen.symm.trans isOpen
    obtain ⟨member, live, name, attr, owned⟩ := consistent.handles k wasOpen
    have slot := (same k).slot wasOpen
    refine ⟨?_, ?_, ?_, ?_, ?_⟩
    · exact slot ▸ member
    · exact slot ▸ live
    · exact (slot ▸ name).trans (names k wasOpen).symm
    · exact ((same k).attr wasOpen).trans (slot ▸ attr)
    · have first := (same k).firstCluster wasOpen
      simp only [slot, first]
      exact owned
  exclusive := by
    intro h k openH openK slot trunc
    have wasH := (same h).isOpen.symm.trans openH
    have wasK := (same k).isOpen.symm.trans openK
    refine consistent.exclusive h k wasH wasK ?_ ?_
    · exact ((same h).slot wasH).symm.trans (slot.trans ((same k).slot wasK))
    · rw [← (same h).flags wasH]
      exact trunc

/-- A new handle on a live entry. -/
theorem FileStore.Consistent.addHandle (consistent : A.Consistent g cwd)
    (closed : (A.file h).isOpen = false) (member : f.slot ∈ A.slots g)
    (live : (A.dirent f.slot).IsLive) (attr : f.attr = (A.dirent f.slot).attr)
    (owned : A.Owned cwd f.firstCluster f.slot)
    (alone : ∀ k, (A.file k).isOpen = true → (A.file k).slot = f.slot →
      hasFlag f.flags fat32OTrunc = false ∧ hasFlag (A.file k).flags fat32OTrunc = false) :
    ({ A with
      file := Function.update A.file h f
      opened := Function.update A.opened h (A.dirent f.slot).name } : FileStore).Consistent g cwd := by
  have other {k : Nat} (isOpen : (A.file k).isOpen = true) : k ≠ h := by
    rintro rfl
    rw [closed] at isOpen
    cases isOpen
  refine ⟨consistent.geometry, consistent.separate, consistent.directory, consistent.chain,
    consistent.ends, fun σ member live => ?_, fun k isOpenK => ?_, fun j k openJ openK slot trunc => ?_⟩
  · refine (consistent.entries σ member live).imp_left ?_
    rintro ⟨k, isOpen, slot, trunc⟩
    refine ⟨k, ?_⟩
    simp only [FileStore.Truncating, Function.update_of_ne (other isOpen)]
    exact ⟨isOpen, slot, trunc⟩
  · by_cases same : k = h
    · subst same
      refine ⟨?_, ?_, ?_, ?_, ?_⟩ <;> simp only [Function.update_self]
      · exact member
      · exact live
      · rfl
      · exact attr
      · exact owned
    · simp only [Function.update_of_ne same] at isOpenK
      obtain ⟨memberK, liveK, nameK, attrK, ownedK⟩ := consistent.handles k isOpenK
      refine ⟨?_, ?_, ?_, ?_, ?_⟩ <;> simp only [Function.update_of_ne same]
      · exact memberK
      · exact liveK
      · exact nameK
      · exact attrK
      · exact ownedK
  · -- no second handle on a slot where one truncates: neither the new one nor an old one
    by_cases sameJ : j = h
    · by_cases sameK : k = h
      · rw [sameJ, sameK]
      · subst sameJ
        simp only [Function.update_self, Function.update_of_ne sameK] at openK slot trunc
        rw [(alone k openK slot.symm).1] at trunc
        cases trunc
    · by_cases sameK : k = h
      · subst sameK
        simp only [Function.update_self, Function.update_of_ne sameJ] at openJ slot trunc
        rw [(alone j openJ slot).2] at trunc
        cases trunc
      · simp only [Function.update_of_ne sameJ, Function.update_of_ne sameK] at openJ openK slot trunc
        exact consistent.exclusive j k openJ openK slot trunc

/-! ## Chains -/

/-- The entries of a directory depend on the contents of its clusters only. -/
theorem Volume.dirent_congr {v v' : Volume} (same : ∀ c ∈ l, v'.data c = v.data c) :
    ∀ σ ∈ g.dirSlots l, v'.dirent σ = v.dirent σ := by
  intro σ member
  rw [Volume.dirent, Volume.dirent, same σ.1 (mem_dirSlots.mp member).1]

/-- The chain of another head shares no cluster with the directory. -/
theorem FileStore.Consistent.apart (consistent : A.Consistent g cwd) (inHeads : c ∈ A.heads)
    (notCwd : c ≠ cwd) (chain : FatChain g A.volume c m) : A.directory.Disjoint m :=
  consistent.separate.2 cwd consistent.directory c inHeads (Ne.symm notCwd) _ _ consistent.chain chain

/-- The owner map matters for chains in use and slots of the directory only. -/
theorem FileStore.Consistent.own_congr (consistent : A.Consistent g cwd)
    (own : UInt32 → Option Slot) (dirs : Set UInt32)
    (agree : ∀ c ∈ A.heads, ∀ σ ∈ A.slots g, A.own c = some σ → own c = some σ) :
    ({ A with own := own, dirs := dirs } : FileStore).Consistent g cwd where
  geometry := consistent.geometry
  separate := consistent.separate
  directory := consistent.directory
  chain := consistent.chain
  ends := consistent.ends
  entries := by
    intro σ member live
    refine (consistent.entries σ member live).imp_right ?_
    rintro (zero | ⟨inHeads, notCwd, owner⟩)
    · exact Or.inl zero
    · exact Or.inr ⟨inHeads, notCwd, agree _ inHeads σ member owner⟩
  handles := by
    intro k isOpen
    obtain ⟨member, live, name, attr, owned⟩ := consistent.handles k isOpen
    refine ⟨member, live, name, attr, ?_⟩
    rcases owned with zero | ⟨inHeads, notCwd, owner⟩
    · exact Or.inl zero
    · exact Or.inr ⟨inHeads, notCwd, agree _ inHeads _ member owner⟩
  exclusive := consistent.exclusive

/-- Slots in clusters outside the directory may lose what they own. -/
theorem FileStore.Consistent.forget (consistent : A.Consistent g cwd) (apart : A.directory.Disjoint m)
    (dirs : Set UInt32) :
    ({ A with own := disown g A.own m, dirs := dirs } : FileStore).Consistent g cwd := by
  refine consistent.own_congr _ dirs fun c _ τ inDir owner => disown_eq_some.mpr ⟨owner, fun inM => ?_⟩
  exact apart (mem_dirSlots.mp inDir).1 (mem_dirSlots.mp inM).1

/-- A chain is released that no live entry and no handle needs: the entry of its owner is
deleted or about to be rewritten by a handle that truncated the file. -/
theorem FileStore.Consistent.release (consistent : A.Consistent g cwd) (inHeads : c ∈ A.heads)
    (notCwd : c ≠ cwd) (chain : FatChain g A.volume c m)
    (stale : ∀ σ, A.own c = some σ → (A.dirent σ).IsLive → ∃ h, A.Truncating σ h)
    (unused : ∀ k, (A.file k).isOpen = true → (A.file k).firstCluster ≠ c) :
    ({ A with volume := A.volume.freeAll m, heads := A.heads \ {c} } : FileStore).Consistent g
      cwd := by
  have apart := consistent.apart inHeads notCwd chain
  have keep : ∀ {x : UInt32} {σ : Slot}, A.Owned cwd x σ → x ≠ c →
      ({ A with volume := A.volume.freeAll m, heads := A.heads \ {c} } : FileStore).Owned cwd x σ := by
    rintro x σ (zero | ⟨inHeads, notCwd, owner⟩) ne
    · exact Or.inl zero
    · exact Or.inr ⟨⟨inHeads, ne⟩, notCwd, owner⟩
  refine ⟨consistent.geometry, ?_, ⟨consistent.directory, Ne.symm notCwd⟩, ?_, consistent.ends,
    fun σ member live => ?_, fun k isOpen => ?_, consistent.exclusive⟩
  · refine LinkedTable.Separate.remove consistent.separate inHeads consistent.geometry.excl chain ?_
    intro x out
    exact if_neg out
  · refine consistent.chain.congr fun x member => ?_
    exact if_neg fun inM => apart member inM
  · by_cases isOwner : A.own c = some σ
    · exact Or.inl (stale σ isOwner live)
    · refine (consistent.entries σ member live).imp_right fun owned => ?_
      by_cases same : (A.dirent σ).firstCluster = c
      · rcases owned with zero | ⟨-, -, owner⟩
        · exact Or.inl zero
        · rw [same] at owner
          exact absurd owner isOwner
      · exact keep owned same
  · obtain ⟨member, live, name, attr, owned⟩ := consistent.handles k isOpen
    exact ⟨member, live, name, attr, keep owned (unused k isOpen)⟩

/-- A free cluster starts no chain. -/
theorem FileStore.Consistent.fresh_not_head (consistent : A.Consistent g cwd)
    (free : A.volume.fat n = fat32FreeCluster) : n ∉ A.heads := by
  intro inHeads
  obtain ⟨l, chain⟩ := consistent.separate.1 n inHeads
  exact FatChain.ne_free consistent.geometry chain n chain.head_mem free

/-- The directory did not grow into the cluster that was taken for the new entry. -/
theorem FileStore.Consistent.fresh_outside (consistent : A.Consistent g cwd) (inRange : g.InRange n)
    (free : A.volume.fat n = fat32FreeCluster)
    (inserted : Inserted g (A.volume.setFat n fat32EocMax) v' cwd A.directory l' σ entry) :
    n ∉ l' := by
  have notIn := (fresh_directory consistent.geometry consistent.chain free).2
  exact List.singleton_disjoint.mp (inserted.grown.other_chain consistent.geometry
    (fresh_chain (v := A.volume) inRange) (List.singleton_disjoint.mpr notIn)).2.1

/-! ## Entries -/

/-- No handle uses the slot of a new entry. -/
theorem FileStore.Consistent.vacant_unused (consistent : A.Consistent g cwd)
    (inserted : Inserted g (A.volume.setFat n fat32EocMax) v' cwd A.directory l' σ entry) :
    ∀ k, (A.file k).isOpen = true → (A.file k).slot ≠ σ := by
  intro k isOpen same
  obtain ⟨member, live, -⟩ := consistent.handles k isOpen
  rw [same] at member live
  exact inserted.not_live_before member live

/-- A new entry with a cluster of its own. -/
theorem FileStore.Consistent.insertEntry (consistent : A.Consistent g cwd) (inRange : g.InRange n)
    (free : A.volume.fat n = fat32FreeCluster)
    (inserted : Inserted g (A.volume.setFat n fat32EocMax) v' cwd A.directory l' σ entry)
    (notEnd : ¬ entry.IsEnd) (first : entry.firstCluster = n) :
    ({ A with
      volume := v'
      directory := l'
      heads := insert n A.heads
      own := Function.update A.own n (some σ) } : FileStore).Consistent g cwd := by
  have geo := consistent.geometry
  have notHead := consistent.fresh_not_head free
  have notCwd : n ≠ cwd := fun same => notHead (same ▸ consistent.directory)
  obtain ⟨chain, -⟩ := fresh_directory geo consistent.chain free
  -- what was owned before is owned now
  have keep : ∀ {c : UInt32} {τ : Slot}, A.Owned cwd c τ →
      ({ A with
        volume := v'
        directory := l'
        heads := insert n A.heads
        own := Function.update A.own n (some σ) } : FileStore).Owned cwd c τ := by
    rintro c τ (zero | ⟨inHeads, other, owner⟩)
    · exact Or.inl zero
    · refine Or.inr ⟨Set.mem_insert_of_mem n inHeads, other, ?_⟩
      rw [← owner]
      refine Function.update_of_ne ?_ _ _
      rintro rfl
      exact notHead inHeads
  have unused := consistent.vacant_unused inserted
  refine ⟨geo, ?_, Set.mem_insert_of_mem n consistent.directory, inserted.grown.chain,
    inserted.ends consistent.ends notEnd, fun τ member live => ?_, fun k isOpen => ?_,
    consistent.exclusive⟩
  · -- the new cluster starts a chain, and the directory may have grown by another one
    have started := (Grown.start inRange free).separate geo consistent.separate (Or.inr rfl)
    have grown := inserted.grown.separate geo started
      (Or.inl ⟨Set.mem_insert_of_mem n consistent.directory, chain⟩)
    rwa [Set.insert_eq_of_mem (Set.mem_insert_of_mem n consistent.directory)] at grown
  · by_cases here : τ = σ
    · subst here
      refine Or.inr (Or.inr ?_)
      have holds : FileStore.dirent
          { A with
            volume := v'
            directory := l'
            heads := insert n A.heads
            own := Function.update A.own n (some τ) } τ = entry := inserted.holds
      rw [holds, first]
      exact ⟨Set.mem_insert n A.heads, notCwd, Function.update_self _ _ _⟩
    · by_cases old : τ ∈ A.slots g
      · have kept : v'.dirent τ = A.volume.dirent τ := inserted.kept τ old here
        simp only [FileStore.dirent, kept] at live ⊢
        exact (consistent.entries τ old live).imp_right keep
      · exact absurd (inserted.blank τ member old here) live.1
  · have ok := consistent.handles k isOpen
    have kept := inserted.kept _ ok.member (unused k isOpen)
    exact ok.transport rfl rfl (inserted.slots_subset ok.member) (congrArg Fat32Dirent.name kept)
      (congrArg Fat32Dirent.attr kept) (keep ok.owned)

/-- The contents of a cluster outside the directory do not matter. -/
theorem FileStore.Consistent.setData (consistent : A.Consistent g cwd) (out : c ∉ A.directory)
    (bytes : Bytes) :
    ({ A with volume := A.volume.setData c bytes } : FileStore).Consistent g cwd := by
  have same : ∀ σ ∈ A.slots g, (A.volume.setData c bytes).dirent σ = A.volume.dirent σ := by
    refine Volume.dirent_congr fun d member => ?_
    rw [Volume.setData_data, Function.update_of_ne]
    exact fun equal => out (equal ▸ member)
  refine ⟨consistent.geometry, consistent.separate, consistent.directory, consistent.chain, ?_,
    fun σ member live => ?_, fun k isOpen => ?_, consistent.exclusive⟩
  · refine List.Pairwise.imp_of_mem ?_ consistent.ends
    intro σ τ memberσ memberτ carry isEnd
    rw [same σ memberσ] at isEnd
    rw [same τ memberτ]
    exact carry isEnd
  · simp only [FileStore.dirent, same σ member] at live ⊢
    exact consistent.entries σ member live
  · have ok := consistent.handles k isOpen
    exact ok.transport rfl rfl ok.member (congrArg Fat32Dirent.name (same _ ok.member))
      (congrArg Fat32Dirent.attr (same _ ok.member)) ok.owned

/-- An entry that no handle uses is deleted. -/
theorem FileStore.Consistent.eraseEntry (consistent : A.Consistent g cwd) (member : σ ∈ A.slots g)
    (live : (A.dirent σ).IsLive) (unused : ∀ k, (A.file k).isOpen = true → (A.file k).slot ≠ σ) :
    ({ A with volume := A.volume.eraseAt σ } : FileStore).Consistent g cwd := by
  have edited : EditedSlot g A.volume (A.volume.eraseAt σ) σ (unlinkedEntry (A.dirent σ)) :=
    eraseAt_edited consistent.geometry member
  have dead := (unlinkedEntry_deleted (A.dirent σ)).not_live
  have notEnd : (unlinkedEntry (A.dirent σ)).IsEnd ↔ (A.volume.dirent σ).IsEnd := by
    refine ⟨fun isEnd => ?_, fun isEnd => absurd isEnd live.1⟩
    have deleted := unlinkedEntry_deleted (A.dirent σ)
    rw [Fat32Dirent.IsEnd] at isEnd
    rw [Fat32Dirent.IsDeleted, isEnd] at deleted
    exact absurd deleted (by decide)
  refine ⟨consistent.geometry, consistent.separate, consistent.directory, consistent.chain,
    edited.endMarked notEnd consistent.ends, fun τ memberτ liveτ => ?_, fun k isOpen => ?_,
    consistent.exclusive⟩
  · have other : τ ≠ σ := by
      rintro rfl
      simp only [FileStore.dirent, edited.holds] at liveτ
      exact dead liveτ
    simp only [FileStore.dirent, edited.kept _ τ memberτ other] at liveτ ⊢
    exact consistent.entries τ memberτ liveτ
  · have ok := consistent.handles k isOpen
    have kept := edited.kept _ _ ok.member (unused k isOpen)
    exact ok.transport rfl rfl ok.member (congrArg Fat32Dirent.name kept)
      (congrArg Fat32Dirent.attr kept) ok.owned

/-- A handle is closed: its view of the file goes into the entry. -/
theorem FileStore.Consistent.closeHandle (consistent : A.Consistent g cwd) (isOpen : (A.file h).isOpen = true) :
    ({ A with
      volume := A.volume.closeAt (A.file h).slot (A.file h)
      file := Function.update A.file h { A.file h with isOpen := false } } : FileStore).Consistent g
      cwd := by
  obtain ⟨member, live, name, attr, owned⟩ := consistent.handles h isOpen
  have edited : EditedSlot g A.volume (A.volume.closeAt (A.file h).slot (A.file h)) (A.file h).slot
      (closedEntry (A.dirent (A.file h).slot) (A.file h)) :=
    closeAt_edited consistent.geometry member (A.file h)
  -- an open handle after the call is another one
  have stays {k : Nat} (openK : (Function.update A.file h { A.file h with isOpen := false } k).isOpen =
      true) : k ≠ h := by
    rintro rfl
    rw [Function.update_self] at openK
    cases openK
  refine ⟨consistent.geometry, consistent.separate, consistent.directory, consistent.chain,
    edited.endMarked Iff.rfl consistent.ends, fun τ memberτ liveτ => ?_, fun k openK => ?_,
    fun j k openJ openK slot trunc => ?_⟩
  · by_cases here : τ = (A.file h).slot
    · subst here
      refine Or.inr ?_
      simp only [FileStore.dirent, edited.holds, closedEntry_firstCluster]
      exact owned
    · simp only [FileStore.dirent, edited.kept _ τ memberτ here] at liveτ ⊢
      refine (consistent.entries τ memberτ liveτ).imp_left ?_
      rintro ⟨k, openK, slotK, trunc⟩
      have other : k ≠ h := by
        rintro rfl
        exact here slotK.symm
      refine ⟨k, ?_⟩
      simp only [FileStore.Truncating, Function.update_of_ne other]
      exact ⟨openK, slotK, trunc⟩
  · have other := stays openK
    simp only [Function.update_of_ne other] at openK
    have ok := consistent.handles k openK
    -- the entry of another handle is as it was, or the closed handle shared it
    have entry : (A.volume.closeAt (A.file h).slot (A.file h)).dirent (A.file k).slot =
          A.volume.dirent (A.file k).slot ∨
        (A.volume.closeAt (A.file h).slot (A.file h)).dirent (A.file k).slot =
          closedEntry (A.volume.dirent (A.file k).slot) (A.file h) := by
      by_cases here : (A.file k).slot = (A.file h).slot
      · rw [here]
        exact Or.inr edited.holds
      · exact Or.inl (edited.kept _ _ ok.member here)
    refine ok.transport (Function.update_of_ne other _ _) rfl ok.member ?_ ?_ ok.owned
    · rcases entry with same | same <;> exact (congrArg Fat32Dirent.name same).trans rfl
    · rcases entry with same | same <;> exact (congrArg Fat32Dirent.attr same).trans rfl
  · have otherJ := stays openJ
    have otherK := stays openK
    simp only [Function.update_of_ne otherJ, Function.update_of_ne otherK] at openJ openK slot trunc
    exact consistent.exclusive j k openJ openK slot trunc

/-- A chain in use stays with its owner when another one, or its own again, is recorded. -/
theorem FileStore.Owned.recorded (owned : A.Owned cwd c τ) (heads : B.heads = insert a A.heads)
    (own : B.own = Function.update A.own a (some σ)) (origin : a ∉ A.heads ∨ A.own a = some σ) :
    B.Owned cwd c τ := by
  rcases owned with zero | ⟨inHeads, notCwd, owner⟩
  · exact Or.inl zero
  · refine Or.inr ⟨heads ▸ Set.mem_insert_of_mem a inHeads, notCwd, ?_⟩
    rw [own]
    by_cases same : c = a
    · subst same
      rw [Function.update_self, ← owner, origin.resolve_left (not_not.mpr inHeads)]
    · rw [Function.update_of_ne same, owner]

/-- The chain that a file is written to is new, or it is the file's own; no other chain in use shares a cluster
with it. -/
theorem FileStore.Consistent.written_chain (consistent : A.Consistent g cwd) (owned : A.Owned cwd c σ)
    (source : c = 0 ∧ l = [] ∨ c = a ∧ FatChain g A.volume a l) (grown : Grown g A.volume v' a l l') :
    (a ∉ A.heads ∧ l = [] ∨ a ∈ A.heads ∧ A.own a = some σ ∧ FatChain g A.volume a l) ∧ a ≠ cwd ∧
      ∀ d ∈ A.heads, d ≠ a → ∀ m, FatChain g A.volume d m → m.Disjoint l := by
  rcases source with ⟨-, rfl⟩ | ⟨rfl, chain⟩
  · have free := grown.fresh a grown.chain.head_mem List.not_mem_nil
    have notHead := consistent.fresh_not_head free
    refine ⟨Or.inl ⟨notHead, rfl⟩, ?_, fun _ _ _ m _ => List.disjoint_nil_right m⟩
    rintro rfl
    exact notHead consistent.directory
  · obtain ⟨inHeads, notCwd, owner⟩ := owned.resolve_left (chain.cell_of_mem _ chain.head_mem).ne_zero
    exact ⟨Or.inr ⟨inHeads, owner, chain⟩, notCwd, fun d inHeadsD ne m chainD =>
      consistent.separate.2 d inHeadsD c inHeads ne m l chainD chain⟩

/-- The chain of an open file grows, or the file gets its first chain. -/
theorem FileStore.Consistent.growChain (consistent : A.Consistent g cwd) (isOpen : (A.file h).isOpen = true)
    (source : (A.file h).firstCluster = 0 ∧ l = [] ∨
      (A.file h).firstCluster = a ∧ FatChain g A.volume a l)
    (grown : Grown g A.volume v' a l l') (stillOpen : f.isOpen = true) (slot : f.slot = (A.file h).slot)
    (flags : f.flags = (A.file h).flags) (attr : f.attr = (A.file h).attr)
    (first : f.firstCluster = a) :
    ({ A with
      volume := v'
      file := Function.update A.file h f
      heads := insert a A.heads
      own := Function.update A.own a (some (A.file h).slot) } : FileStore).Consistent g cwd := by
  have geo := consistent.geometry
  have okH := consistent.handles h isOpen
  obtain ⟨origin, notCwd, others⟩ := consistent.written_chain okH.owned source grown
  -- the chain of the file and that of the directory have no cluster in common
  have apart := others cwd consistent.directory (Ne.symm notCwd) _ consistent.chain
  have keep : ∀ {c : UInt32} {τ : Slot}, A.Owned cwd c τ →
      ({ A with
        volume := v'
        file := Function.update A.file h f
        heads := insert a A.heads
        own := Function.update A.own a (some (A.file h).slot) } : FileStore).Owned cwd c τ :=
    fun owned => owned.recorded rfl rfl (origin.imp And.left fun old => old.2.1)
  obtain ⟨chain, -, data⟩ := grown.other_chain geo consistent.chain apart
  have same := Volume.dirent_congr (g := g) data
  refine ⟨geo, ?_, Set.mem_insert_of_mem a consistent.directory, chain, ?_,
    fun σ member live => ?_, fun k openK => ?_, fun j k openJ openK slotJK trunc => ?_⟩
  · -- the chains of the heads stay apart
    refine grown.separate geo consistent.separate ?_
    rcases origin with ⟨-, rfl⟩ | ⟨inHeads, -, chainA⟩
    · exact Or.inr rfl
    · exact Or.inl ⟨inHeads, chainA⟩
  · -- behind an end mark there are end marks only
    refine List.Pairwise.imp_of_mem ?_ consistent.ends
    intro σ τ memberσ memberτ carry isEnd
    rw [same σ memberσ] at isEnd
    rw [same τ memberτ]
    exact carry isEnd
  · -- an entry is owned, or about to be replaced, as it was before
    simp only [FileStore.dirent, same σ member] at live ⊢
    refine (consistent.entries σ member live).imp ?_ keep
    rintro ⟨k, openK, slotK, trunc⟩
    refine ⟨k, ?_⟩
    by_cases here : k = h
    · subst here
      simp only [FileStore.Truncating, Function.update_self, slot, flags]
      exact ⟨stillOpen, slotK, trunc⟩
    · simp only [FileStore.Truncating, Function.update_of_ne here]
      exact ⟨openK, slotK, trunc⟩
  · by_cases here : k = h
    · subst here
      -- the handle that wrote has a new first cluster, the other handles are as they were
      have kept := same _ okH.member
      refine ⟨?_, ?_, ?_, ?_, ?_⟩ <;>
        simp only [FileStore.dirent, FileStore.slots, Function.update_self, slot, attr, first, kept]
      · exact okH.member
      · exact okH.live
      · exact okH.name
      · exact okH.attr
      · exact Or.inr ⟨Set.mem_insert a _, notCwd, Function.update_self _ _ _⟩
    · simp only [Function.update_of_ne here] at openK
      have ok := consistent.handles k openK
      exact ok.transport (Function.update_of_ne here _ _) rfl ok.member
        (congrArg Fat32Dirent.name (same _ ok.member)) (congrArg Fat32Dirent.attr (same _ ok.member))
        (keep ok.owned)
  · -- slots and flags are the same, so a truncating handle is still alone
    have sameSlot : ∀ i, (Function.update A.file h f i).slot = (A.file i).slot := by
      intro i
      by_cases here : i = h
      · subst here
        rw [Function.update_self, slot]
      · rw [Function.update_of_ne here]
    have wasOpen : ∀ i, (Function.update A.file h f i).isOpen = true → (A.file i).isOpen = true := by
      intro i openI
      by_cases here : i = h
      · exact here ▸ isOpen
      · rwa [Function.update_of_ne here] at openI
    have sameFlags : (Function.update A.file h f j).flags = (A.file j).flags := by
      by_cases here : j = h
      · subst here
        rw [Function.update_self, flags]
      · rw [Function.update_of_ne here]
    simp only [sameSlot, sameFlags] at slotJK trunc
    exact consistent.exclusive j k (wasOpen j openJ) (wasOpen k openK) slotJK trunc

/-! ## One call -/

theorem fat32Seek_same (f : Fat32File) (offset : Int32) (whence : UInt8) :
    SameHandle f (fat32Seek f offset whence).2 := by
  rw [fat32Seek]
  split
  · exact SameHandle.refl f
  · split
    · exact ⟨rfl, fun _ => rfl, fun _ => rfl, fun _ => rfl, fun _ => rfl⟩
    · split
      · exact ⟨rfl, fun _ => rfl, fun _ => rfl, fun _ => rfl, fun _ => rfl⟩
      · split
        · exact ⟨rfl, fun _ => rfl, fun _ => rfl, fun _ => rfl, fun _ => rfl⟩
        · exact SameHandle.refl f

/-- Replacing one handle by the same handle. -/
theorem SameHandle.update (file : Nat → Fat32File) (same : SameHandle (file h) f) :
    ∀ k, SameHandle (file k) (Function.update file h f k) := by
  intro k
  by_cases here : k = h
  · subst here
    rw [Function.update_self]
    exact same
  · rw [Function.update_of_ne here]
    exact SameHandle.refl _

variable {path : CString} {flags : UInt8} {call : FsCall} {r : Int32}

/-- A failed `fat32_open` leaves a closed handle. -/
theorem FileStore.Consistent.openFails (consistent : A.Consistent g cwd)
    (closed : (A.file h).isOpen = false) (name : ShortName) :
    ({ A with
      file := Function.update A.file h Fat32File.zero
      opened := Function.update A.opened h name } : FileStore).Consistent g cwd := by
  refine consistent.sameHandles (SameHandle.update A.file (SameHandle.of_closed closed rfl))
    fun k isOpen => Function.update_of_ne ?_ _ _
  rintro rfl
  rw [closed] at isOpen
  cases isOpen

/-- A handle on the entry a lookup found. -/
theorem FileStore.Consistent.openFound (consistent : A.Consistent g cwd)
    (careful : Disciplined A.file A.opened (.open h (some path) flags))
    (found : A.lookup g path = some σ) (slot : f.slot = σ) (sameFlags : f.flags = flags)
    (attr : f.attr = (A.dirent σ).attr) (owned : A.Owned cwd f.firstCluster σ) :
    ({ A with
      file := Function.update A.file h f
      opened := Function.update A.opened h (fat32ToShortName path) } : FileStore).Consistent g
      cwd := by
  obtain ⟨member, live, name⟩ := FileStore.lookup_names found
  have added := consistent.addHandle (f := f) careful.1 (slot ▸ member) (slot ▸ live) (slot ▸ attr)
    (slot ▸ owned) (fun k openK slotK => by
      rw [sameFlags]
      exact careful.2 k (consistent.openUnder found openK (slotK.trans slot)))
  have named : (A.dirent f.slot).name = fat32ToShortName path := slot ▸ name
  rw [named] at added
  exact added

theorem FileStore.Consistent.openTruncates (consistent : A.Consistent g cwd)
    (careful : Disciplined A.file A.opened (.open h (some path) flags))
    (found : A.lookup g path = some σ) (trunc : hasFlag flags fat32OTrunc = true)
    (chain : FatChain g A.volume (A.dirent σ).firstCluster m) :
    ({ A with
      volume := A.volume.freeAll m
      file := Function.update A.file h (truncatedHandle (A.dirent σ) σ flags)
      opened := Function.update A.opened h (fat32ToShortName path)
      heads := A.heads \ {(A.dirent σ).firstCluster}
      own := disown g A.own m
      dirs := A.dirs \ {(A.dirent σ).firstCluster} } : FileStore).Consistent g cwd := by
  have owned := consistent.owned_of_lookup found fun k under => (careful.2 k under).2
  have nonzero := (chain.cell_of_mem _ chain.head_mem).ne_zero
  obtain ⟨inHeads, notCwd, owner⟩ := owned.resolve_left nonzero
  have opened := consistent.openFound (f := truncatedHandle (A.dirent σ) σ flags) careful found rfl
    rfl rfl (Or.inl rfl)
  have released := opened.release inHeads notCwd chain ?_ ?_
  · exact released.forget (consistent.apart inHeads notCwd chain) _
  · intro τ ownerτ _
    obtain rfl : σ = τ := Option.some.inj (owner.symm.trans ownerτ)
    refine ⟨h, ?_⟩
    simp only [FileStore.Truncating, Function.update_self]
    exact ⟨rfl, rfl, trunc⟩
  · intro k openK first
    by_cases here : k = h
    · subst here
      simp only [Function.update_self, truncatedHandle_firstCluster] at first
      exact nonzero first.symm
    · simp only [Function.update_of_ne here] at openK first
      -- a second handle on the same file is excluded by the discipline
      rcases (consistent.handles k openK).owned with zero | ⟨-, -, ownerK⟩
      · exact nonzero (first.symm.trans zero)
      · rw [first, owner] at ownerK
        have under := consistent.openUnder found openK (Option.some.inj ownerK).symm
        rw [(careful.2 k under).1] at trunc
        cases trunc

theorem FileStore.Consistent.openCreates (consistent : A.Consistent g cwd)
    (careful : Disciplined A.file A.opened (.open h (some path) flags)) (inRange : g.InRange n)
    (free : A.volume.fat n = fat32FreeCluster)
    (inserted : Inserted g (A.volume.setFat n fat32EocMax) v' cwd A.directory l' σ
      (newEntry (fat32ToShortName path) fat32AttrArchive n))
    (notDead : fat32ToShortName path 0 ≠ 0xE5) :
    ({ A with
      volume := v'
      directory := l'
      file := Function.update A.file h
        (handleFor (newEntry (fat32ToShortName path) fat32AttrArchive n) σ flags)
      opened := Function.update A.opened h (fat32ToShortName path)
      heads := insert n A.heads
      own := Function.update A.own n (some σ) } : FileStore).Consistent g cwd := by
  have grown := consistent.insertEntry inRange free inserted (newEntry_not_end _ _ _)
    (newEntry_firstCluster _ _ _)
  have holds := inserted.holds
  have notCwd : n ≠ cwd := by
    rintro rfl
    exact consistent.fresh_not_head free consistent.directory
  have live := (newEntry_live_iff path fat32AttrArchive (by decide) n).mpr notDead
  have added := grown.addHandle (h := h)
    (f := handleFor (newEntry (fat32ToShortName path) fat32AttrArchive n) σ flags) careful.1
    inserted.member ?_ ?_ ?_ ?_
  · simp only [handleFor_slot, FileStore.dirent, holds] at added
    exact added
  · simp only [handleFor_slot, FileStore.dirent, holds]
    exact live
  · simp only [handleFor_slot, handleFor_attr, FileStore.dirent, holds]
  · refine Or.inr ?_
    simp only [handleFor_slot, handleFor_firstCluster, newEntry_firstCluster]
    exact ⟨Set.mem_insert n _, notCwd, Function.update_self _ _ _⟩
  · intro k openK slotK
    exact absurd slotK (consistent.vacant_unused inserted k openK)

theorem FileStore.Consistent.openLosesEntry (consistent : A.Consistent g cwd)
    (careful : Disciplined A.file A.opened (.open h (some path) flags)) (inRange : g.InRange n)
    (free : A.volume.fat n = fat32FreeCluster)
    (inserted : Inserted g (A.volume.setFat n fat32EocMax) v' cwd A.directory l' σ
      (newEntry (fat32ToShortName path) fat32AttrArchive n))
    (dead : fat32ToShortName path 0 = 0xE5) :
    ({ A with
      volume := v'.freeAll [n]
      directory := l'
      file := Function.update A.file h Fat32File.zero
      opened := Function.update A.opened h (fat32ToShortName path) } : FileStore).Consistent g
      cwd := by
  have geo := consistent.geometry
  have notHead := consistent.fresh_not_head free
  have notCwd : n ≠ cwd := fun same => notHead (same ▸ consistent.directory)
  obtain ⟨chain, notIn⟩ := fresh_directory geo consistent.chain free
  have grown := consistent.insertEntry inRange free inserted (newEntry_not_end _ _ _)
    (newEntry_firstCluster _ _ _)
  have own : FatChain g v' n [n] :=
    (inserted.grown.other_chain geo (fresh_chain (v := A.volume) inRange)
      (List.singleton_disjoint.mpr notIn)).1
  -- the entry is made and cannot be found, so its cluster is freed again
  have released := grown.release (Set.mem_insert n A.heads) notCwd own ?_ ?_
  · have restored := released.own_congr A.own A.dirs (fun c inHeads τ _ owner => by
      rw [← owner]
      exact (Function.update_of_ne inHeads.2 _ _).symm)
    have heads : insert n A.heads \ {n} = A.heads := Set.insert_sdiff_self_of_notMem notHead
    simp only [heads] at restored
    exact restored.openFails careful.1 _
  · intro τ owner live
    simp only [Function.update_self] at owner
    obtain rfl := Option.some.inj owner
    simp only [FileStore.dirent, inserted.holds] at live
    exact absurd dead live.2.1
  · intro k openK first
    rcases (consistent.handles k openK).owned with zero | ⟨inHeads, -⟩
    · exact inRange.ne_zero (first.symm.trans zero)
    · exact notHead (first ▸ inHeads)

theorem FileStore.Consistent.unlinked (consistent : A.Consistent g cwd)
    (unused : ∀ k, ¬ OpenUnder A.file A.opened (fat32ToShortName path) k)
    (found : A.lookup g path = some σ) (chain : FatChain g A.volume (A.dirent σ).firstCluster m) :
    ({ A with
      volume := (A.volume.freeAll m).eraseAt σ
      heads := A.heads \ {(A.dirent σ).firstCluster}
      own := disown g A.own m
      dirs := A.dirs \ {(A.dirent σ).firstCluster} } : FileStore).Consistent g cwd := by
  obtain ⟨member, live, -⟩ := FileStore.lookup_names found
  have owned := consistent.owned_of_lookup found fun k under => absurd under (unused k)
  have nonzero := (chain.cell_of_mem _ chain.head_mem).ne_zero
  obtain ⟨inHeads, notCwd, owner⟩ := owned.resolve_left nonzero
  have apart := consistent.apart inHeads notCwd chain
  have notOpen : ∀ k, (A.file k).isOpen = true → (A.file k).slot ≠ σ :=
    fun k openK slotK => unused k (consistent.openUnder found openK slotK)
  have erased := consistent.eraseEntry member live notOpen
  have edited := eraseAt_edited (v := A.volume) consistent.geometry member
  have released := erased.release inHeads notCwd chain ?_ ?_
  · exact released.forget apart _
  · intro τ ownerτ liveτ
    obtain rfl : σ = τ := Option.some.inj (owner.symm.trans ownerτ)
    simp only [FileStore.dirent, edited.holds] at liveτ
    exact absurd liveτ (unlinkedEntry_deleted _).not_live
  · intro k openK first
    rcases (consistent.handles k openK).owned with zero | ⟨-, -, ownerK⟩
    · exact nonzero (first.symm.trans zero)
    · have sameFirst : (A.file k).firstCluster = (A.dirent σ).firstCluster := first
      rw [sameFirst, owner] at ownerK
      exact notOpen k openK (Option.some.inj ownerK).symm

theorem FileStore.Consistent.mkdirMakes (consistent : A.Consistent g cwd) (inRange : g.InRange n)
    (free : A.volume.fat n = fat32FreeCluster)
    (inserted : Inserted g (A.volume.setFat n fat32EocMax) v' cwd A.directory l' σ
      (newEntry (fat32ToShortName path) fat32AttrDirectory n)) :
    ({ A with
      volume := v'.setData n fun _ => 0
      directory := l'
      heads := insert n A.heads
      own := Function.update A.own n (some σ)
      dirs := insert n A.dirs } : FileStore).Consistent g cwd :=
  ((consistent.insertEntry inRange free inserted (newEntry_not_end _ _ _)
    (newEntry_firstCluster _ _ _)).setData (consistent.fresh_outside inRange free inserted)
    _).own_congr _ _ fun _ _ _ _ owner => owner

/-- **Every call of a careful caller keeps the store consistent.** -/
theorem FileStore.Next.consistent (consistent : A.Consistent g cwd)
    (careful : Disciplined A.file A.opened call) (next : A.Next g cwd call r B) :
    B.Consistent g cwd := by
  cases next with
  | openNull h flags => exact consistent
  | openFails h path flags absent => exact consistent.openFails careful.1 _
  | openFound h path flags σ found keeps =>
    exact consistent.openFound careful found rfl rfl rfl
      (consistent.owned_of_lookup found fun k under => (careful.2 k under).2)
  | openTruncates h path flags σ m found trunc chain =>
    exact consistent.openTruncates careful found trunc chain
  | openCreates h path flags n v' l' σ absent creat inRange free inserted notDead =>
    exact consistent.openCreates careful inRange free inserted notDead
  | openLosesEntry h path flags n v' l' σ absent inRange free inserted dead =>
    exact consistent.openLosesEntry careful inRange free inserted dead
  | read h buffer size status current position =>
    exact consistent.sameHandles
      (SameHandle.update A.file ⟨rfl, fun _ => rfl, fun _ => rfl, fun _ => rfl, fun _ => rfl⟩)
      fun _ _ => rfl
  | writeFails h data size => exact consistent
  | wrote h data size a n l l' v' file' isOpen source inRange few first advanced wrote =>
    refine consistent.growChain isOpen source wrote.grown ?_ ?_ ?_ ?_ first <;> rw [advanced.rest]
    · exact isOpen
    · rfl
  | seek h offset whence =>
    exact consistent.sameHandles (SameHandle.update A.file (fat32Seek_same _ _ _)) fun _ _ => rfl
  | closeFails h closed => exact consistent
  | closed h isOpen member => exact consistent.closeHandle isOpen
  | unlinkFails path absent => exact consistent
  | unlinkedEmpty path σ found empty =>
    obtain ⟨member, live, -⟩ := FileStore.lookup_names found
    exact consistent.eraseEntry member live fun k openK slotK =>
      careful k (consistent.openUnder found openK slotK)
  | unlinked path σ m found chain => exact consistent.unlinked careful found chain
  | mkdirFails path => exact consistent
  | mkdirMakes path n v' l' σ inRange free inserted =>
    exact consistent.mkdirMakes inRange free inserted

end QuantumKernel.Fat32
