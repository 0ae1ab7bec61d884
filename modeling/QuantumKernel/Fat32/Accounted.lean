import QuantumKernel.Fat32.TreeSteps

/-! # Every allocated cluster is accounted for

`Volume.NoLeaks` says that every allocated cluster belongs to the root directory or to an entry
of the tree.  While handles are open that need not be so: the first cluster of a file that was
empty is recorded in its entry only when the handle is closed.  `FileStore.Accounted` is the
invariant: every allocated cluster is on a chain in use, and a chain in use belongs to a slot
whose handles, or whose entry when there are none, start with it.
-/

namespace QuantumKernel.Fat32

open ByteStore LinkedTable BlockStore

/-- The cluster belongs to the root directory or to an entry of the tree. -/
def Volume.Reachable (g : Fat32Fs) (v : Volume) (c : UInt32) : Prop :=
  v.Walk g g.rootDirFirstCluster c ∨ ∃ σ, v.IsEntry g Set.univ σ ∧ v.Walk g (v.dirent σ).firstCluster c

/-- No allocated cluster is lost. -/
def Volume.NoLeaks (g : Fat32Fs) (v : Volume) : Prop :=
  ∀ c, g.InRange c → v.fat c ≠ fat32FreeCluster → v.Reachable g c

/-- The slot holds no directory with an entry that has clusters. -/
def Volume.Hollow (g : Fat32Fs) (v : Volume) (σ : Slot) : Prop :=
  IsDirectoryAttr (v.dirent σ).attr → ∀ m, FatChain g v (v.dirent σ).firstCluster m →
    ∀ τ ∈ g.dirSlots m, (v.dirent τ).IsLive → (v.dirent τ).firstCluster = 0

/-- A call that loses no cluster: what it truncates or unlinks holds no files, a file that is
open is opened again only if its entry records a cluster, nothing is written through a handle on
a directory, and a new directory does not get the name of a deleted entry. -/
def FileStore.Tracks (g : Fat32Fs) (A : FileStore) : FsCall → Prop
  | .open _ (some path) flags => ∀ σ, A.lookup g path = some σ →
      (hasFlag flags fat32OTrunc = true → A.volume.Hollow g σ) ∧
        ∀ k, OpenUnder A.file A.opened (fat32ToShortName path) k → (A.dirent σ).firstCluster ≠ 0
  | .write h _ _ => (A.file h).isOpen = true → ¬ IsDirectoryAttr (A.file h).attr
  | .unlink path => ∀ σ, A.lookup g path = some σ → A.volume.Hollow g σ
  | .mkdir path => fat32ToShortName path 0 ≠ 0xE5
  | _ => True

/-- The slots whose entries are up to date. -/
def FileStore.settled (A : FileStore) : Set Slot := {σ | ∀ h, ¬ A.Truncating σ h}

/-- The slot belongs to a directory that is looked after. -/
def FileStore.Listed (g : Fat32Fs) (A : FileStore) (σ : Slot) : Prop :=
  σ ∈ A.slots g ∨ ∃ d ∈ A.dirs, ∃ l, FatChain g A.volume d l ∧ σ ∈ g.dirSlots l

/-- The file in the slot starts with `c`: all of its open handles say so, or its entry does. -/
structure FileStore.Records (g : Fat32Fs) (A : FileStore) (σ : Slot) (c : UInt32) : Prop where
  listed : A.Listed g σ
  live : (A.dirent σ).IsLive
  handles : ∀ h, (A.file h).isOpen = true → (A.file h).slot = σ → (A.file h).firstCluster = c
  entry : (∀ h, (A.file h).isOpen = true → (A.file h).slot ≠ σ) → (A.dirent σ).firstCluster = c

structure FileStore.Accounted (g : Fat32Fs) (cwd : UInt32) (A : FileStore) : Prop where
  covered : A.volume.Covered g A.heads
  current : A.volume.InTree g A.settled cwd
  dirs : ∀ d ∈ A.dirs, A.volume.InTree g A.settled d
  heads : ∀ c ∈ A.heads, c = cwd ∨ c = g.rootDirFirstCluster ∨ ∃ σ, A.own c = some σ ∧ A.Records g σ c
  recorded : ∀ h, (A.file h).isOpen = true → hasFlag (A.file h).flags fat32OTrunc = false →
    (A.dirent (A.file h).slot).firstCluster = 0 ∨
      (A.file h).firstCluster = (A.dirent (A.file h).slot).firstCluster
  shared : ∀ h k, (A.file h).isOpen = true → (A.file k).isOpen = true →
    (A.file h).slot = (A.file k).slot → h ≠ k →
      (A.file h).firstCluster = (A.file k).firstCluster ∧ (A.file h).firstCluster ≠ 0

variable {g : Fat32Fs} {cwd : UInt32} {v v' : Volume} {A B : FileStore} {call : FsCall} {r : Int32}
  {a c d n x : UInt32} {l l' m : List UInt32} {σ τ : Slot} {h k : Nat} {path : CString}

theorem FileStore.Tracks.spares (tracks : A.Tracks g call) : A.SparesDirectories call := by
  cases call with
  | write => exact tracks
  | «open» | read | seek | close | unlink | mkdir => trivial

/-! ## What the invariant says -/

/-- When nothing is open, no cluster is lost. -/
theorem FileStore.Accounted.noLeaks (accounted : A.Accounted g cwd) (tree : A.Tree g cwd)
    (consistent : A.Consistent g cwd) (closed : ∀ h, (A.file h).isOpen = false) : A.volume.NoLeaks g := by
  have everything {d : UInt32} (inTree : A.volume.InTree g A.settled d) : A.volume.InTree g Set.univ d := by
    induction inTree with
    | root => exact .root
    | sub _ chain member live _ directory nonzero ih =>
      exact .sub ih chain member live (Set.mem_univ _) directory nonzero
  intro x inRange used
  obtain ⟨c, inHeads, m, chain, member⟩ := accounted.covered x inRange used
  have walk := FatChain.walk chain x member
  rcases accounted.heads c inHeads with rfl | rfl | ⟨σ, -, records⟩
  · rcases (everything accounted.current).dir_cases with rfl | ⟨σ, entry, -, rfl, -⟩
    · exact Or.inl walk
    · exact Or.inr ⟨σ, entry, walk⟩
  · exact Or.inl walk
  · have first := records.entry fun h isOpen => by
      rw [closed h] at isOpen
      cases isOpen
    refine Or.inr ⟨σ, ⟨records.live, Set.mem_univ σ, ?_⟩, first ▸ walk⟩
    rcases records.listed with here | ⟨d, inDirs, l, chainD, memberD⟩
    · exact ⟨cwd, A.directory, everything accounted.current, consistent.chain, here⟩
    · exact ⟨d, l, everything (accounted.dirs d inDirs), chainD, memberD⟩

/-- A handle is on a slot of the current directory. -/
theorem FileStore.Tree.handle_elsewhere (tree : A.Tree g cwd) (consistent : A.Consistent g cwd)
    (inDirs : d ∈ A.dirs) (chain : FatChain g A.volume d l) (member : σ ∈ g.dirSlots l)
    (isOpen : (A.file h).isOpen = true) : (A.file h).slot ≠ σ := by
  rintro rfl
  obtain ⟨inHeads, notCwd⟩ := tree.head d inDirs
  exact consistent.apart inHeads notCwd chain (mem_dirSlots.mp (consistent.handles h isOpen).member).1
    (mem_dirSlots.mp member).1

/-- A new entry goes into a slot that held no entry. -/
theorem FileStore.Tree.new_slot (tree : A.Tree g cwd) (consistent : A.Consistent g cwd)
    (free : A.volume.fat n = fat32FreeCluster) {entry : Fat32Dirent}
    (inserted : Inserted g (A.volume.setFat n fat32EocMax) v' cwd A.directory l' σ entry)
    (listed : A.Listed g τ) (live : (A.dirent τ).IsLive) : τ ≠ σ := by
  rintro rfl
  rcases listed with here | ⟨d, inDirs, l, chain, member⟩
  · exact inserted.not_live_before here live
  · obtain ⟨inHeads, notCwd⟩ := tree.head d inDirs
    have apart := consistent.apart inHeads notCwd chain
    have out := (mem_dirSlots.mp member).1
    have used := FatChain.ne_free consistent.geometry chain _ out
    have inNew := (mem_dirSlots.mp inserted.member).1
    -- the directory grows by clusters that were free
    have wasFree := inserted.grown.fresh _ inNew fun old => apart old out
    have ne : τ.1 ≠ n := fun same => used (same ▸ free)
    rw [Volume.setFat_fat, Function.update_of_ne ne] at wasFree
    exact used wasFree

/-- The entry of a new directory, after its cluster was cleared. -/
theorem FileStore.Consistent.made_entry (consistent : A.Consistent g cwd) (inRange : g.InRange n)
    (free : A.volume.fat n = fat32FreeCluster) {entry : Fat32Dirent}
    (inserted : Inserted g (A.volume.setFat n fat32EocMax) v' cwd A.directory l' σ entry) :
    (v'.setData n fun _ => 0).dirent σ = entry := by
  have out := consistent.fresh_outside inRange free inserted
  have ne : σ.1 ≠ n := fun same => out (same ▸ (mem_dirSlots.mp inserted.member).1)
  rw [Volume.dirent, Volume.setData_data, Function.update_of_ne ne]
  exact inserted.holds

/-- A chain in use is marked free. -/
theorem Volume.covered_freeAll {heads : Set UInt32} (geo : Geometry g) (covered : v.Covered g heads)
    (separate : v.Separate g heads) (inHeads : c ∈ heads) (chain : FatChain g v c m) :
    (v.freeAll m).Covered g (heads \ {c}) :=
  LinkedTable.Covered.remove covered separate inHeads geo.excl chain (fun _ member => if_pos member)
    fun _ out => if_neg out

/-! ## What a call does to entries and handles -/

theorem FileStore.Next.slots_subset (next : A.Next g cwd call r B) : A.slots g ⊆ B.slots g := by
  cases next with
  | openNull | openFails | openFound | openTruncates | read | writeFails | wrote | seek | closeFails
    | closed | unlinkFails | unlinkedEmpty | unlinked | mkdirFails => exact List.Subset.refl _
  | openCreates _ _ _ _ _ _ _ _ _ _ _ inserted | openLosesEntry _ _ _ _ _ _ _ _ _ _ inserted
    | mkdirMakes _ _ _ _ _ _ _ inserted => exact inserted.slots_subset

/-- What a call does to an entry of the current directory. -/
inductive FileStore.EntryStep (g : Fat32Fs) (cwd : UInt32) (A B : FileStore) (σ : Slot) : FsCall → Prop
  | same {call : FsCall} : B.dirent σ = A.dirent σ → EntryStep g cwd A B σ call
  | closed {h : Nat} : (A.file h).isOpen = true → (A.file h).slot = σ →
      B.dirent σ = closedEntry (A.dirent σ) (A.file h) → EntryStep g cwd A B σ (.close h)
  | unlinked {path : CString} : A.lookup g path = some σ →
      ((A.dirent σ).firstCluster = 0 ∨ (A.dirent σ).firstCluster ∉ B.heads ∧
        (A.dirent σ).firstCluster ∉ B.dirs ∧ (A.dirent σ).firstCluster ≠ cwd) →
      EntryStep g cwd A B σ (.unlink path)

theorem FileStore.Next.entry_step (next : A.Next g cwd call r B) (consistent : A.Consistent g cwd)
    (careful : Disciplined A.file A.opened call) (member : σ ∈ A.slots g) (live : (A.dirent σ).IsLive) :
    EntryStep g cwd A B σ call := by
  have geo := consistent.geometry
  have frame := fun x => next.frame (x := x) geo
  -- a new entry takes a slot that was not live
  have inserted_kept {n : UInt32} {v' : Volume} {l' : List UInt32} {τ : Slot} {entry : Fat32Dirent}
      (inserted : Inserted g (A.volume.setFat n fat32EocMax) v' cwd A.directory l' τ entry) :
      v'.dirent σ = A.volume.dirent σ := by
    refine inserted.kept σ member ?_
    rintro rfl
    exact inserted.not_live_before member live
  cases next with
  | openNull | openFails | openFound | openTruncates | read | writeFails | seek | closeFails | unlinkFails
    | mkdirFails => exact .same rfl
  | openCreates _ _ _ _ _ _ _ _ _ _ _ inserted => exact .same (inserted_kept inserted)
  | openLosesEntry _ _ _ _ _ _ _ _ _ _ inserted =>
    exact .same ((Volume.freeAll_dirent _ _ σ).trans (inserted_kept inserted))
  | mkdirMakes path n v' l' τ inRange free inserted =>
    have out := consistent.fresh_outside inRange free inserted
    have ne : σ.1 ≠ n := by
      intro same
      exact out (same ▸ inserted.grown.extends_.subset (mem_dirSlots.mp member).1)
    refine .same (Eq.trans ?_ (inserted_kept inserted))
    simp only [FileStore.dirent, Volume.dirent, Volume.setData_data, Function.update_of_ne ne]
  | wrote h data size =>
    exact .same (Volume.dirent_congr (fun x inDir =>
      (frame x (consistent.directory_untouched inDir (some data) size)).2) σ member)
  | closed h isOpen inDir =>
    have edited := closeAt_edited (v := A.volume) geo inDir (A.file h)
    by_cases here : σ = (A.file h).slot
    · subst here
      exact .closed isOpen rfl edited.holds
    · exact .same (edited.kept _ σ member here)
  | unlinkedEmpty path τ found empty =>
    have edited := eraseAt_edited (v := A.volume) geo (FileStore.lookup_names found).1
    by_cases here : σ = τ
    · subst here
      exact .unlinked found (Or.inl empty)
    · exact .same (edited.kept _ σ member here)
  | unlinked path τ m found chain =>
    have edited := eraseAt_edited (v := A.volume.freeAll m) geo (FileStore.lookup_names found).1
    by_cases here : σ = τ
    · subst here
      have owned := consistent.owned_of_lookup found fun k under => absurd under (careful k)
      obtain ⟨-, notCwd, -⟩ := owned.resolve_left (chain.cell_of_mem _ chain.head_mem).ne_zero
      exact .unlinked found (Or.inr ⟨fun inHeads => inHeads.2 rfl, fun inDirs => inDirs.2 rfl, notCwd⟩)
    · exact .same (edited.kept _ σ member here)

/-- What a handle that is open after a call was before it. -/
inductive FileStore.HandleStep (g : Fat32Fs) (cwd : UInt32) (A B : FileStore) (k : Nat) : Prop
  | kept : (A.file k).isOpen = true → (B.file k).slot = (A.file k).slot →
      (B.file k).flags = (A.file k).flags → (B.file k).firstCluster = (A.file k).firstCluster →
      HandleStep g cwd A B k
  | started : (A.file k).isOpen = true → (B.file k).slot = (A.file k).slot →
      (B.file k).flags = (A.file k).flags → (A.file k).firstCluster = 0 →
      (B.file k).firstCluster ∉ A.heads → (∀ j ≠ k, B.file j = A.file j) → HandleStep g cwd A B k
  | found : B.dirent (B.file k).slot = A.dirent (B.file k).slot → (∀ j ≠ k, B.file j = A.file j) →
      (B.file k).firstCluster = (A.dirent (B.file k).slot).firstCluster →
      (hasFlag (B.file k).flags fat32OTrunc = true → (A.dirent (B.file k).slot).firstCluster = 0) →
      (∀ j, (A.file j).isOpen = true → (A.file j).slot = (B.file k).slot →
        hasFlag (A.file j).flags fat32OTrunc = false ∧ (A.dirent (B.file k).slot).firstCluster ≠ 0) →
      HandleStep g cwd A B k
  | truncated : hasFlag (B.file k).flags fat32OTrunc = true →
      (∀ j, (A.file j).isOpen = true → (A.file j).slot ≠ (B.file k).slot) →
      (∀ j ≠ k, B.file j = A.file j) → (A.dirent (B.file k).slot).firstCluster ∉ B.heads →
      (A.dirent (B.file k).slot).firstCluster ∉ B.dirs →
      (A.dirent (B.file k).slot).firstCluster ≠ cwd → HandleStep g cwd A B k
  | created : (∀ τ, A.Listed g τ → (A.dirent τ).IsLive → τ ≠ (B.file k).slot) →
      (∀ j ≠ k, B.file j = A.file j) →
      (B.dirent (B.file k).slot).firstCluster = (B.file k).firstCluster → HandleStep g cwd A B k

theorem FileStore.Next.handle_step (next : A.Next g cwd call r B) (tree : A.Tree g cwd)
    (consistent : A.Consistent g cwd) (careful : Disciplined A.file A.opened call) (tracks : A.Tracks g call)
    (openB : (B.file k).isOpen = true) : HandleStep g cwd A B k := by
  -- a handle that the call is not about
  have other (same : B.file k = A.file k) : HandleStep g cwd A B k := by
    refine .kept (same ▸ openB) ?_ ?_ ?_ <;> rw [same]
  by_cases about : call.handle = some k
  case neg => exact other (next.other_handle about)
  cases next with
  | openNull | writeFails | closeFails => exact other rfl
  | unlinkFails | unlinkedEmpty | unlinked | mkdirFails | mkdirMakes => cases about
  | openFails h | openLosesEntry h =>
    obtain rfl := Option.some.inj about
    simp only [Function.update_self, Fat32File.zero] at openB
    cases openB
  | openFound h path flags σ found keeps =>
    obtain rfl := Option.some.inj about
    refine .found rfl (fun j ne => Function.update_of_ne ne _ _) ?_ (fun trunc => ?_) fun j openJ slot => ?_
    · simp only [Function.update_self, handleFor_slot, handleFor_firstCluster]
    · simp only [Function.update_self, handleFor_slot, handleFor_flags] at trunc ⊢
      exact keeps.resolve_left (by rw [trunc]; decide)
    · simp only [Function.update_self, handleFor_slot] at slot ⊢
      -- whoever has the entry open shares it with the new handle
      have under := consistent.openUnder found openJ slot
      exact ⟨(careful.2 j under).2, (tracks σ found).2 j under⟩
  | openTruncates h path flags σ m found trunc chain =>
    obtain rfl := Option.some.inj about
    have owned := consistent.owned_of_lookup found fun k under => (careful.2 k under).2
    obtain ⟨-, notCwd, -⟩ := owned.resolve_left (chain.cell_of_mem _ chain.head_mem).ne_zero
    refine .truncated ?_ (fun j openJ slot => ?_) (fun j ne => Function.update_of_ne ne _ _) ?_ ?_ ?_
    · simpa only [Function.update_self, truncatedHandle_flags] using trunc
    · simp only [Function.update_self, truncatedHandle_slot] at slot
      have shared := (careful.2 j (consistent.openUnder found openJ slot)).1
      rw [trunc] at shared
      cases shared
    · simp only [Function.update_self, truncatedHandle_slot]
      exact fun inHeads => inHeads.2 rfl
    · simp only [Function.update_self, truncatedHandle_slot]
      exact fun inDirs => inDirs.2 rfl
    · simpa only [Function.update_self, truncatedHandle_slot] using notCwd
  | openCreates h path flags n v' l' σ absent creat inRange free inserted notDead =>
    obtain rfl := Option.some.inj about
    refine .created (fun τ listed live => ?_) (fun j ne => Function.update_of_ne ne _ _) ?_
    · simp only [Function.update_self, handleFor_slot]
      exact tree.new_slot consistent free inserted listed live
    · simp only [Function.update_self, handleFor_slot, handleFor_firstCluster, FileStore.dirent, inserted.holds]
  | read h =>
    obtain rfl := Option.some.inj about
    simp only [Function.update_self] at openB
    refine .kept openB ?_ ?_ ?_
    · simp only [Function.update_self]
      rfl
    · simp only [Function.update_self]
    · simp only [Function.update_self]
  | wrote h data size a n l l' v' f isOpen source inRange few first advanced wrote =>
    obtain rfl := Option.some.inj about
    have slot : f.slot = (A.file h).slot := by
      rw [advanced.rest]
      rfl
    have flags : f.flags = (A.file h).flags := by
      rw [advanced.rest]
    -- an empty file gets its first cluster, any other keeps its own
    rcases source with ⟨zero, rfl⟩ | ⟨same, -⟩
    · have free := wrote.grown.fresh a wrote.grown.chain.head_mem List.not_mem_nil
      refine .started isOpen ?_ ?_ zero ?_ fun j ne => Function.update_of_ne ne _ _
      · simpa only [Function.update_self] using slot
      · simpa only [Function.update_self] using flags
      · simpa only [Function.update_self, first] using consistent.fresh_not_head free
    · refine .kept isOpen ?_ ?_ ?_
      · simpa only [Function.update_self] using slot
      · simpa only [Function.update_self] using flags
      · simpa only [Function.update_self, first] using same.symm
  | seek h offset whence =>
    obtain rfl := Option.some.inj about
    have same := fat32Seek_same (A.file h) offset whence
    have openA : (A.file h).isOpen = true := by
      simp only [Function.update_self, same.isOpen] at openB
      exact openB
    refine .kept openA ?_ ?_ ?_ <;> simp only [Function.update_self]
    · exact same.slot openA
    · exact same.flags openA
    · exact same.firstCluster openA
  | closed h =>
    obtain rfl := Option.some.inj about
    simp only [Function.update_self] at openB
    cases openB

/-- A handle stays open on its slot until it is closed. -/
theorem FileStore.Next.still_open (next : A.Next g cwd call r B) (careful : Disciplined A.file A.opened call)
    (openA : (A.file k).isOpen = true) :
    call = .close k ∨ (B.file k).isOpen = true ∧ (B.file k).slot = (A.file k).slot := by
  have other (same : B.file k = A.file k) : (B.file k).isOpen = true ∧ (B.file k).slot = (A.file k).slot := by
    rw [same]
    exact ⟨openA, rfl⟩
  by_cases about : call.handle = some k
  case neg => exact Or.inr (other (next.other_handle about))
  cases next with
  | openNull | writeFails | closeFails => exact Or.inr (other rfl)
  | unlinkFails | unlinkedEmpty | unlinked | mkdirFails | mkdirMakes => cases about
  | openFails | openFound | openTruncates | openCreates | openLosesEntry =>
    -- only a closed handle is opened
    obtain rfl := Option.some.inj about
    rw [careful.1] at openA
    cases openA
  | read h =>
    obtain rfl := Option.some.inj about
    simp only [Function.update_self]
    exact Or.inr ⟨openA, rfl⟩
  | wrote h data size a n l l' v' f isOpen source inRange few first advanced wrote =>
    obtain rfl := Option.some.inj about
    simp only [Function.update_self]
    rw [advanced.rest]
    exact Or.inr ⟨openA, rfl⟩
  | seek h offset whence =>
    obtain rfl := Option.some.inj about
    have same := fat32Seek_same (A.file h) offset whence
    simp only [Function.update_self]
    exact Or.inr ⟨same.isOpen.trans openA, same.slot openA⟩
  | closed h =>
    obtain rfl := Option.some.inj about
    exact Or.inl rfl

theorem FileStore.Next.close_entry (next : A.Next g cwd (.close k) r B) (consistent : A.Consistent g cwd)
    (isOpen : (A.file k).isOpen = true) : (B.file k).isOpen = false ∧
      B.dirent (A.file k).slot = closedEntry (A.dirent (A.file k).slot) (A.file k) := by
  cases next with
  | closeFails _ closed =>
    rw [closed] at isOpen
    cases isOpen
  | closed _ _ inDir =>
    refine ⟨?_, (closeAt_edited consistent.geometry inDir (A.file k)).holds⟩
    simp only [Function.update_self]

/-! ## The tree of directories -/

section Step

variable (accounted : A.Accounted g cwd) (tree : A.Tree g cwd) (consistent : A.Consistent g cwd)
  (careful : Disciplined A.file A.opened call) (tracks : A.Tracks g call) (next : A.Next g cwd call r B)

include tree consistent careful tracks next in
/-- A directory that is given up has no entries with clusters. -/
theorem FileStore.Next.released_hollow (inDirs : d ∈ A.dirs) (gone : d ∉ B.dirs)
    (chain : FatChain g A.volume d l) (member : σ ∈ g.dirSlots l) (live : (A.dirent σ).IsLive) :
    (A.dirent σ).firstCluster = 0 := by
  -- the entry that is truncated or unlinked is that of the directory
  have hollow {τ : Slot} {m : List UInt32} (found : τ ∈ A.slots g) (liveτ : (A.dirent τ).IsLive)
      (owned : A.Owned cwd (A.dirent τ).firstCluster τ) (chainτ : FatChain g A.volume (A.dirent τ).firstCluster m)
      (released : d ∉ A.dirs \ {(A.dirent τ).firstCluster}) (noFiles : A.volume.Hollow g τ) :
      (A.dirent σ).firstCluster = 0 := by
    obtain rfl : d = (A.dirent τ).firstCluster := by
      by_contra ne
      exact released ⟨inDirs, ne⟩
    have kind := (tree.entries τ found liveτ owned).resolve_left (chainτ.cell_of_mem _ chainτ.head_mem).ne_zero
    exact noFiles (kind.mp inDirs) l chain σ member live
  cases next with
  | openNull | openFails | openFound | openCreates | openLosesEntry | read | writeFails | wrote | seek
    | closeFails | closed | unlinkFails | unlinkedEmpty | mkdirFails => exact absurd inDirs gone
  | mkdirMakes => exact absurd (Or.inr inDirs) gone
  | openTruncates h path flags τ m found trunc chainτ =>
    obtain ⟨memberτ, liveτ, -⟩ := FileStore.lookup_names found
    have owned := consistent.owned_of_lookup found fun k under => (careful.2 k under).2
    exact hollow memberτ liveτ owned chainτ gone ((tracks τ found).1 trunc)
  | unlinked path τ m found chainτ =>
    obtain ⟨memberτ, liveτ, -⟩ := FileStore.lookup_names found
    have owned := consistent.owned_of_lookup found fun k under => absurd under (careful k)
    exact hollow memberτ liveτ owned chainτ gone (tracks τ found)

include tree consistent careful tracks next in
/-- An entry of a directory that is not given up. -/
theorem FileStore.Next.listed_step (listed : A.Listed g σ) (live : (A.dirent σ).IsLive)
    (still : ∀ d ∈ A.dirs, ∀ l, FatChain g A.volume d l → σ ∈ g.dirSlots l → d ∈ B.dirs) :
    B.Listed g σ ∧ EntryStep g cwd A B σ call := by
  rcases listed with here | ⟨d, inDirs, l, chain, member⟩
  · exact ⟨Or.inl (next.slots_subset here), next.entry_step consistent careful here live⟩
  · have stays := still d inDirs l chain member
    have same := fun x (inL : x ∈ l) =>
      tree.dir_sameAt consistent careful tracks.spares next inDirs stays chain inL
    have chainB : FatChain g B.volume d l := chain.congr fun x inL => (same x inL).1
    exact ⟨Or.inr ⟨d, stays, l, chainB, member⟩, .same (Volume.dirent_congr (fun x inL => (same x inL).2) σ member)⟩

include tree consistent careful tracks next in
/-- An entry that was up to date still is, when its chain is in use. -/
theorem FileStore.Next.settled (settled : σ ∈ A.settled) (listed : A.Listed g σ) (live : (A.dirent σ).IsLive)
    (nonzero : (A.dirent σ).firstCluster ≠ 0)
    (still : (A.dirent σ).firstCluster = cwd ∨ (A.dirent σ).firstCluster ∈ B.dirs) : σ ∈ B.settled := by
  rintro k ⟨openB, rfl, trunc⟩
  cases next.handle_step tree consistent careful tracks openB with
  | kept openA slot flags | started openA slot flags =>
    rw [flags] at trunc
    exact settled k ⟨openA, slot.symm, trunc⟩
  | found _ _ _ empty => exact nonzero (empty trunc)
  | truncated _ _ _ _ notDir notCwd => exact still.elim notCwd notDir
  | created new => exact new _ listed live rfl

include accounted tree consistent careful tracks next in
/-- A directory that is not given up is still in the tree. -/
theorem FileStore.Accounted.inTree_next (inTree : A.volume.InTree g A.settled d)
    (still : d = cwd ∨ d ∈ B.dirs) : B.volume.InTree g B.settled d := by
  have consistentB := next.consistent consistent careful
  induction inTree with
  | root => exact .root
  | @sub d₀ l₀ σ inTree₀ chain member live settled directory nonzero ih =>
    have known := tree.of_inTree consistent (fun _ settled => settled) inTree₀
    -- the directory that lists this one is not given up either
    have stays (e : UInt32) (inDirs : e ∈ A.dirs) (l : List UInt32) (chainE : FatChain g A.volume e l)
        (memberE : σ ∈ g.dirSlots l) : e ∈ B.dirs := by
      by_contra gone
      exact nonzero (next.released_hollow tree consistent careful tracks inDirs gone chainE memberE live)
    have still₀ : d₀ = cwd ∨ d₀ ∈ B.dirs := known.imp_right fun inDirs => stays d₀ inDirs l₀ chain member
    have listed : A.Listed g σ := by
      rcases known with rfl | inDirs
      · obtain rfl := Chain.unique consistent.geometry.excl chain consistent.chain
        exact Or.inl member
      · exact Or.inr ⟨d₀, inDirs, l₀, chain, member⟩
    obtain ⟨l', chain', member'⟩ : ∃ l', FatChain g B.volume d₀ l' ∧ σ ∈ g.dirSlots l' := by
      rcases known with rfl | inDirs
      · obtain rfl := Chain.unique consistent.geometry.excl chain consistent.chain
        exact ⟨B.directory, consistentB.chain, next.slots_subset member⟩
      · have inB := stays d₀ inDirs l₀ chain member
        exact ⟨l₀, chain.congr fun x inL =>
          (tree.dir_sameAt consistent careful tracks.spares next inDirs inB chain inL).1, member⟩
    have settledB := next.settled tree consistent careful tracks settled listed live nonzero still
    obtain ⟨liveB, directoryB, first⟩ : (B.dirent σ).IsLive ∧ IsDirectoryAttr (B.dirent σ).attr ∧
        (B.dirent σ).firstCluster = (A.dirent σ).firstCluster := by
      cases (next.listed_step tree consistent careful tracks listed live stays).2 with
      | same entry =>
        rw [entry]
        exact ⟨live, directory, rfl⟩
      | @closed h isOpen slot entry =>
        -- a handle without `FAT32_O_TRUNC` has the first cluster of its entry
        have plain : hasFlag (A.file h).flags fat32OTrunc = false := by
          rw [Bool.eq_false_iff]
          exact fun trunc => settled h ⟨isOpen, slot, trunc⟩
        have first := (accounted.recorded h isOpen plain).resolve_left (by rwa [slot])
        rw [slot] at first
        rw [entry, closedEntry_firstCluster, first]
        exact ⟨live, directory, rfl⟩
      | unlinked found gone =>
        obtain ⟨-, notDir, notCwd⟩ := gone.resolve_left nonzero
        exact (still.elim notCwd notDir).elim
    have sub : B.volume.InTree g B.settled (B.dirent σ).firstCluster :=
      .sub (ih still₀) chain' member' liveB settledB directoryB fun zero => nonzero (first.symm.trans zero)
    rw [first] at sub
    exact sub

/-! ## Chains in use -/

include consistent careful next in
/-- The owner of a chain that stays in use is the same, unless its directory was given up. -/
theorem FileStore.Next.own_next (inHeads : c ∈ A.heads) (still : c ∈ B.heads) (owner : A.own c = some σ)
    (stays : ∀ τ m, A.Owned cwd (A.dirent τ).firstCluster τ → FatChain g A.volume (A.dirent τ).firstCluster m →
      (A.dirent τ).firstCluster ∉ B.dirs → σ ∉ g.dirSlots m) : B.own c = some σ := by
  have fresh {n : UInt32} (free : A.volume.fat n = fat32FreeCluster) : c ≠ n := by
    rintro rfl
    exact consistent.fresh_not_head free inHeads
  cases next with
  | openNull | openFails | openFound | openLosesEntry | read | writeFails | seek | closeFails | closed
    | unlinkFails | unlinkedEmpty | mkdirFails => exact owner
  | openTruncates h path flags τ m found trunc chain =>
    have owned := consistent.owned_of_lookup found fun k under => (careful.2 k under).2
    exact disown_eq_some.mpr ⟨owner, stays τ m owned chain fun inDirs => inDirs.2 rfl⟩
  | unlinked path τ m found chain =>
    have owned := consistent.owned_of_lookup found fun k under => absurd under (careful k)
    exact disown_eq_some.mpr ⟨owner, stays τ m owned chain fun inDirs => inDirs.2 rfl⟩
  | openCreates h path flags n v' l' τ absent creat inRange free => exact (Function.update_of_ne (fresh free) _ _).trans owner
  | mkdirMakes path n v' l' τ inRange free => exact (Function.update_of_ne (fresh free) _ _).trans owner
  | wrote h data size a n l l' v' f isOpen source inRange few first advanced wrote =>
    by_cases same : c = a
    · subst same
      rcases source with ⟨-, rfl⟩ | ⟨sameFirst, chain⟩
      · exact absurd rfl (fresh (wrote.grown.fresh c wrote.grown.chain.head_mem List.not_mem_nil))
      · have owned := (consistent.handles h isOpen).owned
        rw [sameFirst] at owned
        obtain ⟨-, -, ownerH⟩ := owned.resolve_left (chain.cell_of_mem _ chain.head_mem).ne_zero
        rw [← owner, ownerH]
        exact Function.update_self _ _ _
    · exact (Function.update_of_ne same _ _).trans owner

include accounted tree consistent careful tracks next in
/-- A chain that stays in use is recorded where it was. -/
theorem FileStore.Accounted.records_next (inHeads : c ∈ A.heads) (still : c ∈ B.heads)
    (owner : A.own c = some σ) (records : A.Records g σ c) : B.own c = some σ ∧ B.Records g σ c := by
  obtain ⟨m, chain⟩ := consistent.separate.1 c inHeads
  have nonzero := (chain.cell_of_mem _ chain.head_mem).ne_zero
  obtain ⟨listed, live, handles, entry⟩ := records
  -- the directory that holds the slot is not given up
  have stays (d : UInt32) (inDirs : d ∈ A.dirs) (l : List UInt32) (chainD : FatChain g A.volume d l)
      (member : σ ∈ g.dirSlots l) : d ∈ B.dirs := by
    by_contra gone
    have empty := next.released_hollow tree consistent careful tracks inDirs gone chainD member live
    have first := entry fun h isOpen => tree.handle_elsewhere consistent inDirs chainD member isOpen
    exact nonzero (first.symm.trans empty)
  have owner' : B.own c = some σ := by
    refine next.own_next consistent careful inHeads still owner fun τ m' owned chainτ gone inM => ?_
    obtain ⟨headτ, notCwd, -⟩ := owned.resolve_left (chainτ.cell_of_mem _ chainτ.head_mem).ne_zero
    rcases listed with here | ⟨d, inDirs, l, chainD, member⟩
    · exact consistent.apart headτ notCwd chainτ (mem_dirSlots.mp here).1 (mem_dirSlots.mp inM).1
    · have ne : d ≠ (A.dirent τ).firstCluster := by
        rintro rfl
        exact gone (stays _ inDirs l chainD member)
      exact consistent.separate.2 d (tree.head d inDirs).1 _ headτ ne l m' chainD chainτ
        (mem_dirSlots.mp member).1 (mem_dirSlots.mp inM).1
  obtain ⟨listed', step⟩ := next.listed_step tree consistent careful tracks listed live stays
  refine ⟨owner', listed', ?_, fun k openB slot => ?_, fun none => ?_⟩
  · cases step with
    | same same =>
      rw [same]
      exact live
    | closed _ _ closed =>
      rw [closed]
      exact live
    | unlinked found gone =>
      have first := entry fun k openA slot => careful k (consistent.openUnder found openA slot)
      rw [first] at gone
      exact ((gone.resolve_left nonzero).1 still).elim
  · cases next.handle_step tree consistent careful tracks openB with
    | kept openA slotA _ first =>
      rw [first]
      exact handles k openA (slotA.symm.trans slot)
    | started openA slotA _ zero => exact absurd ((handles k openA (slotA.symm.trans slot)).symm.trans zero) nonzero
    | found _ _ first _ shared =>
      rw [slot] at first shared
      rw [first]
      by_cases some : ∃ j, (A.file j).isOpen = true ∧ (A.file j).slot = σ
      · obtain ⟨j, openJ, slotJ⟩ := some
        obtain ⟨plain, recordedJ⟩ := shared j openJ slotJ
        have same := (accounted.recorded j openJ plain).resolve_left (by rwa [slotJ])
        rw [slotJ] at same
        exact same.symm.trans (handles j openJ slotJ)
      · exact entry fun j openJ slotJ => some ⟨j, openJ, slotJ⟩
    | truncated _ alone _ notHead =>
      rw [slot] at alone notHead
      rw [entry alone] at notHead
      exact absurd still notHead
    | created new => exact absurd slot.symm (new σ listed live)
  · by_cases some : ∃ j, (A.file j).isOpen = true ∧ (A.file j).slot = σ
    · obtain ⟨j, openJ, slotJ⟩ := some
      rcases next.still_open careful openJ with rfl | ⟨openB, slotB⟩
      · rw [← slotJ, (next.close_entry consistent openJ).2, closedEntry_firstCluster]
        exact handles j openJ slotJ
      · exact absurd (slotB.trans slotJ) (none j openB)
    · have first := entry fun j openJ slotJ => some ⟨j, openJ, slotJ⟩
      cases step with
      | same same => rwa [same]
      | closed openJ slotJ => exact absurd ⟨_, openJ, slotJ⟩ some
      | unlinked found gone =>
        rw [first] at gone
        exact ((gone.resolve_left nonzero).1 still).elim

include accounted consistent tracks next in
/-- A new chain is recorded. -/
theorem FileStore.Accounted.records_new (new : c ∉ A.heads) (inHeads : c ∈ B.heads) :
    ∃ σ, B.own c = some σ ∧ B.Records g σ c := by
  have geo := consistent.geometry
  have frame := fun x => next.frame (x := x) geo
  cases next with
  | openNull | openFails | openFound | openLosesEntry | read | writeFails | seek | closeFails | closed
    | unlinkFails | unlinkedEmpty | mkdirFails => exact absurd inHeads new
  | openTruncates | unlinked => exact absurd inHeads.1 new
  | openCreates h path flags n v' l' σ absent creat inRange free inserted notDead =>
    obtain rfl := inHeads.resolve_right new
    have unused := consistent.vacant_unused inserted
    refine ⟨σ, Function.update_self _ _ _, Or.inl inserted.member, ?_, fun k openB slot => ?_, fun none => ?_⟩
    · simp only [FileStore.dirent, inserted.holds]
      exact (newEntry_live_iff _ _ (by decide) _).mpr notDead
    · by_cases here : k = h
      · subst here
        simp only [Function.update_self, handleFor_firstCluster, newEntry_firstCluster]
      · simp only [Function.update_of_ne here] at openB slot
        exact absurd slot (unused k openB)
    · refine absurd ?_ (none h ?_) <;> simp only [Function.update_self, handleFor_slot, handleFor_isOpen]
  | mkdirMakes path n v' l' σ inRange free inserted =>
    obtain rfl := inHeads.resolve_right new
    have unused := consistent.vacant_unused inserted
    have holds := consistent.made_entry inRange free inserted
    refine ⟨σ, Function.update_self _ _ _, Or.inl inserted.member, ?_, fun k openB slot => ?_, fun _ => ?_⟩
    · simp only [FileStore.dirent, holds]
      exact (newEntry_live_iff _ _ (by decide) _).mpr tracks
    · exact absurd slot (unused k openB)
    · simp only [FileStore.dirent, holds, newEntry_firstCluster]
  | wrote h data size a n l l' v' f isOpen source inRange few first advanced wrote =>
    obtain rfl := inHeads.resolve_right new
    obtain ⟨member, live, -, -, owned⟩ := consistent.handles h isOpen
    have slot : f.slot = (A.file h).slot := by
      rw [advanced.rest]
      rfl
    -- only an empty file gets a new head
    have zero : (A.file h).firstCluster = 0 := by
      rcases source with ⟨zero, -⟩ | ⟨same, chain⟩
      · exact zero
      · rw [same] at owned
        exact absurd (owned.resolve_left (chain.cell_of_mem _ chain.head_mem).ne_zero).1 new
    have same : v'.dirent (A.file h).slot = A.dirent (A.file h).slot :=
      Volume.dirent_congr (fun x inDir =>
        (frame x (consistent.directory_untouched inDir (some data) size)).2) _ member
    refine ⟨(A.file h).slot, Function.update_self _ _ _, Or.inl member, ?_, fun k openB slotK => ?_, fun none => ?_⟩
    · simp only [FileStore.dirent, same]
      exact live
    · by_cases here : k = h
      · subst here
        simp only [Function.update_self, first]
      · simp only [Function.update_of_ne here] at openB slotK
        exact absurd zero (accounted.shared h k isOpen openB slotK.symm (Ne.symm here)).2
    · refine absurd ?_ (none h ?_)
      · simp only [Function.update_self, slot]
      · simp only [Function.update_self]
        rw [advanced.rest]
        exact isOpen

include accounted tree consistent careful tracks next in
theorem FileStore.Accounted.recorded_next : ∀ k, (B.file k).isOpen = true →
    hasFlag (B.file k).flags fat32OTrunc = false → (B.dirent (B.file k).slot).firstCluster = 0 ∨
      (B.file k).firstCluster = (B.dirent (B.file k).slot).firstCluster := by
  intro k openB plain
  -- the entry of a handle that was open before has not changed, or another handle recorded it
  have entry (openA : (A.file k).isOpen = true) (none : (A.file k).firstCluster = 0 → (A.dirent (A.file k).slot).firstCluster = 0) :
      B.dirent (A.file k).slot = A.dirent (A.file k).slot ∨
        (A.file k).firstCluster ≠ 0 ∧ (B.dirent (A.file k).slot).firstCluster = (A.file k).firstCluster := by
    obtain ⟨member, live, -⟩ := consistent.handles k openA
    cases next.entry_step consistent careful member live with
    | same same => exact Or.inl same
    | @closed h openH slot closed =>
      have ne : h ≠ k := by
        rintro rfl
        rw [(next.close_entry consistent openH).1] at openB
        cases openB
      obtain ⟨first, nonzero⟩ := accounted.shared h k openH openA slot ne
      rw [closed, closedEntry_firstCluster]
      exact Or.inr ⟨first ▸ nonzero, first⟩
    | unlinked found => exact absurd (consistent.openUnder found openA rfl) (careful k)
  cases next.handle_step tree consistent careful tracks openB with
  | kept openA slot flags first =>
    rw [flags] at plain
    have before := accounted.recorded k openA plain
    rw [slot, first]
    rcases entry openA (fun zero => before.elim id fun same => same.symm.trans zero) with same | ⟨-, same⟩
    · rwa [same]
    · exact Or.inr same.symm
  | started openA slot flags zero =>
    rw [flags] at plain
    have before := (accounted.recorded k openA plain).elim id fun same => same.symm.trans zero
    rw [slot]
    rcases entry openA (fun _ => before) with same | ⟨nonzero, -⟩
    · rw [same]
      exact Or.inl before
    · exact absurd zero nonzero
  | found same _ first =>
    rw [same]
    exact Or.inr first
  | truncated trunc =>
    rw [plain] at trunc
    cases trunc
  | created _ _ first => exact Or.inr first.symm

include accounted consistent in
/-- Two handles on one slot: the one was open before, or both record the chain of the entry. -/
theorem FileStore.HandleStep.beside (step : HandleStep g cwd A B k) (openH : (B.file h).isOpen = true)
    (slot : (B.file h).slot = (B.file k).slot) (ne : h ≠ k) :
    ((A.file k).isOpen = true ∧ (B.file k).slot = (A.file k).slot ∧
      ((B.file k).firstCluster = (A.file k).firstCluster ∨ (A.file k).firstCluster = 0)) ∨
    (B.file h).firstCluster = (B.file k).firstCluster ∧ (B.file h).firstCluster ≠ 0 := by
  cases step with
  | kept openA slotA _ first => exact Or.inl ⟨openA, slotA, Or.inl first⟩
  | started openA slotA _ zero => exact Or.inl ⟨openA, slotA, Or.inr zero⟩
  | found _ others first _ shared =>
    rw [others h ne] at openH slot ⊢
    obtain ⟨plain, nonzero⟩ := shared h openH slot
    rw [← slot] at first nonzero
    have recorded := (accounted.recorded h openH plain).resolve_left nonzero
    rw [first, recorded]
    exact Or.inr ⟨rfl, nonzero⟩
  | truncated _ alone others =>
    rw [others h ne] at openH slot
    exact absurd slot (alone h openH)
  | created new others =>
    rw [others h ne] at openH slot
    obtain ⟨member, live, -⟩ := consistent.handles h openH
    exact absurd slot (new _ (Or.inl member) live)

include accounted tree consistent careful tracks next in
theorem FileStore.Accounted.shared_next : ∀ h k, (B.file h).isOpen = true → (B.file k).isOpen = true →
    (B.file h).slot = (B.file k).slot → h ≠ k →
      (B.file h).firstCluster = (B.file k).firstCluster ∧ (B.file h).firstCluster ≠ 0 := by
  intro h k openH openK slot ne
  have stepH := next.handle_step tree consistent careful tracks openH
  have stepK := next.handle_step tree consistent careful tracks openK
  rcases stepK.beside accounted consistent openH slot ne with ⟨oldK, slotK, firstK⟩ | both
  · rcases stepH.beside accounted consistent openK slot.symm (Ne.symm ne) with ⟨oldH, slotH, firstH⟩ | both
    · have slotA : (A.file h).slot = (A.file k).slot := slotH.symm.trans (slot.trans slotK)
      obtain ⟨same, nonzero⟩ := accounted.shared h k oldH oldK slotA ne
      rw [firstH.resolve_right nonzero, firstK.resolve_right (same ▸ nonzero)]
      exact ⟨same, nonzero⟩
    · exact ⟨both.1.symm, both.1 ▸ both.2⟩
  · exact both

include accounted consistent careful next in
theorem FileStore.Accounted.covered_next : B.volume.Covered g B.heads := by
  have geo := consistent.geometry
  have covered := accounted.covered
  have separate := consistent.separate
  have removed {c : UInt32} {σ : Slot} {m : List UInt32} (owned : A.Owned cwd c σ) (chain : FatChain g A.volume c m) :
      (A.volume.freeAll m).Covered g (A.heads \ {c}) := by
    obtain ⟨inHeads, -⟩ := owned.resolve_left (chain.cell_of_mem _ chain.head_mem).ne_zero
    exact Volume.covered_freeAll geo covered separate inHeads chain
  -- a cluster is taken and an entry inserted
  have made {n : UInt32} {v' : Volume} {l' : List UInt32} {σ : Slot} {entry : Fat32Dirent}
      (inRange : g.InRange n) (free : A.volume.fat n = fat32FreeCluster)
      (inserted : Inserted g (A.volume.setFat n fat32EocMax) v' cwd A.directory l' σ entry) :
      v'.Covered g (insert n A.heads) ∧ v'.Separate g (insert n A.heads) := by
    have notHead := consistent.fresh_not_head free
    have start := Grown.start (v := A.volume) inRange free
    have inHeads := Set.mem_insert_of_mem n consistent.directory
    have chain := (fresh_directory geo consistent.chain free).1
    have startedSeparate := start.separate geo separate (Or.inr rfl)
    have started := start.covered geo covered separate (Or.inr ⟨notHead, rfl⟩)
    have grown := inserted.grown.covered geo started startedSeparate (Or.inl ⟨inHeads, chain⟩)
    have grownSeparate := inserted.grown.separate geo startedSeparate (Or.inl ⟨inHeads, chain⟩)
    rw [Set.insert_eq_of_mem inHeads] at grown grownSeparate
    exact ⟨grown, grownSeparate⟩
  cases next with
  | openNull | openFails | openFound | read | writeFails | seek | closeFails | closed
    | unlinkFails | unlinkedEmpty | mkdirFails => exact covered
  | openTruncates h path flags τ m found trunc chain =>
    exact removed (consistent.owned_of_lookup found fun k under => (careful.2 k under).2) chain
  | unlinked path τ m found chain =>
    exact removed (consistent.owned_of_lookup found fun k under => absurd under (careful k)) chain
  | openCreates h path flags n v' l' τ absent creat inRange free inserted => exact (made inRange free inserted).1
  | mkdirMakes path n v' l' τ inRange free inserted => exact (made inRange free inserted).1
  | openLosesEntry h path flags n v' l' τ absent inRange free inserted =>
    obtain ⟨grown, grownSeparate⟩ := made inRange free inserted
    have out := (fresh_directory geo consistent.chain free).2
    have own := (inserted.grown.other_chain geo (fresh_chain (v := A.volume) inRange)
      (List.singleton_disjoint.mpr out)).1
    have freed := Volume.covered_freeAll geo grown grownSeparate (Set.mem_insert n A.heads) own
    rwa [Set.insert_sdiff_self_of_notMem (consistent.fresh_not_head free)] at freed
  | wrote h data size a n l l' v' f isOpen source inRange few first advanced wrote =>
    obtain ⟨origin, -⟩ := consistent.written_chain (consistent.handles h isOpen).owned source wrote.grown
    exact wrote.grown.covered geo covered separate (origin.symm.imp_left fun old => ⟨old.1, old.2.2⟩)

include accounted tree consistent careful tracks next in
theorem FileStore.Accounted.dirs_next : ∀ d ∈ B.dirs, B.volume.InTree g B.settled d := by
  intro d inDirs
  by_cases old : d ∈ A.dirs
  · exact accounted.inTree_next tree consistent careful tracks next (accounted.dirs d old) (Or.inr inDirs)
  · have current := accounted.inTree_next tree consistent careful tracks next accounted.current (Or.inl rfl)
    have consistentB := next.consistent consistent careful
    cases next with
    | openNull | openFails | openFound | openCreates | openLosesEntry | read | writeFails | wrote | seek
      | closeFails | closed | unlinkFails | unlinkedEmpty | mkdirFails => exact absurd inDirs old
    | openTruncates | unlinked => exact absurd inDirs.1 old
    | mkdirMakes path n v' l' σ inRange free inserted =>
      obtain rfl := inDirs.resolve_right old
      have holds := consistent.made_entry inRange free inserted
      have sub := Volume.InTree.sub current consistentB.chain inserted.member (σ := σ)
      simp only [holds, newEntry_firstCluster] at sub
      refine sub ?_ ?_ ?_ inRange.ne_zero
      · exact (newEntry_live_iff _ _ (by decide) _).mpr tracks
      · rintro k ⟨openK, slot, -⟩
        exact consistent.vacant_unused inserted k openK slot
      · show IsDirectoryAttr fat32AttrDirectory
        decide

end Step

/-- **A call of a program that keeps track loses no cluster.** -/
theorem FileStore.Accounted.next (accounted : A.Accounted g cwd) (tree : A.Tree g cwd)
    (consistent : A.Consistent g cwd) (careful : Disciplined A.file A.opened call) (tracks : A.Tracks g call)
    (next : A.Next g cwd call r B) : B.Accounted g cwd where
  covered := accounted.covered_next consistent careful next
  current := accounted.inTree_next tree consistent careful tracks next accounted.current (Or.inl rfl)
  dirs := accounted.dirs_next tree consistent careful tracks next
  heads := by
    intro c inB
    by_cases inA : c ∈ A.heads
    · refine (accounted.heads c inA).imp_right fun rest => rest.imp_right ?_
      rintro ⟨σ, owner, records⟩
      exact ⟨σ, accounted.records_next tree consistent careful tracks next inA inB owner records⟩
    · exact Or.inr (Or.inr (accounted.records_new consistent tracks next inA inB))
  recorded := accounted.recorded_next tree consistent careful tracks next
  shared := accounted.shared_next tree consistent careful tracks next

/-! ## The start of a run -/

theorem Volume.Walk.start_ne_zero (walk : v.Walk g c x) : c ≠ 0 := by
  induction walk with
  | here inRange => exact inRange.ne_zero
  | next _ _ ih => exact ih

/-- When no cluster is lost, every allocated one is accounted for. -/
theorem WellFormedTree.accounted (wf : WellFormedTree g cwd v) (geo : Geometry g) (noLeaks : v.NoLeaks g)
    (chain : FatChain g v cwd l) (file : Nat → Fat32File) (closed : ∀ k, (file k).isOpen = false)
    (opened : Nat → ShortName) : (treeStore g cwd v l file opened).Accounted g cwd := by
  obtain ⟨rootChain, chainRoot⟩ := wf.root
  have own := wf.ownChains chainRoot
  have settled {d : UInt32} (inTree : v.InTree g Set.univ d) :
      v.InTree g (treeStore g cwd v l file opened).settled d := by
    induction inTree with
    | root => exact .root
    | sub _ chain member live _ directory nonzero ih =>
      refine .sub ih chain member live (fun k truncating => ?_) directory nonzero
      have isOpen : (file k).isOpen = true := truncating.1
      rw [closed k] at isOpen
      cases isOpen
  refine ⟨fun x inRange used => ?_, settled wf.current, fun d inDirs => settled inDirs.1, fun c inHeads => ?_,
    fun k isOpen => ?_, fun k _ isOpen => ?_⟩
  · rcases noLeaks x inRange used with walk | ⟨σ, entry, walk⟩
    · exact ⟨_, Set.mem_insert _ _, rootChain, chainRoot, FatChain.mem_of_walk geo chainRoot walk⟩
    · have nonzero : (v.dirent σ).firstCluster ≠ 0 := by
        intro zero
        rw [zero] at walk
        exact walk.start_ne_zero rfl
      obtain ⟨m, chainσ⟩ := (wf.chains σ entry).resolve_left nonzero
      exact ⟨_, Set.mem_insert_of_mem _ ⟨nonzero, σ, entry, rfl⟩, m, chainσ, FatChain.mem_of_walk geo chainσ walk⟩
  · rcases inHeads with rfl | ⟨nonzero, σ, entry, rfl⟩
    · exact Or.inr (Or.inl rfl)
    · refine Or.inr (Or.inr ⟨σ, own.ownOf_eq entry nonzero, ?_, entry.live, fun k isOpen => ?_, fun _ => rfl⟩)
      · obtain ⟨-, -, d, m, inTree, chainD, member⟩ := entry
        by_cases here : d = cwd
        · subst here
          obtain rfl := Chain.unique geo.excl chainD chain
          exact Or.inl member
        · exact Or.inr ⟨d, ⟨inTree, here⟩, m, chainD, member⟩
      · exact absurd isOpen (by simp [treeStore, storeOf, closed k])
  · exact absurd isOpen (by simp [treeStore, storeOf, closed k])
  · exact absurd isOpen (by simp [treeStore, storeOf, closed k])

end QuantumKernel.Fat32
