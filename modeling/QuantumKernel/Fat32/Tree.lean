import QuantumKernel.Fat32.Frame

/-! # The directory tree

The directories of a volume are the root directory and those that a live entry of a
directory names.  `Volume.Sound` says that the clusters of different entries are
different and allocated.  A file that is open with `FAT32_O_TRUNC` is no exception to
look for on the drive, but its entry is out of date until the handle is closed; so the
definitions take the set of entries that count.

`FileStore.Tree` is the invariant: it follows the directories outside of the current
one, which no call looks at, and tells their chains from those of files.
-/

namespace QuantumKernel.Fat32

open ByteStore LinkedTable BlockStore

/-- `x` is reached from `c` in the FAT. -/
inductive Volume.Walk (g : Fat32Fs) (v : Volume) (c : UInt32) : UInt32 → Prop
  | here : g.InRange c → Walk g v c c
  | next {x : UInt32} : Walk g v c x → g.InRange (v.fat x) → Walk g v c (v.fat x)

/-- The first clusters of directories. -/
inductive Volume.InTree (g : Fat32Fs) (v : Volume) (counts : Set Slot) : UInt32 → Prop
  | root : InTree g v counts g.rootDirFirstCluster
  | sub {d : UInt32} {l : List UInt32} {σ : Slot} : InTree g v counts d → FatChain g v d l →
      σ ∈ g.dirSlots l → (v.dirent σ).IsLive → σ ∈ counts → IsDirectoryAttr (v.dirent σ).attr →
      (v.dirent σ).firstCluster ≠ 0 → InTree g v counts (v.dirent σ).firstCluster

/-- A live entry of a directory. -/
structure Volume.IsEntry (g : Fat32Fs) (v : Volume) (counts : Set Slot) (σ : Slot) : Prop where
  live : (v.dirent σ).IsLive
  counted : σ ∈ counts
  listed : ∃ d l, v.InTree g counts d ∧ FatChain g v d l ∧ σ ∈ g.dirSlots l

/-- No cluster of an entry is free or belongs to two entries. -/
structure Volume.Sound (g : Fat32Fs) (v : Volume) (counts : Set Slot) : Prop where
  allocated : ∀ σ, v.IsEntry g counts σ → ∀ x, v.Walk g (v.dirent σ).firstCluster x →
    v.fat x ≠ fat32FreeCluster
  apart : ∀ σ τ, v.IsEntry g counts σ → v.IsEntry g counts τ → σ ≠ τ → ∀ x,
    v.Walk g (v.dirent σ).firstCluster x → ¬ v.Walk g (v.dirent τ).firstCluster x

/-- The first cluster of an entry starts the chain of a directory if the entry is one. -/
def FileStore.Kind (A : FileStore) (attr : UInt8) (c : UInt32) : Prop :=
  c = 0 ∨ (c ∈ A.dirs ↔ IsDirectoryAttr attr)

structure FileStore.Tree (g : Fat32Fs) (cwd : UInt32) (A : FileStore) : Prop where
  root : g.rootDirFirstCluster = cwd ∨
    g.rootDirFirstCluster ∈ A.dirs ∧ A.own g.rootDirFirstCluster = none
  head : ∀ d ∈ A.dirs, d ∈ A.heads ∧ d ≠ cwd
  entries : ∀ σ ∈ A.slots g, (A.dirent σ).IsLive → A.Owned cwd (A.dirent σ).firstCluster σ →
    A.Kind (A.dirent σ).attr (A.dirent σ).firstCluster
  handles : ∀ h, (A.file h).isOpen = true → A.Kind (A.file h).attr (A.file h).firstCluster
  inside : ∀ d ∈ A.dirs, ∀ l, FatChain g A.volume d l → ∀ σ ∈ g.dirSlots l, (A.dirent σ).IsLive →
    (A.dirent σ).firstCluster = 0 ∨
      (A.dirent σ).firstCluster ∈ A.heads ∧ A.own (A.dirent σ).firstCluster = some σ ∧
        (IsDirectoryAttr (A.dirent σ).attr →
          (A.dirent σ).firstCluster ∈ A.dirs ∨ (A.dirent σ).firstCluster = cwd)

variable {g : Fat32Fs} {cwd : UInt32} {v v' : Volume} {A B : FileStore} {call : FsCall} {r : Int32}
  {a c d n x : UInt32} {l l' m : List UInt32} {σ τ : Slot} {h : Nat} {attr : UInt8}
  {counts : Set Slot}

/-! ## What the invariant says about the volume -/

theorem FatChain.mem_of_walk (geo : Geometry g) (chain : FatChain g v c m) (walk : v.Walk g c x) :
    x ∈ m := by
  induction walk with
  | here => exact chain.head_mem
  | @next x walk inRange ih =>
    obtain ⟨i, bound, rfl⟩ := List.getElem_of_mem ih
    rcases FatChain.fat_getElem chain bound with ⟨later, next⟩ | ⟨-, ends⟩
    · rw [next]
      exact List.getElem_mem later
    · exact absurd ends (geo.excl _ inRange)

/-- A directory that is found is the current one or one that is looked after. -/
theorem FileStore.Tree.of_inTree (tree : A.Tree g cwd) (consistent : A.Consistent g cwd)
    (fresh : ∀ σ ∈ counts, ∀ h, ¬ A.Truncating σ h) (inTree : A.volume.InTree g counts d) :
    d = cwd ∨ d ∈ A.dirs := by
  induction inTree with
  | root => exact tree.root.imp id And.left
  | @sub d l σ inTree chain member live counted directory nonzero ih =>
    rcases ih with rfl | inDirs
    · obtain rfl := Chain.unique consistent.geometry.excl chain consistent.chain
      have owned := (consistent.entries σ member live).resolve_left fun ⟨h, trunc⟩ =>
        fresh σ counted h trunc
      have kind := (tree.entries σ member live owned).resolve_left nonzero
      exact Or.inr (kind.mpr directory)
    · obtain ⟨-, -, listed⟩ := (tree.inside d inDirs l chain σ member live).resolve_left nonzero
      exact (listed directory).symm

/-- An entry has no cluster or a chain that belongs to it. -/
theorem FileStore.Tree.entry_owned (tree : A.Tree g cwd) (consistent : A.Consistent g cwd)
    (fresh : ∀ σ ∈ counts, ∀ h, ¬ A.Truncating σ h) (entry : A.volume.IsEntry g counts σ) :
    (A.dirent σ).firstCluster = 0 ∨
      (A.dirent σ).firstCluster ∈ A.heads ∧ A.own (A.dirent σ).firstCluster = some σ := by
  obtain ⟨live, counted, d, l, inTree, chain, member⟩ := entry
  rcases tree.of_inTree consistent fresh inTree with rfl | inDirs
  · obtain rfl := Chain.unique consistent.geometry.excl chain consistent.chain
    have owned := (consistent.entries σ member live).resolve_left fun ⟨h, trunc⟩ =>
      fresh σ counted h trunc
    exact owned.imp_right fun ⟨inHeads, _, owner⟩ => ⟨inHeads, owner⟩
  · exact (tree.inside d inDirs l chain σ member live).imp_right fun ⟨inHeads, owner, _⟩ =>
      ⟨inHeads, owner⟩

/-- **The tree is sound.** -/
theorem FileStore.Tree.sound (tree : A.Tree g cwd) (consistent : A.Consistent g cwd)
    (fresh : ∀ σ ∈ counts, ∀ h, ¬ A.Truncating σ h) : A.volume.Sound g counts := by
  have geo := consistent.geometry
  -- an entry whose chain can be walked has a chain of its own
  have owned {σ : Slot} {x : UInt32} (entry : A.volume.IsEntry g counts σ)
      (walk : A.volume.Walk g (A.dirent σ).firstCluster x) :
      (A.dirent σ).firstCluster ∈ A.heads ∧ A.own (A.dirent σ).firstCluster = some σ ∧
        ∃ m, FatChain g A.volume (A.dirent σ).firstCluster m ∧ x ∈ m := by
    have nonzero : (A.dirent σ).firstCluster ≠ 0 := by
      intro zero
      rw [zero] at walk
      induction walk with
      | here inRange => exact inRange.ne_zero rfl
      | next _ _ ih => exact ih
    obtain ⟨inHeads, owner⟩ := (tree.entry_owned consistent fresh entry).resolve_left nonzero
    obtain ⟨m, chain⟩ := consistent.separate.1 _ inHeads
    exact ⟨inHeads, owner, m, chain, FatChain.mem_of_walk geo chain walk⟩
  refine ⟨fun σ entry x walk => ?_, fun σ τ entryσ entryτ ne x walkσ walkτ => ?_⟩
  · obtain ⟨-, -, m, chain, member⟩ := owned entry walk
    exact FatChain.ne_free geo chain x member
  · obtain ⟨inHeadsσ, ownerσ, m, chainσ, memberσ⟩ := owned entryσ walkσ
    obtain ⟨inHeadsτ, ownerτ, m', chainτ, memberτ⟩ := owned entryτ walkτ
    refine consistent.separate.2 _ inHeadsσ _ inHeadsτ (fun same => ne ?_) m m' chainσ chainτ
      memberσ memberτ
    rw [same, ownerτ] at ownerσ
    exact (Option.some.inj ownerσ).symm

/-! ## The start of a run -/

/-- A volume in order: the root directory and every entry have chains of their own, the
current directory is one of the tree, and after its first end mark there are only end
marks. -/
structure WellFormedTree (g : Fat32Fs) (cwd : UInt32) (v : Volume) : Prop where
  root : ∃ l, FatChain g v g.rootDirFirstCluster l
  chains : ∀ σ, v.IsEntry g Set.univ σ → (v.dirent σ).firstCluster = 0 ∨
    ∃ m, FatChain g v (v.dirent σ).firstCluster m
  sound : v.Sound g Set.univ
  rootApart : ∀ σ, v.IsEntry g Set.univ σ → ∀ x, v.Walk g g.rootDirFirstCluster x →
    ¬ v.Walk g (v.dirent σ).firstCluster x
  current : v.InTree g Set.univ cwd
  ends : ∀ l, FatChain g v cwd l → v.EndMarked (g.dirSlots l)

/-- The entries of a volume. -/
def Volume.entriesOf (g : Fat32Fs) (v : Volume) : Set Slot := {σ | v.IsEntry g Set.univ σ}

theorem Volume.Walk.cons (inRange : g.InRange c) (walk : v.Walk g (v.fat c) x) : v.Walk g c x := by
  induction walk with
  | here valid => exact .next (.here inRange) valid
  | next _ valid ih => exact .next ih valid

theorem FatChain.walk (chain : FatChain g v c m) : ∀ x ∈ m, v.Walk g c x := by
  induction chain with
  | last inRange _ =>
    intro x member
    rw [List.mem_singleton.mp member]
    exact .here inRange
  | link inRange _ ih =>
    intro x member
    rcases List.mem_cons.mp member with rfl | later
    · exact .here inRange
    · exact .cons inRange (ih x later)

/-- A directory is the root directory or has an entry. -/
theorem Volume.InTree.dir_cases (inTree : v.InTree g Set.univ d) :
    d = g.rootDirFirstCluster ∨
      ∃ σ, v.IsEntry g Set.univ σ ∧ IsDirectoryAttr (v.dirent σ).attr ∧
        (v.dirent σ).firstCluster = d ∧ d ≠ 0 := by
  cases inTree with
  | root => exact Or.inl rfl
  | @sub d l σ inTree chain member live counted directory nonzero =>
    exact Or.inr ⟨σ, ⟨live, counted, d, l, inTree, chain, member⟩, directory, rfl, nonzero⟩

section Start

variable (wf : WellFormedTree g cwd v)
include wf

theorem WellFormedTree.entry_root (entry : v.IsEntry g Set.univ σ) :
    (v.dirent σ).firstCluster ≠ g.rootDirFirstCluster := by
  intro same
  obtain ⟨l, chain⟩ := wf.root
  have walk := FatChain.walk chain _ chain.head_mem
  refine wf.rootApart σ entry _ walk ?_
  rw [same]
  exact walk

/-- An entry is known by its first cluster. -/
theorem WellFormedTree.entry_unique (entry : v.IsEntry g Set.univ σ) (entry' : v.IsEntry g Set.univ τ)
    (nonzero : (v.dirent σ).firstCluster ≠ 0)
    (same : (v.dirent σ).firstCluster = (v.dirent τ).firstCluster) : σ = τ := by
  by_contra ne
  obtain ⟨m, chain⟩ := (wf.chains σ entry).resolve_left nonzero
  have walk := FatChain.walk chain _ chain.head_mem
  refine wf.sound.apart σ τ entry entry' ne _ walk ?_
  rw [← same]
  exact walk

/-- The entries have chains of their own. -/
theorem WellFormedTree.ownChains (chain : FatChain g v g.rootDirFirstCluster l) :
    OwnChains g v l (v.entriesOf g) where
  entry := by
    intro σ entry
    refine (wf.chains σ entry).imp_right fun ⟨m, chainσ⟩ => ⟨m, chainσ, fun x inRoot inM => ?_⟩
    exact wf.rootApart σ entry x (FatChain.walk chain x inRoot) (FatChain.walk chainσ x inM)
  apart := by
    intro σ entryσ τ entryτ ne m m' chainσ chainτ x inM inM'
    exact wf.sound.apart σ τ entryσ entryτ ne x (FatChain.walk chainσ x inM) (FatChain.walk chainτ x inM')

/-- Every directory of the tree has a chain. -/
theorem WellFormedTree.dir_chain (inTree : v.InTree g Set.univ d) : ∃ l, FatChain g v d l := by
  rcases inTree.dir_cases with rfl | ⟨σ, entry, -, rfl, nonzero⟩
  · exact wf.root
  · exact (wf.chains σ entry).resolve_left nonzero

/-- No directory lists itself. -/
theorem WellFormedTree.not_itself (inTree : v.InTree g Set.univ d) :
    ∀ l σ, FatChain g v d l → σ ∈ g.dirSlots l → (v.dirent σ).IsLive →
      (v.dirent σ).firstCluster ≠ d := by
  induction inTree with
  | root =>
    intro l σ chain member live
    exact wf.entry_root ⟨live, Set.mem_univ σ, _, l, .root, chain, member⟩
  | @sub d₀ l₀ σ₀ inTree₀ chain₀ member₀ live₀ counted directory nonzero ih =>
    intro l σ chain member live same
    have entry₀ : v.IsEntry g Set.univ σ₀ := ⟨live₀, counted, d₀, l₀, inTree₀, chain₀, member₀⟩
    have inTree := Volume.InTree.sub inTree₀ chain₀ member₀ live₀ counted directory nonzero
    have entry : v.IsEntry g Set.univ σ := ⟨live, Set.mem_univ σ, _, l, inTree, chain, member⟩
    obtain rfl := wf.entry_unique entry entry₀ (by rwa [same]) same
    -- the slot lies in the clusters of both directories, so they are the same one
    have here := FatChain.walk chain _ (mem_dirSlots.mp member).1
    have there := FatChain.walk chain₀ _ (mem_dirSlots.mp member₀).1
    rcases inTree₀.dir_cases with rfl | ⟨ρ, entryρ, -, firstρ, -⟩
    · exact wf.rootApart σ entry _ there here
    · by_cases sameEntry : ρ = σ
      · subst sameEntry
        exact ih l₀ ρ chain₀ member₀ live firstρ
      · rw [← firstρ] at there
        exact wf.sound.apart ρ σ entryρ entry sameEntry _ there here

/-- The directory of a slot is found by its entries only. -/
theorem WellFormedTree.dir_of_entry (entry : v.IsEntry g Set.univ σ)
    (inTree : v.InTree g Set.univ (v.dirent σ).firstCluster) : IsDirectoryAttr (v.dirent σ).attr := by
  rcases inTree.dir_cases with root | ⟨τ, entryτ, directory, same, nonzero⟩
  · exact absurd root (wf.entry_root entry)
  · obtain rfl := wf.entry_unique entryτ entry (by rwa [same]) same
    exact directory

/-- The store of a fresh volume in order: the chain of its current directory is `l`. -/
noncomputable def treeStore (g : Fat32Fs) (cwd : UInt32) (v : Volume) (l : List UInt32)
    (file : Nat → Fat32File) (opened : Nat → ShortName) : FileStore :=
  storeOf g.rootDirFirstCluster v l (v.entriesOf g) file opened {d | v.InTree g Set.univ d ∧ d ≠ cwd}

theorem WellFormedTree.consistent (geo : Geometry g) (chain : FatChain g v cwd l)
    (file : Nat → Fat32File) (closed : ∀ k, (file k).isOpen = false) (opened : Nat → ShortName) :
    (treeStore g cwd v l file opened).Consistent g cwd := by
  obtain ⟨rootChain, chainRoot⟩ := wf.root
  have own := wf.ownChains chainRoot
  refine ⟨geo, own.separate geo chainRoot, ?_, chain, wf.ends l chain, fun σ member live => Or.inr ?_,
    fun k isOpen => ?_, fun k _ isOpen => ?_⟩
  · rcases wf.current.dir_cases with rfl | ⟨σ, entry, -, first, nonzero⟩
    · exact Set.mem_insert _ _
    · exact Set.mem_insert_of_mem _ ⟨nonzero, σ, entry, first⟩
  · have entry : v.IsEntry g Set.univ σ := ⟨live, Set.mem_univ σ, cwd, l, wf.current, chain, member⟩
    by_cases zero : (v.dirent σ).firstCluster = 0
    · exact Or.inl zero
    · exact Or.inr ⟨Set.mem_insert_of_mem _ ⟨zero, σ, entry, rfl⟩,
        wf.not_itself wf.current l σ chain member live, own.ownOf_eq entry zero⟩
  · exact absurd isOpen (by simp [treeStore, storeOf, closed k])
  · exact absurd isOpen (by simp [treeStore, storeOf, closed k])

theorem WellFormedTree.tree (chain : FatChain g v cwd l) (file : Nat → Fat32File)
    (closed : ∀ k, (file k).isOpen = false) (opened : Nat → ShortName) :
    (treeStore g cwd v l file opened).Tree g cwd := by
  obtain ⟨rootChain, chainRoot⟩ := wf.root
  have own := wf.ownChains chainRoot
  refine ⟨?_, ?_, ?_, ?_, ?_⟩
  · by_cases here : g.rootDirFirstCluster = cwd
    · exact Or.inl here
    · refine Or.inr ⟨⟨.root, here⟩, ?_⟩
      cases owner : ownOf v (v.entriesOf g) g.rootDirFirstCluster with
      | none => exact owner
      | some σ =>
        obtain ⟨entry, first⟩ := ownOf_some owner
        exact absurd first (wf.entry_root entry)
  · rintro d ⟨inTree, notCwd⟩
    refine ⟨?_, notCwd⟩
    rcases inTree.dir_cases with rfl | ⟨σ, entry, -, first, nonzero⟩
    · exact Set.mem_insert _ _
    · exact Set.mem_insert_of_mem _ ⟨nonzero, σ, entry, first⟩
  · intro σ member live owned
    have entry : v.IsEntry g Set.univ σ := ⟨live, Set.mem_univ σ, cwd, l, wf.current, chain, member⟩
    by_cases zero : (v.dirent σ).firstCluster = 0
    · exact Or.inl zero
    · refine Or.inr ⟨fun inDirs => wf.dir_of_entry entry inDirs.1, fun directory => ⟨?_, ?_⟩⟩
      · exact .sub wf.current chain member live (Set.mem_univ σ) directory zero
      · exact wf.not_itself wf.current l σ chain member live
  · intro k isOpen
    exact absurd isOpen (by simp [treeStore, storeOf, closed k])
  · rintro d ⟨inTree, -⟩ m chainD σ member live
    have entry : v.IsEntry g Set.univ σ := ⟨live, Set.mem_univ σ, d, m, inTree, chainD, member⟩
    by_cases zero : (v.dirent σ).firstCluster = 0
    · exact Or.inl zero
    · refine Or.inr ⟨Set.mem_insert_of_mem _ ⟨zero, σ, entry, rfl⟩, own.ownOf_eq entry zero,
        fun directory => ?_⟩
      -- an entry of a directory, so its cluster is one of the tree
      have sub := Volume.InTree.sub inTree chainD member live (Set.mem_univ σ) directory zero
      exact (em ((v.dirent σ).firstCluster = cwd)).elim Or.inr fun ne => Or.inl ⟨sub, ne⟩

end Start

end QuantumKernel.Fat32
