import QuantumKernel.Fat32.Tree

/-! # The directory tree is preserved

Each part of `FileStore.Tree` is kept by every call of a careful caller that writes
nothing through a handle on a directory.
-/

namespace QuantumKernel.Fat32

open ByteStore LinkedTable BlockStore

variable {g : Fat32Fs} {cwd : UInt32} {v v' : Volume} {A B : FileStore} {call : FsCall} {r : Int32}
  {a c d n x : UInt32} {l l' m : List UInt32} {σ τ : Slot} {h : Nat} {attr : UInt8}

/-! ## What a call does to the chains in use -/

/-- The chain that a call may change. -/
def FileStore.Targets (g : Fat32Fs) (A : FileStore) (c : UInt32) : FsCall → Prop
  | .open _ (some path) _ | .unlink path =>
    ∃ σ, A.lookup g path = some σ ∧ (A.dirent σ).firstCluster = c
  | .write h _ _ => (A.file h).isOpen = true ∧ (A.file h).firstCluster = c
  | _ => False

/-- A call touches no chain in use but the current directory's and the one it is about. -/
theorem FileStore.Consistent.head_untouched (consistent : A.Consistent g cwd)
    (careful : Disciplined A.file A.opened call) (inHeads : c ∈ A.heads) (notCwd : c ≠ cwd)
    (chain : FatChain g A.volume c m) (member : x ∈ m) (other : ¬ A.Targets g c call) :
    ¬ A.Touches g x call := by
  have used := FatChain.ne_free consistent.geometry chain x member
  have out : x ∉ A.directory := fun inDir => consistent.apart inHeads notCwd chain inDir member
  -- the chain of another head has no cluster in common with this one
  have foreign {e : UInt32} {τ : Slot} (owned : A.Owned cwd e τ) (ne : e ≠ c) :
      ¬ A.volume.OnChain g e x := by
    rintro ⟨m', chain', member'⟩
    have nonzero := (chain'.cell_of_mem _ chain'.head_mem).ne_zero
    obtain ⟨inHeads', -, -⟩ := owned.resolve_left nonzero
    exact consistent.separate.2 e inHeads' c inHeads ne m' m chain' chain member' member
  cases call with
  | «open» h path flags =>
    cases path with
    | none => exact not_false
    | some path =>
      rintro (inDir | free | ⟨τ, found, onChain⟩)
      · exact out inDir
      · exact used free
      · exact foreign (consistent.owned_of_lookup found fun k under => (careful.2 k under).2)
          (fun same => other ⟨τ, found, same⟩) onChain
  | read h buffer size => exact not_false
  | write h data size =>
    rintro (free | ⟨isOpen, onChain⟩)
    · exact used free
    · exact foreign (consistent.handles h isOpen).owned (fun same => other ⟨isOpen, same⟩) onChain
  | seek h offset whence => exact not_false
  | close h => exact out
  | unlink path =>
    rintro (inDir | ⟨τ, found, onChain⟩)
    · exact out inDir
    · exact foreign (consistent.owned_of_lookup found fun k under => absurd under (careful k))
        (fun same => other ⟨τ, found, same⟩) onChain
  | mkdir path =>
    rintro (inDir | free)
    · exact out inDir
    · exact used free

/-- Nothing is written through a handle on a directory. -/
def FileStore.SparesDirectories (A : FileStore) : FsCall → Prop
  | .write h _ _ => (A.file h).isOpen = true → ¬ IsDirectoryAttr (A.file h).attr
  | _ => True

/-- The handle that is written to has a file's chain, or none yet. -/
theorem FileStore.Tree.written_not_dir (tree : A.Tree g cwd) (isOpen : (A.file h).isOpen = true)
    (file : ¬ IsDirectoryAttr (A.file h).attr)
    (source : (A.file h).firstCluster = 0 ∧ l = [] ∨ (A.file h).firstCluster = a ∧ FatChain g A.volume a l)
    (grown : Grown g A.volume v' a l l') (consistent : A.Consistent g cwd) : a ∉ A.dirs := by
  rcases source with ⟨-, rfl⟩ | ⟨same, chain⟩
  · have free := grown.fresh a grown.chain.head_mem List.not_mem_nil
    exact fun inDirs => consistent.fresh_not_head free (tree.head a inDirs).1
  · have nonzero := (chain.cell_of_mem _ chain.head_mem).ne_zero
    have kind := tree.handles h isOpen
    rw [same] at kind
    exact fun inDirs => file ((kind.resolve_left nonzero).mp inDirs)

/-- A directory that is still looked after has the same clusters and the same entries. -/
theorem FileStore.Tree.dir_sameAt (tree : A.Tree g cwd) (consistent : A.Consistent g cwd)
    (careful : Disciplined A.file A.opened call) (spares : A.SparesDirectories call)
    (next : A.Next g cwd call r B) (inDirs : d ∈ A.dirs) (still : d ∈ B.dirs)
    (chain : FatChain g A.volume d l) (member : x ∈ l) : A.volume.SameAt B.volume x := by
  obtain ⟨inHeads, notCwd⟩ := tree.head d inDirs
  by_cases target : A.Targets g d call
  · cases next with
    | openNull | openFails | openFound | read | writeFails | seek | closeFails | unlinkFails
      | mkdirFails => exact Volume.SameAt.refl _ x
    | openTruncates h path flags σ m found trunc chainF =>
      obtain ⟨τ, foundτ, same⟩ := target
      obtain rfl := Option.some.inj (found.symm.trans foundτ)
      exact absurd same.symm still.2
    | openCreates h path flags n v' l' σ absent | openLosesEntry h path flags n v' l' σ absent =>
      obtain ⟨τ, foundτ, -⟩ := target
      rw [absent] at foundτ
      cases foundτ
    | wrote h data size a n l l' v' file' isOpen source inRange few first advanced wrote =>
      have file := spares isOpen
      have kind := tree.handles h isOpen
      rw [target.2] at kind
      have nonzero := (chain.cell_of_mem _ chain.head_mem).ne_zero
      exact absurd ((kind.resolve_left nonzero).mp inDirs) file
    | closed => cases target
    | unlinkedEmpty path σ found empty =>
      obtain ⟨τ, foundτ, same⟩ := target
      obtain rfl := Option.some.inj (found.symm.trans foundτ)
      exact absurd (same.symm.trans empty) (chain.cell_of_mem _ chain.head_mem).ne_zero
    | unlinked path σ m found chainF =>
      obtain ⟨τ, foundτ, same⟩ := target
      obtain rfl := Option.some.inj (found.symm.trans foundτ)
      exact absurd same.symm still.2
    | mkdirMakes => cases target
  · exact next.frame consistent.geometry
      (consistent.head_untouched careful inHeads notCwd chain member target)

/-- A call keeps the owners of chains that are in use before and after it. -/
theorem FileStore.Next.own_kept (next : A.Next g cwd call r B) (consistent : A.Consistent g cwd)
    (inHeads : c ∈ A.heads) (owner : B.own c = some σ) : A.own c = some σ := by
  cases next with
  | openNull | openFails | openFound | openLosesEntry | read | writeFails | seek | closeFails | closed
    | unlinkFails | unlinkedEmpty | mkdirFails => exact owner
  | openTruncates | unlinked => exact (disown_eq_some.mp owner).1
  | openCreates h path flags n v' l' τ absent creat inRange free
    | mkdirMakes path n v' l' τ inRange free =>
    have ne : c ≠ n := by
      rintro rfl
      exact consistent.fresh_not_head free inHeads
    simpa only [Function.update_of_ne ne] using owner
  | wrote h data size a n l l' v' file' isOpen source inRange few first advanced wrote =>
    by_cases same : c = a
    · subst same
      obtain ⟨origin, -⟩ := consistent.written_chain (consistent.handles h isOpen).owned source wrote.grown
      obtain ⟨-, ownerA, -⟩ := origin.resolve_left fun new => new.1 inHeads
      rw [ownerA]
      simpa only [Function.update_self] using owner
    · simpa only [Function.update_of_ne same] using owner

/-- A chain in use before and after a call is a directory's before and after it. -/
theorem FileStore.Next.dirs_iff (next : A.Next g cwd call r B) (consistent : A.Consistent g cwd)
    (inHeads : c ∈ A.heads) (still : c ∈ B.heads) : c ∈ B.dirs ↔ c ∈ A.dirs := by
  cases next with
  | openNull | openFails | openFound | openCreates | openLosesEntry | read | writeFails | wrote | seek
    | closeFails | closed | unlinkFails | unlinkedEmpty | mkdirFails => rfl
  | openTruncates | unlinked => exact ⟨And.left, fun inDirs => ⟨inDirs, still.2⟩⟩
  | mkdirMakes path n v' l' τ inRange free =>
    have ne : c ≠ n := by
      rintro rfl
      exact consistent.fresh_not_head free inHeads
    exact ⟨fun inDirs => inDirs.resolve_left ne, Or.inr⟩

/-! ## The invariant is preserved -/

theorem FileStore.Tree.head_next (tree : A.Tree g cwd) (consistent : A.Consistent g cwd)
    (next : A.Next g cwd call r B) : ∀ d ∈ B.dirs, d ∈ B.heads ∧ d ≠ cwd := by
  intro d inDirs
  cases next with
  | openNull | openFails | openFound | openLosesEntry | read | writeFails | seek | closeFails | closed
    | unlinkFails | unlinkedEmpty | mkdirFails => exact tree.head d inDirs
  | openTruncates | unlinked =>
    obtain ⟨inHeads, notCwd⟩ := tree.head d inDirs.1
    exact ⟨⟨inHeads, inDirs.2⟩, notCwd⟩
  | openCreates | wrote =>
    obtain ⟨inHeads, notCwd⟩ := tree.head d inDirs
    exact ⟨Set.mem_insert_of_mem _ inHeads, notCwd⟩
  | mkdirMakes path n v' l' τ inRange free =>
    rcases inDirs with rfl | inDirs
    · refine ⟨Set.mem_insert d _, ?_⟩
      rintro rfl
      exact consistent.fresh_not_head free consistent.directory
    · obtain ⟨inHeads, notCwd⟩ := tree.head d inDirs
      exact ⟨Set.mem_insert_of_mem _ inHeads, notCwd⟩

theorem FileStore.Tree.root_next (tree : A.Tree g cwd) (consistent : A.Consistent g cwd)
    (careful : Disciplined A.file A.opened call) (next : A.Next g cwd call r B) :
    g.rootDirFirstCluster = cwd ∨
      g.rootDirFirstCluster ∈ B.dirs ∧ B.own g.rootDirFirstCluster = none := by
  refine tree.root.imp_right fun ⟨inDirs, nobody⟩ => ?_
  obtain ⟨inHeads, -⟩ := tree.head _ inDirs
  -- a chain that an entry names has an owner
  have owned_ne {c : UInt32} {τ : Slot} (owned : A.Owned cwd c τ) (nonzero : c ≠ 0) :
      g.rootDirFirstCluster ≠ c := by
    rintro rfl
    obtain ⟨-, -, owner⟩ := owned.resolve_left nonzero
    rw [nobody] at owner
    cases owner
  have forgets (m : List UInt32) : disown g A.own m g.rootDirFirstCluster = none := by
    simp [disown, nobody]
  cases next with
  | openNull | openFails | openFound | openLosesEntry | read | writeFails | seek | closeFails | closed
    | unlinkFails | unlinkedEmpty | mkdirFails => exact ⟨inDirs, nobody⟩
  | openTruncates h path flags σ m found trunc chain =>
    have owned := consistent.owned_of_lookup found fun k under => (careful.2 k under).2
    exact ⟨⟨inDirs, owned_ne owned (chain.cell_of_mem _ chain.head_mem).ne_zero⟩, forgets m⟩
  | unlinked path σ m found chain =>
    have owned := consistent.owned_of_lookup found fun k under => absurd under (careful k)
    exact ⟨⟨inDirs, owned_ne owned (chain.cell_of_mem _ chain.head_mem).ne_zero⟩, forgets m⟩
  | openCreates h path flags n v' l' τ absent creat inRange free
    | mkdirMakes path n v' l' τ inRange free =>
    have ne : g.rootDirFirstCluster ≠ n := by
      rintro rfl
      exact consistent.fresh_not_head free inHeads
    simp only [Function.update_of_ne ne, nobody, and_true]
    first
    | exact inDirs
    | exact Or.inr inDirs
  | wrote h data size a n l l' v' file' isOpen source inRange few first advanced wrote =>
    have ne : g.rootDirFirstCluster ≠ a := by
      rintro rfl
      obtain ⟨origin, -⟩ := consistent.written_chain (consistent.handles h isOpen).owned source wrote.grown
      obtain ⟨-, owner, -⟩ := origin.resolve_left fun new => new.1 inHeads
      rw [nobody] at owner
      cases owner
    exact ⟨inDirs, by simpa only [Function.update_of_ne ne] using nobody⟩

/-- The chain that an entry of another directory names keeps its owner. -/
theorem FileStore.Tree.owner_next (tree : A.Tree g cwd) (consistent : A.Consistent g cwd)
    (careful : Disciplined A.file A.opened call) (next : A.Next g cwd call r B) (inDirs : d ∈ A.dirs)
    (still : d ∈ B.dirs) (chain : FatChain g A.volume d l) (member : σ ∈ g.dirSlots l)
    (inHeads : c ∈ A.heads) (owner : A.own c = some σ) :
    c ∈ B.heads ∧ B.own c = some σ ∧ (c ∈ A.dirs → c ∈ B.dirs) := by
  obtain ⟨headD, notCwd⟩ := tree.head d inDirs
  have apart := consistent.apart headD notCwd chain
  -- the slot is not in the current directory, so no lookup and no handle leads to it
  have foreign {τ : Slot} (here : τ ∈ A.slots g) : A.own c ≠ some τ := by
    intro same
    obtain rfl := Option.some.inj (owner.symm.trans same)
    exact apart (mem_dirSlots.mp here).1 (mem_dirSlots.mp member).1
  have released {e : UInt32} {τ : Slot} {m : List UInt32} (here : τ ∈ A.slots g)
      (owned : A.Owned cwd e τ) (chainE : FatChain g A.volume e m) (ne : d ≠ e) :
      c ≠ e ∧ disown g A.own m c = some σ := by
    obtain ⟨headE, -, ownerE⟩ :=
      owned.resolve_left (chainE.cell_of_mem _ chainE.head_mem).ne_zero
    refine ⟨?_, disown_eq_some.mpr ⟨owner, fun inM => ?_⟩⟩
    · rintro rfl
      exact foreign here ownerE
    · exact consistent.separate.2 d headD e headE ne l m chain chainE (mem_dirSlots.mp member).1
        (mem_dirSlots.mp inM).1
  cases next with
  | openNull | openFails | openFound | openLosesEntry | read | writeFails | seek | closeFails | closed
    | unlinkFails | unlinkedEmpty | mkdirFails => exact ⟨inHeads, owner, id⟩
  | openTruncates h path flags τ m found trunc chainF =>
    obtain ⟨ne, kept⟩ := released (FileStore.lookup_names found).1
      (consistent.owned_of_lookup found fun k under => (careful.2 k under).2) chainF still.2
    exact ⟨⟨inHeads, ne⟩, kept, fun inDirs => ⟨inDirs, ne⟩⟩
  | unlinked path τ m found chainF =>
    obtain ⟨ne, kept⟩ := released (FileStore.lookup_names found).1
      (consistent.owned_of_lookup found fun k under => absurd under (careful k)) chainF still.2
    exact ⟨⟨inHeads, ne⟩, kept, fun inDirs => ⟨inDirs, ne⟩⟩
  | openCreates h path flags n v' l' τ absent creat inRange free =>
    have ne : c ≠ n := by
      rintro rfl
      exact consistent.fresh_not_head free inHeads
    exact ⟨Or.inr inHeads, (Function.update_of_ne ne _ _).trans owner, id⟩
  | mkdirMakes path n v' l' τ inRange free =>
    have ne : c ≠ n := by
      rintro rfl
      exact consistent.fresh_not_head free inHeads
    exact ⟨Or.inr inHeads, (Function.update_of_ne ne _ _).trans owner, Or.inr⟩
  | wrote h data size a n l l' v' file' isOpen source inRange few first advanced wrote =>
    have ne : c ≠ a := by
      rintro rfl
      obtain ⟨origin, -⟩ := consistent.written_chain (consistent.handles h isOpen).owned source wrote.grown
      exact foreign (consistent.handles h isOpen).member (origin.resolve_left fun new => new.1 inHeads).2.1
    exact ⟨Or.inr inHeads, (Function.update_of_ne ne _ _).trans owner, id⟩

/-- A directory that is new has no entries. -/
theorem FileStore.Next.new_dir (next : A.Next g cwd call r B) (consistent : A.Consistent g cwd)
    (inDirs : d ∈ B.dirs) (new : d ∉ A.dirs) (chain : FatChain g B.volume d l)
    (member : σ ∈ g.dirSlots l) : (B.dirent σ).IsEnd := by
  cases next with
  | openNull | openFails | openFound | openCreates | openLosesEntry | read | writeFails | wrote | seek
    | closeFails | closed | unlinkFails | unlinkedEmpty | mkdirFails => exact absurd inDirs new
  | openTruncates | unlinked => exact absurd inDirs.1 new
  | mkdirMakes path n v' l' τ inRange free inserted =>
    obtain rfl := inDirs.resolve_right new
    have geo := consistent.geometry
    have notIn := (fresh_directory geo consistent.chain free).2
    have own : FatChain g v' d [d] := (inserted.grown.other_chain geo (fresh_chain (v := A.volume) inRange)
      (List.singleton_disjoint.mpr notIn)).1
    obtain rfl := Chain.unique geo.excl chain own
    have here : σ.1 = d := List.mem_singleton.mp (mem_dirSlots.mp member).1
    rw [FileStore.dirent, Volume.dirent, here, Volume.setData_data, Function.update_self]
    exact direntAt_blank fun _ => rfl

theorem FileStore.Tree.inside_next (tree : A.Tree g cwd) (consistent : A.Consistent g cwd)
    (careful : Disciplined A.file A.opened call) (spares : A.SparesDirectories call)
    (next : A.Next g cwd call r B) :
    ∀ d ∈ B.dirs, ∀ l, FatChain g B.volume d l → ∀ σ ∈ g.dirSlots l, (B.dirent σ).IsLive →
      (B.dirent σ).firstCluster = 0 ∨
        (B.dirent σ).firstCluster ∈ B.heads ∧ B.own (B.dirent σ).firstCluster = some σ ∧
          (IsDirectoryAttr (B.dirent σ).attr →
            (B.dirent σ).firstCluster ∈ B.dirs ∨ (B.dirent σ).firstCluster = cwd) := by
  intro d still l chain σ member live
  by_cases inDirs : d ∈ A.dirs
  · obtain ⟨m, chainA⟩ := consistent.separate.1 d (tree.head d inDirs).1
    have same (x : UInt32) (inM : x ∈ m) :=
      tree.dir_sameAt consistent careful spares next inDirs still chainA inM
    obtain rfl := Chain.unique consistent.geometry.excl chain (chainA.congr fun x inM => (same x inM).1)
    have entry : B.dirent σ = A.dirent σ := Volume.dirent_congr (fun x inM => (same x inM).2) σ member
    rw [entry] at live ⊢
    refine (tree.inside d inDirs l chainA σ member live).imp_right ?_
    rintro ⟨inHeads, owner, listed⟩
    obtain ⟨inHeads', owner', dirs⟩ :=
      tree.owner_next consistent careful next inDirs still chainA member inHeads owner
    exact ⟨inHeads', owner', fun directory => (listed directory).imp_left dirs⟩
  · exact absurd (next.new_dir consistent still inDirs chain member) live.1

/-- The kind of a chain that is in use before and after a call. -/
theorem FileStore.Kind.next (kind : A.Kind attr c) (next : A.Next g cwd call r B)
    (consistent : A.Consistent g cwd) (before : c = 0 ∨ c ∈ A.heads) (after : c = 0 ∨ c ∈ B.heads) :
    B.Kind attr c := by
  rcases before with zero | before
  · exact Or.inl zero
  · rcases after with zero | after
    · exact Or.inl zero
    · exact kind.imp_right (next.dirs_iff consistent before after).trans

theorem FileStore.Owned.in_use (owned : A.Owned cwd c σ) : c = 0 ∨ c ∈ A.heads :=
  owned.imp_right And.left

/-- An entry that a call left alone. -/
theorem FileStore.Tree.entry_kept (tree : A.Tree g cwd) (consistent : A.Consistent g cwd)
    (next : A.Next g cwd call r B) (old : σ ∈ A.slots g) (live : (A.dirent σ).IsLive)
    (used : (A.dirent σ).firstCluster = 0 ∨ (A.dirent σ).firstCluster ∈ A.heads)
    (owned : B.Owned cwd (A.dirent σ).firstCluster σ) :
    B.Kind (A.dirent σ).attr (A.dirent σ).firstCluster := by
  refine FileStore.Kind.next (tree.entries σ old live ?_) next consistent used owned.in_use
  rcases owned with zero | ⟨-, notCwd, owner⟩
  · exact Or.inl zero
  · refine used.imp_right fun inHeads => ⟨inHeads, notCwd, next.own_kept consistent inHeads owner⟩

theorem FileStore.Tree.handles_next (tree : A.Tree g cwd) (consistent : A.Consistent g cwd)
    (careful : Disciplined A.file A.opened call) (spares : A.SparesDirectories call)
    (next : A.Next g cwd call r B) :
    ∀ k, (B.file k).isOpen = true → B.Kind (B.file k).attr (B.file k).firstCluster := by
  have consistentB := next.consistent consistent careful
  -- a handle whose attributes and first cluster are those from before
  have kept {k : Nat} (openB : (B.file k).isOpen = true) (openA : (A.file k).isOpen = true)
      (attr : (B.file k).attr = (A.file k).attr)
      (first : (B.file k).firstCluster = (A.file k).firstCluster) :
      B.Kind (B.file k).attr (B.file k).firstCluster := by
    have owned := (consistentB.handles k openB).owned
    rw [attr, first] at *
    exact FileStore.Kind.next (tree.handles k openA) next consistent
      (consistent.handles k openA).owned.in_use owned.in_use
  have other {k : Nat} (same : B.file k = A.file k) (openB : (B.file k).isOpen = true) :
      B.Kind (B.file k).attr (B.file k).firstCluster :=
    kept openB (same ▸ openB) (congrArg Fat32File.attr same) (congrArg Fat32File.firstCluster same)
  intro k openB
  by_cases about : call.handle = some k
  case neg => exact other (next.other_handle about) openB
  cases next with
  | openNull | writeFails | closeFails => exact other rfl openB
  | unlinkFails | unlinkedEmpty | unlinked | mkdirFails | mkdirMakes => cases about
  | openFails h | openLosesEntry h =>
    obtain rfl := Option.some.inj about
    simp only [Function.update_self, Fat32File.zero] at openB
    cases openB
  | openFound h path flags σ found keeps =>
    obtain rfl := Option.some.inj about
    obtain ⟨member, live, -⟩ := FileStore.lookup_names found
    simp only [Function.update_self, handleFor_attr, handleFor_firstCluster]
    exact tree.entries σ member live
      (consistent.owned_of_lookup found fun k under => (careful.2 k under).2)
  | openTruncates h path flags σ m found trunc chain =>
    obtain rfl := Option.some.inj about
    simp only [Function.update_self, truncatedHandle_firstCluster]
    exact Or.inl rfl
  | openCreates h path flags n v' l' σ absent creat inRange free =>
    obtain rfl := Option.some.inj about
    simp only [Function.update_self, handleFor_attr, handleFor_firstCluster, newEntry_firstCluster]
    have plain : ¬ IsDirectoryAttr fat32AttrArchive := by decide
    refine Or.inr (iff_of_false (fun inDirs => ?_) plain)
    exact consistent.fresh_not_head free (tree.head n inDirs).1
  | read h =>
    obtain rfl := Option.some.inj about
    have openA : (A.file h).isOpen = true := by simpa only [Function.update_self] using openB
    refine kept openB openA ?_ ?_ <;> simp only [Function.update_self]
  | wrote h data size a n l l' v' f isOpen source inRange few first advanced wrote =>
    obtain rfl := Option.some.inj about
    have attr : f.attr = (A.file h).attr := by
      rw [advanced.rest]
    simp only [Function.update_self, attr, first]
    exact Or.inr (iff_of_false (tree.written_not_dir isOpen (spares isOpen) source wrote.grown consistent)
      (spares isOpen))
  | seek h offset whence =>
    obtain rfl := Option.some.inj about
    have same := fat32Seek_same (A.file h) offset whence
    have openA : (A.file h).isOpen = true := by
      simp only [Function.update_self, same.isOpen] at openB
      exact openB
    refine kept openB openA ?_ ?_ <;> simp only [Function.update_self]
    · exact same.attr openA
    · exact same.firstCluster openA
  | closed h =>
    obtain rfl := Option.some.inj about
    simp only [Function.update_self] at openB
    cases openB

@[simp] theorem Volume.freeAll_dirent (v : Volume) (l : List UInt32) (σ : Slot) :
    (v.freeAll l).dirent σ = v.dirent σ := rfl

/-- The live entries after an insertion. -/
theorem Inserted.live_cases {entry : Fat32Dirent} (inserted : Inserted g v v' a l l' σ entry)
    (member : τ ∈ g.dirSlots l') (live : (v'.dirent τ).IsLive) :
    τ = σ ∧ v'.dirent τ = entry ∨ τ ≠ σ ∧ τ ∈ g.dirSlots l ∧ v'.dirent τ = v.dirent τ := by
  by_cases here : τ = σ
  · exact Or.inl ⟨here, here ▸ inserted.holds⟩
  · by_cases old : τ ∈ g.dirSlots l
    · exact Or.inr ⟨here, old, inserted.kept τ old here⟩
    · exact absurd (inserted.blank τ member old here) live.1

/-- The owner of a chain that was just recorded is the only one. -/
theorem FileStore.Owned.used_before (owned : B.Owned cwd c τ) (heads : B.heads = insert n A.heads)
    (own : B.own = Function.update A.own n (some σ)) (ne : τ ≠ σ) : c = 0 ∨ c ∈ A.heads := by
  refine owned.imp_right ?_
  rintro ⟨inHeads, -, owner⟩
  rw [heads] at inHeads
  refine inHeads.resolve_left fun same => ?_
  rw [own, same, Function.update_self] at owner
  exact ne (Option.some.inj owner).symm

theorem FileStore.Tree.entries_next (tree : A.Tree g cwd) (consistent : A.Consistent g cwd)
    (spares : A.SparesDirectories call) (next : A.Next g cwd call r B) :
    ∀ τ ∈ B.slots g, (B.dirent τ).IsLive → B.Owned cwd (B.dirent τ).firstCluster τ →
      B.Kind (B.dirent τ).attr (B.dirent τ).firstCluster := by
  have geo := consistent.geometry
  have frame := fun x => next.frame (x := x) geo
  intro τ member live owned
  -- an entry that was there before, with its first cluster in use then as well
  have kept (old : τ ∈ A.slots g) (same : B.dirent τ = A.dirent τ)
      (used : (A.dirent τ).firstCluster = 0 ∨ (A.dirent τ).firstCluster ∈ A.heads) :
      B.Kind (B.dirent τ).attr (B.dirent τ).firstCluster := by
    rw [same] at live owned ⊢
    exact tree.entry_kept consistent next old live used owned
  cases next with
  | openNull | openFails | openFound | read | writeFails | seek | closeFails | unlinkFails | mkdirFails =>
    exact kept member rfl owned.in_use
  | openTruncates => exact kept member rfl (owned.in_use.imp_right And.left)
  | openCreates h path flags n v' l' σ absent creat inRange free inserted notDead =>
    rcases inserted.live_cases member live with ⟨-, new⟩ | ⟨ne, old, same⟩
    · -- the entry of a new file; its cluster was free before
      have plain : ¬ IsDirectoryAttr fat32AttrArchive := by decide
      have notDir : n ∉ A.dirs := fun inDirs =>
        consistent.fresh_not_head free (tree.head n inDirs).1
      simp only [FileStore.dirent, new, newEntry_firstCluster]
      exact Or.inr (iff_of_false notDir plain)
    · have used := owned.used_before rfl rfl ne
      simp only [FileStore.dirent, same] at used
      exact kept old same used
  | openLosesEntry h path flags n v' l' σ absent inRange free inserted dead =>
    rcases inserted.live_cases member live with ⟨-, new⟩ | ⟨-, old, same⟩
    · have liveV : (v'.dirent τ).IsLive := live
      rw [new] at liveV
      exact absurd dead liveV.2.1
    · have used := owned.in_use
      simp only [FileStore.dirent, Volume.freeAll_dirent, same] at used
      exact kept old ((Volume.freeAll_dirent v' [n] τ).trans same) used
  | wrote h data size a n l l' v' f isOpen source inRange few first advanced wrote =>
    have same : v'.dirent τ = A.volume.dirent τ :=
      Volume.dirent_congr (fun x inDir => (frame x
        (consistent.directory_untouched inDir (some data) size)).2) τ member
    by_cases used : (A.dirent τ).firstCluster = 0 ∨ (A.dirent τ).firstCluster ∈ A.heads
    · exact kept member same used
    · -- the entry is that of the file, which just got its first cluster
      have notDir := tree.written_not_dir isOpen (spares isOpen) source wrote.grown consistent
      obtain ⟨unset, unused⟩ := not_or.mp used
      simp only [FileStore.dirent, same] at owned ⊢
      obtain ⟨inHeads, -, owner⟩ := owned.resolve_left unset
      have first := inHeads.resolve_right unused
      simp only [first, Function.update_self] at owner ⊢
      have file := spares isOpen
      rw [(consistent.handles h isOpen).attr, Option.some.inj owner] at file
      exact Or.inr (iff_of_false notDir file)
  | closed h isOpen inDir =>
    have edited := closeAt_edited (v := A.volume) geo inDir (A.file h)
    by_cases here : τ = (A.file h).slot
    · subst here
      -- the entry takes its first cluster from the handle
      have kind := tree.handles h isOpen
      rw [(consistent.handles h isOpen).attr] at kind
      simp only [FileStore.dirent, edited.holds, closedEntry_firstCluster]
      exact kind
    · have same := edited.kept _ τ member here
      have used := owned.in_use
      simp only [FileStore.dirent, same] at used
      exact kept member same used
  | unlinkedEmpty path σ found empty =>
    have edited := eraseAt_edited (v := A.volume) geo (FileStore.lookup_names found).1
    by_cases here : τ = σ
    · subst here
      simp only [FileStore.dirent, edited.holds] at live
      exact absurd live (unlinkedEntry_deleted _).not_live
    · have same := edited.kept _ τ member here
      have used := owned.in_use
      simp only [FileStore.dirent, same] at used
      exact kept member same used
  | unlinked path σ m found chain =>
    have edited := eraseAt_edited (v := A.volume.freeAll m) geo (FileStore.lookup_names found).1
    by_cases here : τ = σ
    · subst here
      simp only [FileStore.dirent, edited.holds] at live
      exact absurd live (unlinkedEntry_deleted _).not_live
    · have same := edited.kept _ τ member here
      have used := owned.in_use.imp_right And.left
      simp only [FileStore.dirent, same] at used
      exact kept member same used
  | mkdirMakes path n v' l' σ inRange free inserted =>
    have out := consistent.fresh_outside inRange free inserted
    -- clearing the new cluster changes no entry of the current directory
    have blank : (v'.setData n fun _ => 0).dirent τ = v'.dirent τ := by
      refine Volume.dirent_congr (fun x inDir => ?_) τ member
      rw [Volume.setData_data, Function.update_of_ne]
      rintro rfl
      exact out inDir
    simp only [FileStore.dirent, blank] at live
    rcases inserted.live_cases member live with ⟨-, new⟩ | ⟨ne, old, same⟩
    · have directory : IsDirectoryAttr fat32AttrDirectory := by decide
      simp only [FileStore.dirent, blank, new, newEntry_firstCluster]
      exact Or.inr (iff_of_true (Set.mem_insert n _) directory)
    · have used := owned.used_before rfl rfl ne
      simp only [FileStore.dirent, blank, same] at used
      exact kept old (blank.trans same) used

/-- **One call keeps the tree.** -/
theorem FileStore.Tree.next (tree : A.Tree g cwd) (consistent : A.Consistent g cwd)
    (careful : Disciplined A.file A.opened call) (spares : A.SparesDirectories call)
    (next : A.Next g cwd call r B) : B.Tree g cwd where
  root := tree.root_next consistent careful next
  head := tree.head_next consistent next
  entries := tree.entries_next consistent spares next
  handles := tree.handles_next consistent careful spares next
  inside := tree.inside_next consistent careful spares next

end QuantumKernel.Fat32
