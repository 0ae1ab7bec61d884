import QuantumKernel.Fat32.TreeSteps

/-! # Directories are changed by directory operations only

`DirectoryKept` says what calls on files may do to a directory: its clusters stay where they
are, and each of its slots keeps its bytes, gets the entry of a new file, or holds the entry of
a file whose size or first cluster was recorded.  `fat32_open`, `fat32_write` and `fat32_close`
do not look at the attribute of an entry, so a call may do more through a handle on a directory;
`FileStore.OnFiles` names the calls that do not.
-/

namespace QuantumKernel.Fat32

open ByteStore LinkedTable BlockStore

/-- An entry that `fat32_open` writes for a new file. -/
def IsNewFile (entry : Fat32Dirent) : Prop :=
  ∃ name first, entry = newEntry name fat32AttrArchive first

/-- What calls on files do to a slot of a directory. -/
inductive EntryKept (v v' : Volume) (σ : Slot) : Prop
  | same : (∀ i < 32, v'.data σ.1 (σ.2.toNat + i) = v.data σ.1 (σ.2.toNat + i)) → EntryKept v v' σ
  | inserted : reusable (v.dirent σ) = true → IsNewFile (v'.dirent σ) → EntryKept v v' σ
  | updated : (v.dirent σ).IsLive → ¬ IsDirectoryAttr (v.dirent σ).attr →
      v'.dirent σ = { v.dirent σ with
        fileSize := (v'.dirent σ).fileSize
        firstClusterHigh := (v'.dirent σ).firstClusterHigh
        firstClusterLow := (v'.dirent σ).firstClusterLow } → EntryKept v v' σ

/-- The directory `d` with clusters `l` lost no cluster, and its slots were kept.  What it
gained are unused slots and new files. -/
structure DirectoryKept (g : Fat32Fs) (v v' : Volume) (d : UInt32) (l : List UInt32) : Prop where
  chain : ∃ l', FatChain g v' d l' ∧ l <+: l' ∧
    ∀ σ ∈ g.dirSlots l', σ ∉ g.dirSlots l → (v'.dirent σ).IsEnd ∨ IsNewFile (v'.dirent σ)
  allocated : ∀ x ∈ l, v'.fat x ≠ fat32FreeCluster
  slots : ∀ σ ∈ g.dirSlots l, EntryKept v v' σ

/-- A call that does not truncate a directory, writes nothing through a handle on one, and is
no directory operation. -/
def FileStore.OnFiles (g : Fat32Fs) (A : FileStore) : FsCall → Prop
  | .open _ (some path) flags => hasFlag flags fat32OTrunc = true → ∀ σ, A.lookup g path = some σ →
      IsDirectoryAttr (A.dirent σ).attr → ¬ 2 ≤ (A.dirent σ).firstCluster
  | .write h _ _ => (A.file h).isOpen = true → ¬ IsDirectoryAttr (A.file h).attr
  | .unlink _ | .mkdir _ => False
  | _ => True

/-- What an open handle on a directory would record is what its entry holds. -/
def FileStore.DirHandles (A : FileStore) : Prop :=
  ∀ h, (A.file h).isOpen = true → IsDirectoryAttr (A.file h).attr →
    closedEntry (A.dirent (A.file h).slot) (A.file h) = A.dirent (A.file h).slot ∧
      (hasFlag (A.file h).flags fat32OTrunc = true → (A.file h).firstCluster = 0)

variable {g : Fat32Fs} {cwd : UInt32} {v v' : Volume} {A B : FileStore} {call : FsCall} {r : Int32}
  {a c d n x : UInt32} {l l' m : List UInt32} {σ τ : Slot} {h : Nat}

theorem FileStore.OnFiles.spares (onFiles : A.OnFiles g call) : A.SparesDirectories call := by
  cases call with
  | write => exact onFiles
  | «open» | read | seek | close | unlink | mkdir => trivial

/-! ## Slots -/

/-- An entry determines the bytes of its slot. -/
theorem direntAt_inj {b b' : Bytes} {o o' : Nat} (same : direntAt b o = direntAt b' o') :
    ∀ i < 32, b (o + i) = b' (o' + i) := by
  have name := congrArg Fat32Dirent.name same
  have attr : b (o + 11) = b' (o' + 11) := congrArg Fat32Dirent.attr same
  have reserved : b (o + 12) = b' (o' + 12) := congrArg Fat32Dirent.ntReserved same
  have tenth : b (o + 13) = b' (o' + 13) := congrArg Fat32Dirent.createTimeTenth same
  have createTime := load16_inj (congrArg Fat32Dirent.createTime same)
  have createDate := load16_inj (congrArg Fat32Dirent.createDate same)
  have accessDate := load16_inj (congrArg Fat32Dirent.accessDate same)
  have high := load16_inj (congrArg Fat32Dirent.firstClusterHigh same)
  have writeTime := load16_inj (congrArg Fat32Dirent.writeTime same)
  have writeDate := load16_inj (congrArg Fat32Dirent.writeDate same)
  have low := load16_inj (congrArg Fat32Dirent.firstClusterLow same)
  have size := load32_inj (congrArg Fat32Dirent.fileSize same)
  simp only [Nat.add_assoc] at createTime createDate accessDate high writeTime writeDate low size
  -- byte `i` belongs to the field that starts at `start`
  have within {start width : Nat}
      (field : ∀ k < width, b (o + (start + k)) = b' (o' + (start + k))) {i : Nat}
      (lower : start ≤ i) (upper : i < start + width) : b (o + i) = b' (o' + i) := by
    have here := field (i - start) (by omega)
    rwa [Nat.add_sub_cancel' lower] at here
  intro i bound
  by_cases inName : i < 11
  · exact congrFun name ⟨i, inName⟩
  · obtain rfl | rfl | rfl | fields : i = 11 ∨ i = 12 ∨ i = 13 ∨ 14 ≤ i := by omega
    · exact attr
    · exact reserved
    · exact tenth
    · by_cases below16 : i < 16
      · exact within createTime (by omega) (by omega)
      by_cases below18 : i < 18
      · exact within createDate (by omega) (by omega)
      by_cases below20 : i < 20
      · exact within accessDate (by omega) (by omega)
      by_cases below22 : i < 22
      · exact within high (by omega) (by omega)
      by_cases below24 : i < 24
      · exact within writeTime (by omega) (by omega)
      by_cases below26 : i < 26
      · exact within writeDate (by omega) (by omega)
      by_cases below28 : i < 28
      · exact within low (by omega) (by omega)
      · exact within size (by omega) (by omega)

theorem EntryKept.of_eq (same : v'.dirent σ = v.dirent σ) : EntryKept v v' σ :=
  .same (direntAt_inj same)

/-- The entry of a directory is as it was. -/
theorem EntryKept.directory (kept : EntryKept v v' σ) (live : (v.dirent σ).IsLive)
    (directory : IsDirectoryAttr (v.dirent σ).attr) : v'.dirent σ = v.dirent σ := by
  cases kept with
  | same bytes => exact direntAt_congr bytes
  | inserted vacant =>
    rw [live.not_reusable] at vacant
    cases vacant
  | updated _ file => exact absurd directory file

theorem EntryKept.freeAll (kept : EntryKept v v' σ) : EntryKept v (v'.freeAll m) σ := by
  cases kept with
  | same bytes => exact .same bytes
  | inserted vacant new => exact .inserted vacant new
  | updated live file rest => exact .updated live file rest

/-! ## One call -/

/-- A directory whose clusters were left alone. -/
theorem DirectoryKept.of_sameAt (geo : Geometry g) (chain : FatChain g v d l)
    (same : ∀ x ∈ l, v.SameAt v' x) : DirectoryKept g v v' d l where
  chain := ⟨l, chain.congr fun x member => (same x member).1, List.prefix_refl l,
    fun _ member out => absurd member out⟩
  allocated := fun x member => by
    rw [(same x member).1]
    exact FatChain.ne_free geo chain x member
  slots := fun σ member => .of_eq (Volume.dirent_congr (fun x inL => (same x inL).2) σ member)

/-- A directory that got the entry of a new file. -/
theorem DirectoryKept.of_inserted (geo : Geometry g) {name : ShortName}
    (inserted : Inserted g (v.setFat n fat32EocMax) v' a l l' σ (newEntry name fat32AttrArchive n)) :
    DirectoryKept g v v' a l where
  chain := by
    refine ⟨l', inserted.grown.chain, inserted.grown.extends_, fun τ member new => ?_⟩
    by_cases here : τ = σ
    · subst here
      exact Or.inr ⟨_, _, inserted.holds⟩
    · exact Or.inl (inserted.blank τ member new here)
  allocated := fun x member =>
    FatChain.ne_free geo inserted.grown.chain x (inserted.grown.extends_.subset member)
  slots := fun τ member => by
    by_cases here : τ = σ
    · subst here
      exact .inserted (inserted.vacant member) ⟨_, _, inserted.holds⟩
    · exact .of_eq (inserted.kept τ member here)

/-- Clusters outside of a directory were freed as well. -/
theorem DirectoryKept.freeAll (geo : Geometry g) (kept : DirectoryKept g v v' d l)
    (apart : ∀ l', FatChain g v' d l' → l'.Disjoint m) : DirectoryKept g v (v'.freeAll m) d l := by
  obtain ⟨⟨l', chain, extends_, gained⟩, allocated, slots⟩ := kept
  have out := apart l' chain
  have chain' : FatChain g (v'.freeAll m) d l' := chain.congr fun x member => if_neg (out member)
  refine ⟨⟨l', chain', extends_, gained⟩, fun x member => ?_, fun σ member => ?_⟩
  · exact FatChain.ne_free geo chain' x (extends_.subset member)
  · exact (slots σ member).freeAll

/-- The directories that are looked after still are. -/
theorem FileStore.Tree.dirs_kept (tree : A.Tree g cwd) (consistent : A.Consistent g cwd)
    (careful : Disciplined A.file A.opened call) (onFiles : A.OnFiles g call)
    (next : A.Next g cwd call r B) (inDirs : d ∈ A.dirs) : d ∈ B.dirs := by
  cases next with
  | openNull | openFails | openFound | openCreates | openLosesEntry | read | writeFails | wrote | seek
    | closeFails | closed => exact inDirs
  | unlinkFails | unlinkedEmpty | unlinked | mkdirFails | mkdirMakes => exact onFiles.elim
  | openTruncates h path flags σ m found trunc chain =>
    refine ⟨inDirs, fun same => ?_⟩
    -- a chain that a directory of the tree starts belongs to an entry of a directory
    have inRange := chain.cell_of_mem _ chain.head_mem
    obtain ⟨member, live, -⟩ := FileStore.lookup_names found
    have owned := consistent.owned_of_lookup found fun k under => (careful.2 k under).2
    have kind := (tree.entries σ member live owned).resolve_left inRange.ne_zero
    have directory := kind.mp (Set.mem_singleton_iff.mp same ▸ inDirs)
    exact onFiles trunc σ found directory inRange.two_le

/-- The current directory is kept. -/
theorem FileStore.Consistent.current_kept (consistent : A.Consistent g cwd)
    (careful : Disciplined A.file A.opened call) (handles : A.DirHandles) (onFiles : A.OnFiles g call)
    (next : A.Next g cwd call r B) : DirectoryKept g A.volume B.volume cwd A.directory := by
  have geo := consistent.geometry
  have frame := fun x => next.frame (x := x) geo
  have unchanged := DirectoryKept.of_sameAt geo consistent.chain fun x _ => Volume.SameAt.refl A.volume x
  cases next with
  | openNull | openFails | openFound | read | writeFails | seek | closeFails => exact unchanged
  | unlinkFails | unlinkedEmpty | unlinked | mkdirFails | mkdirMakes => exact onFiles.elim
  | openTruncates h path flags σ m found trunc chain =>
    have owned := consistent.owned_of_lookup found fun k under => (careful.2 k under).2
    obtain ⟨inHeads, notCwd, -⟩ :=
      owned.resolve_left (chain.cell_of_mem _ chain.head_mem).ne_zero
    have apart := consistent.apart inHeads notCwd chain
    exact .of_sameAt geo consistent.chain fun x inDir => Volume.sameAt_freeAll (apart inDir)
  | openCreates h path flags n v' l' σ absent creat inRange free inserted => exact .of_inserted geo inserted
  | openLosesEntry h path flags n v' l' σ absent inRange free inserted =>
    refine (DirectoryKept.of_inserted geo inserted).freeAll geo fun l'' chain => ?_
    obtain rfl := Chain.unique geo.excl chain inserted.grown.chain
    exact List.disjoint_singleton.mpr (consistent.fresh_outside inRange free inserted)
  | wrote h data size =>
    exact .of_sameAt geo consistent.chain fun x inDir =>
      frame x (consistent.directory_untouched inDir (some data) size)
  | closed h isOpen member =>
    have edited := closeAt_edited (v := A.volume) geo member (A.file h)
    have fat : (A.volume.closeAt (A.file h).slot (A.file h)).fat = A.volume.fat := edited.fat
    have chain : FatChain g (A.volume.closeAt (A.file h).slot (A.file h)) cwd A.directory :=
      consistent.chain.congr fun x _ => congrFun fat x
    refine ⟨⟨_, chain, List.prefix_refl _, fun _ member out => absurd member out⟩,
      fun x inDir => FatChain.ne_free geo chain x inDir, fun τ inDir => ?_⟩
    by_cases here : τ = (A.file h).slot
    · subst here
      obtain ⟨-, live, -, attr, -⟩ := consistent.handles h isOpen
      -- closing updates the entry of a file, and rewrites that of a directory as it is
      by_cases directory : IsDirectoryAttr (A.file h).attr
      · exact .of_eq (edited.holds.trans (handles h isOpen directory).1)
      · rw [attr] at directory
        refine .updated live directory ?_
        rw [edited.holds]
        rfl
    · exact .of_eq (edited.kept _ τ inDir here)

theorem fat32Seek_fileSize (f : Fat32File) (offset : Int32) (whence : UInt8) :
    (fat32Seek f offset whence).2.fileSize = f.fileSize := by
  rw [fat32Seek]
  split
  · rfl
  · split
    · rfl
    · split
      · rfl
      · split
        · rfl
        · rfl

/-! ## The tree -/

/-- An entry that is out of date is no directory's. -/
theorem FileStore.DirHandles.inTree (handles : A.DirHandles) (consistent : A.Consistent g cwd)
    (inTree : A.volume.InTree g Set.univ d) :
    A.volume.InTree g {σ | ∀ h, ¬ A.Truncating σ h} d := by
  induction inTree with
  | root => exact .root
  | @sub d l σ _ chain member live _ directory nonzero ih =>
    refine .sub ih chain member live (fun h truncating => nonzero ?_) directory nonzero
    obtain ⟨isOpen, rfl, trunc⟩ := truncating
    have attr := (consistent.handles h isOpen).attr
    obtain ⟨same, zero⟩ := handles h isOpen (attr ▸ directory)
    have first := congrArg Fat32Dirent.firstCluster same
    rw [closedEntry_firstCluster, zero trunc] at first
    exact first.symm

/-- A directory of the tree has clusters. -/
theorem FileStore.DirHandles.chain (handles : A.DirHandles) (tree : A.Tree g cwd)
    (consistent : A.Consistent g cwd) (inTree : A.volume.InTree g Set.univ d) :
    (d = cwd ∨ d ∈ A.dirs) ∧ ∃ l, FatChain g A.volume d l := by
  have found := tree.of_inTree consistent (fun _ settled => settled) (handles.inTree consistent inTree)
  refine ⟨found, ?_⟩
  rcases found with rfl | inDirs
  · exact ⟨_, consistent.chain⟩
  · exact consistent.separate.1 d (tree.head d inDirs).1

theorem FileStore.DirHandles.unchanged (handles : A.DirHandles) (tree : A.Tree g cwd)
    (consistent : A.Consistent g cwd) (inTree : A.volume.InTree g Set.univ d) :
    ∃ l, FatChain g A.volume d l ∧ DirectoryKept g A.volume A.volume d l := by
  obtain ⟨-, l, chain⟩ := handles.chain tree consistent inTree
  exact ⟨l, chain, .of_sameAt consistent.geometry chain fun x _ => Volume.SameAt.refl A.volume x⟩

section Step

variable (tree : A.Tree g cwd) (consistent : A.Consistent g cwd) (handles : A.DirHandles)
  (careful : Disciplined A.file A.opened call) (onFiles : A.OnFiles g call) (next : A.Next g cwd call r B)
include tree consistent handles careful onFiles next

/-- **A call on files keeps every directory of the tree.** -/
theorem FileStore.Tree.directory_kept (inTree : A.volume.InTree g Set.univ d) :
    ∃ l, FatChain g A.volume d l ∧ DirectoryKept g A.volume B.volume d l := by
  obtain ⟨rfl | inDirs, l, chain⟩ := handles.chain tree consistent inTree
  · exact ⟨_, consistent.chain, consistent.current_kept careful handles onFiles next⟩
  · have still := tree.dirs_kept consistent careful onFiles next inDirs
    exact ⟨l, chain, .of_sameAt consistent.geometry chain fun x member =>
      tree.dir_sameAt consistent careful onFiles.spares next inDirs still chain member⟩

/-- The directories of the tree are still there. -/
theorem FileStore.Tree.inTree_next (inTree : A.volume.InTree g Set.univ d) : B.volume.InTree g Set.univ d := by
  induction inTree with
  | root => exact .root
  | @sub d l σ inTree chain member live counted directory nonzero ih =>
    obtain ⟨l₀, chain₀, kept⟩ := tree.directory_kept consistent handles careful onFiles next inTree
    obtain rfl := Chain.unique consistent.geometry.excl chain chain₀
    obtain ⟨l', chain', extends_, -⟩ := kept.chain
    have same := (kept.slots σ member).directory live directory
    have later : σ ∈ g.dirSlots l' := by
      obtain ⟨inL, inCluster⟩ := mem_dirSlots.mp member
      exact mem_dirSlots.mpr ⟨extends_.subset inL, inCluster⟩
    rw [← same] at live directory nonzero ⊢
    exact .sub ih chain' later live counted directory nonzero

end Step

section Handles

variable (handles : A.DirHandles) (consistent : A.Consistent g cwd) (careful : Disciplined A.file A.opened call)
  (onFiles : A.OnFiles g call) (next : A.Next g cwd call r B)
include handles consistent careful onFiles next

/-- A handle on a directory whose recorded fields a call has kept still agrees with the entry. -/
theorem FileStore.DirHandles.same (openA : (A.file k).isOpen = true)
    (same : (B.file k).slot = (A.file k).slot ∧ (B.file k).attr = (A.file k).attr ∧
      (B.file k).fileSize = (A.file k).fileSize ∧ (B.file k).firstCluster = (A.file k).firstCluster ∧
      (B.file k).flags = (A.file k).flags) (directory : IsDirectoryAttr (B.file k).attr) :
    closedEntry (B.dirent (B.file k).slot) (B.file k) = B.dirent (B.file k).slot ∧
      (hasFlag (B.file k).flags fat32OTrunc = true → (B.file k).firstCluster = 0) := by
  obtain ⟨slot, attr, size, first, flags⟩ := same
  obtain ⟨member, live, -, attrA, -⟩ := consistent.handles k openA
  rw [attr] at directory
  -- the entry is one of a directory, and those have stayed as they were
  have entry := ((consistent.current_kept careful handles onFiles next).slots _ member).directory live
    (attrA ▸ directory)
  obtain ⟨agrees, zero⟩ := handles k openA directory
  rw [slot, flags, first, FileStore.dirent, entry]
  refine ⟨?_, zero⟩
  simpa only [closedEntry, FileStore.dirent, size, first] using agrees

/-- Handles on directories still agree with their entries. -/
theorem FileStore.DirHandles.kept : B.DirHandles := by
  have keeps {k : Nat} := handles.same consistent careful onFiles next (k := k)
  have other {k : Nat} (same : B.file k = A.file k) (openB : (B.file k).isOpen = true) :=
    keeps (k := k) (same ▸ openB) (by rw [same]; exact ⟨rfl, rfl, rfl, rfl, rfl⟩)
  intro k openB directory
  by_cases about : call.handle = some k
  case neg => exact other (next.other_handle about) openB directory
  cases next with
  | openNull | writeFails | closeFails => exact other rfl openB directory
  | unlinkFails | unlinkedEmpty | unlinked | mkdirFails | mkdirMakes => exact onFiles.elim
  | openFails h | openLosesEntry h =>
    obtain rfl := Option.some.inj about
    simp only [Function.update_self, Fat32File.zero] at openB
    cases openB
  | openFound h path flags σ found keepsChain =>
    obtain rfl := Option.some.inj about
    simp only [Function.update_self, handleFor_slot, handleFor_flags, handleFor_firstCluster]
    refine ⟨closedEntry_same (handleFor_fileSize _ _ _) (handleFor_firstCluster _ _ _), fun trunc => ?_⟩
    exact keepsChain.resolve_left (by rw [trunc]; decide)
  | openTruncates h path flags σ m found trunc chain =>
    obtain rfl := Option.some.inj about
    -- no directory is opened with `FAT32_O_TRUNC`
    have inRange := chain.cell_of_mem _ chain.head_mem
    simp only [Function.update_self] at directory
    exact absurd inRange.two_le (onFiles trunc σ found directory)
  | openCreates h path flags n v' l' σ absent creat inRange free =>
    obtain rfl := Option.some.inj about
    simp only [Function.update_self, handleFor_attr] at directory
    have plain : ¬ IsDirectoryAttr fat32AttrArchive := by decide
    exact absurd directory plain
  | read h =>
    obtain rfl := Option.some.inj about
    have openA : (A.file h).isOpen = true := by simpa only [Function.update_self] using openB
    refine keeps openA ?_ directory
    simp only [Function.update_self, and_true]
    rfl
  | wrote h data size a n l l' v' f isOpen source inRange few first advanced wrote =>
    obtain rfl := Option.some.inj about
    -- nothing is written through a handle of a directory
    have attr : f.attr = (A.file h).attr := by
      rw [advanced.rest]
    simp only [Function.update_self, attr] at directory
    exact absurd directory (onFiles isOpen)
  | seek h offset whence =>
    obtain rfl := Option.some.inj about
    have same := fat32Seek_same (A.file h) offset whence
    have openA : (A.file h).isOpen = true := by
      simp only [Function.update_self, same.isOpen] at openB
      exact openB
    refine keeps openA ⟨?_, ?_, ?_, ?_, ?_⟩ directory
    all_goals simp only [Function.update_self]
    · exact same.slot openA
    · exact same.attr openA
    · exact fat32Seek_fileSize (A.file h) offset whence
    · exact same.firstCluster openA
    · exact same.flags openA
  | closed h =>
    obtain rfl := Option.some.inj about
    simp only [Function.update_self] at openB
    cases openB

end Handles

end QuantumKernel.Fat32
