import QuantumKernel.Syscall.Tree
import QuantumKernel.Fat32.DirectoriesKept

/-! # Directories along a run of calls on files

A program that opens, reads, writes, seeks and closes files changes directories only where
files are recorded.  That is so as long as it opens no directory with `FAT32_O_TRUNC` and
writes nothing through a descriptor of a directory: the driver does not check either.
-/

namespace QuantumKernel.Syscall

open Fat32 ByteStore LinkedTable Transition

variable {g : Fat32Fs} {cwd d : UInt32} {k k' : Kernel} {call : FileCall} {fsCall : FsCall} {reply : Reply}
  {fuel : Nat} {A B : FileStore} {l : List UInt32} {calls : List (FileCall × Reply)}

/-- The directories of the tree. -/
def Kernel.InTree (k : Kernel) (d : UInt32) : Prop :=
  k.volume.InTree k.session.machine.fs.gFs Set.univ d

/-- The clusters of a chain on the drive. -/
def Kernel.Chain (k : Kernel) (c : UInt32) (l : List UInt32) : Prop :=
  FatChain k.session.machine.fs.gFs k.volume c l

/-- Every directory of the tree is still there, and kept. -/
def Kernel.KeepsDirectories (k k' : Kernel) : Prop :=
  ∀ d, k.InTree d → k'.InTree d ∧
    ∃ l, k.Chain d l ∧ DirectoryKept k.session.machine.fs.gFs k.volume k'.volume d l

/-- A call on files, which does not truncate a directory and writes nothing through a
descriptor of one. -/
def LeavesDirectories (k : Kernel) : FileCall → Prop
  | .open (some path) flags => hasFlag (lowByte flags) fat32OTrunc = true → ∀ l, k.Directory l →
      ∀ σ, k.volume.lookup (k.slots l) (fat32ToShortName path) = some σ →
        IsDirectoryAttr (k.volume.dirent σ).attr → ¬ 2 ≤ (k.volume.dirent σ).firstCluster
  | .fileWrite fd _ _ =>
    k.badFd fd = false → ¬ IsDirectoryAttr (k.session.machine.file fd.toNatClampNeg).attr
  | .unlink _ | .mkdir _ => False
  | _ => True

/-- The calls of a careful program that works on files. -/
def FilesOnly (k : Kernel) (call : FileCall) : Prop := CarefulCall k call ∧ LeavesDirectories k call

/-- The kernel shows a store with a tree in order, and its handles on directories agree with
the entries. -/
structure DirectoriesInOrder (g : Fat32Fs) (cwd : UInt32) (k : Kernel) (A : FileStore) : Prop where
  tree : TreeInOrder g cwd k A
  handles : A.DirHandles

/-! ## One call -/

/-- What the kernel's drive holds is the volume of the store. -/
theorem DirectoriesInOrder.stores (order : DirectoriesInOrder g cwd k A) :
    k.volume = A.volume ∧ k.session.machine.fs.gFs = { g with fsinfo := k.session.machine.fs.gFs.fsinfo } ∧
      k.session.machine.fs.gCurrentDirCluster = cwd ∧ k.session.machine.file = A.file := by
  have shows_ := order.tree.order.inOrder.1
  exact ⟨shows_.stores.volume_eq, shows_.stores.gFs, shows_.stores.current, shows_.file⟩

theorem DirectoriesInOrder.inTree_iff (order : DirectoriesInOrder g cwd k A) :
    k.InTree d ↔ A.volume.InTree g Set.univ d := by
  obtain ⟨volume, layout, -⟩ := order.stores
  rw [Kernel.InTree, volume, layout]
  exact inTree_withFsinfo

theorem DirectoriesInOrder.chain_iff (order : DirectoriesInOrder g cwd k A) :
    k.Chain d l ↔ FatChain g A.volume d l := by
  obtain ⟨volume, layout, -⟩ := order.stores
  rw [Kernel.Chain, volume, layout]
  rfl

/-- What the store's current directory and handles exclude. -/
theorem LeavesDirectories.onFiles (leaves : LeavesDirectories k call) (makes : k.fsCall call = some fsCall)
    (order : DirectoriesInOrder g cwd k A) : A.OnFiles g fsCall := by
  obtain ⟨volume, layout, current, file⟩ := order.stores
  cases call with
  | «open» path flags =>
    obtain ⟨fd, -, rfl⟩ := Option.map_eq_some_iff.mp makes
    cases path with
    | none => trivial
    | some path =>
      intro trunc σ found
      have here : k.Directory A.directory := by
        rw [Kernel.Directory, current]
        exact order.chain_iff.mpr order.tree.order.inOrder.2.chain
      rw [FileStore.dirent, ← volume]
      refine leaves trunc _ here σ ?_
      rw [Kernel.slots, volume, layout]
      exact found
  | fileWrite fd buffer size =>
    simp only [Kernel.fsCall, Option.ite_none_left_eq_some, Option.some.injEq] at makes
    obtain ⟨good, rfl⟩ := makes
    intro _
    rw [← file]
    exact leaves (Bool.eq_false_iff.mpr good)
  | close fd | fileRead fd | seek fd =>
    simp only [Kernel.fsCall, Option.ite_none_left_eq_some, Option.some.injEq] at makes
    obtain ⟨-, rfl⟩ := makes
    trivial
  | unlink path | mkdir path => exact leaves.elim

/-- A call of such a program keeps the directories. -/
theorem DirectoriesInOrder.step (order : DirectoriesInOrder g cwd k A) (enough : 4294967296 ≤ fuel)
    (allowed : FilesOnly k call) (done : k.step fuel call = some (reply, k')) :
    (∃ B, DirectoriesInOrder g cwd k' B) ∧ k.KeepsDirectories k' := by
  have consistent := order.tree.order.inOrder.2
  have keeps {B : FileStore} (order' : DirectoriesInOrder g cwd k' B)
      (kept : ∀ d, A.volume.InTree g Set.univ d → B.volume.InTree g Set.univ d ∧
        ∃ l, FatChain g A.volume d l ∧ DirectoryKept g A.volume B.volume d l) : k.KeepsDirectories k' := by
    intro d inTree
    obtain ⟨inTree', l, chain, kept⟩ := kept d (order.inTree_iff.mp inTree)
    obtain ⟨volume, layout, -⟩ := order.stores
    refine ⟨order'.inTree_iff.mpr inTree', l, order.chain_iff.mpr chain, ?_⟩
    rw [volume, layout, order'.stores.1]
    exact ⟨kept.chain, kept.allocated, kept.slots⟩
  obtain ⟨B, order', same | ⟨fsCall, r, makes, careful, next⟩⟩ := order.tree.order.step enough allowed.1 done
  · subst same
    have order' : DirectoriesInOrder g cwd k' B := ⟨⟨order', order.tree.tree⟩, order.handles⟩
    exact ⟨⟨B, order'⟩, keeps order' fun d inTree =>
      ⟨inTree, order.handles.unchanged order.tree.tree consistent inTree⟩⟩
  · have disciplined : Disciplined A.file A.opened fsCall := by
      rw [← order.tree.order.inOrder.1.file, ← order.tree.order.inOrder.1.opened]
      exact careful
    have onFiles := allowed.2.onFiles makes order
    have tree' := order.tree.tree.next consistent disciplined onFiles.spares next
    have order' : DirectoriesInOrder g cwd k' B := ⟨⟨order', tree'⟩,
      order.handles.kept consistent disciplined onFiles next⟩
    exact ⟨⟨B, order'⟩, keeps order' fun d inTree =>
      ⟨order.tree.tree.inTree_next consistent order.handles disciplined onFiles next inTree,
        order.tree.tree.directory_kept consistent order.handles disciplined onFiles next inTree⟩⟩

/-! ## Runs -/

/-- Nothing is open yet. -/
theorem FreshTree.directories (fresh : FreshTree k) :
    ∃ A, DirectoriesInOrder k.session.machine.fs.gFs k.session.machine.fs.gCurrentDirCluster k A := by
  obtain ⟨A, order⟩ := fresh.inOrder
  refine ⟨A, order, fun h isOpen => ?_⟩
  rw [← order.order.inOrder.1.file, fresh.closed h] at isOpen
  cases isOpen

/-- Clusters that a directory of the tree had once are still its clusters. -/
def Kernel.RetainsDirectories (k k' : Kernel) : Prop :=
  ∀ d, k.InTree d → k'.InTree d ∧ ∃ l l', k.Chain d l ∧ k'.Chain d l' ∧ l <+: l'

theorem DirectoriesInOrder.retains (order : DirectoriesInOrder g cwd k A) : k.RetainsDirectories k := by
  intro d inTree
  obtain ⟨-, l, chain⟩ := order.handles.chain order.tree.tree order.tree.order.inOrder.2
    (order.inTree_iff.mp inTree)
  exact ⟨inTree, l, l, order.chain_iff.mpr chain, order.chain_iff.mpr chain, List.prefix_refl l⟩

theorem Kernel.RetainsDirectories.step {k₁ k₂ : Kernel} (retains : k.RetainsDirectories k₁)
    (order : DirectoriesInOrder g cwd k₁ A) (order' : DirectoriesInOrder g cwd k₂ B)
    (keeps : k₁.KeepsDirectories k₂) : k.RetainsDirectories k₂ := by
  intro d inTree
  obtain ⟨inTree₁, l, l₁, chain, chain₁, extends₁⟩ := retains d inTree
  obtain ⟨inTree₂, m, chainM, kept⟩ := keeps d inTree₁
  obtain rfl := Chain.unique order.tree.order.inOrder.2.geometry.excl (order.chain_iff.mp chain₁)
    (order.chain_iff.mp chainM)
  obtain ⟨l₂, chain₂, extends₂, -⟩ := kept.chain
  rw [order.stores.2.1, order'.stores.1] at chain₂
  exact ⟨inTree₂, l, l₂, chain, order'.chain_iff.mpr chain₂, extends₁.trans extends₂⟩

/-- **Calls on files change directories only where files are recorded.**  Whatever such a
program does, the directories of the tree keep their clusters, and the next call returns and
keeps every directory. -/
theorem directories_kept (enough : 4294967296 ≤ fuel) (fresh : FreshTree k)
    (run : Run (Kernel.step fuel) FilesOnly k calls k') :
    k.RetainsDirectories k' ∧ ∀ call, FilesOnly k' call →
      ∃ reply k'', k'.step fuel call = some (reply, k'') ∧ k'.KeepsDirectories k'' := by
  obtain ⟨A, order⟩ := fresh.directories
  have invariant := run.invariant (fun k₁ => (∃ B, DirectoriesInOrder k.session.machine.fs.gFs
    k.session.machine.fs.gCurrentDirCluster k₁ B) ∧ k.RetainsDirectories k₁) ?_ ⟨⟨A, order⟩, order.retains⟩
  · obtain ⟨⟨B, order'⟩, retains⟩ := invariant
    refine ⟨retains, fun call allowed => ?_⟩
    obtain ⟨reply, k'', done⟩ := order'.tree.order.returns enough allowed.1
    exact ⟨reply, k'', done, (order'.step enough allowed done).2⟩
  · rintro k₁ call reply k₂ ⟨⟨B, order₁⟩, retains⟩ allowed done
    obtain ⟨⟨C, order₂⟩, keeps⟩ := order₁.step enough allowed done
    exact ⟨⟨C, order₂⟩, retains.step order₁ order₂ keeps⟩

/-! ## A volume with a directory -/

instance (v : Volume) (slots : List Slot) : Decidable (v.EndMarked slots) :=
  inferInstanceAs (Decidable (slots.Pairwise _))

/-- A volume whose directories and files have one cluster each. -/
theorem WellFormedTree.of_single {v : Volume} (geo : Geometry g) (dirs : List UInt32) (entries : List Slot)
    (root : g.rootDirFirstCluster ∈ dirs) (ends : ∀ d ∈ dirs, g.InRange d ∧ fat32EocMin ≤ v.fat d)
    (listed : ∀ d ∈ dirs, ∀ σ ∈ g.dirSlots [d], (v.dirent σ).IsLive → σ ∈ entries)
    (own : ∀ σ ∈ entries, g.InRange (v.dirent σ).firstCluster ∧ fat32EocMin ≤ v.fat (v.dirent σ).firstCluster ∧
      (v.dirent σ).firstCluster ≠ g.rootDirFirstCluster ∧
      (IsDirectoryAttr (v.dirent σ).attr → (v.dirent σ).firstCluster ∈ dirs))
    (apart : ∀ σ ∈ entries, ∀ τ ∈ entries, (v.dirent σ).firstCluster = (v.dirent τ).firstCluster → σ = τ)
    (marked : v.EndMarked (g.dirSlots [g.rootDirFirstCluster])) : WellFormedTree g g.rootDirFirstCluster v := by
  have chainDir {d : UInt32} (known : d ∈ dirs) : FatChain g v d [d] := .last (ends d known).1 (ends d known).2
  have directories {d : UInt32} (inTree : v.InTree g Set.univ d) : d ∈ dirs := by
    induction inTree with
    | root => exact root
    | sub _ chain member live _ directory _ ih =>
      obtain rfl := Chain.unique geo.excl chain (chainDir ih)
      exact (own _ (listed _ ih _ member live)).2.2.2 directory
  have entry {σ : Slot} (isEntry : v.IsEntry g Set.univ σ) : σ ∈ entries := by
    obtain ⟨live, -, d, l, inTree, chain, member⟩ := isEntry
    have known := directories inTree
    obtain rfl := Chain.unique geo.excl chain (chainDir known)
    exact listed d known σ member live
  have chainEntry {σ : Slot} (isEntry : v.IsEntry g Set.univ σ) :
      FatChain g v (v.dirent σ).firstCluster [(v.dirent σ).firstCluster] :=
    .last (own σ (entry isEntry)).1 (own σ (entry isEntry)).2.1
  -- a walk from a cluster with an end mark does not leave it
  have walk {c x : UInt32} (chain : FatChain g v c [c]) (walk : v.Walk g c x) : x = c :=
    List.mem_singleton.mp (FatChain.mem_of_walk geo chain walk)
  refine ⟨⟨_, chainDir root⟩, fun σ isEntry => Or.inr ⟨_, chainEntry isEntry⟩, ⟨?_, ?_⟩, ?_, .root, ?_⟩
  · intro σ isEntry x reached
    obtain rfl := walk (chainEntry isEntry) reached
    exact FatChain.ne_free geo (chainEntry isEntry) _ (chainEntry isEntry).head_mem
  · intro σ τ entryσ entryτ ne x walkσ walkτ
    have same := (walk (chainEntry entryσ) walkσ).symm.trans (walk (chainEntry entryτ) walkτ)
    exact ne (apart σ (entry entryσ) τ (entry entryτ) same)
  · intro σ isEntry x walkRoot walkσ
    have same := (walk (chainEntry isEntry) walkσ).symm.trans (walk (chainDir root) walkRoot)
    exact (own σ (entry isEntry)).2.2.1 same
  · intro l chain
    obtain rfl := Chain.unique geo.excl chain (chainDir root)
    exact marked

/-- The root directory holds the directory `D`, which is empty. -/
def treeDrive : Nat → Bytes :=
  smallDrive (fun c => if c = 2 ∨ c = 3 then fat32EocMax else fat32FreeCluster) fun c k =>
    if c = 2 ∧ k < 32 then if k = 11 then fat32AttrDirectory else letterEntry 0x44 3 k else 0

def treeKernel : Kernel :=
  ⟨⟨⟨mountedOn smallFs treeDrive, fun _ => Fat32File.zero⟩, fun _ _ => 0⟩, fun _ => false⟩

theorem treeKernel_freshTree : FreshTree treeKernel :=
  ⟨⟨smallFs_geometry, fun _ => rfl⟩, WellFormedTree.of_single smallFs_geometry [2, 3] [(2, 0)] (by decide)
    (by decide +kernel) (by decide +kernel) (by decide +kernel) (by decide +kernel) (by decide +kernel),
    fun _ => rfl, fun _ => rfl⟩

/-- The root directory holds the directory `D`, whose first cluster is 3. -/
def Kernel.holdsDirectory (k : Kernel) : Prop :=
  k.rootHolds (2, 0) ∧ IsDirectoryAttr (k.volume.dirent (2, 0)).attr ∧
    (k.volume.dirent (2, 0)).firstCluster = 3 ∧ (3, 0) ∈ k.session.machine.fs.gFs.slotsOf 3

instance (k : Kernel) : Decidable k.holdsDirectory := inferInstanceAs (Decidable (_ ∧ _ ∧ _ ∧ _))

theorem Kernel.holdsDirectory.inTree (holds : k.holdsDirectory) : k.InTree 3 := by
  obtain ⟨root, directory, first, -⟩ := holds
  obtain ⟨live, counted, d, l, inTree, chain, member⟩ := root.entry (Set.mem_univ (2, 0))
  have sub := Volume.InTree.sub inTree chain member live counted directory (by rw [first]; decide)
  rwa [first] at sub

theorem Kernel.holdsDirectory.member (holds : k.holdsDirectory) (inDir : 3 ∈ l) :
    (3, 0) ∈ k.session.machine.fs.gFs.dirSlots l :=
  mem_dirSlots.mpr ⟨inDir, holds.2.2.2⟩

theorem treeKernel_holds : treeKernel.holdsDirectory := by decide +kernel

/-- `A` is created next to the directory `D`. -/
theorem directories_kept_tree :
    ∃ calls k', Run (Kernel.step 4294967296) FilesOnly treeKernel calls k' ∧ k'.badFd 0 = false ∧
      treeKernel.InTree 3 ∧ k'.InTree 3 := by
  have allowed : FilesOnly treeKernel (.open (letterPath 0x41 (by decide)) 4) :=
    ⟨fun h under => absurd under.1 (by simp [treeKernel, Fat32File.zero]), fun trunc => absurd trunc (by decide)⟩
  obtain ⟨reply, k', done, good⟩ : ∃ reply k', treeKernel.step 4294967296
      (.open (letterPath 0x41 (by decide)) 4) = some (reply, k') ∧ k'.badFd 0 = false := by
    refine ⟨_, _, (Option.some_get ?_).symm, ?_⟩ <;> decide +kernel
  have run : Run (Kernel.step 4294967296) FilesOnly treeKernel _ k' := .call allowed done (.refl k')
  have inTree := treeKernel_holds.inTree
  exact ⟨_, k', run, good, inTree, ((directories_kept (by decide) treeKernel_freshTree run).1 3 inTree).1⟩

/-! ## Directories that are changed -/

theorem not_entryKept {v v' : Volume} {σ : Slot} (before : (v.dirent σ).ntReserved = 0)
    (after : (v'.dirent σ).ntReserved ≠ 0) : ¬ EntryKept v v' σ := by
  intro kept
  cases kept with
  | same bytes =>
    refine after (Eq.trans ?_ before)
    exact bytes 12 (by decide)
  | inserted _ new =>
    obtain ⟨name, first, same⟩ := new
    rw [same] at after
    exact after rfl
  | updated _ _ rest =>
    rw [rest] at after
    exact after before

/-- Writing through the descriptor changes a byte of the slot that no call on a file changes. -/
def Kernel.overwrites (k : Kernel) (σ : Slot) (fd : Int32) : Bool :=
  (k.volume.dirent σ).ntReserved = 0 &&
    (k.step 4294967296 (.fileWrite fd (some fun _ => 0x41) 32)).any fun result =>
      (result.2.volume.dirent σ).ntReserved ≠ 0

theorem Kernel.overwrites_spec {σ : Slot} {fd : Int32} (overwrites : k.overwrites σ fd = true) :
    ∃ reply k', k.step 4294967296 (.fileWrite fd (some fun _ => 0x41) 32) = some (reply, k') ∧
      ¬ EntryKept k.volume k'.volume σ := by
  simp only [Kernel.overwrites, Bool.and_eq_true, decide_eq_true_eq, Option.any_eq_true] at overwrites
  obtain ⟨before, ⟨reply, k'⟩, done, after⟩ := overwrites
  exact ⟨reply, k', done, not_entryKept before after⟩

/-- Calls on files only. -/
def FileCall.onFiles : FileCall → Bool
  | .unlink _ | .mkdir _ => false
  | _ => true

/-- Three ways in which calls on files change a directory.  `D` is opened with
`FAT32_O_TRUNC`, which frees its cluster.  A program writes through a descriptor of `D`.  Or
`A` is opened once more with `FAT32_O_TRUNC`, its cluster becomes part of the root directory,
and a write through the first descriptor of `A` goes there. -/
theorem directories_changed :
    FreshTree treeKernel ∧
    (∃ reply k', treeKernel.step 4294967296 (.open (letterPath 0x44 (by decide)) 8) = some (reply, k') ∧
      ¬ treeKernel.KeepsDirectories k') ∧
    (∃ calls k' reply k'', Run (Kernel.step 4294967296) (fun _ _ => True) treeKernel calls k' ∧
      (∀ call ∈ calls, call.1.onFiles = true) ∧
      k'.step 4294967296 (.fileWrite 0 (some fun _ => 0x41) 32) = some (reply, k'') ∧
      ¬ k'.KeepsDirectories k'') ∧
    FreshKernel crowdedKernel [2] ∧
    ∃ calls k' reply k'', Run (Kernel.step 4294967296) (fun _ _ => True) crowdedKernel calls k' ∧
      (∀ call ∈ calls, call.1.onFiles = true) ∧
      k'.step 4294967296 (.fileWrite 0 (some fun _ => 0x41) 32) = some (reply, k'') ∧
      ¬ k'.KeepsDirectories k'' := by
  refine ⟨treeKernel_freshTree, ?_, ?_, crowdedKernel_fresh, ?_⟩
  · obtain ⟨reply, k', done, free⟩ : ∃ reply k', treeKernel.step 4294967296
        (.open (letterPath 0x44 (by decide)) 8) = some (reply, k') ∧ k'.volume.fat 3 = fat32FreeCluster := by
      refine ⟨_, _, (Option.some_get ?_).symm, ?_⟩ <;> decide +kernel
    refine ⟨reply, k', done, fun keeps => ?_⟩
    obtain ⟨-, l, chain, kept⟩ := keeps 3 treeKernel_holds.inTree
    exact kept.allocated 3 chain.head_mem free
  · obtain ⟨calls, k', run, onFiles, holds, overwrites⟩ := Run.exists_of_replay
      (Kernel.step 4294967296) (fun _ _ => True) treeKernel [.open (letterPath 0x44 (by decide)) 2]
      (fun calls k' => (∀ call ∈ calls, call.1.onFiles = true) ∧ k'.holdsDirectory ∧ k'.overwrites (3, 0) 0 = true)
      (by decide +kernel)
    obtain ⟨reply, k'', done, broken⟩ := Kernel.overwrites_spec overwrites
    refine ⟨calls, k', reply, k'', run, onFiles, done, fun keeps => ?_⟩
    obtain ⟨-, l, chain, kept⟩ := keeps 3 holds.inTree
    exact broken (kept.slots (3, 0) (holds.member chain.head_mem))
  · obtain ⟨calls, k', run, onFiles, root, link, notEoc, slot, overwrites⟩ := Run.exists_of_replay
      (Kernel.step 4294967296) (fun _ _ => True) crowdedKernel
      [.open (letterPath 0x41 (by decide)) 4, .open (letterPath 0x41 (by decide)) 8,
        .fileWrite 1 (some fun _ => 0) 2560, .open (letterPath 0x42 (by decide)) 4]
      (fun calls k' => (∀ call ∈ calls, call.1.onFiles = true) ∧
        k'.session.machine.fs.gFs.rootDirFirstCluster = 2 ∧ k'.volume.fat 2 = 3 ∧ ¬ fat32EocMin ≤ k'.volume.fat 2 ∧
        (3, 0) ∈ k'.session.machine.fs.gFs.slotsOf 3 ∧ k'.overwrites (3, 0) 0 = true) (by decide +kernel)
    obtain ⟨reply, k'', done, broken⟩ := Kernel.overwrites_spec overwrites
    refine ⟨calls, k', reply, k'', run, onFiles, done, fun keeps => ?_⟩
    have inTree : k'.InTree k'.session.machine.fs.gFs.rootDirFirstCluster := .root
    rw [root] at inTree
    obtain ⟨-, l, chain, kept⟩ := keeps 2 inTree
    -- the cluster behind the root directory's first one
    have later : 3 ∈ l := by
      cases chain with
      | last _ ends => exact absurd ends notEoc
      | link _ rest =>
        rw [link] at rest
        exact List.mem_cons_of_mem _ rest.head_mem
    exact broken (kept.slots (3, 0) (mem_dirSlots.mpr ⟨later, slot⟩))

end QuantumKernel.Syscall
