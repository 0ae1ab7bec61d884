import QuantumKernel.Syscall.Close
import QuantumKernel.Fat32.TreeSteps

/-! # The directory tree along a run

A tidy program is careful with its descriptors and writes nothing through a descriptor of a
directory.  Whatever it does, no cluster of an entry is free or belongs to two entries, in
all directories of the tree.  An entry whose file is open with `FAT32_O_TRUNC` is out of date
until the descriptor is closed.
-/

namespace QuantumKernel.Syscall

open Fat32 ByteStore LinkedTable Transition

variable {g : Fat32Fs} {cwd : UInt32} {v : Volume} {k k' : Kernel} {call : FileCall}
  {fsCall : FsCall} {reply : Reply} {fuel : Nat} {A B : FileStore} {σ τ : Slot} {counts : Set Slot}
  {calls : List (FileCall × Reply)}

/-- A mounted volume in order, and no descriptor in use. -/
structure FreshTree (k : Kernel) : Prop where
  mounted : Mounted k.session.machine.fs
  tree : WellFormedTree k.session.machine.fs.gFs k.session.machine.fs.gCurrentDirCluster k.volume
  closed : ∀ h, (k.session.machine.file h).isOpen = false
  unused : ∀ fd, k.fileUsed fd = false

/-- Nothing is written through a descriptor of a directory. -/
def SparesDirectories (k : Kernel) : FileCall → Prop
  | .fileWrite fd _ _ =>
    k.badFd fd = false → ¬ IsDirectoryAttr (k.session.machine.file fd.toNatClampNeg).attr
  | _ => True

/-- The system calls of a tidy program. -/
def TidyCall (k : Kernel) (call : FileCall) : Prop := CarefulCall k call ∧ SparesDirectories k call

/-- No descriptor with `FAT32_O_TRUNC` is in use for the entry. -/
def Kernel.settled (k : Kernel) : Set Slot :=
  {σ | ∀ fd < maxFiles, k.fileUsed fd = true → (k.session.machine.file fd).slot = σ →
    hasFlag (k.session.machine.file fd).flags fat32OTrunc = false}

/-- The kernel shows a consistent store with a tree in order. -/
structure TreeInOrder (g : Fat32Fs) (cwd : UInt32) (k : Kernel) (A : FileStore) : Prop where
  order : KernelInOrder g cwd k A
  tree : A.Tree g cwd

/-! ## The allocation hint does not matter -/

theorem walk_withFsinfo {c x : UInt32} {hint : Fat32Fsinfo} :
    v.Walk { g with fsinfo := hint } c x ↔ v.Walk g c x := by
  constructor
  · intro walk
    induction walk with
    | here inRange => exact .here inRange
    | next _ inRange ih => exact .next ih inRange
  · intro walk
    induction walk with
    | here inRange => exact .here inRange
    | next _ inRange ih => exact .next ih inRange

theorem inTree_withFsinfo {d : UInt32} {hint : Fat32Fsinfo} :
    v.InTree { g with fsinfo := hint } counts d ↔ v.InTree g counts d := by
  constructor
  · intro inTree
    induction inTree with
    | root => exact .root
    | sub _ chain member live counted directory nonzero ih =>
      exact .sub ih chain member live counted directory nonzero
  · intro inTree
    induction inTree with
    | root => exact .root
    | sub _ chain member live counted directory nonzero ih =>
      exact .sub ih chain member live counted directory nonzero

theorem isEntry_withFsinfo {hint : Fat32Fsinfo} :
    v.IsEntry { g with fsinfo := hint } counts σ ↔ v.IsEntry g counts σ := by
  constructor
  · rintro ⟨live, counted, d, l, inTree, chain, member⟩
    exact ⟨live, counted, d, l, inTree_withFsinfo.mp inTree, chain, member⟩
  · rintro ⟨live, counted, d, l, inTree, chain, member⟩
    exact ⟨live, counted, d, l, inTree_withFsinfo.mpr inTree, chain, member⟩

theorem sound_withFsinfo (sound : v.Sound g counts) (hint : Fat32Fsinfo) :
    v.Sound { g with fsinfo := hint } counts where
  allocated := fun σ entry x walk =>
    sound.allocated σ (isEntry_withFsinfo.mp entry) x (walk_withFsinfo.mp walk)
  apart := fun σ τ entryσ entryτ ne x walkσ walkτ =>
    sound.apart σ τ (isEntry_withFsinfo.mp entryσ) (isEntry_withFsinfo.mp entryτ) ne x
      (walk_withFsinfo.mp walkσ) (walk_withFsinfo.mp walkτ)

/-! ## Runs -/

/-- Nothing is open yet. -/
theorem FreshTree.inOrder (fresh : FreshTree k) :
    ∃ A, TreeInOrder k.session.machine.fs.gFs k.session.machine.fs.gCurrentDirCluster k A := by
  obtain ⟨mounted, wf, closed, unused⟩ := fresh
  obtain ⟨l, chain⟩ := wf.dir_chain wf.current
  have shows_ : Shows k.session.machine.fs.gFs k.session.machine.fs.gCurrentDirCluster k.session
      (treeStore k.session.machine.fs.gFs k.session.machine.fs.gCurrentDirCluster k.volume l
        k.session.machine.file k.session.opened) :=
    ⟨Stores.of_geometry mounted.geometry mounted.drive, rfl, rfl⟩
  refine ⟨_, ⟨⟨shows_, wf.consistent mounted.geometry chain _ closed _⟩, fun h => ?_⟩,
    wf.tree chain _ closed _⟩
  simp [closed h, unused h]

/-- What a tidy program writes to is no directory. -/
theorem SparesDirectories.file (spares : SparesDirectories k call) (makes : k.fsCall call = some fsCall)
    (file : k.session.machine.file = A.file) : A.SparesDirectories fsCall := by
  cases call with
  | «open» path flags =>
    obtain ⟨fd, -, rfl⟩ := Option.map_eq_some_iff.mp makes
    trivial
  | fileWrite fd buffer size =>
    simp only [Kernel.fsCall, Option.ite_none_left_eq_some, Option.some.injEq] at makes
    obtain ⟨good, rfl⟩ := makes
    intro _
    rw [← file]
    exact spares (Bool.eq_false_iff.mpr good)
  | close fd | fileRead fd | seek fd =>
    simp only [Kernel.fsCall, Option.ite_none_left_eq_some, Option.some.injEq] at makes
    obtain ⟨-, rfl⟩ := makes
    trivial
  | unlink path | mkdir path =>
    cases makes
    trivial

theorem TreeInOrder.step (order : TreeInOrder g cwd k A) (enough : 4294967296 ≤ fuel)
    (tidy : TidyCall k call) (done : k.step fuel call = some (reply, k')) :
    ∃ B, TreeInOrder g cwd k' B := by
  obtain ⟨order, tree⟩ := order
  obtain ⟨shows_, consistent⟩ := order.inOrder
  obtain ⟨B, order', same | ⟨fsCall, r, makes, careful, next⟩⟩ := order.step enough tidy.1 done
  · exact ⟨B, order', same ▸ tree⟩
  · have disciplined : Disciplined A.file A.opened fsCall := by
      rw [← shows_.file, ← shows_.opened]
      exact careful
    exact ⟨B, order', tree.next consistent disciplined (tidy.2.file makes shows_.file) next⟩

theorem TreeInOrder.run (order : TreeInOrder g cwd k A) (enough : 4294967296 ≤ fuel)
    (run : Run (Kernel.step fuel) TidyCall k calls k') : ∃ B, TreeInOrder g cwd k' B := by
  refine run.invariant (fun k => ∃ A, TreeInOrder g cwd k A) ?_ ⟨A, order⟩
  rintro k call reply k' ⟨A, order⟩ tidy done
  exact order.step enough tidy done

/-- No settled entry is being truncated. -/
theorem TreeInOrder.sound (order : TreeInOrder g cwd k A) :
    k.volume.Sound k.session.machine.fs.gFs k.settled := by
  obtain ⟨⟨⟨shows_, consistent⟩, table⟩, tree⟩ := order
  have sound : A.volume.Sound g k.settled := by
    refine tree.sound consistent fun σ settled h truncating => ?_
    obtain ⟨isOpen, slot, flag⟩ := truncating
    rw [← shows_.file] at isOpen slot flag
    obtain ⟨below, used⟩ := (table h).mp isOpen
    rw [settled h below used slot] at flag
    cases flag
  have volume : k.volume = A.volume := shows_.stores.volume_eq
  rw [shows_.stores.gFs, volume]
  exact sound_withFsinfo sound _

/-- **No cluster is shared or dangling.**  In every state that a tidy program reaches, the
clusters of different entries are different and allocated, and every call returns. -/
theorem no_cross_links (enough : 4294967296 ≤ fuel) (fresh : FreshTree k)
    (run : Run (Kernel.step fuel) TidyCall k calls k') :
    k'.volume.Sound k'.session.machine.fs.gFs k'.settled ∧
      ∀ call, TidyCall k' call → ∃ reply k'', k'.step fuel call = some (reply, k'') := by
  obtain ⟨A, order⟩ := fresh.inOrder
  obtain ⟨B, order'⟩ := order.run enough run
  exact ⟨order'.sound, fun call tidy => order'.order.returns enough tidy.1⟩

/-! ## The blank volume -/

/-- The root directory is the only one, and it has no entries. -/
theorem blankKernel_freshTree : FreshTree blankKernel := by
  have chain : FatChain smallFs blankKernel.volume 2 [2] := .last (by decide) (by decide +kernel)
  have blank : ∀ σ ∈ smallFs.dirSlots [2], (blankKernel.volume.dirent σ).IsEnd := by decide +kernel
  have onlyRoot {d : UInt32} (inTree : blankKernel.volume.InTree smallFs Set.univ d) : d = 2 := by
    induction inTree with
    | root => rfl
    | sub _ chain' member live _ _ _ ih =>
      subst ih
      obtain rfl := Chain.unique smallFs_geometry.excl chain' chain
      exact absurd (blank _ member) live.1
  have noEntry (σ : Slot) : ¬ blankKernel.volume.IsEntry smallFs Set.univ σ := by
    rintro ⟨live, -, d, l, inTree, chain', member⟩
    obtain rfl := onlyRoot inTree
    obtain rfl := Chain.unique smallFs_geometry.excl chain' chain
    exact live.1 (blank σ member)
  refine ⟨⟨smallFs_geometry, fun _ => rfl⟩, ⟨⟨[2], chain⟩, fun σ entry => absurd entry (noEntry σ),
    ⟨fun σ entry => absurd entry (noEntry σ), fun σ _ entry => absurd entry (noEntry σ)⟩,
    fun σ entry => absurd entry (noEntry σ), .root, fun l chain' => ?_⟩, fun _ => rfl, fun _ => rfl⟩
  obtain rfl := Chain.unique smallFs_geometry.excl chain' chain
  exact List.pairwise_of_forall_mem_list fun _ _ τ member _ => blank τ member

/-- `A` is created. -/
theorem no_cross_links_blank :
    ∃ calls k', Run (Kernel.step 4294967296) TidyCall blankKernel calls k' ∧ k'.badFd 0 = false ∧
      k'.volume.Sound k'.session.machine.fs.gFs k'.settled := by
  have careful : CarefulCall blankKernel (.open (letterPath 0x41 (by decide)) 4) :=
    fun h under => absurd under.1 (by simp [blankKernel, blankSession, Fat32File.zero])
  obtain ⟨reply, k', done, good⟩ : ∃ reply k', blankKernel.step 4294967296
      (.open (letterPath 0x41 (by decide)) 4) = some (reply, k') ∧ k'.badFd 0 = false := by
    refine ⟨_, _, (Option.some_get ?_).symm, ?_⟩ <;> decide +kernel
  have run : Run (Kernel.step 4294967296) TidyCall blankKernel _ k' :=
    .call ⟨careful, trivial⟩ done (.refl k')
  exact ⟨_, k', run, good, (no_cross_links (by decide) blankKernel_freshTree run).1⟩

/-- An entry that names a free cluster. -/
theorem not_sound_of_free (entry : v.IsEntry g counts σ) (inRange : g.InRange (v.dirent σ).firstCluster)
    (free : v.fat (v.dirent σ).firstCluster = fat32FreeCluster) : ¬ v.Sound g counts :=
  fun sound => sound.allocated σ entry _ (.here inRange) free

/-- Two entries that name the same cluster. -/
theorem not_sound_of_shared (entryσ : v.IsEntry g counts σ) (entryτ : v.IsEntry g counts τ) (ne : σ ≠ τ)
    (inRange : g.InRange (v.dirent σ).firstCluster)
    (same : (v.dirent τ).firstCluster = (v.dirent σ).firstCluster) : ¬ v.Sound g counts := by
  intro sound
  refine sound.apart σ τ entryσ entryτ ne _ (.here inRange) ?_
  rw [same]
  exact .here inRange

/-- A slot of the root directory, when that is the single cluster 2. -/
theorem root_entry (root : g.rootDirFirstCluster = 2) (inRange : g.InRange 2) (ends : fat32EocMin ≤ v.fat 2)
    (member : σ ∈ g.dirSlots [2]) (live : (v.dirent σ).IsLive) (counted : σ ∈ counts) :
    v.IsEntry g counts σ := by
  refine ⟨live, counted, 2, [2], ?_, .last inRange ends, member⟩
  rw [← root]
  exact .root

/-- The volume of a kernel, with the layout of its driver, has a root directory of one
cluster, with a live entry at a slot. -/
def Kernel.rootHolds (k : Kernel) (σ : Slot) : Prop :=
  k.session.machine.fs.gFs.rootDirFirstCluster = 2 ∧ k.session.machine.fs.gFs.InRange 2 ∧
    fat32EocMin ≤ k.volume.fat 2 ∧ σ ∈ k.session.machine.fs.gFs.dirSlots [2] ∧ (k.volume.dirent σ).IsLive

instance (k : Kernel) (σ : Slot) : Decidable (k.rootHolds σ) :=
  inferInstanceAs (Decidable (_ ∧ _ ∧ _ ∧ _ ∧ _))

theorem Kernel.rootHolds.entry (holds : k.rootHolds σ) (counted : σ ∈ counts) :
    k.volume.IsEntry k.session.machine.fs.gFs counts σ := by
  obtain ⟨root, inRange, ends, member, live⟩ := holds
  exact root_entry root inRange ends member live counted

/-- The first cluster of an entry of the root directory is free. -/
def Kernel.dangles (k : Kernel) (σ : Slot) : Prop :=
  k.rootHolds σ ∧ k.session.machine.fs.gFs.InRange (k.volume.dirent σ).firstCluster ∧
    k.volume.fat (k.volume.dirent σ).firstCluster = fat32FreeCluster

instance (k : Kernel) (σ : Slot) : Decidable (k.dangles σ) := inferInstanceAs (Decidable (_ ∧ _ ∧ _))

theorem Kernel.dangles.not_sound (dangles : k.dangles σ) (counted : σ ∈ counts) :
    ¬ k.volume.Sound k.session.machine.fs.gFs counts :=
  not_sound_of_free (dangles.1.entry counted) dangles.2.1 dangles.2.2

instance (k : Kernel) (σ : Slot) : Decidable (σ ∈ k.settled) :=
  inferInstanceAs (Decidable (∀ fd < maxFiles, _))

/-- Two slots name the same cluster: one of the root directory, and one of the directory
whose entry is the first of the root directory. -/
def Kernel.shares (k : Kernel) (σ τ : Slot) : Prop :=
  k.rootHolds (2, 0) ∧ (2, 0) ∈ k.settled ∧ IsDirectoryAttr (k.volume.dirent (2, 0)).attr ∧
    k.session.machine.fs.gFs.InRange (k.volume.dirent (2, 0)).firstCluster ∧
    fat32EocMin ≤ k.volume.fat (k.volume.dirent (2, 0)).firstCluster ∧
    τ ∈ k.session.machine.fs.gFs.dirSlots [(k.volume.dirent (2, 0)).firstCluster] ∧
    (k.volume.dirent τ).IsLive ∧ τ ∈ k.settled ∧ k.rootHolds σ ∧ σ ∈ k.settled ∧ σ ≠ τ ∧
    k.session.machine.fs.gFs.InRange (k.volume.dirent σ).firstCluster ∧
    (k.volume.dirent τ).firstCluster = (k.volume.dirent σ).firstCluster

instance (k : Kernel) (σ τ : Slot) : Decidable (k.shares σ τ) :=
  inferInstanceAs (Decidable (_ ∧ _ ∧ _ ∧ _ ∧ _ ∧ _ ∧ _ ∧ _ ∧ _ ∧ _ ∧ _ ∧ _ ∧ _))

theorem Kernel.shares.not_sound (shares : k.shares σ τ) :
    ¬ k.volume.Sound k.session.machine.fs.gFs k.settled := by
  obtain ⟨holds, counted, directory, inRange, ends, memberτ, liveτ, countedτ, holdsσ, countedσ, ne, rangeσ,
    same⟩ := shares
  obtain ⟨live, -, d, l, inTree, chain, member⟩ := holds.entry counted
  have sub := Volume.InTree.sub inTree chain member live counted directory inRange.ne_zero
  have entryτ : k.volume.IsEntry k.session.machine.fs.gFs k.settled τ :=
    ⟨liveτ, countedτ, _, _, sub, .last inRange ends, memberτ⟩
  exact not_sound_of_shared (holdsσ.entry countedσ) entryτ ne rangeσ same

/-- `open` with `FAT32_O_TRUNC`. -/
def FileCall.truncates : FileCall → Bool
  | .open _ flags => hasFlag (lowByte flags) fat32OTrunc
  | _ => false

/-- Four ways to a volume that is not sound.  `A` is open with `FAT32_O_TRUNC`, so that its
entry is out of date.  `A` is unlinked while it is open, and its descriptor puts its free
cluster into the entry of `B`.  The same with a descriptor of `A` that was open when `A` was
truncated.  Or a program writes an entry for the cluster of `A` into the directory `D`. -/
theorem clusters_cross_linked :
    FreshTree blankKernel ∧
    (∃ calls k', Run (Kernel.step 4294967296) (fun _ _ => True) blankKernel calls k' ∧
      ¬ k'.volume.Sound k'.session.machine.fs.gFs Set.univ) ∧
    (∃ calls k', Run (Kernel.step 4294967296) (fun _ _ => True) blankKernel calls k' ∧
      ¬ k'.volume.Sound k'.session.machine.fs.gFs k'.settled) ∧
    (∃ calls k', Run (Kernel.step 4294967296) (fun _ _ => True) blankKernel calls k' ∧
      (∀ call ∈ calls, call.1.isUnlink = false) ∧
      ¬ k'.volume.Sound k'.session.machine.fs.gFs k'.settled) ∧
    ∃ calls k', Run (Kernel.step 4294967296) (fun _ _ => True) blankKernel calls k' ∧
      (∀ call ∈ calls, call.1.isUnlink = false ∧ call.1.truncates = false) ∧
      ¬ k'.volume.Sound k'.session.machine.fs.gFs k'.settled := by
  -- a truncated file that is open, a file unlinked while it is open, one opened twice, a directory written as a file
  refine ⟨blankKernel_freshTree, ?_, ?_, ?_, ?_⟩
  · obtain ⟨calls, k', run, dangles⟩ := Run.exists_of_replay
      (Kernel.step 4294967296) (fun _ _ => True) blankKernel
      [.open (letterPath 0x41 (by decide)) 4, .close 0, .open (letterPath 0x41 (by decide)) 8]
      (fun _ k' => k'.dangles (2, 0)) (by decide +kernel)
    exact ⟨calls, k', run, dangles.not_sound (Set.mem_univ _)⟩
  · obtain ⟨calls, k', run, dangles, settled⟩ := Run.exists_of_replay
      (Kernel.step 4294967296) (fun _ _ => True) blankKernel
      [.open (letterPath 0x41 (by decide)) 4, .unlink (letterPath 0x41 (by decide)),
        .open (letterPath 0x42 (by decide)) 4, .close 0]
      (fun _ k' => k'.dangles (2, 0) ∧ (2, 0) ∈ k'.settled) (by decide +kernel)
    exact ⟨calls, k', run, dangles.not_sound settled⟩
  · obtain ⟨calls, k', run, noUnlink, dangles, settled⟩ := Run.exists_of_replay
      (Kernel.step 4294967296) (fun _ _ => True) blankKernel
      [.open (letterPath 0x41 (by decide)) 4, .open (letterPath 0x41 (by decide)) 8, .close 1, .close 0]
      (fun calls k' => (∀ call ∈ calls, call.1.isUnlink = false) ∧ k'.dangles (2, 0) ∧
        (2, 0) ∈ k'.settled) (by decide +kernel)
    exact ⟨calls, k', run, noUnlink, dangles.not_sound settled⟩
  · obtain ⟨calls, k', run, plain, shares⟩ := Run.exists_of_replay
      (Kernel.step 4294967296) (fun _ _ => True) blankKernel
      [.mkdir (letterPath 0x44 (by decide)), .open (letterPath 0x41 (by decide)) 4,
        .open (letterPath 0x44 (by decide)) 2, .fileWrite 1 (some (letterEntry 0x42 4)) 32]
      (fun calls k' => (∀ call ∈ calls, call.1.isUnlink = false ∧ call.1.truncates = false) ∧
        k'.shares (2, 32) (3, 0)) (by decide +kernel)
    exact ⟨calls, k', run, plain, shares.not_sound⟩

end QuantumKernel.Syscall
