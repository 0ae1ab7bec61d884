import QuantumKernel.Syscall.Directories
import QuantumKernel.Fat32.Accounted

/-! # Clusters along a run

When a program has closed its descriptors, every allocated cluster belongs to the root directory
or to an entry of the tree, if that was so at the start.  The driver itself does not see to it:
it unlinks a directory with everything in it, gives every handle of an empty file a chain, and
creates directories that cannot be found.
-/

namespace QuantumKernel.Syscall

open Fat32 ByteStore LinkedTable Transition

variable {g : Fat32Fs} {cwd c d : UInt32} {v : Volume} {k k' : Kernel} {call : FileCall} {fsCall : FsCall}
  {reply : Reply} {fuel : Nat} {A B : FileStore} {l : List UInt32} {calls : List (FileCall × Reply)} {σ : Slot}

/-- The slot in which the current directory holds the name of a path. -/
def Kernel.Finds (k : Kernel) (path : CString) (σ : Slot) : Prop :=
  ∃ l, k.Directory l ∧ k.volume.lookup (k.slots l) (fat32ToShortName path) = some σ

/-- A call that loses no cluster: what it truncates or unlinks holds no files, a file that is
open is opened again only if its entry records a cluster, nothing is written through a descriptor
of a directory, and a new directory does not get the name of a deleted entry. -/
def KeepsTrack (k : Kernel) : FileCall → Prop
  | .open (some path) flags => ∀ σ, k.Finds path σ →
      (hasFlag (lowByte flags) fat32OTrunc = true → k.volume.Hollow k.session.machine.fs.gFs σ) ∧
        ∀ h, OpenUnder k.session.machine.file k.session.opened (fat32ToShortName path) h →
          (k.volume.dirent σ).firstCluster ≠ 0
  | .fileWrite fd _ _ =>
    k.badFd fd = false → ¬ IsDirectoryAttr (k.session.machine.file fd.toNatClampNeg).attr
  | .unlink path => ∀ σ, k.Finds path σ → k.volume.Hollow k.session.machine.fs.gFs σ
  | .mkdir path => fat32ToShortName path 0 ≠ 0xE5
  | _ => True

/-- The calls of a careful program that loses no cluster. -/
def TrackedCall (k : Kernel) (call : FileCall) : Prop := CarefulCall k call ∧ KeepsTrack k call

/-- The kernel shows a store with a tree in order that accounts for every cluster. -/
structure AccountedInOrder (g : Fat32Fs) (cwd : UInt32) (k : Kernel) (A : FileStore) : Prop where
  tree : TreeInOrder g cwd k A
  accounted : A.Accounted g cwd

/-! ## One call -/

theorem TreeInOrder.stores (order : TreeInOrder g cwd k A) :
    k.volume = A.volume ∧ k.session.machine.fs.gFs = { g with fsinfo := k.session.machine.fs.gFs.fsinfo } ∧
      k.session.machine.fs.gCurrentDirCluster = cwd ∧ k.session.machine.file = A.file ∧
      k.session.opened = A.opened := by
  have shows_ := order.order.inOrder.1
  exact ⟨shows_.stores.volume_eq, shows_.stores.gFs, shows_.stores.current, shows_.file, shows_.opened⟩

theorem TreeInOrder.finds {path : CString} (order : TreeInOrder g cwd k A) (found : A.lookup g path = some σ) :
    k.Finds path σ := by
  obtain ⟨volume, layout, current, -⟩ := order.stores
  refine ⟨A.directory, ?_, ?_⟩
  · rw [Kernel.Directory, volume, layout, current]
    exact order.order.inOrder.2.chain
  · rw [Kernel.slots, volume, layout]
    exact found

theorem KeepsTrack.tracks (keeps : KeepsTrack k call) (makes : k.fsCall call = some fsCall)
    (order : TreeInOrder g cwd k A) : A.Tracks g fsCall := by
  obtain ⟨volume, layout, current, file, opened⟩ := order.stores
  have hollow {σ : Slot} (empty : k.volume.Hollow k.session.machine.fs.gFs σ) : A.volume.Hollow g σ := by
    rw [volume, layout] at empty
    exact empty
  cases call with
  | «open» path flags =>
    obtain ⟨fd, -, rfl⟩ := Option.map_eq_some_iff.mp makes
    cases path with
    | none => trivial
    | some path =>
      intro σ found
      obtain ⟨empty, recorded⟩ := keeps σ (order.finds found)
      rw [file, opened, volume] at recorded
      exact ⟨fun trunc => hollow (empty trunc), recorded⟩
  | fileWrite fd buffer size =>
    simp only [Kernel.fsCall, Option.ite_none_left_eq_some, Option.some.injEq] at makes
    obtain ⟨good, rfl⟩ := makes
    intro _
    rw [← file]
    exact keeps (Bool.eq_false_iff.mpr good)
  | close fd | fileRead fd | seek fd =>
    simp only [Kernel.fsCall, Option.ite_none_left_eq_some, Option.some.injEq] at makes
    obtain ⟨-, rfl⟩ := makes
    trivial
  | unlink path =>
    cases makes
    exact fun σ found => hollow (keeps σ (order.finds found))
  | mkdir path =>
    cases makes
    exact keeps

theorem AccountedInOrder.step (order : AccountedInOrder g cwd k A) (enough : 4294967296 ≤ fuel)
    (allowed : TrackedCall k call) (done : k.step fuel call = some (reply, k')) :
    ∃ B, AccountedInOrder g cwd k' B := by
  obtain ⟨⟨order, tree⟩, accounted⟩ := order
  obtain ⟨shows_, consistent⟩ := order.inOrder
  obtain ⟨B, order', same | ⟨fsCall, r, makes, careful, next⟩⟩ := order.step enough allowed.1 done
  · subst same
    exact ⟨B, ⟨order', tree⟩, accounted⟩
  · have disciplined : Disciplined A.file A.opened fsCall := by
      rw [← shows_.file, ← shows_.opened]
      exact careful
    have tracks := allowed.2.tracks makes ⟨order, tree⟩
    exact ⟨B, ⟨order', tree.next consistent disciplined tracks.spares next⟩,
      accounted.next tree consistent disciplined tracks next⟩

/-! ## Runs -/

theorem noLeaks_withFsinfo {hint : Fat32Fsinfo} : v.NoLeaks { g with fsinfo := hint } ↔ v.NoLeaks g := by
  have reachable (c : UInt32) : v.Reachable { g with fsinfo := hint } c ↔ v.Reachable g c :=
    or_congr walk_withFsinfo (exists_congr fun σ => and_congr isEntry_withFsinfo walk_withFsinfo)
  exact forall_congr' fun c => imp_congr Iff.rfl (imp_congr Iff.rfl (reachable c))

/-- Nothing is open yet. -/
theorem FreshTree.accounted (fresh : FreshTree k) (noLeaks : k.volume.NoLeaks k.session.machine.fs.gFs) :
    ∃ A, AccountedInOrder k.session.machine.fs.gFs k.session.machine.fs.gCurrentDirCluster k A := by
  obtain ⟨mounted, wf, closed, unused⟩ := fresh
  obtain ⟨l, chain⟩ := wf.dir_chain wf.current
  have shows_ : Shows k.session.machine.fs.gFs k.session.machine.fs.gCurrentDirCluster k.session
      (treeStore k.session.machine.fs.gFs k.session.machine.fs.gCurrentDirCluster k.volume l
        k.session.machine.file k.session.opened) :=
    ⟨Stores.of_geometry mounted.geometry mounted.drive, rfl, rfl⟩
  refine ⟨_, ⟨⟨⟨shows_, wf.consistent mounted.geometry chain _ closed _⟩, fun h => ?_⟩,
    wf.tree chain _ closed _⟩, wf.accounted mounted.geometry noLeaks chain _ closed _⟩
  simp [closed h, unused h]

theorem AccountedInOrder.noLeaks (order : AccountedInOrder g cwd k A)
    (unused : ∀ fd < maxFiles, k.fileUsed fd = false) : k.volume.NoLeaks k.session.machine.fs.gFs := by
  obtain ⟨tree, accounted⟩ := order
  obtain ⟨volume, layout, -, file, -⟩ := tree.stores
  rw [volume, layout]
  refine noLeaks_withFsinfo.mpr (accounted.noLeaks tree.tree tree.order.inOrder.2 fun h => ?_)
  rw [Bool.eq_false_iff]
  intro isOpen
  rw [← file] at isOpen
  obtain ⟨below, used⟩ := (tree.order.table h).mp isOpen
  rw [unused h below] at used
  cases used

/-- **No cluster is leaked.**  When a program that keeps track has closed its descriptors, every
allocated cluster belongs to the root directory or to an entry of the tree. -/
theorem no_leaks (enough : 4294967296 ≤ fuel) (fresh : FreshTree k)
    (noLeaks : k.volume.NoLeaks k.session.machine.fs.gFs)
    (run : Run (Kernel.step fuel) TrackedCall k calls k') :
    ((∀ fd < maxFiles, k'.fileUsed fd = false) → k'.volume.NoLeaks k'.session.machine.fs.gFs) ∧
      ∀ call, TrackedCall k' call → ∃ reply k'', k'.step fuel call = some (reply, k'') := by
  obtain ⟨A, order⟩ := fresh.accounted noLeaks
  obtain ⟨B, order'⟩ := run.invariant (fun k₁ => ∃ B, AccountedInOrder k.session.machine.fs.gFs
    k.session.machine.fs.gCurrentDirCluster k₁ B)
    (fun k₁ call reply k₂ ⟨C, order₁⟩ allowed done => order₁.step enough allowed done) ⟨A, order⟩
  exact ⟨order'.noLeaks, fun call allowed => order'.tree.order.returns enough allowed.1⟩

/-- The clusters of `smallFs`, one by one. -/
theorem smallFs_cluster (inRange : smallFs.InRange c) : ∃ i ∈ List.range 8, c = UInt32.ofNat (i + 2) := by
  have lower : 2 ≤ c.toNat := inRange.1
  have upper : c.toNat < 10 := inRange.2
  refine ⟨c.toNat - 2, List.mem_range.mpr (by omega), ?_⟩
  rw [Nat.sub_add_cancel lower, UInt32.ofNat_toNat]

theorem blankKernel_noLeaks : blankKernel.volume.NoLeaks smallFs := by
  intro c inRange used
  obtain ⟨i, below, rfl⟩ := smallFs_cluster inRange
  have only : ∀ i ∈ List.range 8, blankKernel.volume.fat (UInt32.ofNat (i + 2)) ≠ fat32FreeCluster →
      UInt32.ofNat (i + 2) = smallFs.rootDirFirstCluster := by decide +kernel
  rw [only i below used] at inRange ⊢
  exact Or.inl (.here inRange)

/-- `A` is created and closed. -/
theorem no_leaks_blank :
    ∃ calls k', Run (Kernel.step 4294967296) TrackedCall blankKernel calls k' ∧
      (∀ fd < maxFiles, k'.fileUsed fd = false) ∧ k'.volume.fat 3 ≠ fat32FreeCluster ∧
      k'.volume.NoLeaks k'.session.machine.fs.gFs := by
  have closed (h : Nat) : ¬ OpenUnder blankKernel.session.machine.file blankKernel.session.opened
      (fat32ToShortName (letterPath 0x41 (by decide))) h :=
    fun under => absurd under.1 (by simp [blankKernel, blankSession, Fat32File.zero])
  have allowed : TrackedCall blankKernel (.open (letterPath 0x41 (by decide)) 4) :=
    ⟨fun h under => absurd under (closed h), fun σ _ => ⟨fun trunc => absurd trunc (by decide),
      fun h under => absurd under (closed h)⟩⟩
  obtain ⟨reply₁, k₁, reply₂, k₂, opened, done, unused, taken⟩ : ∃ reply₁ k₁ reply₂ k₂,
      blankKernel.step 4294967296 (.open (letterPath 0x41 (by decide)) 4) = some (reply₁, k₁) ∧
      k₁.step 4294967296 (.close 0) = some (reply₂, k₂) ∧ (∀ fd < maxFiles, k₂.fileUsed fd = false) ∧
      k₂.volume.fat 3 ≠ fat32FreeCluster := by
    refine ⟨_, _, _, _, (Option.some_get ?_).symm, (Option.some_get ?_).symm, ?_, ?_⟩ <;> decide +kernel
  have closing : TrackedCall k₁ (.close 0) := ⟨trivial, trivial⟩
  have run : Run (Kernel.step 4294967296) TrackedCall blankKernel _ k₂ :=
    .call allowed opened (.call closing done (.refl k₂))
  exact ⟨_, k₂, run, unused, taken,
    (no_leaks (by decide) blankKernel_freshTree blankKernel_noLeaks run).1 unused⟩

/-! ## Clusters that are lost -/

/-- The root directory is one cluster, its entries start with other clusters than `c`, and no
directory in it has entries. -/
def Kernel.loses (k : Kernel) (c : UInt32) : Prop :=
  k.session.machine.fs.gFs.rootDirFirstCluster = 2 ∧ k.session.machine.fs.gFs.InRange c ∧ c ≠ 2 ∧
    k.volume.fat c ≠ fat32FreeCluster ∧ ¬ k.session.machine.fs.gFs.InRange (k.volume.fat 2) ∧
    ∀ σ ∈ k.session.machine.fs.gFs.dirSlots [2], (k.volume.dirent σ).IsLive →
      (k.volume.dirent σ).firstCluster ≠ c ∧
        ¬ k.session.machine.fs.gFs.InRange (k.volume.fat (k.volume.dirent σ).firstCluster) ∧
        (IsDirectoryAttr (k.volume.dirent σ).attr →
          ∀ τ ∈ k.session.machine.fs.gFs.dirSlots [(k.volume.dirent σ).firstCluster], ¬ (k.volume.dirent τ).IsLive)

instance (k : Kernel) (c : UInt32) : Decidable (k.loses c) :=
  inferInstanceAs (Decidable (_ ∧ _ ∧ _ ∧ _ ∧ _ ∧ _))

theorem Kernel.loses.not_noLeaks (loses : k.loses c) : ¬ k.volume.NoLeaks k.session.machine.fs.gFs := by
  obtain ⟨root, inRange, notRoot, used, ends, entries⟩ := loses
  have single {a x : UInt32} (ends : ¬ k.session.machine.fs.gFs.InRange (k.volume.fat a))
      (walk : k.volume.Walk k.session.machine.fs.gFs a x) : x = a := by
    induction walk with
    | here => rfl
    | next _ valid ih => exact absurd (ih ▸ valid) ends
  have chainOf {a : UInt32} {l : List UInt32} (ends : ¬ k.session.machine.fs.gFs.InRange (k.volume.fat a))
      (chain : k.Chain a l) : l = [a] := by
    cases chain with
    | last => rfl
    | link _ rest => exact absurd (rest.cell_of_mem _ rest.head_mem) ends
  -- a listed entry is one of the root directory
  have listed {d : UInt32} {l : List UInt32} {σ : Slot} (known : d = 2 ∨ ∃ τ ∈ k.slots [2],
      (k.volume.dirent τ).IsLive ∧ IsDirectoryAttr (k.volume.dirent τ).attr ∧ (k.volume.dirent τ).firstCluster = d)
      (chain : k.Chain d l) (member : σ ∈ k.slots l) (live : (k.volume.dirent σ).IsLive) : σ ∈ k.slots [2] := by
    rcases known with rfl | ⟨τ, memberτ, liveτ, directory, rfl⟩
    · rwa [chainOf ends chain] at member
    · obtain ⟨-, endsτ, empty⟩ := entries τ memberτ liveτ
      rw [chainOf endsτ chain] at member
      exact absurd live (empty directory σ member)
  have directories {d : UInt32} (inTree : k.InTree d) : d = 2 ∨ ∃ τ ∈ k.slots [2],
      (k.volume.dirent τ).IsLive ∧ IsDirectoryAttr (k.volume.dirent τ).attr ∧ (k.volume.dirent τ).firstCluster = d := by
    induction inTree with
    | root => exact Or.inl root
    | sub _ chain member live _ directory _ ih => exact Or.inr ⟨_, listed ih chain member live, live, directory, rfl⟩
  intro noLeaks
  rcases noLeaks c inRange used with walk | ⟨σ, ⟨live, -, d, l, inTree, chain, member⟩, walk⟩
  · rw [root] at walk
    exact notRoot (single ends walk)
  · obtain ⟨other, endsσ, -⟩ := entries σ (listed (directories inTree) chain member live) live
    exact other (single endsσ walk).symm

/-- The directory `D` holds the file `F`. -/
def nestedDrive : Nat → Bytes :=
  smallDrive (fun c => if c = 2 ∨ c = 3 ∨ c = 4 then fat32EocMax else fat32FreeCluster) fun c k =>
    if k < 32 then
      if c = 2 then if k = 11 then fat32AttrDirectory else letterEntry 0x44 3 k
      else if c = 3 then letterEntry 0x46 4 k else 0
    else 0

def nestedKernel : Kernel :=
  ⟨⟨⟨mountedOn smallFs nestedDrive, fun _ => Fat32File.zero⟩, fun _ _ => 0⟩, fun _ => false⟩

theorem nestedKernel_freshTree : FreshTree nestedKernel :=
  ⟨⟨smallFs_geometry, fun _ => rfl⟩, WellFormedTree.of_single smallFs_geometry [2, 3] [(2, 0), (3, 0)] (by decide)
    (by decide +kernel) (by decide +kernel) (by decide +kernel) (by decide +kernel) (by decide +kernel),
    fun _ => rfl, fun _ => rfl⟩

theorem nestedKernel_noLeaks : nestedKernel.volume.NoLeaks smallFs := by
  have holds : nestedKernel.holdsDirectory := by decide +kernel
  obtain ⟨root, -, first, -⟩ := id holds
  intro c inRange used
  obtain ⟨i, below, rfl⟩ := smallFs_cluster inRange
  have only : ∀ i ∈ List.range 8, nestedKernel.volume.fat (UInt32.ofNat (i + 2)) ≠ fat32FreeCluster →
      UInt32.ofNat (i + 2) = smallFs.rootDirFirstCluster ∨ UInt32.ofNat (i + 2) = 3 ∨
        UInt32.ofNat (i + 2) = (nestedKernel.volume.dirent (3, 0)).firstCluster := by decide +kernel
  rcases only i below used with same | same | same
  · rw [same] at inRange ⊢
    exact Or.inl (.here inRange)
  · rw [same] at inRange ⊢
    refine Or.inr ⟨(2, 0), root.entry (Set.mem_univ _), ?_⟩
    rw [first]
    exact .here inRange
  · rw [same] at inRange ⊢
    have chain : FatChain smallFs nestedKernel.volume 3 [3] := .last (by decide) (by decide +kernel)
    exact Or.inr ⟨(3, 0), ⟨by decide +kernel, Set.mem_univ _, 3, [3], holds.inTree, chain, by decide⟩, .here inRange⟩

/-- Every descriptor is closed and the cluster is lost. -/
def Kernel.leaks (c : UInt32) (_ : List (FileCall × Reply)) (k : Kernel) : Prop :=
  (∀ fd < maxFiles, k.fileUsed fd = false) ∧ k.loses c

instance (c : UInt32) (calls : List (FileCall × Reply)) (k : Kernel) : Decidable (Kernel.leaks c calls k) :=
  inferInstanceAs (Decidable (_ ∧ _))

/-- The calls are made one after another, and at the end every descriptor is closed and a cluster
belongs to no entry. -/
def Kernel.Leaks (k : Kernel) (inputs : List FileCall) : Prop :=
  ∃ calls k', Run (Kernel.step 4294967296) (fun _ _ => True) k calls k' ∧ calls.map Prod.fst = inputs ∧
    (∀ fd < maxFiles, k'.fileUsed fd = false) ∧ ¬ k'.volume.NoLeaks k'.session.machine.fs.gFs

theorem leaks_of_replay (k : Kernel) (inputs : List FileCall) (c : UInt32)
    (replayed : (replay (Kernel.step 4294967296) (fun _ _ => True) k inputs).any
      (fun result => Kernel.leaks c result.1 result.2) = true) : k.Leaks inputs := by
  obtain ⟨calls, k', run, made, closed, loses⟩ :=
    Run.exists_of_replay_inputs _ _ k inputs (Kernel.leaks c) replayed
  exact ⟨calls, k', run, made, closed, loses.not_noLeaks⟩

/-- Five ways to lose a cluster.  A directory is made under a name that starts with the mark of
deleted entries.  An empty file is open twice, and each handle gives it a first cluster.  A file
is unlinked while it is open.  A directory is unlinked with the file in it.  Or its entries are
overwritten through a descriptor. -/
theorem clusters_leaked :
    FreshTree blankKernel ∧ blankKernel.volume.NoLeaks smallFs ∧
    FreshTree nestedKernel ∧ nestedKernel.volume.NoLeaks smallFs ∧
    blankKernel.Leaks [.mkdir (letterPath 0xE5 (by decide))] ∧
    blankKernel.Leaks [.open (letterPath 0x41 (by decide)) 4, .close 0, .open (letterPath 0x41 (by decide)) 8,
      .close 0, .open (letterPath 0x41 (by decide)) 2, .open (letterPath 0x41 (by decide)) 2,
      .fileWrite 0 (some fun _ => 0x41) 5, .fileWrite 1 (some fun _ => 0x41) 5, .close 0, .close 1] ∧
    blankKernel.Leaks [.open (letterPath 0x41 (by decide)) 4, .close 0, .open (letterPath 0x41 (by decide)) 8,
      .unlink (letterPath 0x41 (by decide)), .fileWrite 0 (some fun _ => 0x41) 5, .close 0] ∧
    nestedKernel.Leaks [.unlink (letterPath 0x44 (by decide))] ∧
    nestedKernel.Leaks [.open (letterPath 0x44 (by decide)) 2, .fileWrite 0 (some fun _ => 0) 32, .close 0] := by
  refine ⟨blankKernel_freshTree, blankKernel_noLeaks, nestedKernel_freshTree, nestedKernel_noLeaks,
    leaks_of_replay _ _ 3 ?_, leaks_of_replay _ _ 4 ?_, leaks_of_replay _ _ 4 ?_, leaks_of_replay _ _ 4 ?_,
    leaks_of_replay _ _ 4 ?_⟩ <;> decide +kernel

end QuantumKernel.Syscall
