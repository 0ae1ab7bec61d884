import QuantumKernel.Fat32.DirectoryMap
import QuantumKernel.Fat32.Frame

/-! # Names in a directory

Whether a name stays unique, and whether two paths denote the same file.
-/

namespace QuantumKernel.Fat32

open ByteStore LinkedTable Transition

variable {g : Fat32Fs} {cwd : UInt32} {v v' : Volume} {A B : FileStore} {call : FsCall} {r : Int32}
  {t t' : Session} {l : List UInt32} {slots : List Slot} {σ : Slot} {fuel : Nat}

/-! ## Unique names -/

theorem Volume.UniqueNames.congr (unique : v.UniqueNames slots)
    (same : ∀ σ ∈ slots, v'.dirent σ = v.dirent σ) : v'.UniqueNames slots := by
  refine unique.of_names fun name σ names => ?_
  rw [Volume.Names, same σ names.1] at names
  exact names

/-- A new directory has a name that no live entry has. -/
def FileStore.FreshMkdir (g : Fat32Fs) (A : FileStore) : FsCall → Prop
  | .mkdir path => A.lookup g path = none
  | _ => True

/-- **One call keeps names unique**, if it is not the creation of a directory under a name
in use. -/
theorem FileStore.Next.uniqueNames (consistent : A.Consistent g cwd) (next : A.Next g cwd call r B)
    (fresh : A.FreshMkdir g call) (unique : A.volume.UniqueNames (A.slots g)) :
    B.volume.UniqueNames (B.slots g) := by
  have geo := consistent.geometry
  have frame := fun c => next.frame (x := c) geo
  cases next with
  | openNull | openFails | openFound | read | writeFails | seek | closeFails | unlinkFails
    | mkdirFails => exact unique
  | openTruncates h path flags σ m found trunc chain => exact unique.congr fun _ _ => rfl
  | openCreates h path flags n v' l' σ absent creat inRange free inserted notDead =>
    rw [FileStore.lookup, ← Volume.lookup_setFat A.volume n fat32EocMax] at absent
    exact inserted.uniqueNames (fun _ => Volume.lookup_none consistent.ends absent)
      (unique.congr fun _ _ => rfl)
  | openLosesEntry h path flags n v' l' σ absent inRange free inserted dead =>
    rw [FileStore.lookup, ← Volume.lookup_setFat A.volume n fat32EocMax] at absent
    have inserted' := inserted.uniqueNames (fun _ => Volume.lookup_none consistent.ends absent)
      (unique.congr fun _ _ => rfl)
    exact inserted'.congr fun _ _ => rfl
  | wrote h data size a n l l' v' file' isOpen source inRange few first advanced wrote =>
    refine unique.congr (Volume.dirent_congr fun c member => ?_)
    exact (frame c (consistent.directory_untouched member _ _)).2
  | closed h isOpen member =>
    have edited := closeAt_edited (v := A.volume) geo member (A.file h)
    exact unique.of_names fun _ _ names => (edited.names_iff rfl Iff.rfl).mp names
  | unlinkedEmpty path σ found empty =>
    have edited := eraseAt_edited (v := A.volume) geo (FileStore.lookup_names found).1
    exact unique.of_names fun _ _ names =>
      ((edited.names_erased (unlinkedEntry_deleted _).not_live).mp names).1
  | unlinked path σ m found chain =>
    have edited := eraseAt_edited (v := A.volume.freeAll m) geo (FileStore.lookup_names found).1
    exact unique.of_names fun _ _ names =>
      ((edited.names_erased (unlinkedEntry_deleted _).not_live).mp names).1
  | mkdirMakes path n v' l' σ inRange free inserted =>
    have absent : A.lookup g path = none := fresh
    rw [FileStore.lookup, ← Volume.lookup_setFat A.volume n fat32EocMax] at absent
    have unique' := inserted.uniqueNames (fun _ => Volume.lookup_none consistent.ends absent)
      (unique.congr fun _ _ => rfl)
    refine unique'.congr (Volume.dirent_congr fun c member => ?_)
    rw [Volume.setData_data, Function.update_of_ne]
    rintro rfl
    exact consistent.fresh_outside inRange free inserted member

/-- A careful call that creates a directory under an absent name only. -/
def FreshNames (fuel : Nat) (t : Session) (call : FsCall) : Prop :=
  Careful t call ∧
    ∀ path, call = .mkdir path → dirMap fuel t.machine.fs (fat32ToShortName path) = none

/-- The session shows a consistent store in which no name occurs twice. -/
def UniquelyNamed (g : Fat32Fs) (cwd : UInt32) (t : Session) : Prop :=
  ∃ A, InOrder g cwd t A ∧ A.volume.UniqueNames (A.slots g)

theorem UniquelyNamed.step (named : UniquelyNamed g cwd t) (enough : 4294967296 ≤ fuel)
    (fresh : FreshNames fuel t call) {reply : Reply} (done : t.step fuel call = some (reply, t')) :
    UniquelyNamed g cwd t' := by
  obtain ⟨A, order, unique⟩ := named
  obtain ⟨B, next, order'⟩ := order.step enough fresh.1 done
  refine ⟨B, order', next.uniqueNames order.2 ?_ unique⟩
  cases call with
  | mkdir path => exact order.1.stores.absent enough order.2.chain (fresh.2 path rfl)
  | _ => trivial

/-- **Names stay unique** along every run in which each `fat32_mkdir` gets a name that is
absent: `fat32_mkdir` does not look for an existing entry, unlike `fat32_open`. -/
theorem names_stay_unique (enough : 4294967296 ≤ fuel) (fresh : Fresh t l)
    (unique : t.machine.fs.volume.UniqueNames (t.machine.fs.gFs.dirSlots l))
    {calls : List (FsCall × Reply)} (run : Run (Session.step fuel) (FreshNames fuel) t calls t') :
    ∃ l', FatChain t'.machine.fs.gFs t'.machine.fs.volume t'.machine.fs.gCurrentDirCluster l' ∧
      t'.machine.fs.volume.UniqueNames (t'.machine.fs.gFs.dirSlots l') := by
  have start : UniquelyNamed t.machine.fs.gFs t.machine.fs.gCurrentDirCluster t :=
    ⟨_, fresh.shows, unique⟩
  obtain ⟨B, ⟨shows_, consistent⟩, unique'⟩ :=
    run.invariant (UniquelyNamed _ _) (fun _ _ _ _ named permitted done => named.step enough permitted done) start
  refine ⟨B.directory, ?_, shows_.stores.uniqueNames unique'⟩
  rw [shows_.stores.volume_eq, shows_.stores.current, shows_.stores.gFs]
  exact consistent.chain

/-- A directory is created under an absent name. -/
def freshMkdir (fuel : Nat) (t : Session) : FsCall → Bool
  | .mkdir path => (dirMap fuel t.machine.fs (fat32ToShortName path)).isNone
  | _ => false

theorem freshNames_of_mkdir (fresh : freshMkdir fuel t call = true) :
    FreshNames fuel t call := by
  cases call with
  | mkdir path =>
    refine ⟨trivial, fun _ same => ?_⟩
    cases same
    exact Option.isNone_iff_eq_none.mp fresh
  | _ => cases fresh

/-- Two directories under different names. -/
theorem names_stay_unique_two :
    ∃ calls t', Run (Session.step 4294967296) (FreshNames 4294967296) blankSession calls t' ∧
      ((dirMap 4294967296 t'.machine.fs (fat32ToShortName (letterPath 0x41 (by decide)))).isSome ∧
        (dirMap 4294967296 t'.machine.fs (fat32ToShortName (letterPath 0x42 (by decide)))).isSome) ∧
      ∃ l', FatChain t'.machine.fs.gFs t'.machine.fs.volume t'.machine.fs.gCurrentDirCluster l' ∧
        t'.machine.fs.volume.UniqueNames (t'.machine.fs.gFs.dirSlots l') := by
  obtain ⟨calls, t', run, both⟩ := Run.exists_of_replay (Session.step 4294967296)
    (fun t call => freshMkdir 4294967296 t call = true) blankSession
    [.mkdir (letterPath 0x41 (by decide)), .mkdir (letterPath 0x42 (by decide))]
    (fun _ t' =>
      (dirMap 4294967296 t'.machine.fs (fat32ToShortName (letterPath 0x41 (by decide)))).isSome ∧
        (dirMap 4294967296 t'.machine.fs (fat32ToShortName (letterPath 0x42 (by decide)))).isSome)
    (by decide +kernel)
  have fresh := run.mono fun _ _ => freshNames_of_mkdir
  exact ⟨calls, t', fresh, both, names_stay_unique (by decide) blankSession_fresh (by decide +kernel) fresh⟩
/-- Two directories of the same name. -/
theorem names_collide :
    ∃ t l calls t', Fresh t l ∧ t.machine.fs.volume.UniqueNames (t.machine.fs.gFs.dirSlots l) ∧
      Run (Session.step 10) (fun _ _ => True) t calls t' ∧
      ¬ t'.machine.fs.volume.UniqueNames (t'.machine.fs.gFs.dirSlots l) ∧
      FatChain t'.machine.fs.gFs t'.machine.fs.volume t'.machine.fs.gCurrentDirCluster l := by
  obtain ⟨calls, t', run, twice, current, inRange, ends⟩ := Run.exists_of_replay (Session.step 10)
    (fun _ _ => True) blankSession
    [.mkdir (letterPath 0x41 (by decide)), .mkdir (letterPath 0x61 (by decide))]
    (fun _ t' => ¬ t'.machine.fs.volume.UniqueNames (t'.machine.fs.gFs.dirSlots [2]) ∧
      t'.machine.fs.gCurrentDirCluster = 2 ∧ t'.machine.fs.gFs.InRange 2 ∧
      fat32EocMin ≤ t'.machine.fs.volume.fat 2) (by decide +kernel)
  refine ⟨blankSession, [2], calls, t', blankSession_fresh, by decide +kernel, run, twice, ?_⟩
  rw [current]
  exact .last inRange ends

/-! ## Different paths -/

/-- **Paths with different short names denote different files.**  After `n1` was created
in a directory without `n2`, opening or unlinking `n2` fails and changes nothing exactly
if the short names differ; otherwise `n2` opens the file that was created. -/
theorem different_short_names {s s₁ : Fat32State} {file file₁ : Fat32File} {n1 n2 : CString}
    {flags : UInt8} (enough : 4294967296 ≤ fuel) (mounted : Mounted s)
    (chain : FatChain s.gFs s.volume s.gCurrentDirCluster l)
    (absent₁ : ∀ σ, ¬ s.volume.Names (s.gFs.dirSlots l) (fat32ToShortName n1) σ)
    (absent₂ : ∀ σ, ¬ s.volume.Names (s.gFs.dirSlots l) (fat32ToShortName n2) σ)
    (creat : hasFlag flags fat32OCreat = true)
    (created : fat32Open fuel s file (some n1) flags = some (0, file₁, s₁)) :
    (fat32ToShortName n1 ≠ fat32ToShortName n2 →
      (∀ file₂ flags₂, hasFlag flags₂ fat32OCreat = false →
        ∃ s₂, fat32Open fuel s₁ file₂ (some n2) flags₂ = some (-1, Fat32File.zero, s₂) ∧
          s₂.volume = s₁.volume) ∧
      ∃ s₂, fat32Unlink fuel s₁ n2 = some (-1, s₂) ∧ s₂.volume = s₁.volume) ∧
    (fat32ToShortName n1 = fat32ToShortName n2 →
      ∀ file₂, ∃ file₃ s₂, fat32Open fuel s₁ file₂ (some n2) 0 = some (0, file₃, s₂) ∧
        file₃.slot = file₁.slot) := by
  have stores := Stores.of_geometry mounted.geometry mounted.drive
  -- the call reported success
  have failed {file' : Fat32File} {s' : Fat32State}
      (run : fat32Open fuel s file (some n1) flags = some (-1, file', s')) : False :=
    absurd (congrArg (Option.map Prod.fst) (created.symm.trans run)) (by simp)
  rcases fat32Open_creates file enough chain absent₁ creat stores with
    ⟨s', run, -⟩ | ⟨n, s', v', l', σ, inRange, free, inserted, ⟨notDead, run, stores'⟩ | ⟨-, run, -⟩⟩
  · exact (failed run).elim
  · rw [created] at run
    cases run
    have chain' := inserted.grown.chain
    have live := (newEntry_live_iff n1 fat32AttrArchive (by decide) n).mpr notDead
    refine ⟨fun differ => ?_, fun same file₂ => ?_⟩
    · have missing : v'.lookup (s.gFs.dirSlots l') (fat32ToShortName n2) = none := by
        refine Volume.lookup_absent fun τ names => ?_
        rcases inserted.names_iff.mp names with ⟨-, -, same⟩ | old
        · exact differ same
        · exact absent₂ τ old
      refine ⟨fun file₂ flags₂ noCreat => ?_, ?_⟩
      · obtain ⟨s₂, run₂, stores₂⟩ := fat32Open_missing file₂ enough chain' missing noCreat stores'
        exact ⟨s₂, run₂, stores₂.volume_eq.trans stores'.volume_eq.symm⟩
      · obtain ⟨s₂, run₂, stores₂⟩ := fat32Unlink_missing enough chain' missing stores'
        exact ⟨s₂, run₂, stores₂.volume_eq.trans stores'.volume_eq.symm⟩
    · have found := inserted.lookup_new live same absent₂
      have keeps : hasFlag 0 fat32OTrunc = false := by decide
      obtain ⟨s₂, run₂, -⟩ := fat32Open_found file₂ enough chain' found (Or.inl keeps) stores'
      exact ⟨_, s₂, run₂, by rw [handleFor_slot, handleFor_slot]⟩
  · exact (failed run).elim

theorem different_short_names_blank :
    ∃ file₁ s₁ s₂, fat32Open 4294967296 (mountedOn smallFs blankDrive) Fat32File.zero
        (some (letterPath 0x41 (by decide))) fat32OCreat = some (0, file₁, s₁) ∧
      fat32Unlink 4294967296 s₁ (letterPath 0x42 (by decide)) = some (-1, s₂) := by
  have ok : (fat32Open 4294967296 (mountedOn smallFs blankDrive) Fat32File.zero
      (some (letterPath 0x41 (by decide))) fat32OCreat).map (fun result => result.1) = some 0 := by
    decide +kernel
  obtain ⟨⟨status, file₁, s₁⟩, created, rfl⟩ := Option.map_eq_some_iff.mp ok
  obtain ⟨s₂, unlinked, -⟩ := ((different_short_names (by decide) ⟨smallFs_geometry, fun _ => rfl⟩
    blankDrive_wellFormed.chain (blankDrive_absent _)
    (blankDrive_absent (fat32ToShortName (letterPath 0x42 (by decide)))) (by decide) created).1
    (by decide)).2
  exact ⟨file₁, s₁, s₂, created, unlinked⟩

/-- The path of nine characters that ends in the given one. -/
def longPath (c : UInt8) (nonzero : c ≠ 0) : CString :=
  ⟨List.replicate 8 0x41 ++ [c], by simpa using nonzero.symm⟩

/-- Two different names of nine characters denote one file: opening the second one with
`FAT32_O_TRUNC` succeeds. -/
theorem clipped_names_collide :
    ∃ s l n1 n2 file₁ s₁ file₂ s₂, Mounted s ∧
      WellFormed s.gFs s.gCurrentDirCluster s.volume l ∧
      (∀ σ, ¬ s.volume.Names (s.gFs.dirSlots l) (fat32ToShortName n1) σ) ∧
      (∀ σ, ¬ s.volume.Names (s.gFs.dirSlots l) (fat32ToShortName n2) σ) ∧
      n1.val.map toUpper ≠ n2.val.map toUpper ∧
      fat32Open 10 s Fat32File.zero (some n1) fat32OCreat = some (0, file₁, s₁) ∧
      fat32Open 10 s₁ Fat32File.zero (some n2) fat32OTrunc = some (0, file₂, s₂) := by
  have ok : ((fat32Open 10 (mountedOn smallFs blankDrive) Fat32File.zero
      (some (longPath 0x41 (by decide))) fat32OCreat).map fun result =>
        (result.1, (fat32Open 10 result.2.2 Fat32File.zero (some (longPath 0x42 (by decide)))
          fat32OTrunc).map (fun result => result.1))) = some (0, some 0) := by decide +kernel
  obtain ⟨⟨status, file₁, s₁⟩, created, same⟩ := Option.map_eq_some_iff.mp ok
  obtain ⟨rfl, second⟩ := Prod.mk.inj same
  obtain ⟨⟨status₂, file₂, s₂⟩, opened, rfl⟩ := Option.map_eq_some_iff.mp second
  exact ⟨_, [2], _, _, file₁, s₁, file₂, s₂, ⟨smallFs_geometry, fun _ => rfl⟩,
    blankDrive_wellFormed, blankDrive_absent _, blankDrive_absent _, by decide, created, opened⟩

end QuantumKernel.Fat32
