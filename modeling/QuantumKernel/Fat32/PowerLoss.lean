import QuantumKernel.Fat32.Confinement
import QuantumKernel.Fat32.MountChecks
import QuantumKernel.Fat32.StoredSizes

/-! # Power loss

Without power the variables of the driver are gone: the geometry, the buffers, the allocation hint
and every handle.  The drive keeps its sectors.  When the kernel starts again it mounts the drive with
cleared variables, and finds the header that it found the first time, since no call stores outside of
the volume.  Each file has the bytes it had, up to the size that is in its entry.
-/

namespace QuantumKernel.Fat32

open ByteStore LinkedTable Transition

/-- The variables of `fat32.c` when the kernel starts: cleared, but for `g_current_dir_cluster`. -/
def poweredOn (ata : AtaDrive) : Fat32State where
  ata := ata
  gFs := ⟨⟨0⟩, ⟨0⟩, 0, 0, 0, 0, 0, 0, 0⟩
  sectorBuffer := fun _ => 0
  clusterBuffer := fun _ => 0
  gCurrentDirCluster := 2

/-- A session without handles. -/
def Session.initial (fs : Fat32State) : Session := ⟨⟨fs, fun _ => Fat32File.zero⟩, fun _ _ => 0⟩

/-- The kernel starts, and calls `fat32_mount` before anyone opens a file. -/
def Session.start (ata : AtaDrive) : Option (Reply × Session) := do
  let (status, fs) ← fat32Mount (poweredOn ata)
  some (⟨status, none⟩, .initial fs)

/-- A call, or the power goes and comes back. -/
inductive PowerCall
  | file (call : FsCall)
  | cycle

def Session.powered (fuel : Nat) (t : Session) : PowerCall → Option (Reply × Session)
  | .file call => t.step fuel call
  | .cycle => Session.start t.machine.fs.ata

/-- The calls of a run on byte arrays, and the power goes while no handle truncates. -/
def PowerCall.Allowed (t : Session) : PowerCall → Prop
  | .file call => ByteCall t call
  | .cycle => ∀ h, (t.machine.file h).isOpen = true → hasFlag (t.machine.file h).flags fat32OTrunc = false

/-- What the drive has of the byte arrays: each up to its size. -/
def StoredFiles.restart (D : StoredFiles) : StoredFiles where
  files := ⟨fun name => (D.files.contents name).map fun bytes => bytes.take (D.size name), fun _ => none⟩
  size := D.size

/-- One step on byte arrays that may lose their power, on the drives before and after it. -/
inductive StoredFiles.Next (t t' : Session) (D : StoredFiles) : PowerCall → Reply → StoredFiles → Prop
  | file (call : FsCall) (reply : Reply) (F' : Files) : FilesBeside t t' D.files call reply F' →
      Next t t' D (.file call) reply ⟨F', D.sizeAfter call⟩
  | cycle : t'.space = t.space → Next t t' D .cycle ⟨0, none⟩ D.restart

/-- The header of the volume on a drive. -/
def header (ata : AtaDrive) : BootRecord := bootRecordAt (ata.sector 0)

/-- The geometry that `fat32_mount` takes from a drive. -/
def layout (ata : AtaDrive) : Fat32Fs := (header ata).layout (load32 (ata.sector (header ata).fsInfo.toNat) 492)

/-- A drive that answers and has a volume in order, where the kernel looks for it: the header is in the
reserved sectors, and the directory `l` starts at cluster 2. -/
structure Bootable (ata : AtaDrive) (l : List UInt32) : Prop where
  answers : ∀ n, ata.outcome n = .ok
  passes : (header ata).PassesChecks
  consistent : (header ata).Consistent
  onDrive : (header ata).totalSectors32.toNat ≤ 268435456
  reserved : 0 < (header ata).reservedSectors.toNat
  directory : WellFormed (layout ata) 2 (Volume.of (layout ata) ata.sector) l
  unique : (Volume.of (layout ata) ata.sector).UniqueNames ((layout ata).dirSlots l)
  long : LongEnough (layout ata) (Volume.of (layout ata) ata.sector) l

variable {g : Fat32Fs} {cwd : UInt32} {A B : FileStore} {D : StoredFiles} {F : Files} {t t' : Session}
  {ata ata' : AtaDrive} {call : PowerCall} {reply : Reply} {size size' first : UInt32} {bytes : List UInt8}
  {v : Volume} {l : List UInt32} {fuel : Nat} {s : Fat32State}

/-! ## The kernel starts -/

theorem Session.start_eq (mounted : fat32Mount (poweredOn ata) = some (0, s)) :
    Session.start ata = some (⟨0, none⟩, .initial s) := by
  simp only [Session.start, mounted, Option.bind_eq_bind, Option.bind_some]

/-- With a header that passes the checks the mount succeeds. -/
theorem fat32Mount_poweredOn (answers : ∀ n, ata.outcome n = .ok) (passes : (header ata).PassesChecks)
    (consistent : (header ata).Consistent) :
    ∃ s, fat32Mount (poweredOn ata) = some (0, s) ∧ s.gFs = layout ata ∧ s.gCurrentDirCluster = 2 ∧
      s.ata.sector = ata.sector ∧ s.ata.outcome = ata.outcome := by
  have accepts : (poweredOn ata).MountAccepts := ⟨answers _, answers _, passes⟩
  have sectors : (bootRecordAt ((poweredOn ata).ata.sector 0)).sectorsPerCluster ≠ 0 := by
    intro none
    have pos := consistent.sectors_pos
    rw [header, show ata.sector 0 = (poweredOn ata).ata.sector 0 from rfl, none] at pos
    exact absurd pos (by decide)
  exact ⟨_, (fat32Mount_accepts accepts).trans (if_neg sectors), rfl, rfl, rfl, rfl⟩

theorem Bootable.geometry (bootable : Bootable ata l) : Geometry (layout ata) :=
  bootable.consistent.geometry bootable.onDrive _

/-- The header does not belong to the volume, so no call changes it. -/
theorem Bootable.header_kept (bootable : Bootable ata l) (confined : Confined (layout ata) ata.sector t.machine.fs) :
    header t.machine.fs.ata = header ata := by
  have reserved : (layout ata).fatBeginLba.toNat = (header ata).reservedSectors.toNat := UInt16.toNat_toUInt32 _
  have foreign : ¬ (layout ata).Owns 0 := by
    rintro ⟨below, -⟩
    have positive := bootable.reserved
    omega
  rw [header, header, confined.outside 0 foreign]

/-- Two drives with the same header have the same geometry, up to the hint. -/
theorem layout_of_header (same : header ata' = header ata) :
    layout ata' = { layout ata with fsinfo := (layout ata').fsinfo } := by
  rw [layout, layout, same]
  rfl

/-! ## The store without power -/

/-- The first bytes of a file are those of a shorter one. -/
theorem Volume.Reads.take (reads : v.Reads g first size bytes) (less : size' ≤ size) :
    v.Reads g first size' (bytes.take size'.toNat) := by
  obtain ⟨l, start, room, rfl⟩ := reads
  have shorter := UInt32.le_iff_toNat_le.mp less
  refine ⟨l, start, shorter.trans room, ?_⟩
  rw [← List.map_take, List.take_range, Nat.min_eq_left shorter]

/-- A session shows one store, up to the bookkeeping. -/
theorem InOrder.refines (orderA : InOrder g cwd t A) (orderB : InOrder g cwd t B) (refines : A.Refines g F) :
    B.Refines g F := by
  have volume : B.volume = A.volume := orderB.1.stores.volume.symm.trans orderA.1.stores.volume
  have file : B.file = A.file := orderB.1.file.symm.trans orderA.1.file
  have opened : B.opened = A.opened := orderB.1.opened.symm.trans orderA.1.opened
  have directory : B.directory = A.directory :=
    Chain.unique orderA.2.geometry.excl orderB.2.chain (volume ▸ orderA.2.chain)
  have slots : B.slots g = A.slots g := by rw [FileStore.slots, FileStore.slots, directory]
  refine ⟨?_, ?_, ?_, ?_, ?_, ?_⟩
  · rw [volume, slots]
    exact refines.unique
  · rw [file]
    exact refines.alone
  · intro name σ first size names view
    rw [volume, slots] at names
    rw [volume]
    refine refines.present name σ first size names ?_
    cases view with
    | handle h isOpen slot =>
      rw [file] at isOpen slot ⊢
      exact .handle h isOpen slot
    | entry unused =>
      rw [FileStore.dirent, volume]
      exact .entry fun h isOpen => unused h (by rwa [file]) ∘ fun slot => by rwa [file]
  · intro name nobody
    refine refines.absent name fun σ names => nobody σ ?_
    rw [volume, slots]
    exact names
  · rw [file, opened]
    exact refines.handle
  · rw [file]
    exact refines.inside

/-- The store after the handles are gone. -/
def FileStore.powerless (A : FileStore) : FileStore :=
  { A with
    file := fun _ => Fat32File.zero
    opened := fun _ _ => 0 }

theorem FileStore.powerless_closed (A : FileStore) (h : Nat) : (A.powerless.file h).isOpen ≠ true := by
  simp [FileStore.powerless, Fat32File.zero]

/-- The entries are in order without the handles, if none of them was truncating. -/
theorem FileStore.Consistent.powerless (consistent : A.Consistent g cwd)
    (settled : ∀ h, (A.file h).isOpen = true → hasFlag (A.file h).flags fat32OTrunc = false) :
    A.powerless.Consistent g cwd where
  geometry := consistent.geometry
  separate := consistent.separate
  directory := consistent.directory
  chain := consistent.chain
  ends := consistent.ends
  entries := by
    intro σ member live
    refine Or.inr ((consistent.entries σ member live).resolve_left ?_)
    rintro ⟨h, isOpen, -, trunc⟩
    rw [settled h isOpen] at trunc
    cases trunc
  handles := fun h isOpen => absurd isOpen (A.powerless_closed h)
  exclusive := fun h _ isOpen => absurd isOpen (A.powerless_closed h)

/-- An entry is a view of a prefix of its file, also while the file is open. -/
theorem FileStore.Backs.entry_reads (backs : A.Backs g D) (consistent : A.Consistent g cwd)
    (settled : ∀ h, (A.file h).isOpen = true → hasFlag (A.file h).flags fat32OTrunc = false)
    (names : A.volume.Names (A.slots g) name σ) :
    ∃ bytes, D.files.contents name = some bytes ∧
      A.volume.Reads g (A.dirent σ).firstCluster (A.dirent σ).fileSize (bytes.take (A.dirent σ).fileSize.toNat) := by
  by_cases used : ∃ h, (A.file h).isOpen = true ∧ (A.file h).slot = σ
  · obtain ⟨h, isOpen, slot⟩ := used
    have behind := backs.notAhead h isOpen (settled h isOpen)
    rw [slot] at behind
    obtain ⟨bytes, stored, reads⟩ := backs.refines.present name σ _ _ names (.handle h isOpen slot)
    refine ⟨bytes, stored, ?_⟩
    cases behind.cluster with
    | inl none =>
      have owned := (consistent.powerless settled).entries σ names.1 names.2.1
      have empty := (consistent.powerless settled).reads_empty (owned.resolve_left
        fun ⟨h, isOpen, _⟩ => A.powerless_closed h isOpen)
      rw [none]
      exact empty
    | inr same =>
      have start := reads.take behind.size
      rwa [← same] at start
  · obtain ⟨bytes, stored, reads⟩ := backs.refines.present name σ _ _ names
      (.entry fun h isOpen slot => used ⟨h, isOpen, slot⟩)
    exact ⟨bytes, stored, reads.take (UInt32.le_refl _)⟩

/-- What the entries say is what the byte arrays keep. -/
theorem FileStore.Backs.powerless (backs : A.Backs g D) (consistent : A.Consistent g cwd)
    (settled : ∀ h, (A.file h).isOpen = true → hasFlag (A.file h).flags fat32OTrunc = false) :
    A.powerless.Backs g D.restart where
  refines := by
    refine ⟨backs.refines.unique, fun h _ isOpen => absurd isOpen (A.powerless_closed h), ?_, ?_, ?_,
      fun h isOpen => absurd isOpen (A.powerless_closed h)⟩
    · intro name σ first size names view
      cases view with
      | handle h isOpen => exact absurd isOpen (A.powerless_closed h)
      | entry =>
        obtain ⟨bytes, stored, reads⟩ := backs.entry_reads consistent settled names
        simp only [StoredFiles.restart]
        rw [backs.size name σ names]
        exact ⟨_, by rw [stored]; rfl, reads⟩
    · intro name nobody
      simp only [StoredFiles.restart, backs.refines.absent name nobody, Option.map_none]
    · intro h
      rw [if_neg (A.powerless_closed h)]
      rfl
  size := backs.size
  notAhead := fun h isOpen => absurd isOpen (A.powerless_closed h)

/-! ## Runs -/

/-- The session is in order on the volume of the drive, and holds the byte arrays. -/
def Session.Holds (ata : AtaDrive) (t : Session) (D : StoredFiles) : Prop :=
  ∃ A, InOrder (layout ata) 2 t A ∧ A.Backs (layout ata) D ∧ Confined (layout ata) ata.sector t.machine.fs

theorem Session.Holds.step {call : FsCall} (holds : t.Holds ata D) (bootable : Bootable ata l)
    (enough : 4294967296 ≤ fuel) (allowed : ByteCall t call) (done : t.step fuel call = some (reply, t')) :
    ∃ D', D.Next t t' (.file call) reply D' ∧ t'.Holds ata D' := by
  obtain ⟨A, order, backs, confined⟩ := holds
  obtain ⟨B, next, orderB⟩ := order.step enough allowed.careful done
  obtain ⟨F', moved, C, orderC, refinesC⟩ := ByteView.step ⟨A, order, backs.refines⟩ enough allowed done
  have noMkdir : ∀ path, call ≠ .mkdir path := by
    rintro path rfl
    exact allowed
  have stays : Confined (layout ata) ata.sector t'.machine.fs := by
    simp only [Session.step, Option.bind_eq_bind, Option.bind_eq_some_iff] at done
    obtain ⟨⟨answer, machine⟩, run, same⟩ := done
    cases same
    exact (bootable.geometry.confined ata.sector).machine confined run
  exact ⟨_, .file call reply F' moved, B, orderB,
    backs.step order.2 orderB.2 next noMkdir (orderC.refines orderB refinesC), stays⟩

/-- The power goes and comes back: the mount succeeds, and finds the same volume. -/
theorem Session.Holds.cycle (holds : t.Holds ata D) (bootable : Bootable ata l)
    (allowed : PowerCall.Allowed t .cycle) :
    ∃ t', Session.start t.machine.fs.ata = some (⟨0, none⟩, t') ∧ t'.space = t.space ∧
      t'.Holds ata D.restart := by
  obtain ⟨A, order, backs, confined⟩ := holds
  have same := bootable.header_kept confined
  obtain ⟨s, mounted, gFs, cwd, sector, outcome⟩ := fat32Mount_poweredOn order.1.stores.outcome
    (same ▸ bootable.passes) (same ▸ bootable.consistent)
  have geometry : s.gFs = { layout ata with fsinfo := s.gFs.fsinfo } := by
    rw [gFs]
    exact layout_of_header same
  have settled : ∀ h, (A.file h).isOpen = true → hasFlag (A.file h).flags fat32OTrunc = false := by
    rw [← order.1.file]
    exact allowed
  have restarted : InOrder (layout ata) 2 (.initial s) A.powerless := by
    refine ⟨⟨⟨bootable.geometry, geometry, cwd, ?_, ?_⟩, rfl, rfl⟩, order.2.powerless settled⟩
    · simp only [Session.initial, outcome]
      exact order.1.stores.outcome
    · simp only [Session.initial, sector]
      exact order.1.stores.volume
  refine ⟨_, Session.start_eq mounted, restarted.space.trans order.space.symm, A.powerless, restarted,
    backs.powerless order.2 settled, geometry, ?_⟩
  simp only [Session.initial, sector]
  exact confined.outside

/-- The sizes of byte arrays that are closed. -/
def StoredFiles.closed (F : Files) : StoredFiles := ⟨F, fun name => ((F.contents name).getD []).length⟩

theorem FileStore.Refines.backs (refines : A.Refines g F) (closed : ∀ h, (A.file h).isOpen ≠ true) :
    A.Backs g (.closed F) where
  refines := refines
  size := by
    intro name σ names
    obtain ⟨bytes, stored, reads⟩ :=
      refines.present name σ _ _ names (.entry fun h isOpen => absurd isOpen (closed h))
    simp only [StoredFiles.closed, stored, Option.getD_some]
    exact reads.length
  notAhead := fun h isOpen => absurd isOpen (closed h)

/-- The first start of the kernel. -/
theorem Bootable.start (bootable : Bootable ata l) :
    ∃ t F, Session.start ata = some (⟨0, none⟩, t) ∧
      (Volume.of (layout ata) ata.sector).Holds (layout ata) l F.contents ∧ t.Holds ata (.closed F) := by
  obtain ⟨s, mounted, gFs, cwd, sector, outcome⟩ :=
    fat32Mount_poweredOn bootable.answers bootable.passes bootable.consistent
  have volume : s.volume = Volume.of (layout ata) ata.sector := by rw [Fat32State.volume, gFs, sector]
  have holds := filesOf_holds bootable.unique bootable.long
  have fresh : Fresh (.initial s) l := by
    refine ⟨⟨?_, ?_⟩, ?_, fun _ => rfl⟩
    · simp only [Session.initial, gFs]
      exact bootable.geometry
    · simp only [Session.initial, outcome]
      exact bootable.answers
    · simp only [Session.initial, gFs, cwd, volume]
      exact bootable.directory
  have view := fresh.byteView (by simp only [Session.initial, gFs, volume]; exact bootable.unique)
    (by simp only [Session.initial, gFs, volume]; exact bootable.long)
  simp only [Session.initial, gFs, cwd, volume] at view
  obtain ⟨A, order, refines⟩ := view
  have closed (h : Nat) : (A.file h).isOpen ≠ true := by simp [← order.1.file, Fat32File.zero]
  refine ⟨_, _, Session.start_eq mounted, holds, A, order, refines.backs closed, ?_, ?_⟩
  · simp [Session.initial, gFs]
  · simp [Session.initial, sector]

/-- One step, of a call or of the power. -/
theorem Session.Holds.advance (holds : t.Holds ata D) (bootable : Bootable ata l) (enough : 4294967296 ≤ fuel)
    (allowed : call.Allowed t) (done : t.powered fuel call = some (reply, t')) :
    ∃ D', D.Next t t' call reply D' ∧ t'.Holds ata D' := by
  cases call with
  | file call => exact holds.step bootable enough allowed done
  | cycle =>
    obtain ⟨t₁, started, space, after⟩ := holds.cycle bootable allowed
    rw [Session.powered, started] at done
    cases done
    exact ⟨_, .cycle space, after⟩

theorem Session.Holds.returns (holds : t.Holds ata D) (bootable : Bootable ata l) (enough : 4294967296 ≤ fuel)
    (allowed : call.Allowed t) : ∃ reply t', t.powered fuel call = some (reply, t') := by
  cases call with
  | file call =>
    obtain ⟨A, order, -⟩ := holds
    exact order.returns enough (ByteCall.careful allowed)
  | cycle =>
    obtain ⟨t', started, -⟩ := holds.cycle bootable allowed
    exact ⟨_, t', started⟩

/-- A file that nobody has open has its size on the drive. -/
theorem Session.Holds.size_closed {name : ShortName} (holds : t.Holds ata D)
    (stored : D.files.contents name = some bytes) (closed : ∀ h f, D.files.handle h = some f → f.name ≠ name) :
    D.size name = bytes.length := by
  obtain ⟨A, order, backs, -⟩ := holds
  by_cases used : ∃ σ, A.volume.Names (A.slots (layout ata)) name σ
  · obtain ⟨σ, names⟩ := used
    have unused : ∀ h, (A.file h).isOpen = true → (A.file h).slot ≠ σ := by
      rintro h isOpen rfl
      refine closed h _ ((backs.refines.handle h).trans (if_pos isOpen)) ?_
      exact (order.2.names_open isOpen).2.2.symm.trans names.2.2
    obtain ⟨found, same, reads⟩ := backs.refines.present name σ _ _ names (.entry unused)
    rw [stored] at same
    cases same
    exact (backs.size name σ names).trans reads.length.symm
  · rw [backs.refines.absent name fun σ names => used ⟨σ, names⟩] at stored
    cases stored

/-- **Files survive the power.**  The kernel starts on a drive with a volume in order.  In every run of
calls on byte arrays during which the power goes any number of times, while no file is open to be
truncated, each call answers like the call on byte arrays, and each start of the kernel succeeds.
Without power only the handles are lost, and of a file that was open the bytes past the size in its
entry; every other file has all of its bytes. -/
theorem files_survive_power (enough : 4294967296 ≤ fuel) (bootable : Bootable ata l) :
    ∃ t F, Session.start ata = some (⟨0, none⟩, t) ∧
      (Volume.of (layout ata) ata.sector).Holds (layout ata) l F.contents ∧
      ∀ calls t', Run (Session.powered fuel) PowerCall.Allowed t calls t' →
        (∃ D, Trace (Beside (Session.powered fuel) StoredFiles.Next) (t, .closed F) calls (t', D) ∧
          ∀ name bytes, D.files.contents name = some bytes →
            (∀ h f, D.files.handle h = some f → f.name ≠ name) → D.restart.files.contents name = some bytes) ∧
        ∀ call : PowerCall, call.Allowed t' → ∃ reply t'', t'.powered fuel call = some (reply, t'') := by
  obtain ⟨t, F, started, onDrive, holds⟩ := bootable.start
  refine ⟨t, F, started, onDrive, fun calls t' run => ?_⟩
  have advance (t : Session) (D : StoredFiles) (call : PowerCall) (reply : Reply) (t' : Session)
      (holds : t.Holds ata D) (allowed : call.Allowed t) (done : t.powered fuel call = some (reply, t')) :
      ∃ D', D.Next t t' call reply D' ∧ t'.Holds ata D' := holds.advance bootable enough allowed done
  obtain ⟨D, trace, holds'⟩ := run.beside (Session.Holds ata) advance holds
  refine ⟨⟨D, trace, fun name bytes stored closed => ?_⟩, fun call allowed =>
    holds'.returns bootable enough allowed⟩
  simp [StoredFiles.restart, stored, holds'.size_closed stored closed]

/-- A drive with a header in front of the blank volume. -/
def blankDisk : AtaDrive where
  sector := fun n => if n = 0 then bootBytes 2 else if n = 1 then fun _ => 0 else blankDrive (n - 1)
  outcome := fun _ => .ok
  command := 0

theorem blankDisk_blank :
    ∀ σ ∈ (layout blankDisk).dirSlots [2], ((Volume.of (layout blankDisk) blankDisk.sector).dirent σ).IsEnd := by
  decide +kernel

theorem blankDisk_absent (name : ShortName) (σ : Slot) :
    ¬ (Volume.of (layout blankDisk) blankDisk.sector).Names ((layout blankDisk).dirSlots [2]) name σ :=
  fun names => names.2.1.1 (blankDisk_blank σ names.1)

theorem blankDisk_bootable : Bootable blankDisk [2] := by
  have consistent : (header blankDisk).Consistent := by constructor <;> decide +kernel
  have geometry := consistent.geometry (by decide +kernel) (load32 (blankDisk.sector (header blankDisk).fsInfo.toNat) 492)
  have chain : FatChain (layout blankDisk) (Volume.of (layout blankDisk) blankDisk.sector) 2 [2] :=
    .last (by decide +kernel) (by decide +kernel)
  exact ⟨fun _ => rfl, ⟨by decide +kernel, by decide +kernel⟩, consistent, by decide +kernel, by decide +kernel,
    .blank geometry chain blankDisk_blank, by decide +kernel,
    fun σ member live => absurd ⟨member, live, rfl⟩ (blankDisk_absent _ σ)⟩

theorem files_survive_power_blank :
    ∃ t F, Session.start blankDisk = some (⟨0, none⟩, t) ∧ (∀ name, F.contents name = none) ∧
      ∀ calls t', Run (Session.powered 4294967296) PowerCall.Allowed t calls t' →
        ∃ D, Trace (Beside (Session.powered 4294967296) StoredFiles.Next) (t, .closed F) calls (t', D) := by
  obtain ⟨t, F, started, holds, runs⟩ :=
    files_survive_power (by decide : 4294967296 ≤ 4294967296) blankDisk_bootable
  refine ⟨t, F, started, fun name => holds.absent name (blankDisk_absent name), fun calls t' run => ?_⟩
  obtain ⟨⟨D, trace, -⟩, -⟩ := runs calls t' run
  exact ⟨D, trace⟩

end QuantumKernel.Fat32
