import QuantumKernel.Fat32.Calls
import QuantumKernel.Fat32.CallSpec
import QuantumKernel.Fat32.WriteSpec

/-! # The abstract file store and who owns a chain

`FileStore` is what a volume with its open handles amounts to: the table of clusters,
the clusters of the current directory, the handles, and, as bookkeeping that the code
does not keep, which directory slot owns which cluster chain.  `FileStore.Next` lists
what one call can do to it, one constructor for each outcome.

`Consistent` is the invariant that ties the three copies of a file's first cluster
together: the one in the FAT, the one in the directory entry and the one in the handle.
-/

namespace QuantumKernel.Fat32

open ByteStore LinkedTable

structure FileStore where
  volume : Volume
  /-- The cluster chain of the current directory. -/
  directory : List UInt32
  file : Nat → Fat32File
  opened : Nat → ShortName
  /-- The first clusters of the chains in use. -/
  heads : Set UInt32
  /-- The slot of the file that a chain belongs to. -/
  own : UInt32 → Option Slot
  /-- The first clusters of the directories that are looked after. -/
  dirs : Set UInt32

variable {g : Fat32Fs} {cwd : UInt32} {A B : FileStore}

/-- The slots of the current directory. -/
def FileStore.slots (g : Fat32Fs) (A : FileStore) : List Slot := g.dirSlots A.directory

/-- The entry in a slot. -/
def FileStore.dirent (A : FileStore) (σ : Slot) : Fat32Dirent := A.volume.dirent σ

/-- The number of free clusters. -/
def FileStore.space (g : Fat32Fs) (A : FileStore) : Nat := (A.volume.freeClusters g).card

/-- The slot that `fat32_find_entry` finds for a path. -/
def FileStore.lookup (g : Fat32Fs) (A : FileStore) (path : CString) : Option Slot :=
  A.volume.lookup (A.slots g) (fat32ToShortName path)

/-- Slots in the given clusters own nothing any more. -/
def disown (g : Fat32Fs) (own : UInt32 → Option Slot) (m : List UInt32) : UInt32 → Option Slot :=
  fun c => (own c).filter fun σ => σ ∉ g.dirSlots m

theorem disown_eq_some {own : UInt32 → Option Slot} {m : List UInt32} {c : UInt32} {σ : Slot} :
    disown g own m c = some σ ↔ own c = some σ ∧ σ ∉ g.dirSlots m := by
  simp [disown, Option.filter_eq_some_iff]

/-- What a call with a given result can do.  A creation fails only when less than two clusters are free,
a write stops early only when none is left. -/
inductive FileStore.Next (g : Fat32Fs) (cwd : UInt32) (A : FileStore) :
    FsCall → Int32 → FileStore → Prop
  | openNull (h : Nat) (flags : UInt8) : Next g cwd A (.open h none flags) (-1) A
  | openFails (h : Nat) (path : CString) (flags : UInt8) :
      A.lookup g path = none →
      (hasFlag flags fat32OCreat = true → A.space g ≤ 1) →
      Next g cwd A (.open h (some path) flags) (-1) { A with
        file := Function.update A.file h Fat32File.zero
        opened := Function.update A.opened h (fat32ToShortName path) }
  | openFound (h : Nat) (path : CString) (flags : UInt8) (σ : Slot) :
      A.lookup g path = some σ →
      (hasFlag flags fat32OTrunc = false ∨ (A.dirent σ).firstCluster = 0) →
      Next g cwd A (.open h (some path) flags) 0 { A with
        file := Function.update A.file h (handleFor (A.dirent σ) σ flags)
        opened := Function.update A.opened h (fat32ToShortName path) }
  | openTruncates (h : Nat) (path : CString) (flags : UInt8) (σ : Slot) (m : List UInt32) :
      A.lookup g path = some σ → hasFlag flags fat32OTrunc = true →
      FatChain g A.volume (A.dirent σ).firstCluster m →
      Next g cwd A (.open h (some path) flags) 0 { A with
        volume := A.volume.freeAll m
        file := Function.update A.file h (truncatedHandle (A.dirent σ) σ flags)
        opened := Function.update A.opened h (fat32ToShortName path)
        heads := A.heads \ {(A.dirent σ).firstCluster}
        own := disown g A.own m
        dirs := A.dirs \ {(A.dirent σ).firstCluster} }
  | openCreates (h : Nat) (path : CString) (flags : UInt8) (n : UInt32) (v' : Volume)
      (l' : List UInt32) (σ : Slot) :
      A.lookup g path = none → hasFlag flags fat32OCreat = true → g.InRange n →
      A.volume.fat n = fat32FreeCluster →
      Inserted g (A.volume.setFat n fat32EocMax) v' cwd A.directory l' σ
        (newEntry (fat32ToShortName path) fat32AttrArchive n) →
      fat32ToShortName path 0 ≠ 0xE5 →
      Next g cwd A (.open h (some path) flags) 0 { A with
        volume := v'
        directory := l'
        file := Function.update A.file h
          (handleFor (newEntry (fat32ToShortName path) fat32AttrArchive n) σ flags)
        opened := Function.update A.opened h (fat32ToShortName path)
        heads := insert n A.heads
        own := Function.update A.own n (some σ) }
  | openLosesEntry (h : Nat) (path : CString) (flags : UInt8) (n : UInt32) (v' : Volume)
      (l' : List UInt32) (σ : Slot) :
      A.lookup g path = none → g.InRange n → A.volume.fat n = fat32FreeCluster →
      Inserted g (A.volume.setFat n fat32EocMax) v' cwd A.directory l' σ
        (newEntry (fat32ToShortName path) fat32AttrArchive n) →
      fat32ToShortName path 0 = 0xE5 →
      Next g cwd A (.open h (some path) flags) (-1) { A with
        volume := v'.freeAll [n]
        directory := l'
        file := Function.update A.file h Fat32File.zero
        opened := Function.update A.opened h (fat32ToShortName path) }
  | read (h : Nat) (buffer : Option Bytes) (size : UInt32) (status : Int32)
      (current position : UInt32) :
      Next g cwd A (.read h buffer size) status { A with
        file := Function.update A.file h
          { A.file h with currentCluster := current, position := position } }
  | writeFails (h : Nat) (data : Option Bytes) (size : UInt32) :
      data = none ∨ (A.file h).isOpen = false ∨ A.volume.Full g →
      Next g cwd A (.write h data size) (-1) A
  | wrote (h : Nat) (data : Bytes) (size a : UInt32) (n : Nat) (l l' : List UInt32) (v' : Volume)
      (file' : Fat32File) :
      (A.file h).isOpen = true →
      ((A.file h).firstCluster = 0 ∧ l = [] ∨
        (A.file h).firstCluster = a ∧ FatChain g A.volume a l) →
      g.InRange a → n ≤ size.toNat → file'.firstCluster = a →
      Advanced { A.file h with firstCluster := a } file' n →
      WroteRange g A.volume v' a l l' (A.file h).position.toNat data n →
      (n < size.toNat → v'.Full g) →
      Next g cwd A (.write h (some data) size) (UInt32.ofNat n).toInt32 { A with
        volume := v'
        file := Function.update A.file h file'
        heads := insert a A.heads
        own := Function.update A.own a (some (A.file h).slot) }
  | seek (h : Nat) (offset : Int32) (whence : UInt8) :
      Next g cwd A (.seek h offset whence) (fat32Seek (A.file h) offset whence).1 { A with
        file := Function.update A.file h (fat32Seek (A.file h) offset whence).2 }
  | closeFails (h : Nat) : (A.file h).isOpen = false → Next g cwd A (.close h) (-1) A
  | closed (h : Nat) :
      (A.file h).isOpen = true → (A.file h).slot ∈ A.slots g →
      Next g cwd A (.close h) 0 { A with
        volume := A.volume.closeAt (A.file h).slot (A.file h)
        file := Function.update A.file h { A.file h with isOpen := false } }
  | unlinkFails (path : CString) : A.lookup g path = none → Next g cwd A (.unlink path) (-1) A
  | unlinkedEmpty (path : CString) (σ : Slot) :
      A.lookup g path = some σ → (A.dirent σ).firstCluster = 0 →
      Next g cwd A (.unlink path) 0 { A with volume := A.volume.eraseAt σ }
  | unlinked (path : CString) (σ : Slot) (m : List UInt32) :
      A.lookup g path = some σ → FatChain g A.volume (A.dirent σ).firstCluster m →
      Next g cwd A (.unlink path) 0 { A with
        volume := (A.volume.freeAll m).eraseAt σ
        heads := A.heads \ {(A.dirent σ).firstCluster}
        own := disown g A.own m
        dirs := A.dirs \ {(A.dirent σ).firstCluster} }
  | mkdirFails (path : CString) : A.space g ≤ 1 → Next g cwd A (.mkdir path) (-1) A
  | mkdirMakes (path : CString) (n : UInt32) (v' : Volume) (l' : List UInt32) (σ : Slot) :
      g.InRange n → A.volume.fat n = fat32FreeCluster →
      Inserted g (A.volume.setFat n fat32EocMax) v' cwd A.directory l' σ
        (newEntry (fat32ToShortName path) fat32AttrDirectory n) →
      Next g cwd A (.mkdir path) 0 { A with
        volume := v'.setData n fun _ => 0
        directory := l'
        heads := insert n A.heads
        own := Function.update A.own n (some σ)
        dirs := insert n A.dirs }

/-- The handle that a call is about. -/
def FsCall.handle : FsCall → Option Nat
  | .open h _ _ | .read h _ _ | .write h _ _ | .seek h _ _ | .close h => some h
  | .unlink _ | .mkdir _ => none

/-- A call changes no handle but the one that it is about. -/
theorem FileStore.Next.other_handle {call : FsCall} {r : Int32} {k : Nat} (next : A.Next g cwd call r B)
    (other : call.handle ≠ some k) : B.file k = A.file k := by
  cases next with
  | openNull | writeFails | closeFails | unlinkFails | unlinkedEmpty | unlinked | mkdirFails | mkdirMakes => rfl
  | openFails h | openFound h | openTruncates h | openCreates h | openLosesEntry h | read h | wrote h | seek h
    | closed h => exact Function.update_of_ne (fun same => other (congrArg some same.symm)) _ _

/-! ## The invariant -/

/-- The chain that starts at `c`, if any, is in use and belongs to the slot `σ` of the
current directory. -/
def FileStore.Owned (cwd : UInt32) (A : FileStore) (c : UInt32) (σ : Slot) : Prop :=
  c = 0 ∨ c ∈ A.heads ∧ c ≠ cwd ∧ A.own c = some σ

/-- The handle `h` is open on the slot `σ` with `FAT32_O_TRUNC`: until it is closed, the
first cluster in the entry may be out of date. -/
def FileStore.Truncating (A : FileStore) (σ : Slot) (h : Nat) : Prop :=
  (A.file h).isOpen = true ∧ (A.file h).slot = σ ∧ hasFlag (A.file h).flags fat32OTrunc = true

/-- What holds for an open handle. -/
structure FileStore.HandleOk (g : Fat32Fs) (cwd : UInt32) (A : FileStore) (h : Nat) : Prop where
  member : (A.file h).slot ∈ A.slots g
  live : (A.dirent (A.file h).slot).IsLive
  name : (A.dirent (A.file h).slot).name = A.opened h
  attr : (A.file h).attr = (A.dirent (A.file h).slot).attr
  owned : A.Owned cwd (A.file h).firstCluster (A.file h).slot

structure FileStore.Consistent (g : Fat32Fs) (cwd : UInt32) (A : FileStore) : Prop where
  geometry : Geometry g
  separate : A.volume.Separate g A.heads
  directory : cwd ∈ A.heads
  chain : FatChain g A.volume cwd A.directory
  ends : A.volume.EndMarked (A.slots g)
  entries : ∀ σ ∈ A.slots g, (A.dirent σ).IsLive →
    (∃ h, A.Truncating σ h) ∨ A.Owned cwd (A.dirent σ).firstCluster σ
  handles : ∀ h, (A.file h).isOpen = true → A.HandleOk g cwd h
  exclusive : ∀ h k, (A.file h).isOpen = true → (A.file k).isOpen = true →
    (A.file h).slot = (A.file k).slot → hasFlag (A.file h).flags fat32OTrunc = true → h = k

end QuantumKernel.Fat32
