import QuantumKernel.Library.Transition
import QuantumKernel.Fat32.File

/-! # The file interface as a machine

The state is the driver with its drive and the `fat32_file_t` structures that callers
hold, numbered by the caller.  One step is one call.  `Session` additionally remembers
under which short name each handle was last opened; nothing in the code depends on it.
-/

namespace QuantumKernel.Fat32

open ByteStore

/-- A call of the file interface. -/
inductive FsCall
  | open (h : Nat) (path : Option CString) (flags : UInt8)
  | read (h : Nat) (buffer : Option Bytes) (size : UInt32)
  | write (h : Nat) (data : Option Bytes) (size : UInt32)
  | seek (h : Nat) (offset : Int32) (whence : UInt8)
  | close (h : Nat)
  | unlink (path : CString)
  | mkdir (path : CString)

/-- The result of a call, and the caller's buffer after `fat32_read`. -/
structure Reply where
  status : Int32
  buffer : Option Bytes

structure Machine where
  fs : Fat32State
  file : Nat → Fat32File

/-- One call; `none` when the fuel runs out. -/
def Machine.step (fuel : Nat) (m : Machine) : FsCall → Option (Reply × Machine)
  | .open h path flags => do
    let (status, file, fs) ← fat32Open fuel m.fs (m.file h) path flags
    some (⟨status, none⟩, ⟨fs, Function.update m.file h file⟩)
  | .read h buffer size => do
    let (status, buffer, file, fs) ← fat32Read fuel m.fs (m.file h) buffer size
    some (⟨status, buffer⟩, ⟨fs, Function.update m.file h file⟩)
  | .write h data size => do
    let (status, file, fs) ← fat32Write fuel m.fs (m.file h) data size
    some (⟨status, none⟩, ⟨fs, Function.update m.file h file⟩)
  | .seek h offset whence =>
    let (status, file) := fat32Seek (m.file h) offset whence
    some (⟨status, none⟩, ⟨m.fs, Function.update m.file h file⟩)
  | .close h =>
    let (status, file, fs) := fat32Close m.fs (m.file h)
    some (⟨status, none⟩, ⟨fs, Function.update m.file h file⟩)
  | .unlink path => do
    let (status, fs) ← fat32Unlink fuel m.fs path
    some (⟨status, none⟩, ⟨fs, m.file⟩)
  | .mkdir path => do
    let (status, fs) ← fat32Mkdir fuel m.fs path
    some (⟨status, none⟩, ⟨fs, m.file⟩)

structure Session where
  machine : Machine
  /-- The short name a handle was last opened under. -/
  opened : Nat → ShortName

/-- The names of the handles after a call. -/
def openedAfter (opened : Nat → ShortName) : FsCall → Nat → ShortName
  | .open h (some path) _ => Function.update opened h (fat32ToShortName path)
  | _ => opened

def Session.step (fuel : Nat) (t : Session) (call : FsCall) : Option (Reply × Session) := do
  let (reply, machine) ← t.machine.step fuel call
  some (reply, ⟨machine, openedAfter t.opened call⟩)

variable {t t' : Session} {call : FsCall} {reply : Reply} {fuel : Nat}

/-- Only `fat32_read` stores to a buffer of the caller. -/
theorem Session.step_buffer (done : t.step fuel call = some (reply, t'))
    (noRead : ∀ h buffer size, call ≠ .read h buffer size) : reply.buffer = none := by
  simp only [Session.step, Option.bind_eq_bind, Option.bind_eq_some_iff] at done
  obtain ⟨⟨r, m⟩, run, same⟩ := done
  cases same
  cases call with
  | read h buffer size => exact absurd rfl (noRead h buffer size)
  | «open» | write | unlink | mkdir =>
    simp only [Machine.step, Option.bind_eq_bind, Option.bind_eq_some_iff] at run
    obtain ⟨result, -, same⟩ := run
    cases same
    rfl
  | seek | close =>
    simp only [Machine.step] at run
    cases run
    rfl

/-- The handle `k` is open on the file of that name. -/
def OpenUnder (file : Nat → Fat32File) (opened : Nat → ShortName) (name : ShortName) (k : Nat) :
    Prop :=
  (file k).isOpen = true ∧ opened k = name

/-- The calls of a careful caller: a handle in use is not opened again, a file is not
unlinked while it is open, and a file opened with `FAT32_O_TRUNC` has no other open
handle. -/
def Disciplined (file : Nat → Fat32File) (opened : Nat → ShortName) : FsCall → Prop
  | .open h (some path) flags => (file h).isOpen = false ∧
      ∀ k, OpenUnder file opened (fat32ToShortName path) k →
        hasFlag flags fat32OTrunc = false ∧ hasFlag (file k).flags fat32OTrunc = false
  | .unlink path => ∀ k, ¬ OpenUnder file opened (fat32ToShortName path) k
  | _ => True

end QuantumKernel.Fat32
