import QuantumKernel.Fat32.Calls
import Mathlib.Data.List.GetD

/-! # Files as byte arrays

What the file interface is for: every name stands for an array of bytes, and an open
handle is a position in the array of its name.  `Files.Next` says what each call
answers and which array it changes; sectors, clusters and directory slots do not occur.
-/

namespace QuantumKernel.Fat32

open ByteStore

/-- The contents after `n` bytes of `source` were stored from `start` on. -/
def splice (contents : List UInt8) (start : Nat) (source : Bytes) (n : Nat) : List UInt8 :=
  (List.range (max contents.length (start + n))).map fun k =>
    if start ≤ k ∧ k < start + n then source (k - start) else contents.getD k 0

structure OpenFile where
  name : ShortName
  position : Nat

structure Files where
  contents : ShortName → Option (List UInt8)
  handle : Nat → Option OpenFile

/-- Where `fat32_seek` goes in a file of `length` bytes; `none` for an unknown `whence`. -/
def seekTarget (position length : Nat) (offset : Int32) (whence : UInt8) : Option Nat :=
  if whence = fat32SeekSet then some offset.toUInt32.toNat
  else if whence = fat32SeekCur then some ((position + offset.toUInt32.toNat) % 4294967296)
  else if whence = fat32SeekEnd then some ((length + offset.toUInt32.toNat) % 4294967296)
  else none

/-- The contents of a file right after `fat32_open`. -/
def openedContents (flags : UInt8) (contents : List UInt8) : List UInt8 :=
  if hasFlag flags fat32OTrunc then [] else contents

/-- The position of a handle right after `fat32_open`. -/
def openedPosition (flags : UInt8) (contents : List UInt8) : Nat :=
  if hasFlag flags fat32OAppend then contents.length else 0

/-- One call on byte arrays; `before` and `after` are the numbers of clusters that are free then.  A file
is not created only for lack of two of them, a write stops early only when it has taken the last one. -/
inductive Files.Next (before after : Nat) (F : Files) : FsCall → Reply → Files → Prop
  | openNull (h : Nat) (flags : UInt8) : Next before after F (.open h none flags) ⟨-1, none⟩ F
  | openFails (h : Nat) (path : CString) (flags : UInt8) :
      F.contents (fat32ToShortName path) = none → (hasFlag flags fat32OCreat = true → after ≤ 1) →
      Next before after F (.open h (some path) flags) ⟨-1, none⟩
        { F with handle := Function.update F.handle h none }
  | opened (h : Nat) (path : CString) (flags : UInt8) (bytes : List UInt8) :
      F.contents (fat32ToShortName path) = some bytes →
      Next before after F (.open h (some path) flags) ⟨0, none⟩ {
        contents := Function.update F.contents (fat32ToShortName path)
          (some (openedContents flags bytes))
        handle := Function.update F.handle h
          (some ⟨fat32ToShortName path, openedPosition flags (openedContents flags bytes)⟩) }
  | created (h : Nat) (path : CString) (flags : UInt8) :
      F.contents (fat32ToShortName path) = none → hasFlag flags fat32OCreat = true →
      Next before after F (.open h (some path) flags) ⟨0, none⟩ {
        contents := Function.update F.contents (fat32ToShortName path) (some [])
        handle := Function.update F.handle h (some ⟨fat32ToShortName path, 0⟩) }
  | readNull (h : Nat) (size : UInt32) : Next before after F (.read h none size) ⟨-1, none⟩ F
  | readClosed (h : Nat) (buffer : Bytes) (size : UInt32) :
      F.handle h = none → Next before after F (.read h (some buffer) size) ⟨-1, some buffer⟩ F
  | read (h : Nat) (buffer : Bytes) (size : UInt32) (f : OpenFile) (bytes : List UInt8)
      (status : Int32) (n : Nat) :
      F.handle h = some f → F.contents f.name = some bytes →
      n = min (f.position + size.toNat) bytes.length - f.position → status.toInt = n →
      Next before after F (.read h (some buffer) size)
        ⟨status, some fun k => if k < n then bytes.getD (f.position + k) 0 else buffer k⟩
        { F with handle := Function.update F.handle h (some { f with position := f.position + n }) }
  | writeNull (h : Nat) (size : UInt32) : Next before after F (.write h none size) ⟨-1, none⟩ F
  | writeClosed (h : Nat) (data : Bytes) (size : UInt32) :
      F.handle h = none → Next before after F (.write h (some data) size) ⟨-1, none⟩ F
  | writeFails (h : Nat) (data : Bytes) (size : UInt32) (f : OpenFile) :
      F.handle h = some f → before = 0 → after = 0 → Next before after F (.write h (some data) size) ⟨-1, none⟩ F
  | wrote (h : Nat) (data : Bytes) (size : UInt32) (f : OpenFile) (bytes : List UInt8)
      (status : Int32) (n : Nat) :
      F.handle h = some f → F.contents f.name = some bytes → n ≤ size.toNat → status.toInt = n →
      after ≤ before → (n < size.toNat → after = 0) →
      Next before after F (.write h (some data) size) ⟨status, none⟩ {
        contents := Function.update F.contents f.name (some (splice bytes f.position data n))
        handle := Function.update F.handle h (some { f with position := f.position + n }) }
  | seekFails (h : Nat) (offset : Int32) (whence : UInt8) :
      (∀ f bytes, F.handle h = some f → F.contents f.name = some bytes →
        seekTarget f.position bytes.length offset whence = none) →
      Next before after F (.seek h offset whence) ⟨-1, none⟩ F
  | seek (h : Nat) (offset : Int32) (whence : UInt8) (f : OpenFile) (bytes : List UInt8) (p : Nat) :
      F.handle h = some f → F.contents f.name = some bytes →
      seekTarget f.position bytes.length offset whence = some p →
      Next before after F (.seek h offset whence) ⟨0, none⟩
        { F with handle := Function.update F.handle h (some { f with position := p }) }
  | closeFails (h : Nat) : F.handle h = none → Next before after F (.close h) ⟨-1, none⟩ F
  | closed (h : Nat) (f : OpenFile) : F.handle h = some f → after = before →
      Next before after F (.close h) ⟨0, none⟩ { F with handle := Function.update F.handle h none }
  | unlinkFails (path : CString) : F.contents (fat32ToShortName path) = none →
      Next before after F (.unlink path) ⟨-1, none⟩ F
  | unlinked (path : CString) (bytes : List UInt8) :
      F.contents (fat32ToShortName path) = some bytes →
      Next before after F (.unlink path) ⟨0, none⟩
        { F with contents := Function.update F.contents (fat32ToShortName path) none }

end QuantumKernel.Fat32
