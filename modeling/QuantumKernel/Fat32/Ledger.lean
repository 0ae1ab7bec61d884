import QuantumKernel.Fat32.DirectoryMap

/-! # Which file a byte belongs to

The calls of a session, next to a ledger that the code does not keep.  Every file created in the
run has a number, and a file that is truncated goes on under a new one.  The ledger knows the number
of the file in a directory slot and of the file behind a handle, and it records what was written to
each file at which position.
-/

namespace QuantumKernel.Fat32

open ByteStore

/-- A write to a file stored the first `count` bytes of `data` from `start` on. -/
structure StoredRange where
  file : Nat
  start : Nat
  count : Nat
  data : Bytes

structure Ledger where
  /-- The file in a slot, if it was created in the run. -/
  fileAt : Slot → Option Nat
  /-- The file that a handle was opened on, if it was created in the run. -/
  fileOf : Nat → Option Nat
  /-- The number of the next file. -/
  next : Nat
  writes : List StoredRange

namespace Ledger

def empty : Ledger := ⟨fun _ => none, fun _ => none, 0, []⟩

/-- A write to the file `i` stored the byte `b` at the position `p`. -/
def Stored (L : Ledger) (i p : Nat) (b : UInt8) : Prop :=
  ∃ w ∈ L.writes, w.file = i ∧ w.start ≤ p ∧ p < w.start + w.count ∧ w.data (p - w.start) = b

instance (L : Ledger) (i p : Nat) (b : UInt8) : Decidable (L.Stored i p b) :=
  inferInstanceAs (Decidable (∃ w ∈ L.writes, _))

/-- A new file in the slot `σ`, open as the handle `h`. -/
def begin_ (L : Ledger) (σ : Slot) (h : Nat) : Ledger where
  fileAt := Function.update L.fileAt σ (some L.next)
  fileOf := Function.update L.fileOf h (some L.next)
  next := L.next + 1
  writes := L.writes

/-- The handle `h` is on the file `i`, or on none that was created in the run. -/
def attach (L : Ledger) (h : Nat) (i : Option Nat) : Ledger :=
  { L with fileOf := Function.update L.fileOf h i }

/-- The file in the slot `σ` is gone. -/
def remove (L : Ledger) (σ : Slot) : Ledger := { L with fileAt := Function.update L.fileAt σ none }

/-- A write to the file `i`, if that was created in the run. -/
def record (L : Ledger) (i : Option Nat) (start count : Nat) (data : Bytes) : Ledger :=
  { L with writes := i.toList.map (⟨·, start, count, data⟩) ++ L.writes }

/-- The ledger after a call. -/
def step (fuel : Nat) (t : Session) (L : Ledger) (call : FsCall) (status : Int32) (t' : Session) : Ledger :=
  match call with
  | .open _ none _ => L
  | .open h (some path) flags =>
    let σ := (t'.machine.file h).slot
    if status ≠ 0 then L.attach h none
    else if (dirMap fuel t.machine.fs (fat32ToShortName path)).isNone then L.begin_ σ h
    -- the bytes from before the truncation are not bytes of this file any more
    else if hasFlag flags fat32OTrunc ∧ (L.fileAt σ).isSome then L.begin_ σ h
    else L.attach h (L.fileAt σ)
  | .write h (some data) _ =>
    let moved := (t'.machine.file h).position - (t.machine.file h).position
    L.record (L.fileOf h) (t.machine.file h).position.toNat moved.toNat data
  | .close h => if status = 0 then L.attach h none else L
  | .unlink path =>
    match dirMap fuel t.machine.fs (fat32ToShortName path) with
    | some found => if status = 0 then L.remove (found.entryCluster, found.entryOffset) else L
    | none => L
  | .write _ none _ | .read _ _ _ | .seek _ _ _ | .mkdir _ => L

variable {L : Ledger} {σ τ : Slot} {i j p start count : Nat} {b : UInt8} {data : Bytes}

theorem Stored.mono {L' : Ledger} (stored : L.Stored i p b) (kept : L.writes ⊆ L'.writes) : L'.Stored i p b := by
  obtain ⟨w, member, rest⟩ := stored
  exact ⟨w, kept member, rest⟩

theorem record_writes (L : Ledger) (f : Option Nat) (start count : Nat) (data : Bytes) :
    L.writes ⊆ (L.record f start count data).writes := List.subset_append_right _ _

theorem record_stored (inside : start ≤ p ∧ p < start + count) (stored : data (p - start) = b) :
    (L.record (some i) start count data).Stored i p b :=
  ⟨⟨i, start, count, data⟩, List.mem_cons_self, rfl, inside.1, inside.2, stored⟩

end Ledger

/-- A session with the ledger of its calls. -/
structure Tracked where
  session : Session
  ledger : Ledger

def Tracked.step (fuel : Nat) (x : Tracked) (call : FsCall) : Option (Reply × Tracked) := do
  let (reply, t') ← x.session.step fuel call
  some (reply, ⟨t', x.ledger.step fuel x.session call reply.status t'⟩)

theorem Tracked.step_eq_some {fuel : Nat} {x y : Tracked} {call : FsCall} {reply : Reply} :
    x.step fuel call = some (reply, y) ↔ x.session.step fuel call = some (reply, y.session) ∧
      y.ledger = x.ledger.step fuel x.session call reply.status y.session := by
  obtain ⟨t', L'⟩ := y
  simp only [Tracked.step, Option.bind_eq_bind, Option.bind_eq_some_iff, Prod.exists, Option.some.injEq,
    Prod.mk.injEq, Tracked.mk.injEq]
  constructor
  · rintro ⟨r, t, done, rfl, rfl, rfl⟩
    exact ⟨done, rfl⟩
  · rintro ⟨done, rfl⟩
    exact ⟨reply, t', done, rfl, rfl, rfl⟩

end QuantumKernel.Fat32
