import QuantumKernel.Library.I386Stack

/-! # Handlers that save and restore the registers

An interrupt handler pushes registers, calls functions, and pops in the opposite order.  Whatever was done
in between, the pops bring back what was pushed if the stack pointer and the words on the stack are
as the pushes left them (`restoreCode_spec`).  The order of the pushes does not matter, nor which
registers are among them.
-/

namespace I386

open Machine Memory32

/-- What one push of a handler saves: the general registers, or a segment register. -/
inductive Saved
  | general
  | segment (source : Seg)
  deriving DecidableEq, Repr

namespace Saved

def save : Saved → StackInstr
  | general => .pushad
  | segment source => .pushSeg source

def restore : Saved → StackInstr
  | general => .popad
  | segment target => .popSeg target

/-- The words that it takes on the stack. -/
def width : Saved → Nat
  | general => 8
  | segment _ => 1

end Saved

def saveCode (saved : List Saved) : List StackInstr := saved.map Saved.save

def restoreCode (saved : List Saved) : List StackInstr := saved.reverse.map Saved.restore

def savedWidth (saved : List Saved) : Nat := (saved.map Saved.width).sum

/-- The stack pointer and the first `n` words on the stack are as before. -/
structure Machine.KeepsStack (n : Nat) (m m' : Machine) : Prop where
  esp : m'.reg .esp = m.reg .esp
  slot {k : Nat} : k < n → m'.slot k = m.slot k

/-- The stack is as before, and so are the saved registers. -/
structure Machine.Restores (saved : List Saved) (n : Nat) (m m' : Machine) : Prop where
  stack : KeepsStack n m m'
  reg {q : Reg} : .general ∈ saved → q ≠ .esp → m'.reg q = m.reg q
  seg {q : Seg} : .segment q ∈ saved → m'.seg q = m.seg q

/-- Where `pushad` leaves a register. -/
def generalIndex : Reg → Nat
  | .edi => 0
  | .esi => 1
  | .ebp => 2
  | .esp => 3
  | .ebx => 4
  | .edx => 5
  | .ecx => 6
  | .eax => 7

/-- The words of `pushad`, in the order of its pushes. -/
def generalWords (m : Machine) : List UInt32 :=
  [m.reg .eax, m.reg .ecx, m.reg .edx, m.reg .ebx, m.reg .esp, m.reg .ebp, m.reg .esi, m.reg .edi]

variable {wide : Bool} {saved : List Saved} {m h r : Machine} {n k : Nat} {q : Reg} {s : Seg} {x : Saved}

theorem generalIndex_lt (q : Reg) : generalIndex q < 8 := by
  cases q <;> decide

theorem Machine.KeepsStack.mono {n' : Nat} (kept : KeepsStack n m h) (le : n' ≤ n) : KeepsStack n' m h where
  esp := kept.esp
  slot bound := kept.slot (by omega)

theorem Machine.KeepsStack.trans (first : KeepsStack n m h) (second : KeepsStack n h r) : KeepsStack n m r where
  esp := second.esp.trans first.esp
  slot bound := (second.slot bound).trans (first.slot bound)

theorem Machine.SameStack.keepsStack (same : SameStack h m) : KeepsStack n m h where
  esp := same.esp
  slot _ := same.slot

/-- A store to the `j`-th word on the stack. -/
def Machine.setSlot (m : Machine) (j : Nat) (value : UInt32) : Machine :=
  { m with mem := storeWord m.mem (m.reg .esp + UInt32.ofNat (4 * j)) value }

theorem Machine.setSlot_slot {j : Nat} {value : UInt32} : (m.setSlot j value).slot j = value := by
  simp [setSlot, slot, loadWord_storeWord]

theorem Machine.setSlot_slot_other {j : Nat} {value : UInt32} (other : k ≠ j) (low : j < 1073741824)
    (bound : k < 1073741824) : (m.setSlot j value).slot k = m.slot k := by
  have apart : (m.reg .esp + UInt32.ofNat (4 * k) - (m.reg .esp + UInt32.ofNat (4 * j))).toNat =
      (4294967296 + 4 * k - 4 * j) % 4294967296 := by
    have top := (m.reg .esp).toNat_lt
    simp only [UInt32.toNat_add, UInt32.toNat_sub, UInt32.toNat_ofNat']
    omega
  have esp : (m.setSlot j value).reg .esp = m.reg .esp := rfl
  rw [slot, esp, slot]
  exact loadWord_storeWord_apart (by omega) (by omega)

/-! ## One push and its pop -/

theorem exec_pushad : StackInstr.exec wide m .pushad = m.pushAll (generalWords m) := rfl

theorem pushad_slot : (StackInstr.exec wide m .pushad).slot (generalIndex q) = m.reg q := by
  rw [exec_pushad]
  apply slot_pushAll (by simp [generalWords])
  cases q <;> rfl

theorem save_esp : (StackInstr.exec wide m x.save).reg .esp = m.reg .esp - UInt32.ofNat (4 * x.width) := by
  cases x with
  | general => exact pushAll_esp (generalWords m)
  | segment source => exact push_reg_esp

theorem save_reg (other : q ≠ .esp) : (StackInstr.exec wide m x.save).reg q = m.reg q := by
  cases x with
  | general => exact pushAll_reg other (generalWords m)
  | segment source => exact push_reg other

theorem save_seg : (StackInstr.exec wide m x.save).seg = m.seg := by
  cases x with
  | general => exact pushAll_seg (generalWords m)
  | segment source => exact push_seg

/-- The words that were on the stack lie behind the pushed ones. -/
theorem save_slot (bound : k < 1073741815) : (StackInstr.exec wide m x.save).slot (k + x.width) = m.slot k := by
  cases x with
  | general =>
    have behind : (m.pushAll (generalWords m)).slot ((generalWords m).length + k) = m.slot k :=
      slot_pushAll_add (by simp only [generalWords, List.length]; omega)
    rw [Nat.add_comm]
    exact behind
  | segment source => exact slot_push_succ (by omega)

theorem restore_esp : (StackInstr.exec wide r x.restore).reg .esp = r.reg .esp + UInt32.ofNat (4 * x.width) := by
  cases x with
  | general => rfl
  | segment target => exact addEsp_reg_esp

theorem restore_mem : (StackInstr.exec wide r x.restore).mem = r.mem := by
  cases x <;> rfl

theorem restore_slot : (StackInstr.exec wide r x.restore).slot k = r.slot (k + x.width) :=
  slot_of_esp restore_mem restore_esp

/-- The pop of what one push has saved, when everything that was saved later is restored. -/
theorem restore_save (later : Restores saved (x.width + n) (StackInstr.exec wide m x.save) r)
    (fits : n < 1073741815) : Restores (x :: saved) n m (StackInstr.exec wide r x.restore) where
  stack :=
    { esp := by rw [restore_esp, later.stack.esp, save_esp, UInt32.sub_add_cancel]
      slot := by
        intro k bound
        rw [restore_slot, later.stack.slot (by omega), save_slot (by omega)] }
  reg {q} present other := by
    cases x with
    | general =>
      have popped : (StackInstr.exec wide r (Saved.restore .general)).reg q = r.slot (generalIndex q) := by
        cases q with
        | esp => exact absurd rfl other
        | _ => rfl
      rw [popped, later.stack.slot (Nat.lt_add_right n (generalIndex_lt q))]
      exact pushad_slot
    | segment target =>
      have inside : Saved.general ∈ saved := by simpa using present
      have popped : (StackInstr.exec wide r (Saved.restore (.segment target))).reg q = r.reg q := addEsp_reg other
      rw [popped, later.reg inside other, save_reg other]
  seg {q} present := by
    cases x with
    | general =>
      have inside : Saved.segment q ∈ saved := by simpa using present
      exact (later.seg inside).trans (congrFun save_seg q)
    | segment target =>
      by_cases same : q = target
      · subst same
        have word : r.slot 0 = selectorWord wide (m.below 0) (m.seg q) :=
          (later.stack.slot (Nat.lt_add_right n (Nat.zero_lt_one))).trans slot_push_zero
        simp [Saved.restore, StackInstr.exec, word, selectorWord_toUInt16]
      · have inside : Saved.segment q ∈ saved := by simpa [same] using present
        have popped : (StackInstr.exec wide r (Saved.restore (.segment target))).seg q = r.seg q :=
          Function.update_of_ne same _ _
        rw [popped, later.seg inside, save_seg]

/-! ## All of them -/

theorem runStack_cons (instr : StackInstr) (code : List StackInstr) :
    runStack wide (instr :: code) m = runStack wide code (instr.exec wide m) := rfl

theorem restoreCode_cons : restoreCode (x :: saved) = restoreCode saved ++ [x.restore] := by
  simp [restoreCode]

theorem savedWidth_cons : savedWidth (x :: saved) = x.width + savedWidth saved := by
  simp [savedWidth]

theorem saveCode_seg : (runStack wide (saveCode saved) m).seg = m.seg := by
  induction saved generalizing m with
  | nil => rfl
  | cons x saved ih => exact ih.trans save_seg

/-- A handler that leaves the stack as its pushes left it ends with the registers that it started with. -/
theorem restoreCode_spec (kept : KeepsStack (savedWidth saved + n) (runStack wide (saveCode saved) m) h)
    (fits : savedWidth saved + n < 1073741815) :
    Restores saved n m (runStack wide (restoreCode saved) h) := by
  induction saved generalizing m n with
  | nil =>
    have width : savedWidth [] + n = n := Nat.zero_add n
    exact ⟨width ▸ kept, fun present => absurd present List.not_mem_nil, fun present => absurd present List.not_mem_nil⟩
  | cons x saved ih =>
    rw [savedWidth_cons] at kept fits
    have later : Restores saved (x.width + n) (StackInstr.exec wide m x.save) (runStack wide (restoreCode saved) h) := by
      apply ih
      · exact kept.mono (by omega)
      · omega
    rw [restoreCode_cons, runStack_append]
    exact restore_save later (by omega)

/-! ## Entry and return -/

/-- The words that the processor pushes for an interrupt. -/
structure ReturnFrame where
  eip : UInt32
  cs : UInt32
  eflags : UInt32
  deriving DecidableEq, Repr

/-- The machine when the handler is entered, after a change of the stack if there is one. -/
def Machine.enter (m : Machine) (f : ReturnFrame) : Machine := ((m.push f.eflags).push f.cs).push f.eip

/-- What `iret` takes from the stack, and the machine behind it. -/
def Machine.iret (m : Machine) : ReturnFrame × Machine := (⟨m.slot 0, m.slot 1, m.slot 2⟩, m.addEsp 12)

variable {f : ReturnFrame}

theorem enter_eq (m : Machine) (f : ReturnFrame) : m.enter f = m.pushAll [f.eflags, f.cs, f.eip] := rfl

theorem enter_slot : (m.enter f).slot 0 = f.eip ∧ (m.enter f).slot 1 = f.cs ∧ (m.enter f).slot 2 = f.eflags := by
  rw [enter_eq]
  exact ⟨slot_pushAll (by simp) rfl, slot_pushAll (by simp) rfl, slot_pushAll (by simp) rfl⟩

@[simp] theorem enter_reg (other : q ≠ .esp) : (m.enter f).reg q = m.reg q := pushAll_reg other [f.eflags, f.cs, f.eip]

@[simp] theorem enter_seg : (m.enter f).seg = m.seg := rfl

/-- A handler that restores what it has saved returns to where it was entered from. -/
theorem iret_enter (restored : Restores saved (3 + n) (m.enter f) r) (fits : n < 1073741815) :
    r.iret.1 = f ∧ Restores saved n m r.iret.2 := by
  obtain ⟨eip, cs, eflags⟩ := enter_slot (m := m) (f := f)
  constructor
  · simp [iret, restored.stack.slot (show 0 < 3 + n by omega), restored.stack.slot (show 1 < 3 + n by omega),
      restored.stack.slot (show 2 < 3 + n by omega), eip, cs, eflags]
  · refine ⟨⟨?_, ?_⟩, ?_, ?_⟩
    · rw [iret, addEsp_reg_esp, restored.stack.esp, enter_eq, pushAll_esp]
      exact UInt32.sub_add_cancel _ _
    · intro k bound
      have skipped : r.iret.2.slot k = r.slot (k + 3) := slot_of_esp rfl addEsp_reg_esp
      rw [skipped, restored.stack.slot (by omega), enter_eq, Nat.add_comm]
      exact slot_pushAll_add (by simp only [List.length]; omega)
    · intro q present other
      exact (addEsp_reg other).trans ((restored.reg present other).trans (enter_reg other))
    · intro q present
      exact (restored.seg present).trans (congrFun enter_seg q)

/-! ## Handlers -/

/-- The instructions of a handler; it calls functions of the type `F`. -/
inductive HandlerInstr (F : Type)
  | stack (instr : StackInstr)
  /-- `mov eax, esp` -/
  | movEaxEsp
  /-- `push eax` -/
  | pushEax
  /-- `mov al, value` -/
  | movAl (value : UInt8)
  /-- `out port, al` -/
  | outAl (port : UInt16)
  | call (function : F)

/-- What a handler does to the world. -/
inductive Effect (F : Type)
  | called (function : F)
  | wrote (port : UInt16) (value : UInt8)
  deriving DecidableEq, Repr

/-- `old` with another low byte. -/
def withLow (old : UInt32) (value : UInt8) : UInt32 := UInt32.ofNat (old.toNat / 256 * 256 + value.toNat)

theorem withLow_toUInt8 (old : UInt32) (value : UInt8) : (withLow old value).toUInt8 = value := by
  have bound := value.toNat_lt
  have low := old.toNat_lt
  apply UInt8.toNat.inj
  rw [withLow, UInt32.toNat_toUInt8, UInt32.toNat_ofNat']
  omega

/-- `functions` tells what a call leaves of the machine when it has returned. -/
def HandlerInstr.exec {F : Type} (wide : Bool) (functions : F → Machine → Machine) :
    Machine × List (Effect F) → HandlerInstr F → Machine × List (Effect F)
  | (m, effects), .stack instr => (instr.exec wide m, effects)
  | (m, effects), .movEaxEsp => ({ m with reg := Function.update m.reg .eax (m.reg .esp) }, effects)
  | (m, effects), .pushEax => (m.push (m.reg .eax), effects)
  | (m, effects), .movAl value =>
    ({ m with reg := Function.update m.reg .eax (withLow (m.reg .eax) value) }, effects)
  | (m, effects), .outAl port => (m, effects ++ [.wrote port (m.reg .eax).toUInt8])
  | (m, effects), .call function => (functions function m, effects ++ [.called function])

def runHandler {F : Type} (wide : Bool) (functions : F → Machine → Machine) (code : List (HandlerInstr F))
    (m : Machine) (effects : List (Effect F)) : Machine × List (Effect F) :=
  code.foldl (HandlerInstr.exec wide functions) (m, effects)

/-- The functions return with the stack as it was. -/
def Returns {F : Type} (n : Nat) (functions : F → Machine → Machine) : Prop :=
  ∀ function m, KeepsStack n m (functions function m)

section

variable {F : Type} {functions : F → Machine → Machine} {code rest : List (HandlerInstr F)}
  {effects : List (Effect F)} {value : UInt8} {port : UInt16}

theorem runHandler_append : runHandler wide functions (code ++ rest) m effects =
    runHandler wide functions rest (runHandler wide functions code m effects).1
      (runHandler wide functions code m effects).2 := by
  simp [runHandler, List.foldl_append]

theorem runHandler_stack (instrs : List StackInstr) :
    runHandler wide functions (instrs.map .stack) m effects = (runStack wide instrs m, effects) := by
  induction instrs generalizing m with
  | nil => rfl
  | cons instr instrs ih => exact ih

theorem runHandler_call {function : F} : runHandler wide functions [.call function] m effects =
    (functions function m, effects ++ [.called function]) := rfl

/-- The writes of one value to several ports. -/
def writeCode (F : Type) (value : UInt8) (ports : List UInt16) : List (HandlerInstr F) :=
  ports.flatMap fun port => [.movAl value, .outAl port]

/-- They change nothing but AL. -/
theorem writeCode_spec (ports : List UInt16) (m : Machine) (effects : List (Effect F)) :
    ∃ m', SameStack m' m ∧ m'.seg = m.seg ∧
    runHandler wide functions (writeCode F value ports) m effects =
      (m', effects ++ ports.map fun port => .wrote port value) := by
  induction ports generalizing m effects with
  | nil => exact ⟨m, ⟨rfl, rfl⟩, rfl, by simp [writeCode, runHandler]⟩
  | cons port ports ih =>
    obtain ⟨m', stack, segments, run⟩ := ih
      { m with reg := Function.update m.reg .eax (withLow (m.reg .eax) value) } (effects ++ [.wrote port value])
    have first : runHandler wide functions [.movAl value, .outAl port] m effects =
        ({ m with reg := Function.update m.reg .eax (withLow (m.reg .eax) value) },
          effects ++ [.wrote port value]) := by
      simp [runHandler, HandlerInstr.exec, withLow_toUInt8]
    refine ⟨m', ⟨stack.mem, ?_⟩, segments, ?_⟩
    · simpa using stack.esp
    · have code : writeCode F value (port :: ports) = [.movAl value, .outAl port] ++ writeCode F value ports := rfl
      rw [code, runHandler_append, first, run, List.append_assoc]
      rfl

end

end I386
