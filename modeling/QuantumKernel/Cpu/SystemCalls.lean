import QuantumKernel.Library.I386Handlers

/-! # The way of a system call to `syscall_dispatch` and back

The words that `syscall_handler` pushes are the structure `regs_t` that `syscall_dispatch` gets by its
address.  It reads the number and the arguments from it and stores the result in it, so the pops of the
handler bring the result into EAX and every other register back.
-/

namespace QuantumKernel.Cpu

open I386 Machine Memory32

/-- What `syscall_handler` saves: the segment registers first. -/
def syscallSaved : List Saved :=
  [.segment .ds, .segment .es, .segment .fs, .segment .gs, .general]

/-- The one function that `syscall_handler` calls. -/
inductive SyscallFunction
  | syscallDispatch

/-- `syscall_handler`, up to its call of `syscall_dispatch`. -/
def syscallEntry : List (HandlerInstr SyscallFunction) :=
  [.stack (.pushSeg .ds), .stack (.pushSeg .es), .stack (.pushSeg .fs), .stack (.pushSeg .gs), .stack .pushad,
   .stack (.movAx 0x10), .stack (.movSeg .ds), .stack (.movSeg .es), .stack (.movSeg .fs), .stack (.movSeg .gs),
   .movEaxEsp, .pushEax]

/-- `syscall_handler`, from behind the call to its `iret`. -/
def syscallExit : List (HandlerInstr SyscallFunction) :=
  [.stack (.addEsp 4), .stack .popad, .stack (.popSeg .gs), .stack (.popSeg .fs), .stack (.popSeg .es),
   .stack (.popSeg .ds)]

def syscallHandler : List (HandlerInstr SyscallFunction) := syscallEntry ++ [.call .syscallDispatch] ++ syscallExit

/-- The fields of `regs_t`. -/
inductive RegsField
  | general (q : Reg)
  | segment (s : Seg)

/-- Their order in `regs_t`; CS and SS are not among them. -/
def RegsField.index : RegsField → Option Nat
  | general .edi => some 0
  | general .esi => some 1
  | general .ebp => some 2
  | general .esp => some 3
  | general .ebx => some 4
  | general .edx => some 5
  | general .ecx => some 6
  | general .eax => some 7
  | segment .gs => some 8
  | segment .fs => some 9
  | segment .es => some 10
  | segment .ds => some 11
  | segment .cs => none
  | segment .ss => none

/-- `r->field`, where `r` is the argument on top of the stack. -/
def regsField (e : Machine) (field : RegsField) : Option UInt32 :=
  field.index.map fun index => loadWord e.mem (e.slot 0 + UInt32.ofNat (4 * index))

/-- The machine when user space executes `int $0x80` in `syscall(num, arg1, arg2, arg3)`. -/
def syscall (m : Machine) (num arg1 arg2 arg3 : UInt32) : Machine :=
  { m with reg := fun
    | .eax => num
    | .ebx => arg1
    | .ecx => arg2
    | .edx => arg3
    | q => m.reg q }

/-- The machine when `syscall_dispatch` is called. -/
def atDispatch (wide : Bool) (functions : SyscallFunction → Machine → Machine) (m : Machine) (f : ReturnFrame) :
    Machine :=
  (runHandler wide functions syscallEntry (m.enter f) []).1

/-- `syscall_dispatch` has returned: it has stored `result` in `r->eax`, and may have used the word of its
argument, but has left the rest of the stack as it was. -/
structure Dispatched (n : Nat) (result : UInt32) (e h : Machine) : Prop where
  esp : h.reg .esp = e.reg .esp
  eax : h.slot 8 = result
  kept {k : Nat} : k < n → k ≠ 0 → k ≠ 8 → h.slot k = e.slot k

/-- `m` with the result of a system call. -/
def withResult (m : Machine) (result : UInt32) : Machine := { m with reg := Function.update m.reg .eax result }

/-- `r->eax = result`, where `r` is the argument on top of the stack. -/
def storeResult (e : Machine) (result : UInt32) : Machine :=
  { e with mem := storeWord e.mem (e.slot 0 + UInt32.ofNat (4 * 7)) result }

variable {wide : Bool} {functions : SyscallFunction → Machine → Machine} {m e h : Machine} {f : ReturnFrame}
  {n k : Nat} {result num arg1 arg2 arg3 : UInt32} {q : Reg} {s : Seg} {field : RegsField} {index : Nat}

/-! ## The words of the handler -/

/-- What the pushes of the segment registers leave. -/
def segWords (wide : Bool) (m : Machine) : List UInt32 :=
  [selectorWord wide (m.below 0) (m.seg .ds), selectorWord wide (m.below 1) (m.seg .es),
   selectorWord wide (m.below 2) (m.seg .fs), selectorWord wide (m.below 3) (m.seg .gs)]

/-- The words of `pushad`, behind four other words. -/
def regWords (m : Machine) : List UInt32 :=
  [m.reg .eax, m.reg .ecx, m.reg .edx, m.reg .ebx, m.reg .esp - 16, m.reg .ebp, m.reg .esi, m.reg .edi]

/-- All words on the stack before the call, in the order of the pushes. -/
def callWords (wide : Bool) (m : Machine) (f : ReturnFrame) : List UInt32 :=
  [f.eflags, f.cs, f.eip] ++ (segWords wide (m.enter f) ++ regWords (m.enter f))

theorem save_regs : runStack wide (saveCode syscallSaved) m = m.pushAll (segWords wide m ++ regWords m) := by
  simp [runStack, saveCode, syscallSaved, Saved.save, StackInstr.exec, segWords, regWords, pushAll, below_push,
    sub_sub_eq]

theorem save_callWords : runStack wide (saveCode syscallSaved) (m.enter f) = m.pushAll (callWords wide m f) := by
  rw [save_regs, callWords, pushAll_append [f.eflags, f.cs, f.eip], ← enter_eq]

theorem withResult_stack : SameStack ((withResult m result).enter f) (m.enter f) := by
  apply SameStack.push
  apply SameStack.push
  apply SameStack.push
  constructor
  · rfl
  · simp [withResult]

theorem segWords_withResult : segWords wide ((withResult m result).enter f) = segWords wide (m.enter f) := by
  have segments : ((withResult m result).enter f).seg = (m.enter f).seg := rfl
  simp only [segWords, below, withResult_stack.mem, withResult_stack.esp, segments]

theorem regWords_withResult :
    regWords ((withResult m result).enter f) = result :: (regWords (m.enter f)).tail := by
  have esp : ((withResult m result).enter f).reg .esp = (m.enter f).reg .esp := withResult_stack.esp
  simp [regWords, esp]
  simp [withResult]

/-- The saved words and the result differ in one word only. -/
theorem callWords_withResult (other : k ≠ 7) :
    (callWords wide (withResult m result) f).reverse[k]? = (callWords wide m f).reverse[k]? := by
  obtain ⟨a, b, c, d, words⟩ : ∃ a b c d, segWords wide (m.enter f) = [a, b, c, d] := ⟨_, _, _, _, rfl⟩
  rw [callWords, segWords_withResult, regWords_withResult, callWords, words]
  by_cases inside : k < 15
  · interval_cases k <;> first | exact absurd rfl other | rfl
  · simp [regWords, show 15 ≤ k by omega]

theorem callWords_length : (callWords wide m f).length = 15 := rfl

/-- The saved words are the only difference on the stack, too. -/
theorem save_withResult (bound : k < 1000000) (other : k ≠ 7) :
    (runStack wide (saveCode syscallSaved) ((withResult m result).enter f)).slot k =
      (runStack wide (saveCode syscallSaved) (m.enter f)).slot k := by
  rw [save_callWords, save_callWords]
  by_cases inside : k < 15
  · have value : k < (callWords wide m f).reverse.length := inside
    have word := List.getElem?_eq_getElem value
    rw [slot_pushAll (by simp [callWords, segWords, regWords]) word]
    exact slot_pushAll (by simp [callWords, segWords, regWords]) ((callWords_withResult other).trans word)
  · obtain ⟨outer, rfl⟩ : ∃ outer, k = 15 + outer := ⟨k - 15, by omega⟩
    have before : (m.pushAll (callWords wide m f)).slot ((callWords wide m f).length + outer) = m.slot outer :=
      slot_pushAll_add (by rw [callWords_length]; omega)
    have after : ((withResult m result).pushAll (callWords wide (withResult m result) f)).slot
        ((callWords wide (withResult m result) f).length + outer) = (withResult m result).slot outer :=
      slot_pushAll_add (by rw [callWords_length]; omega)
    rw [callWords_length] at before after
    rw [before, after]
    have stack : SameStack (withResult m result) m := ⟨rfl, by simp [withResult]⟩
    exact stack.slot

theorem save_withResult_eax :
    (runStack wide (saveCode syscallSaved) ((withResult m result).enter f)).slot 7 = result := by
  rw [save_callWords]
  apply slot_pushAll (by simp [callWords, segWords, regWords])
  rw [callWords, regWords_withResult]
  rfl

/-! ## What `syscall_dispatch` gets -/

/-- The kernel's data segment is loaded, and the address of the saved words becomes the argument. -/
theorem push_regs {effects : List (Effect SyscallFunction)} : SameStack
    (runHandler wide functions [.stack (.movAx 0x10), .stack (.movSeg .ds), .stack (.movSeg .es),
      .stack (.movSeg .fs), .stack (.movSeg .gs), .movEaxEsp, .pushEax] m effects).1
    (m.push (m.reg .esp)) := by
  constructor
  · simp [runHandler, HandlerInstr.exec, StackInstr.exec, push]
  · simp [runHandler, HandlerInstr.exec, StackInstr.exec]

theorem atDispatch_stack : SameStack (atDispatch wide functions m f)
    ((runStack wide (saveCode syscallSaved) (m.enter f)).push
      ((runStack wide (saveCode syscallSaved) (m.enter f)).reg .esp)) := by
  have code : syscallEntry = (saveCode syscallSaved).map .stack ++
    [.stack (.movAx 0x10), .stack (.movSeg .ds), .stack (.movSeg .es), .stack (.movSeg .fs), .stack (.movSeg .gs),
      .movEaxEsp, .pushEax] := rfl
  rw [atDispatch, code, runHandler_append, runHandler_stack]
  exact push_regs

theorem RegsField.index_lt (place : field.index = some index) : index < 12 := by
  cases field with
  | general q =>
    cases q <;> cases place <;> decide
  | segment s =>
    cases s with
    | cs => cases place
    | ss => cases place
    | _ =>
      cases place
      decide

/-- The address of a word behind the top of the stack. -/
theorem succ_address {esp : UInt32} (above : e.reg .esp = esp - 4) :
    e.reg .esp + UInt32.ofNat (4 * (k + 1)) = esp + UInt32.ofNat (4 * k) := by
  apply UInt32.toNat.inj
  have top := esp.toNat_lt
  simp only [above, UInt32.toNat_add, UInt32.toNat_sub, UInt32.toNat_ofNat', UInt32.reduceToNat]
  omega

/-- The argument is the address of the word behind it. -/
theorem atDispatch_argument : (atDispatch wide functions m f).slot 0 =
    (runStack wide (saveCode syscallSaved) (m.enter f)).reg .esp :=
  atDispatch_stack.slot.trans slot_push_zero

theorem atDispatch_esp : (atDispatch wide functions m f).reg .esp =
    (runStack wide (saveCode syscallSaved) (m.enter f)).reg .esp - 4 :=
  atDispatch_stack.esp.trans push_reg_esp

theorem regsField_eq (place : field.index = some index) :
    regsField (atDispatch wide functions m f) field =
      some ((runStack wide (saveCode syscallSaved) (m.enter f)).slot index) := by
  have bound : index < 1073741823 := Nat.lt_trans (RegsField.index_lt place) (by decide)
  have behind : (atDispatch wide functions m f).slot (index + 1) =
      (runStack wide (saveCode syscallSaved) (m.enter f)).slot index :=
    atDispatch_stack.slot.trans (slot_push_succ bound)
  rw [← behind, regsField, place, Option.map_some, atDispatch_argument, slot, succ_address atDispatch_esp]

theorem regsField_general (other : q ≠ .esp) :
    regsField (atDispatch wide functions m f) (.general q) = some (m.reg q) := by
  obtain ⟨index, place⟩ : ∃ index, (RegsField.general q).index = some index := by
    cases q <;> exact ⟨_, rfl⟩
  rw [regsField_eq place, save_callWords, ← enter_reg other (f := f)]
  congr 1
  apply slot_pushAll (by simp [callWords, segWords, regWords])
  cases q with
  | esp => exact absurd rfl other
  | _ =>
    cases place
    rfl

theorem regsField_segment (place : (RegsField.segment s).index = some index) :
    (regsField (atDispatch wide functions m f) (.segment s)).map UInt32.toUInt16 = some (m.seg s) := by
  have word : (runStack wide (saveCode syscallSaved) (m.enter f)).slot index =
      selectorWord wide ((m.enter f).below (11 - index)) ((m.enter f).seg s) := by
    rw [save_callWords]
    apply slot_pushAll (by simp [callWords, segWords, regWords])
    cases s with
    | cs => cases place
    | ss => cases place
    | _ =>
      cases place
      rfl
  rw [regsField_eq place, word, Option.map_some, selectorWord_toUInt16, enter_seg]

/-- A store to `r->eax` is a change of the word where the handler has saved EAX. -/
theorem storeResult_dispatched (fits : n < 900000) : Dispatched n result (atDispatch wide functions m f)
    (storeResult (atDispatch wide functions m f) result) := by
  have place : storeResult (atDispatch wide functions m f) result = (atDispatch wide functions m f).setSlot 8 result := by
    rw [storeResult, setSlot, atDispatch_argument, succ_address atDispatch_esp]
  rw [place]
  constructor
  · rfl
  · exact setSlot_slot
  · intro k bound _ other
    exact setSlot_slot_other other (by decide) (by omega)

/-! ## What it returns to -/

theorem syscallExit_eq {effects : List (Effect SyscallFunction)} :
    runHandler wide functions syscallExit h effects =
      (runStack wide (restoreCode syscallSaved) (h.addEsp 4), effects) := by
  have code : syscallExit = (StackInstr.addEsp 4 :: restoreCode syscallSaved).map .stack := rfl
  rw [code, runHandler_stack, runStack_cons, StackInstr.exec]

/-- Behind the call the saved words are those of the machine with the result. -/
theorem dispatched_keepsStack (returned : Dispatched (n + 16) result (atDispatch wide functions m f) h)
    (fits : n < 900000) : KeepsStack (15 + n)
      (runStack wide (saveCode syscallSaved) ((withResult m result).enter f)) (h.addEsp 4) where
  esp := by
    have before : (runStack wide (saveCode syscallSaved) ((withResult m result).enter f)).reg .esp =
        (runStack wide (saveCode syscallSaved) (m.enter f)).reg .esp := by
      rw [save_callWords, save_callWords, pushAll_esp, pushAll_esp, callWords_length, callWords_length]
      simp [withResult]
    rw [addEsp_reg_esp, returned.esp, atDispatch_stack.esp, push_reg_esp, UInt32.sub_add_cancel, before]
  slot := by
    intro k bound
    rw [addEsp_slot_one]
    by_cases result : k = 7
    · subst result
      rw [returned.eax, save_withResult_eax]
    · rw [returned.kept (by omega) (by omega) (by omega), save_withResult (by omega) result, atDispatch_stack.slot,
        slot_push_succ (by omega)]

theorem syscallHandler_eq : (runHandler wide functions syscallHandler (m.enter f) []).1 =
    runStack wide (restoreCode syscallSaved)
      ((functions .syscallDispatch (atDispatch wide functions m f)).addEsp 4) := by
  rw [syscallHandler, runHandler_append, runHandler_append, syscallExit_eq, runHandler_call, atDispatch]

/-- The handler ends with the result in EAX and the other registers restored. -/
theorem syscallHandler_restores (fits : n < 900000)
    (returned : Dispatched (n + 16) result (atDispatch wide functions m f)
      (functions .syscallDispatch (atDispatch wide functions m f))) :
    Restores syscallSaved (3 + n) ((withResult m result).enter f)
      (runHandler wide functions syscallHandler (m.enter f) []).1 := by
  have kept := dispatched_keepsStack returned fits
  have width : 15 + n = savedWidth syscallSaved + (3 + n) := by
    simp [savedWidth, syscallSaved, Saved.width]
    omega
  rw [width] at kept
  rw [syscallHandler_eq]
  exact restoreCode_spec kept (by omega)

/-- `syscall_dispatch` finds the number, the arguments and the registers of the caller in `regs_t`; when it has
returned, the caller goes on behind its `int $0x80` with the result in EAX and nothing else changed. -/
theorem system_call_transparent (fits : n < 900000)
    (returned : Dispatched (n + 16) result (atDispatch wide functions (syscall m num arg1 arg2 arg3) f)
      (functions .syscallDispatch (atDispatch wide functions (syscall m num arg1 arg2 arg3) f))) :
    (∀ q, q ≠ .esp → regsField (atDispatch wide functions (syscall m num arg1 arg2 arg3) f) (.general q) =
      some ((syscall m num arg1 arg2 arg3).reg q)) ∧
    (∀ s, s ≠ .cs → s ≠ .ss →
      (regsField (atDispatch wide functions (syscall m num arg1 arg2 arg3) f) (.segment s)).map UInt32.toUInt16 =
        some (m.seg s)) ∧
    (runHandler wide functions syscallHandler ((syscall m num arg1 arg2 arg3).enter f) []).1.iret.1 = f ∧
    Restores syscallSaved n (withResult (syscall m num arg1 arg2 arg3) result)
      (runHandler wide functions syscallHandler ((syscall m num arg1 arg2 arg3).enter f) []).1.iret.2 := by
  refine ⟨fun q other => regsField_general other, ?_, ?_⟩
  · intro s notCode notStack
    obtain ⟨index, place⟩ : ∃ index, (RegsField.segment s).index = some index := by
      cases s with
      | cs => exact absurd rfl notCode
      | ss => exact absurd rfl notStack
      | _ => exact ⟨_, rfl⟩
    exact regsField_segment place
  · exact iret_enter (syscallHandler_restores fits returned) (by omega)

/-- A call that stores 7 as its result. -/
theorem system_call_transparent_seven :
    (runHandler true (fun _ e => storeResult e 7) syscallHandler
      ((syscall ⟨fun _ => 0x90000, fun _ => 0x23, fun _ => 0⟩ 10 3 0x8000 512).enter ⟨0x400000, 0x1B, 0x202⟩) []).1.iret.1 =
        ⟨0x400000, 0x1B, 0x202⟩ :=
  (system_call_transparent (n := 2) (by decide) (storeResult_dispatched (by decide))).2.2.1

end QuantumKernel.Cpu
