import QuantumKernel.Library.I386Stack

/-! # The way of an exception to `isr_handler`

The stubs of `isr.asm` bring every exception to one layout of the stack, and undo it.  Then the common
stub pushes the stack pointer as the only argument, while `isr_handler` has five parameters and takes
none of them from where the pointer leads: it reads the pointer itself and the saved segment
registers.
-/

namespace QuantumKernel.Cpu

open I386 Machine

/-- The words that the processor pushes for an exception, after a change of the stack if there is one. -/
structure ExceptionFrame where
  eip : UInt32
  cs : UInt32
  eflags : UInt32
  error : UInt32

/-- The exceptions for which the processor pushes an error code. -/
def hasErrorCode (vector : Fin 32) : Bool := vector ∈ ([8, 10, 11, 12, 13, 14, 17] : List (Fin 32))

/-- The machine when the stub of the vector is entered. -/
def deliver (m : Machine) (vector : Fin 32) (f : ExceptionFrame) : Machine :=
  let m := ((m.push f.eflags).push f.cs).push f.eip
  if hasErrorCode vector then m.push f.error else m

/-- `ISR_NOERRCODE`. -/
def isrNoErrCode (n : UInt32) : List StackInstr := [.pushImm 0, .pushImm n]

/-- `ISR_ERRCODE`. -/
def isrErrCode (n : UInt32) : List StackInstr := [.pushImm n]

/-- `isr0` to `isr31`. -/
def isrTable : List (List StackInstr) :=
  [isrNoErrCode 0, isrNoErrCode 1, isrNoErrCode 2, isrNoErrCode 3, isrNoErrCode 4, isrNoErrCode 5,
   isrNoErrCode 6, isrNoErrCode 7, isrErrCode 8, isrNoErrCode 9, isrErrCode 10, isrErrCode 11, isrErrCode 12,
   isrErrCode 13, isrErrCode 14, isrNoErrCode 15, isrNoErrCode 16, isrErrCode 17, isrNoErrCode 18,
   isrNoErrCode 19, isrNoErrCode 20, isrNoErrCode 21, isrNoErrCode 22, isrNoErrCode 23, isrNoErrCode 24,
   isrNoErrCode 25, isrNoErrCode 26, isrNoErrCode 27, isrNoErrCode 28, isrNoErrCode 29, isrNoErrCode 30,
   isrNoErrCode 31]

def isr (vector : Fin 32) : List StackInstr := isrTable.get (vector.cast (by rfl))

/-- `isr_common_stub`, up to its call of `isr_handler`. -/
def isrCommonEntry : List StackInstr :=
  [.pushad, .pushSeg .ds, .pushSeg .es, .pushSeg .fs, .pushSeg .gs,
   .movAx 0x10, .movSeg .ds, .movSeg .es, .movSeg .fs, .movSeg .gs,
   .pushEsp]

/-- `isr_common_stub`, from behind the call to its `iret`. -/
def isrCommonExit : List StackInstr :=
  [.addEsp 4, .popSeg .gs, .popSeg .fs, .popSeg .es, .popSeg .ds, .popad, .addEsp 8]

/-- The machine when `isr_handler` is entered; the call has pushed `ret`. -/
def atHandler (wide : Bool) (m : Machine) (vector : Fin 32) (f : ExceptionFrame) (ret : UInt32) : Machine :=
  (runStack wide (isr vector ++ isrCommonEntry) (deliver m vector f)).push ret

/-- A parameter under cdecl: they follow the return address. -/
def parameter (e : Machine) (k : Nat) : UInt32 := e.slot (k + 1)

/-- The function that was entered at `e` with one word as its argument has returned, and what lies behind this
word is as it was. -/
structure Returned (e h : Machine) : Prop where
  esp : h.reg .esp = e.reg .esp + 4
  kept {k : Nat} : k < 19 → h.slot (k + 1) = e.slot (k + 2)

/-- Before the `iret` the frame of the processor is on the stack, and the registers are as they were. -/
structure Restored (m : Machine) (f : ExceptionFrame) (r : Machine) : Prop where
  esp : r.reg .esp = m.reg .esp - 12
  eip : r.slot 0 = f.eip
  cs : r.slot 1 = f.cs
  eflags : r.slot 2 = f.eflags
  /-- The old stack pointer and its segment, if the stack was changed. -/
  outer {k : Nat} : k < 2 → r.slot (k + 3) = m.slot k
  reg {q : Reg} : q ≠ .esp → r.reg q = m.reg q
  seg {q : Seg} : q ≠ .cs → q ≠ .ss → r.seg q = m.seg q

/-- `isr_handler` gets the vector and the frame of the exception, and if it returns they are left as they were. -/
structure ReachesHandler (wide : Bool) (m : Machine) (vector : Fin 32) (f : ExceptionFrame) (ret : UInt32) : Prop where
  intNo : parameter (atHandler wide m vector f ret) 0 = UInt32.ofNat vector
  errCode : parameter (atHandler wide m vector f ret) 1 = if hasErrorCode vector then f.error else 0
  eip : parameter (atHandler wide m vector f ret) 2 = f.eip
  cs : parameter (atHandler wide m vector f ret) 3 = f.cs
  eflags : parameter (atHandler wide m vector f ret) 4 = f.eflags
  restores {h : Machine} : Returned (atHandler wide m vector f ret) h →
    Restored m f (runStack wide isrCommonExit h)

variable {wide : Bool} {m s h : Machine} {vector : Fin 32} {f : ExceptionFrame} {ret : UInt32} {k : Nat}

/-- Both shapes of stubs leave the same words. -/
theorem isr_deliver : runStack wide (isr vector) (deliver m vector f) =
    ((((m.push f.eflags).push f.cs).push f.eip).push (if hasErrorCode vector then f.error else 0)).push
      (UInt32.ofNat vector) := by
  fin_cases vector <;> rfl

/-- The words with which the common stub saves the registers. -/
def savedWords (wide : Bool) (s : Machine) : List UInt32 :=
  [s.reg .eax, s.reg .ecx, s.reg .edx, s.reg .ebx, s.reg .esp, s.reg .ebp, s.reg .esi, s.reg .edi,
   selectorWord wide (s.below 8) (s.seg .ds), selectorWord wide (s.below 9) (s.seg .es),
   selectorWord wide (s.below 10) (s.seg .fs), selectorWord wide (s.below 11) (s.seg .gs)]

theorem save_registers : runStack wide [.pushad, .pushSeg .ds, .pushSeg .es, .pushSeg .fs, .pushSeg .gs] s =
    s.pushAll (savedWords wide s) := by
  simp [runStack, StackInstr.exec, savedWords, pushAll, below_push]

/-- The kernel's data segment is loaded, and the stack pointer becomes the argument. -/
theorem push_argument : SameStack
    (runStack wide [.movAx 0x10, .movSeg .ds, .movSeg .es, .movSeg .fs, .movSeg .gs, .pushEsp] s)
    (s.push (s.reg .esp)) := by
  constructor
  · simp [runStack, StackInstr.exec, push]
  · simp [runStack, StackInstr.exec]

theorem pushAll_savedWords_esp (wide : Bool) (s : Machine) : (s.pushAll (savedWords wide s)).reg .esp = s.reg .esp - 48 := pushAll_esp _

theorem isrCommonEntry_stack :
    SameStack (runStack wide isrCommonEntry s) (s.pushAll (savedWords wide s ++ [s.reg .esp - 48])) := by
  have code : isrCommonEntry = [.pushad, .pushSeg .ds, .pushSeg .es, .pushSeg .fs, .pushSeg .gs] ++
    [.movAx 0x10, .movSeg .ds, .movSeg .es, .movSeg .fs, .movSeg .gs, .pushEsp] := rfl
  rw [code, runStack_append, save_registers, pushAll_concat, ← pushAll_savedWords_esp wide]
  exact push_argument

/-- The words on the stack when the stub of a vector has pushed its own. -/
def frameWords (vector : Fin 32) (f : ExceptionFrame) : List UInt32 :=
  [f.eflags, f.cs, f.eip, if hasErrorCode vector then f.error else 0, UInt32.ofNat vector]

theorem isr_deliver_pushAll : runStack wide (isr vector) (deliver m vector f) = m.pushAll (frameWords vector f) :=
  isr_deliver

/-- All words on the stack when `isr_handler` is entered. -/
def handlerWords (wide : Bool) (m : Machine) (vector : Fin 32) (f : ExceptionFrame) (ret : UInt32) : List UInt32 :=
  let s := m.pushAll (frameWords vector f)
  frameWords vector f ++ (savedWords wide s ++ [s.reg .esp - 48]) ++ [ret]

theorem atHandler_stack : SameStack (atHandler wide m vector f ret) (m.pushAll (handlerWords wide m vector f ret)) := by
  rw [atHandler, runStack_append, isr_deliver_pushAll, handlerWords, pushAll_concat, pushAll_append]
  exact isrCommonEntry_stack.push

theorem atHandler_slot {value : UInt32} (pushed : (handlerWords wide m vector f ret).reverse[k]? = some value) :
    (atHandler wide m vector f ret).slot k = value := by
  rw [atHandler_stack.slot]
  exact slot_pushAll (by simp [handlerWords, frameWords, savedWords]) pushed

/-- The words that were on the stack at the time of the exception. -/
theorem atHandler_slot_outer (bound : k < 2) : (atHandler wide m vector f ret).slot (k + 19) = m.slot k := by
  have count : (handlerWords wide m vector f ret).length = 19 := rfl
  have outer : (m.pushAll (handlerWords wide m vector f ret)).slot ((handlerWords wide m vector f ret).length + k) =
      m.slot k := slot_pushAll_add (by rw [count]; omega)
  rw [atHandler_stack.slot, Nat.add_comm, ← count]
  exact outer

/-! ## What the handler gets -/

theorem below_frameWords (bound : k < 1000) : (m.pushAll (frameWords vector f)).below k = m.below (5 + k) :=
  below_pushAll (by rw [show (frameWords vector f).length = 5 from rfl]; omega)

theorem frameWords_esp : (m.pushAll (frameWords vector f)).reg .esp - 48 = m.reg .esp - 68 := by
  rw [pushAll_esp, sub_sub_eq]
  rfl

/-- A run of stub and common stub puts these words into the places of the parameters. -/
theorem parameter_eq (wide : Bool) (m : Machine) (vector : Fin 32) (f : ExceptionFrame) (ret : UInt32) :
    parameter (atHandler wide m vector f ret) 0 = m.reg .esp - 68 ∧
      parameter (atHandler wide m vector f ret) 1 = selectorWord wide (m.below 16) (m.seg .gs) ∧
      parameter (atHandler wide m vector f ret) 2 = selectorWord wide (m.below 15) (m.seg .fs) ∧
      parameter (atHandler wide m vector f ret) 3 = selectorWord wide (m.below 14) (m.seg .es) ∧
      parameter (atHandler wide m vector f ret) 4 = selectorWord wide (m.below 13) (m.seg .ds) := by
  refine ⟨?_, ?_, ?_, ?_, ?_⟩
  · rw [parameter, atHandler_slot rfl, frameWords_esp]
  · rw [parameter, atHandler_slot rfl, below_frameWords (by omega), pushAll_seg]
  · rw [parameter, atHandler_slot rfl, below_frameWords (by omega), pushAll_seg]
  · rw [parameter, atHandler_slot rfl, below_frameWords (by omega), pushAll_seg]
  · rw [parameter, atHandler_slot rfl, below_frameWords (by omega), pushAll_seg]

/-! ## What it returns to -/

theorem isrCommonExit_esp : (runStack wide isrCommonExit h).reg .esp = h.reg .esp + 60 := by
  simp [runStack, isrCommonExit, StackInstr.exec, UInt32.add_assoc]

theorem isrCommonExit_slot : (runStack wide isrCommonExit h).slot k = h.slot (k + 15) :=
  slot_of_esp rfl isrCommonExit_esp

/-- The place of a general register on the stack, counted from the segment registers on. -/
def regIndex : Reg → Nat
  | .edi => 4
  | .esi => 5
  | .ebp => 6
  | .esp => 7
  | .ebx => 8
  | .edx => 9
  | .ecx => 10
  | .eax => 11

/-- The place of a data segment register. -/
def segIndex : Seg → Nat
  | .gs => 0
  | .fs => 1
  | .es => 2
  | .ds => 3
  | .cs => 4
  | .ss => 4

theorem isrCommonExit_reg {q : Reg} (other : q ≠ .esp) :
    (runStack wide isrCommonExit h).reg q = h.slot (regIndex q + 1) := by
  cases q with
  | esp => exact absurd rfl other
  | _ => simp [runStack, isrCommonExit, StackInstr.exec, regIndex]

theorem isrCommonExit_seg {q : Seg} (notCode : q ≠ .cs) (notStack : q ≠ .ss) :
    (runStack wide isrCommonExit h).seg q = (h.slot (segIndex q + 1)).toUInt16 := by
  cases q with
  | cs => exact absurd rfl notCode
  | ss => exact absurd rfl notStack
  | _ => simp [runStack, isrCommonExit, StackInstr.exec, segIndex]

theorem atHandler_reg {q : Reg} (other : q ≠ .esp) :
    (atHandler wide m vector f ret).slot (regIndex q + 2) = m.reg q := by
  rw [← pushAll_reg other (frameWords vector f)]
  apply atHandler_slot
  cases q with
  | esp => exact absurd rfl other
  | _ => rfl

theorem atHandler_seg {q : Seg} (notCode : q ≠ .cs) (notStack : q ≠ .ss) :
    ((atHandler wide m vector f ret).slot (segIndex q + 2)).toUInt16 = m.seg q := by
  have word : (atHandler wide m vector f ret).slot (segIndex q + 2) =
      selectorWord wide ((m.pushAll (frameWords vector f)).below (11 - segIndex q))
        ((m.pushAll (frameWords vector f)).seg q) := by
    apply atHandler_slot
    cases q with
    | cs => exact absurd rfl notCode
    | ss => exact absurd rfl notStack
    | _ => rfl
  rw [word, selectorWord_toUInt16, pushAll_seg]

theorem regIndex_lt (q : Reg) : regIndex q < 19 := by
  cases q <;> decide

theorem segIndex_lt (q : Seg) : segIndex q < 19 := by
  cases q <;> decide

/-- If the handler returns, the `iret` has the frame of the processor before it. -/
theorem restored (returned : Returned (atHandler wide m vector f ret) h) :
    Restored m f (runStack wide isrCommonExit h) where
  esp := by
    have pushed : (atHandler wide m vector f ret).reg .esp = m.reg .esp - 76 :=
      atHandler_stack.esp.trans (pushAll_esp _)
    rw [isrCommonExit_esp, returned.esp, pushed]
    apply UInt32.toNat.inj
    have top := (m.reg .esp).toNat_lt
    simp only [UInt32.toNat_add, UInt32.toNat_sub, UInt32.reduceToNat]
    omega
  eip := by rw [isrCommonExit_slot, returned.kept (by omega), atHandler_slot rfl]
  cs := by rw [isrCommonExit_slot, returned.kept (by omega), atHandler_slot rfl]
  eflags := by rw [isrCommonExit_slot, returned.kept (by omega), atHandler_slot rfl]
  outer bound := by
    rw [isrCommonExit_slot]
    exact (returned.kept (by omega)).trans (atHandler_slot_outer bound)
  reg other := by rw [isrCommonExit_reg other, returned.kept (regIndex_lt _), atHandler_reg other]
  seg notCode notStack := by
    rw [isrCommonExit_seg notCode notStack, returned.kept (segIndex_lt _), atHandler_seg notCode notStack]

/-- The handler gets the frame exactly where the stack pointer happens to be the vector, and the saved
segment registers happen to be the error code, EIP, CS and EFLAGS. -/
theorem reachesHandler_iff : ReachesHandler wide m vector f ret ↔
    m.reg .esp - 68 = UInt32.ofNat vector ∧
      selectorWord wide (m.below 16) (m.seg .gs) = (if hasErrorCode vector then f.error else 0) ∧
      selectorWord wide (m.below 15) (m.seg .fs) = f.eip ∧
      selectorWord wide (m.below 14) (m.seg .es) = f.cs ∧
      selectorWord wide (m.below 13) (m.seg .ds) = f.eflags := by
  obtain ⟨intNo, errCode, eip, cs, eflags⟩ := parameter_eq wide m vector f ret
  constructor
  · intro reaches
    exact ⟨intNo.symm.trans reaches.intNo, errCode.symm.trans reaches.errCode, eip.symm.trans reaches.eip,
      cs.symm.trans reaches.cs, eflags.symm.trans reaches.eflags⟩
  · rintro ⟨esp, gs, fs, es, ds⟩
    exact ⟨intNo.trans esp, errCode.trans gs, eip.trans fs, cs.trans es, eflags.trans ds, restored⟩

/-- A page fault on a stack at `0x90000`: the number that the handler gets is a stack pointer. -/
theorem pageFault_not_reachesHandler : ¬ ReachesHandler true ⟨fun _ => 0x90000, fun _ => 0x10, fun _ => 0⟩ 14
    ⟨0x100000, 0x08, 0x202, 2⟩ 0 := by
  intro reaches
  have intNo := (parameter_eq _ _ _ _ _).1.symm.trans reaches.intNo
  exact absurd intNo (by decide)

/-- With a stack anywhere but in the first 100 bytes of memory no exception reaches the handler. -/
theorem not_reachesHandler (high : 100 ≤ m.reg .esp) : ¬ ReachesHandler wide m vector f ret := by
  intro reaches
  have intNo := congrArg UInt32.toNat ((parameter_eq _ _ _ _ _).1.symm.trans reaches.intNo)
  have top := (m.reg .esp).toNat_lt
  have low := UInt32.le_iff_toNat_le.mp high
  have number := vector.isLt
  simp only [UInt32.toNat_sub, UInt32.toNat_ofNat', UInt32.reduceToNat] at intNo low
  omega

end QuantumKernel.Cpu
