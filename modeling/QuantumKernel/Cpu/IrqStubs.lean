import QuantumKernel.Library.I386Handlers

/-! # The handlers of the hardware interrupts

`irq0_handler` to `irq15_handler`.  Four of them call a C function, the others only tell the interrupt
controllers that the interrupt is over.  Each leaves the program that it interrupts as it was, and tells the
second controller about the interrupts of the lines from 8 on.
-/

namespace QuantumKernel.Cpu

open I386 Machine

/-- The C functions that handlers call. -/
inductive IrqFunction
  | timerCallback | keyboardIrq | rtl8139IrqHandler | mouseIrq
  deriving DecidableEq, Repr

/-- The ports that get the end of interrupt `0x20`. -/
def eoiPorts (both : Bool) : List UInt16 := if both then [0xA0, 0x20] else [0x20]

def eoiCode (both : Bool) : List (HandlerInstr IrqFunction) := writeCode IrqFunction 0x20 (eoiPorts both)

/-- A handler that calls a function. -/
def callingHandler (function : IrqFunction) (both : Bool) : List (HandlerInstr IrqFunction) :=
  [.stack .pushad, .stack (.pushSeg .ds), .stack (.pushSeg .es), .stack (.pushSeg .fs), .stack (.pushSeg .gs),
   .stack (.movAx 0x10), .stack (.movSeg .ds), .stack (.movSeg .es), .stack (.movSeg .fs), .stack (.movSeg .gs),
   .call function] ++
  eoiCode both ++
  [.stack (.popSeg .gs), .stack (.popSeg .fs), .stack (.popSeg .es), .stack (.popSeg .ds), .stack .popad]

/-- A handler that calls nothing. -/
def plainHandler (both : Bool) : List (HandlerInstr IrqFunction) :=
  [.stack .pushad] ++ eoiCode both ++ [.stack .popad]

/-- The function of a handler, and whether the second controller gets an end of interrupt. -/
structure IrqStub where
  function : Option IrqFunction
  both : Bool
  deriving DecidableEq, Repr

/-- `irq0_handler` to `irq15_handler`. -/
def irqStubs : List IrqStub :=
  [⟨some .timerCallback, false⟩, ⟨some .keyboardIrq, false⟩, ⟨none, false⟩, ⟨none, false⟩,
   ⟨none, false⟩, ⟨none, false⟩, ⟨none, false⟩, ⟨none, false⟩,
   ⟨none, true⟩, ⟨none, true⟩, ⟨some .rtl8139IrqHandler, true⟩, ⟨none, true⟩,
   ⟨some .mouseIrq, true⟩, ⟨none, true⟩, ⟨none, true⟩, ⟨none, true⟩]

def irqStub (line : Fin 16) : IrqStub := irqStubs.get (line.cast (by rfl))

def IrqStub.code (stub : IrqStub) : List (HandlerInstr IrqFunction) :=
  match stub.function with
  | some function => callingHandler function stub.both
  | none => plainHandler stub.both

/-- What a handler does to the world: it calls its function, and then ends the interrupt. -/
def IrqStub.effects (stub : IrqStub) : List (Effect IrqFunction) :=
  stub.function.toList.map .called ++ (eoiPorts stub.both).map (.wrote · 0x20)

/-- What a handler with a function saves: the general registers first. -/
def irqSaved : List Saved := [.general, .segment .ds, .segment .es, .segment .fs, .segment .gs]

variable {wide : Bool} {functions : IrqFunction → Machine → Machine} {m h : Machine} {f : ReturnFrame}
  {function : IrqFunction} {both : Bool} {n : Nat} {effects : List (Effect IrqFunction)}

/-- The kernel's data segment goes into all data segment registers. -/
def loadKernelData : List StackInstr :=
  [.movAx 0x10, .movSeg .ds, .movSeg .es, .movSeg .fs, .movSeg .gs]

theorem loadKernelData_stack : SameStack (runStack wide loadKernelData m) m := by
  constructor
  · simp [loadKernelData, runStack, StackInstr.exec]
  · simp [loadKernelData, runStack, StackInstr.exec]

theorem callingHandler_eq : callingHandler function both =
    (saveCode irqSaved ++ loadKernelData).map .stack ++ [.call function] ++ eoiCode both ++
      (restoreCode irqSaved).map .stack := rfl

theorem plainHandler_eq : plainHandler both =
    (saveCode [.general]).map .stack ++ eoiCode both ++ (restoreCode [.general]).map .stack := rfl

theorem eoiCode_spec (wide : Bool) (functions : IrqFunction → Machine → Machine) (both : Bool) (m : Machine)
    (effects : List (Effect IrqFunction)) :
    ∃ m', SameStack m' m ∧ m'.seg = m.seg ∧ runHandler wide functions (eoiCode both) m effects =
      (m', effects ++ (eoiPorts both).map (.wrote · 0x20)) := writeCode_spec _ _ _

theorem irqSaved_width : savedWidth irqSaved + (3 + n) = 15 + n := by
  simp [savedWidth, irqSaved, Saved.width]
  omega

theorem callingHandler_spec (returns : Returns (15 + n) functions) (fits : n < 900000) :
    Restores irqSaved (3 + n) m (runHandler wide functions (callingHandler function both) m []).1 ∧
      (runHandler wide functions (callingHandler function both) m []).2 =
        IrqStub.effects ⟨some function, both⟩ := by
  have atCall : KeepsStack (15 + n) (runStack wide (saveCode irqSaved) m)
      (runStack wide (saveCode irqSaved ++ loadKernelData) m) := by
    rw [runStack_append]
    exact loadKernelData_stack.keepsStack
  have called := returns function (runStack wide (saveCode irqSaved ++ loadKernelData) m)
  obtain ⟨m', stack, _, run⟩ := eoiCode_spec wide functions both
    (functions function (runStack wide (saveCode irqSaved ++ loadKernelData) m)) [.called function]
  have kept : KeepsStack (savedWidth irqSaved + (3 + n)) (runStack wide (saveCode irqSaved) m) m' := by
    rw [irqSaved_width]
    exact (atCall.trans called).trans stack.keepsStack
  have whole : runHandler wide functions (callingHandler function both) m [] =
      (runStack wide (restoreCode irqSaved) m', [.called function] ++ (eoiPorts both).map (.wrote · 0x20)) := by
    simp only [callingHandler_eq, runHandler_append, runHandler_stack, runHandler_call, List.nil_append, run]
  rw [whole]
  exact ⟨restoreCode_spec kept (by rw [irqSaved_width]; omega), rfl⟩

theorem plainHandler_spec (fits : n < 900000) :
    Restores irqSaved (3 + n) m (runHandler wide functions (plainHandler both) m []).1 ∧
      (runHandler wide functions (plainHandler both) m []).2 = IrqStub.effects ⟨none, both⟩ := by
  obtain ⟨m', stack, segments, run⟩ := eoiCode_spec wide functions both (runStack wide (saveCode [.general]) m) []
  have kept : KeepsStack (savedWidth [.general] + (3 + n)) (runStack wide (saveCode [.general]) m) m' :=
    stack.keepsStack
  have whole : runHandler wide functions (plainHandler both) m [] =
      (runStack wide (restoreCode [.general]) m', (eoiPorts both).map (.wrote · 0x20)) := by
    simp only [plainHandler_eq, runHandler_append, runHandler_stack, List.nil_append, run]
  have restored : Restores [.general] (3 + n) m (runStack wide (restoreCode [.general]) m') :=
    restoreCode_spec kept (by simp only [savedWidth, List.map, Saved.width, List.sum_cons, List.sum_nil]; omega)
  -- Nothing here touches a segment register.
  have untouched : (runStack wide (restoreCode [.general]) m').seg = m.seg := segments.trans saveCode_seg
  rw [whole]
  exact ⟨⟨restored.stack, fun _ other => restored.reg (by simp) other, fun {q} _ => congrFun untouched q⟩, rfl⟩

theorem IrqStub.code_spec {stub : IrqStub} (returns : Returns (15 + n) functions) (fits : n < 900000) :
    Restores irqSaved (3 + n) m (runHandler wide functions stub.code m []).1 ∧
      (runHandler wide functions stub.code m []).2 = stub.effects := by
  obtain ⟨function, both⟩ := stub
  cases function with
  | some function => exact callingHandler_spec returns fits
  | none => exact plainHandler_spec fits

/-- The second controller is told about its own lines only. -/
theorem irqStub_both (line : Fin 16) : (irqStub line).both = decide (8 ≤ line.val) := by
  revert line
  decide

/-- A hardware interrupt on any line leaves the program that it comes in between with the registers, the segment
registers and the stack that it had; its function is called once, and then the controllers that have the
interrupt in service are told that it is over. -/
theorem interrupt_transparent (returns : Returns (15 + n) functions) (fits : n < 900000) (line : Fin 16) :
    (runHandler wide functions (irqStub line).code (m.enter f) []).1.iret.1 = f ∧
    Restores irqSaved n m (runHandler wide functions (irqStub line).code (m.enter f) []).1.iret.2 ∧
    (runHandler wide functions (irqStub line).code (m.enter f) []).2 =
      (irqStub line).function.toList.map .called ++ (eoiPorts (8 ≤ line.val)).map (.wrote · 0x20) := by
  obtain ⟨back, kept⟩ := iret_enter ((irqStub line).code_spec returns fits).1 (by omega)
  refine ⟨back, kept, ?_⟩
  rw [((irqStub line).code_spec returns fits).2, IrqStub.effects, irqStub_both]

/-- A tick of the timer, with a function that spoils EAX. -/
theorem interrupt_transparent_timer :
    (runHandler true (fun _ m => { m with reg := Function.update m.reg .eax 7 }) (irqStub 0).code
      ((⟨fun _ => 0x90000, fun _ => 0x10, fun _ => 0⟩ : Machine).enter ⟨0x100000, 0x08, 0x202⟩) []).2 =
        [.called .timerCallback, .wrote 0x20 0x20] := by
  have returns : Returns (15 + 0) fun (_ : IrqFunction) (m : Machine) =>
      { m with reg := Function.update m.reg .eax 7 } := by
    intro function m
    constructor
    · simp
    · intro k bound
      simp [slot]
  exact (interrupt_transparent returns (by decide) 0).2.2

end QuantumKernel.Cpu
