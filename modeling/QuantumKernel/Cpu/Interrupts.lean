import QuantumKernel.Cpu.Idt
import QuantumKernel.Cpu.IrqStubs
import QuantumKernel.Library.I8259
import QuantumKernel.Library.Transition

/-! # Hardware interrupts, from the device to the C function and back

Devices request interrupts at any time, C code enables and disables lines with the functions of `pic.c`, and
between any two instructions of a program the processor may take an interrupt: the controllers name a
vector, its gate leads to a handler, and the handler's end of interrupt goes back to the controllers.

All this behaves as two sets of lines (`interrupts_are_lines`): the first line in the order of the controllers
that is both pending and enabled is served, by its own function and once, and the program goes on with its
registers.
-/

namespace QuantumKernel.Cpu

open I386 Machine I8259 Transition

/-- The writes of `pic_remap`. -/
def picRemap : List (UInt16 × UInt8) :=
  [(0x20, 0x11), (0xA0, 0x11), (0x21, 0x20), (0xA1, 0x28), (0x21, 4), (0xA1, 2), (0x21, 0x01), (0xA1, 0x01),
   (0x21, 0x00), (0xA1, 0xFB)]

/-- The port of the mask of a line, and the number of its bit. -/
def maskPlace (irq : UInt8) : UInt16 × UInt32 :=
  if irq < 8 then (0x21, irq.toUInt32) else (0xA1, (irq - 8).toUInt32)

/-- `pic_enable_irq`. -/
def picEnableIrq (p : Pair) (irq : UInt8) : Pair :=
  p.out (maskPlace irq).1 ((p.inMask (maskPlace irq).1).toUInt32 &&& ~~~((1 : UInt32) <<< (maskPlace irq).2)).toUInt8

/-- `pic_disable_irq`. -/
def picDisableIrq (p : Pair) (irq : UInt8) : Pair :=
  p.out (maskPlace irq).1 ((p.inMask (maskPlace irq).1).toUInt32 ||| ((1 : UInt32) <<< (maskPlace irq).2)).toUInt8

inductive InterruptCall
  /-- A device requests an interrupt. -/
  | request (line : Fin 16)
  /-- C code calls `pic_enable_irq`. -/
  | enable (irq : UInt8)
  /-- C code calls `pic_disable_irq`. -/
  | disable (irq : UInt8)
  /-- The processor takes an interrupt of a program; the frame is where the program goes on. -/
  | interrupt (m : Machine) (f : ReturnFrame)

/-- What an interrupt does: its vector, the functions that are called, and where the program goes on, with which
machine. -/
inductive InterruptReply
  | done
  | served (vector : UInt8) (called : List IrqFunction) (f : ReturnFrame) (m : Machine)

/-- The functions among the effects of a handler. -/
def calledOf (effects : List (Effect IrqFunction)) : List IrqFunction :=
  effects.filterMap fun
    | .called function => some function
    | .wrote _ _ => none

/-- The writes to ports among them. -/
def wroteOf (effects : List (Effect IrqFunction)) : List (UInt16 × UInt8) :=
  effects.filterMap fun
    | .called _ => none
    | .wrote port value => some (port, value)

/-- `irqLines` are the interrupt lines of the network cards. -/
def interruptStep (wide : Bool) (functions : IrqFunction → Machine → Machine) (irqLines : List UInt8) (p : Pair) :
    InterruptCall → Option (InterruptReply × Pair)
  | .request line => some (.done, p.request line)
  | .enable irq => some (.done, picEnableIrq p irq)
  | .disable irq => some (.done, picDisableIrq p irq)
  | .interrupt m f =>
    match p.acknowledge with
    | none => none
    | some (vector, p) =>
      match handlerOf irqLines vector with
      | some (.irq stub) =>
        let run := runHandler wide functions (irqStub stub).code (m.enter f) []
        some (.served vector (calledOf run.2) run.1.iret.1 run.1.iret.2, p.outs (wroteOf run.2))
      | _ => none

/-- Devices are not connected to line 2, and there are lines up to 15 only. -/
def InterruptCall.Valid : InterruptCall → Prop
  | request line => line.val ≠ 2
  | enable irq => irq.toNat < 16
  | disable irq => irq.toNat < 16
  | interrupt _ _ => True

/-- The functions that serve a line. -/
def service (irqLines : List UInt8) (line : Fin 16) : List IrqFunction :=
  if UInt8.ofNat line ∈ irqLines then [.rtl8139IrqHandler] else (irqStub line).function.toList

/-- One step of the two sets.  A program is interrupted for the first line, whose functions are called, and goes on
where it was, with its registers and its stack as far as `n` words. -/
inductive LinesNext (irqLines : List UInt8) (n : Nat) : Lines → InterruptCall → InterruptReply → Lines → Prop
  | request {s : Lines} {line : Fin 16} :
      LinesNext irqLines n s (.request line) .done { s with pending := insert line s.pending }
  | enable {s : Lines} {line : Fin 16} :
      LinesNext irqLines n s (.enable (UInt8.ofNat line)) .done { s with enabled := insert line s.enabled }
  | disable {s : Lines} {line : Fin 16} :
      LinesNext irqLines n s (.disable (UInt8.ofNat line)) .done { s with enabled := s.enabled \ {line} }
  | interrupt {s : Lines} {line : Fin 16} {m m' : Machine} {f : ReturnFrame} :
      s.First line → Restores irqSaved n m m' →
      LinesNext irqLines n s (.interrupt m f) (.served (UInt8.ofNat (32 + line)) (service irqLines line) f m')
        { s with pending := s.pending \ {line} }

/-- The lines after `pic_remap`: nothing is pending, and the second controller has only line 10 enabled. -/
def bootLines : Lines where
  pending := ∅
  enabled := { line | line.val < 8 ∨ line.val = 10 }

/-- The controllers between two calls. -/
structure PicInv (p : Pair) : Prop where
  idle : p.Idle
  master : p.master.base = 0x20
  slave : p.slave.base = 0x28

variable {wide : Bool} {functions : IrqFunction → Machine → Machine} {irqLines : List UInt8} {n : Nat} {p p' : Pair}
  {line : Fin 16} {irq : UInt8} {m : Machine} {f : ReturnFrame} {reply : InterruptReply}
  {calls : List (InterruptCall × InterruptReply)}

/-! ## After `pic_remap` -/

/-- The controllers after `pic_remap`, whatever they were doing before. -/
def remapped : Pair where
  master := ⟨fun _ => false, fun _ => false, 0x00, 0x20, 4, 1, false, true, .nothing⟩
  slave := ⟨fun _ => false, fun _ => false, 0xFB, 0x28, 2, 1, false, true, .nothing⟩

theorem outs_picRemap (p : Pair) : p.outs picRemap = remapped := by
  simp +decide [picRemap, Pair.outs, Pair.out, Chip.outCommand, Chip.outData, Chip.afterIcw3, remapped]

theorem remapped_inv : PicInv remapped where
  idle := ⟨⟨rfl, rfl, by decide⟩, ⟨rfl, rfl, by decide⟩, by decide⟩
  master := rfl
  slave := rfl

theorem remapped_lines : remapped.lines = bootLines := by
  apply Lines.ext
  · intro line
    obtain ⟨i, rfl⟩ | ⟨j, rfl⟩ := line_cases line <;> simp [Pair.lines, remapped, bootLines]
  · intro line
    have masked : remapped.maskedLine line = false ↔ line.val < 8 ∨ line.val = 10 := by
      revert line
      decide
    simpa [Pair.lines, bootLines] using masked

/-! ## The masks -/

/-- The bits of the mask that `pic_enable_irq` writes. -/
theorem enabledMask_bit (mask : UInt8) (i j : Fin 8) :
    (mask.toUInt32 &&& ~~~((1 : UInt32) <<< (UInt8.ofNat i).toUInt32)).toUInt8.toBitVec.getLsbD j =
      (mask.toBitVec.getLsbD j && j != i) := by
  fin_cases i <;> fin_cases j <;> simp

/-- The bits of the mask that `pic_disable_irq` writes. -/
theorem disabledMask_bit (mask : UInt8) (i j : Fin 8) :
    (mask.toUInt32 ||| ((1 : UInt32) <<< (UInt8.ofNat i).toUInt32)).toUInt8.toBitVec.getLsbD j =
      (mask.toBitVec.getLsbD j || j == i) := by
  fin_cases i <;> fin_cases j <;> simp

theorem maskPlace_low (i : Fin 8) : maskPlace (UInt8.ofNat (low i)) = (0x21, (UInt8.ofNat i).toUInt32) := by
  revert i
  decide

theorem maskPlace_high (j : Fin 8) : maskPlace (UInt8.ofNat (high j)) = (0xA1, (UInt8.ofNat j).toUInt32) := by
  revert j
  decide

theorem PicInv.out_master (inv : PicInv p) (value : UInt8) : p.out 0x21 value = { p with master.mask := value } := by
  simp [Pair.out, Chip.outData, inv.idle.master.expects]

theorem PicInv.out_slave (inv : PicInv p) (value : UInt8) : p.out 0xA1 value = { p with slave.mask := value } := by
  simp [Pair.out, Chip.outData, inv.idle.slave.expects]

theorem PicInv.setMaster (inv : PicInv p) (value : UInt8) : PicInv { p with master.mask := value } :=
  ⟨⟨⟨inv.idle.master.expects, inv.idle.master.inService, inv.idle.master.manual⟩, inv.idle.slave, inv.idle.cascaded⟩,
    inv.master, inv.slave⟩

theorem PicInv.setSlave (inv : PicInv p) (value : UInt8) : PicInv { p with slave.mask := value } :=
  ⟨⟨inv.idle.master, ⟨inv.idle.slave.expects, inv.idle.slave.inService, inv.idle.slave.manual⟩, inv.idle.cascaded⟩,
    inv.master, inv.slave⟩

theorem PicInv.enable (inv : PicInv p) (line : Fin 16) : PicInv (picEnableIrq p (UInt8.ofNat line)) := by
  obtain ⟨i, rfl⟩ | ⟨j, rfl⟩ := line_cases line
  · rw [picEnableIrq, maskPlace_low, inv.out_master]
    exact inv.setMaster _
  · rw [picEnableIrq, maskPlace_high, inv.out_slave]
    exact inv.setSlave _

theorem PicInv.disable (inv : PicInv p) (line : Fin 16) : PicInv (picDisableIrq p (UInt8.ofNat line)) := by
  obtain ⟨i, rfl⟩ | ⟨j, rfl⟩ := line_cases line
  · rw [picDisableIrq, maskPlace_low, inv.out_master]
    exact inv.setMaster _
  · rw [picDisableIrq, maskPlace_high, inv.out_slave]
    exact inv.setSlave _

theorem low_mem_enabled {k : Fin 8} : low k ∈ p.lines.enabled ↔ p.master.mask.toBitVec.getLsbD k = false := by
  rw [Pair.lines, Set.mem_ofPred_eq, maskedLine_low, Chip.masked]

theorem high_mem_enabled {k : Fin 8} : high k ∈ p.lines.enabled ↔ p.slave.mask.toBitVec.getLsbD k = false := by
  rw [Pair.lines, Set.mem_ofPred_eq, maskedLine_high, Chip.masked]

theorem setMaster_lines {value : UInt8} {lines : Set (Fin 16)}
    (changed : ∀ k : Fin 8, value.toBitVec.getLsbD k = false ↔ low k ∈ lines)
    (kept : ∀ k : Fin 8, high k ∈ p.lines.enabled ↔ high k ∈ lines) :
    ({ p with master.mask := value } : Pair).lines = { p.lines with enabled := lines } := by
  apply Lines.ext
  · intro line
    obtain ⟨k, rfl⟩ | ⟨k, rfl⟩ := line_cases line <;> simp [Pair.lines]
  · intro line
    obtain ⟨k, rfl⟩ | ⟨k, rfl⟩ := line_cases line
    · exact low_mem_enabled.trans (changed k)
    · rw [← kept, high_mem_enabled, high_mem_enabled]

theorem setSlave_lines {value : UInt8} {lines : Set (Fin 16)}
    (changed : ∀ k : Fin 8, value.toBitVec.getLsbD k = false ↔ high k ∈ lines)
    (kept : ∀ k : Fin 8, low k ∈ p.lines.enabled ↔ low k ∈ lines) :
    ({ p with slave.mask := value } : Pair).lines = { p.lines with enabled := lines } := by
  apply Lines.ext
  · intro line
    obtain ⟨k, rfl⟩ | ⟨k, rfl⟩ := line_cases line <;> simp [Pair.lines]
  · intro line
    obtain ⟨k, rfl⟩ | ⟨k, rfl⟩ := line_cases line
    · rw [← kept, low_mem_enabled, low_mem_enabled]
    · exact high_mem_enabled.trans (changed k)

theorem PicInv.enable_lines (inv : PicInv p) (line : Fin 16) : (picEnableIrq p (UInt8.ofNat line)).lines =
    { p.lines with enabled := insert line p.lines.enabled } := by
  obtain ⟨i, rfl⟩ | ⟨j, rfl⟩ := line_cases line
  · rw [picEnableIrq, maskPlace_low, inv.out_master]
    refine setMaster_lines (fun k => ?_) (fun k => by simp [low_ne_high.symm])
    rw [enabledMask_bit, Set.mem_insert_iff, low_mem_enabled, low_inj]
    by_cases same : k = i <;> simp [same, Pair.inMask]
  · rw [picEnableIrq, maskPlace_high, inv.out_slave]
    refine setSlave_lines (fun k => ?_) (fun k => by simp)
    rw [enabledMask_bit, Set.mem_insert_iff, high_mem_enabled, high_inj]
    by_cases same : k = j <;> simp [same, Pair.inMask]

theorem PicInv.disable_lines (inv : PicInv p) (line : Fin 16) : (picDisableIrq p (UInt8.ofNat line)).lines =
    { p.lines with enabled := p.lines.enabled \ {line} } := by
  obtain ⟨i, rfl⟩ | ⟨j, rfl⟩ := line_cases line
  · rw [picDisableIrq, maskPlace_low, inv.out_master]
    refine setMaster_lines (fun k => ?_) (fun k => by simp [low_ne_high.symm])
    rw [disabledMask_bit, Set.mem_sdiff, Set.mem_singleton_iff, low_mem_enabled, low_inj]
    by_cases same : k = i <;> simp [same, Pair.inMask]
  · rw [picDisableIrq, maskPlace_high, inv.out_slave]
    refine setSlave_lines (fun k => ?_) (fun k => by simp)
    rw [disabledMask_bit, Set.mem_sdiff, Set.mem_singleton_iff, high_mem_enabled, high_inj]
    by_cases same : k = j <;> simp [same, Pair.inMask]

/-! ## An interrupt -/

/-- The line whose stub serves a line. -/
def stubOf (irqLines : List UInt8) (line : Fin 16) : Fin 16 := if UInt8.ofNat line ∈ irqLines then cardLine else line

theorem PicInv.vector (inv : PicInv p) (line : Fin 16) : p.vector line = UInt8.ofNat (32 + line) := by
  obtain ⟨i, rfl⟩ | ⟨j, rfl⟩ := line_cases line
  · rw [vector_low, inv.master]
    revert i
    decide
  · rw [vector_high, inv.slave]
    revert j
    decide

theorem handlerOf_vector (irqLines : List UInt8) (line : Fin 16) :
    handlerOf irqLines (UInt8.ofNat (32 + line)) = some (.irq (stubOf irqLines line)) := by
  have number : UInt8.ofNat (32 + line) - 32 = UInt8.ofNat line := by
    revert line
    decide
  have builtin : builtinHandler (UInt8.ofNat (32 + line)) = some (.irq line) := by
    revert line
    decide
  rw [handlerOf, number, builtin, stubOf]
  split <;> rfl

theorem service_eq (irqLines : List UInt8) (line : Fin 16) :
    service irqLines line = (irqStub (stubOf irqLines line)).function.toList := by
  rw [service, stubOf]
  split <;> rfl

theorem calledOf_effects (stub : IrqStub) : calledOf stub.effects = stub.function.toList := by
  obtain ⟨function, both⟩ := stub
  cases function <;> cases both <;> rfl

theorem wroteOf_effects (stub : IrqStub) : wroteOf stub.effects = (eoiPorts stub.both).map fun port => (port, 0x20) := by
  obtain ⟨function, both⟩ := stub
  cases function <;> cases both <;> rfl

/-- A card's handler on a line of the first controller tells both controllers, which does no harm. -/
theorem endsOf_stub (irqLines : List UInt8) (line : Fin 16) :
    EndsOf line (wroteOf (irqStub (stubOf irqLines line)).effects) := by
  rw [wroteOf_effects, stubOf]
  split
  · exact .both
  · rw [irqStub_both]
    by_cases second : 8 ≤ line.val
    · rw [decide_eq_true second]
      exact .both
    · rw [decide_eq_false second]
      exact .master (by omega)

theorem PicInv.served (inv : PicInv p) : PicInv (p.served line) := by
  refine ⟨inv.idle.served, ?_, ?_⟩
  · rw [Pair.served]
    split <;> exact inv.master
  · rw [Pair.served]
    split <;> exact inv.slave

theorem PicInv.request (inv : PicInv p) : PicInv (p.request line) := by
  refine ⟨inv.idle.request, ?_, ?_⟩
  · rw [Pair.request]
    split
    · exact inv.master
    · split <;> exact inv.master
  · rw [Pair.request]
    split
    · exact inv.slave
    · split <;> exact inv.slave

/-- The processor takes the interrupt of the first line, and its handler runs to the end. -/
theorem PicInv.interrupt (inv : PicInv p) (returns : Returns (15 + n) functions) (fits : n < 900000)
    (done : interruptStep wide functions irqLines p (.interrupt m f) = some (reply, p')) :
    ∃ line, PicInv p' ∧ LinesNext irqLines n p.lines (.interrupt m f) reply p'.lines ∧ p.lines.First line := by
  rw [interruptStep] at done
  split at done
  · cases done
  · rename_i vector taken acknowledged
    obtain ⟨line, first, rfl, rfl⟩ := inv.idle.acknowledge_some acknowledged
    rw [inv.vector, handlerOf_vector] at done
    cases done
    obtain ⟨restored, effects⟩ := (irqStub (stubOf irqLines line)).code_spec returns fits
    obtain ⟨back, kept⟩ := iret_enter restored (by omega)
    rw [effects, inv.idle.endOfInterrupt_taken (endsOf_stub irqLines line), back, calledOf_effects, ← service_eq,
      served_lines]
    exact ⟨line, inv.served, .interrupt first kept, first⟩

theorem PicInv.step {call : InterruptCall} (inv : PicInv p) (returns : Returns (15 + n) functions) (fits : n < 900000)
    (valid : call.Valid) (done : interruptStep wide functions irqLines p call = some (reply, p')) :
    ∃ s, LinesNext irqLines n p.lines call reply s ∧ PicInv p' ∧ p'.lines = s := by
  cases call with
  | request line =>
    cases done
    have device : line ≠ 2 := fun same => valid (congrArg Fin.val same)
    exact ⟨_, .request, inv.request, request_lines device⟩
  | enable irq =>
    cases done
    have number : irq = UInt8.ofNat (⟨irq.toNat, valid⟩ : Fin 16).val := UInt8.ofNat_toNat.symm
    rw [number]
    exact ⟨_, .enable, inv.enable _, inv.enable_lines _⟩
  | disable irq =>
    cases done
    have number : irq = UInt8.ofNat (⟨irq.toNat, valid⟩ : Fin 16).val := UInt8.ofNat_toNat.symm
    rw [number]
    exact ⟨_, .disable, inv.disable _, inv.disable_lines _⟩
  | interrupt m f =>
    obtain ⟨line, inv', next, _⟩ := inv.interrupt returns fits done
    exact ⟨_, next, inv', rfl⟩

/-- An interrupt is taken exactly when there is a line to take. -/
theorem PicInv.interrupt_isSome (inv : PicInv p) : (interruptStep wide functions irqLines p (.interrupt m f)).isSome ↔
    ∃ line, p.lines.Deliverable line := by
  rw [interruptStep]
  cases acknowledged : p.acknowledge with
  | none =>
    have idle := inv.idle.acknowledge_none acknowledged
    simpa using idle
  | some taken =>
    obtain ⟨vector, p'⟩ := taken
    obtain ⟨line, first, rfl, rfl⟩ := inv.idle.acknowledge_some acknowledged
    simp only [inv.vector, handlerOf_vector, Option.isSome_some, true_iff]
    exact ⟨line, first.deliverable⟩

theorem lines_run (returns : Returns (15 + n) functions) (fits : n < 900000)
    (run : Run (interruptStep wide functions irqLines) (fun _ call => call.Valid) (p.outs picRemap) calls p') :
    PicInv p' ∧ Trace (LinesNext irqLines n) bootLines calls p'.lines := by
  have advance (p : Pair) (s : Lines) (call : InterruptCall) (reply : InterruptReply) (p' : Pair)
      (related : PicInv p ∧ p.lines = s) (valid : call.Valid)
      (done : interruptStep wide functions irqLines p call = some (reply, p')) :
      ∃ s', LinesNext irqLines n s call reply s' ∧ PicInv p' ∧ p'.lines = s' := by
    obtain ⟨inv, rfl⟩ := related
    exact inv.step returns fits valid done
  have start : PicInv (p.outs picRemap) ∧ (p.outs picRemap).lines = bootLines := by
    rw [outs_picRemap]
    exact ⟨remapped_inv, remapped_lines⟩
  obtain ⟨s, trace, inv, rfl⟩ := run.simulate (fun p s => PicInv p ∧ p.lines = s) advance start
  exact ⟨inv, trace⟩

/-- **Interrupts are two sets of lines.**  Whatever the controllers were doing before `pic_remap`, and whatever lines the
network cards have: every run of requests, of `pic_enable_irq` and `pic_disable_irq` and of interrupts behaves
as the two sets do.  The first line that is pending and enabled is served, its function is called once, and the
program goes on where it was with its registers; and an interrupt is taken as long as there is such a line. -/
theorem interrupts_are_lines (returns : Returns (15 + n) functions) (fits : n < 900000)
    (run : Run (interruptStep wide functions irqLines) (fun _ call => call.Valid) (p.outs picRemap) calls p') :
    Trace (LinesNext irqLines n) bootLines calls p'.lines ∧
    ∀ m f, (interruptStep wide functions irqLines p' (.interrupt m f)).isSome ↔ ∃ line, p'.lines.Deliverable line := by
  obtain ⟨inv, trace⟩ := lines_run returns fits run
  exact ⟨trace, fun m f => inv.interrupt_isSome⟩

/-- The timer ticks while a program runs. -/
theorem timer_run (functions : IrqFunction → Machine → Machine) (m : Machine) (f : ReturnFrame) :
    ∃ calls p', Run (interruptStep true functions [11]) (fun _ call => call.Valid) (remapped.outs picRemap) calls p' ∧
      calls.map Prod.fst = [.request 0, .interrupt m f] := by
  have inv : PicInv ((remapped.outs picRemap).request 0) := by
    rw [outs_picRemap]
    exact remapped_inv.request
  have deliverable : ((remapped.outs picRemap).request 0).lines.Deliverable 0 := by
    rw [outs_picRemap, request_lines (by decide), remapped_lines]
    simp [Lines.Deliverable, bootLines]
  have taken : (interruptStep true functions [11] ((remapped.outs picRemap).request 0) (.interrupt m f)).isSome :=
    inv.interrupt_isSome.mpr ⟨0, deliverable⟩
  obtain ⟨⟨reply, p'⟩, done⟩ := Option.isSome_iff_exists.mp taken
  have device : (InterruptCall.request 0).Valid := by
    show (0 : Fin 16).val ≠ 2
    decide
  have free : (InterruptCall.interrupt m f).Valid := trivial
  exact ⟨_, _, .call device rfl (.call free done (.refl _)), rfl⟩

theorem interrupts_are_lines_timer : ∃ calls s,
    calls.map Prod.fst = [.request 0, .interrupt ⟨fun _ => 0x90000, fun _ => 0x10, fun _ => 0⟩ ⟨0x100000, 0x08, 0x202⟩] ∧
      Trace (LinesNext [11] 0) bootLines calls s := by
  obtain ⟨calls, p', run, inputs⟩ := timer_run (fun _ m => m) ⟨fun _ => 0x90000, fun _ => 0x10, fun _ => 0⟩
    ⟨0x100000, 0x08, 0x202⟩
  have returns : Returns (15 + 0) fun (_ : IrqFunction) (m : Machine) => m := fun _ _ => ⟨rfl, fun _ => rfl⟩
  exact ⟨calls, p'.lines, inputs, (interrupts_are_lines returns (by decide) run).1⟩

/-! ## Every request is answered once -/

/-- The call was an interrupt of the line. -/
def Serves (line : Fin 16) (entry : InterruptCall × InterruptReply) : Prop :=
  ∃ called f m, entry.2 = .served (UInt8.ofNat (32 + line)) called f m

/-- The last request of the line was not answered by an interrupt. -/
def Open (line : Fin 16) (calls : List (InterruptCall × InterruptReply)) : Prop :=
  ∃ before reply after, calls = before ++ (.request line, reply) :: after ∧ ∀ entry ∈ after, ¬ Serves line entry

variable {s s' : Lines} {entry : InterruptCall × InterruptReply} {rest : List (InterruptCall × InterruptReply)}

theorem open_cons : Open line (entry :: rest) ↔
    Open line rest ∨ (entry.1 = .request line ∧ ∀ entry ∈ rest, ¬ Serves line entry) := by
  constructor
  · rintro ⟨before, reply, after, same, unanswered⟩
    cases before with
    | nil =>
      cases same
      exact .inr ⟨rfl, unanswered⟩
    | cons first before =>
      rw [List.cons_append, List.cons.injEq] at same
      exact .inl ⟨before, reply, after, same.2, unanswered⟩
  · rintro (⟨before, reply, after, rfl, unanswered⟩ | ⟨request, unanswered⟩)
    · exact ⟨entry :: before, reply, after, rfl, unanswered⟩
    · obtain ⟨call, reply⟩ := entry
      cases request
      exact ⟨[], reply, rest, rfl, unanswered⟩

theorem vector_inj {line' : Fin 16} (same : UInt8.ofNat (32 + line') = UInt8.ofNat (32 + line)) : line = line' := by
  revert line line'
  decide

theorem serves_vector {line' : Fin 16} {called : List IrqFunction} {call : InterruptCall} :
    Serves line (call, .served (UInt8.ofNat (32 + line')) called f m) ↔ line = line' := by
  constructor
  · rintro ⟨_, _, _, same⟩
    injection same with vector
    exact vector_inj vector
  · rintro rfl
    exact ⟨_, _, _, rfl⟩

/-- What one call does to one line. -/
theorem LinesNext.pending {call : InterruptCall} (next : LinesNext irqLines n s call reply s') (line : Fin 16) :
    line ∈ s'.pending ↔ call = .request line ∨ (line ∈ s.pending ∧ ¬ Serves line (call, reply)) := by
  cases next with
  | request => simp [Serves, eq_comm]
  | enable => simp [Serves]
  | disable => simp [Serves]
  | interrupt first kept =>
    rw [serves_vector]
    simp [and_comm]

theorem pending_iff (trace : Trace (LinesNext irqLines n) s calls s') (line : Fin 16) :
    line ∈ s'.pending ↔ Open line calls ∨ (line ∈ s.pending ∧ ∀ entry ∈ calls, ¬ Serves line entry) := by
  induction trace with
  | refl => simp [Open]
  | call next _ ih =>
    rw [ih, next.pending, open_cons]
    simp only [List.mem_cons, forall_eq_or_imp]
    tauto

/-- The state in which a call of a trace was made. -/
theorem trace_at (trace : Trace (LinesNext irqLines n) s (rest ++ entry :: calls) s') :
    ∃ t t', Trace (LinesNext irqLines n) s rest t ∧ LinesNext irqLines n t entry.1 entry.2 t' := by
  induction rest generalizing s with
  | nil =>
    cases trace with
    | call next _ => exact ⟨_, _, .refl _, next⟩
  | cons first rest ih =>
    cases trace with
    | call next later =>
      obtain ⟨t, t', before, here⟩ := ih later
      exact ⟨t, t', .call next before, here⟩

/-- An interrupt is for a line that is pending. -/
theorem LinesNext.serves {call : InterruptCall} (next : LinesNext irqLines n s call reply s')
    (served : Serves line (call, reply)) : line ∈ s.pending := by
  cases next with
  | interrupt first kept =>
    rw [serves_vector] at served
    exact served ▸ first.deliverable.1
  | _ =>
    obtain ⟨_, _, _, same⟩ := served
    cases same

/-- **No interrupt is lost, and none is made up.**  In every run after `pic_remap` a line is pending exactly when its
last request has not been answered by an interrupt, and each interrupt answers a request that no interrupt
before it has answered. -/
theorem requests_answered_once (returns : Returns (15 + n) functions) (fits : n < 900000)
    (run : Run (interruptStep wide functions irqLines) (fun _ call => call.Valid) (p.outs picRemap) calls p')
    (line : Fin 16) :
    (line ∈ p'.lines.pending ↔ Open line calls) ∧
    ∀ before entry after, calls = before ++ entry :: after → Serves line entry → Open line before := by
  obtain ⟨_, trace⟩ := lines_run returns fits run
  constructor
  · rw [pending_iff trace]
    simp [bootLines]
  · rintro before entry after rfl served
    obtain ⟨t, t', first, next⟩ := trace_at trace
    have pending := (pending_iff first line).mp (next.serves served)
    simpa [bootLines] using pending

/-- The tick of the timer. -/
theorem requests_answered_once_timer : ∃ calls, ∃ p' : Pair,
    calls.map Prod.fst = [.request 0, .interrupt ⟨fun _ => 0x90000, fun _ => 0x10, fun _ => 0⟩ ⟨0x100000, 0x08, 0x202⟩] ∧
      (0 ∈ p'.lines.pending ↔ Open 0 calls) := by
  obtain ⟨calls, p', run, inputs⟩ := timer_run (fun _ m => m) ⟨fun _ => 0x90000, fun _ => 0x10, fun _ => 0⟩
    ⟨0x100000, 0x08, 0x202⟩
  have returns : Returns (15 + 0) fun (_ : IrqFunction) (m : Machine) => m := fun _ _ => ⟨rfl, fun _ => rfl⟩
  exact ⟨calls, p', inputs, (requests_answered_once returns (by decide) run 0).1⟩

end QuantumKernel.Cpu
