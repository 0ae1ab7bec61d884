import QuantumKernel.Library.Memory32

/-! # A few i386 instructions

The general registers, the moves between registers and memory, an indirect jump, and
calls under the cdecl convention: the arguments are pushed from right to left, then the
return address.
-/

namespace I386

open Memory32

inductive Reg
  | eax | ebx | ecx | edx | esi | edi | ebp | esp
  deriving DecidableEq, Repr

structure Cpu where
  reg : Reg → UInt32
  /-- Where the last jump went. -/
  eip : UInt32
  mem : Memory

inductive Instr
  /-- `mov [base + disp], source` -/
  | store (base : Reg) (disp : UInt32) (source : Reg)
  /-- `mov target, [base + disp]` -/
  | load (target base : Reg) (disp : UInt32)
  /-- `jmp target` -/
  | jump (target : Reg)

def Instr.exec (m : Cpu) : Instr → Cpu
  | .store base disp source => { m with mem := storeWord m.mem (m.reg base + disp) (m.reg source) }
  | .load target base disp =>
    { m with reg := Function.update m.reg target (loadWord m.mem (m.reg base + disp)) }
  | .jump target => { m with eip := m.reg target }

def run (code : List Instr) (m : Cpu) : Cpu := code.foldl Instr.exec m

def Cpu.push (m : Cpu) (value : UInt32) : Cpu :=
  { m with
    reg := Function.update m.reg .esp (m.reg .esp - 4)
    mem := storeWord m.mem (m.reg .esp - 4) value }

/-- The machine when a function is entered that was called with these arguments. -/
def Cpu.call (m : Cpu) (arguments : List UInt32) (ret : UInt32) : Cpu :=
  (arguments.foldr (fun argument m => m.push argument) m).push ret

variable {m : Cpu} {r : Reg}

theorem Cpu.push_reg (other : r ≠ .esp) (value : UInt32) : (m.push value).reg r = m.reg r :=
  Function.update_of_ne other _ _

/-- A call changes no register but the stack pointer. -/
theorem Cpu.call_reg (other : r ≠ .esp) (arguments : List UInt32) (ret : UInt32) :
    (m.call arguments ret).reg r = m.reg r := by
  rw [Cpu.call, Cpu.push_reg other]
  induction arguments with
  | nil => rfl
  | cons argument arguments ih => rw [List.foldr_cons, Cpu.push_reg other, ih]

end I386
