import QuantumKernel.Library.I386

/-! # The i386 stack, with segment registers

The stack is read as its words from the top on: `slot k` is the `k`-th of them, and `below k` is what
the memory holds at the place of the `k`-th word that will be pushed.  A push moves both by one
(`slot_push_succ`, `below_push`), so the words that a run of pushes leaves are read off one by one.

A push of a selector writes a word whose upper half is zero or what was in memory before, depending
on the processor; a pop takes the lower half.
-/

namespace I386

open Memory32 ByteStore

inductive Seg
  | cs | ss | ds | es | fs | gs
  deriving DecidableEq, Repr

structure Machine where
  reg : Reg → UInt32
  seg : Seg → UInt16
  mem : Memory

namespace Machine

/-- The `k`-th word on the stack. -/
def slot (m : Machine) (k : Nat) : UInt32 := loadWord m.mem (m.reg .esp + UInt32.ofNat (4 * k))

/-- The word in memory where the `k`-th push will write. -/
def below (m : Machine) (k : Nat) : UInt32 := loadWord m.mem (m.reg .esp - UInt32.ofNat (4 * (k + 1)))

def push (m : Machine) (value : UInt32) : Machine :=
  { m with
    reg := Function.update m.reg .esp (m.reg .esp - 4)
    mem := storeWord m.mem (m.reg .esp - 4) value }

/-- `add esp, value` -/
def addEsp (m : Machine) (value : UInt32) : Machine :=
  { m with reg := Function.update m.reg .esp (m.reg .esp + value) }

def setSeg (m : Machine) (target : Seg) (selector : UInt16) : Machine :=
  { m with seg := Function.update m.seg target selector }

end Machine

/-- What a push of a selector leaves in place of the word `old`. -/
def selectorWord (wide : Bool) (old : UInt32) (selector : UInt16) : UInt32 :=
  if wide then selector.toUInt32 else UInt32.ofNat (old.toNat / 65536 * 65536 + selector.toNat)

inductive StackInstr
  /-- `push value` -/
  | pushImm (value : UInt32)
  /-- `push esp` -/
  | pushEsp
  /-- `push source` -/
  | pushSeg (source : Seg)
  | pushad
  /-- `mov ax, value` -/
  | movAx (value : UInt16)
  /-- `mov target, ax` -/
  | movSeg (target : Seg)
  /-- `add esp, value` -/
  | addEsp (value : UInt32)
  /-- `pop target` -/
  | popSeg (target : Seg)
  | popad

/-- `wide` tells which way the processor pushes selectors. -/
def StackInstr.exec (wide : Bool) (m : Machine) : StackInstr → Machine
  | .pushImm value => m.push value
  | .pushEsp => m.push (m.reg .esp)
  | .pushSeg source => m.push (selectorWord wide (m.below 0) (m.seg source))
  | .pushad => ((((((((m.push (m.reg .eax)).push (m.reg .ecx)).push (m.reg .edx)).push (m.reg .ebx)).push
      (m.reg .esp)).push (m.reg .ebp)).push (m.reg .esi)).push (m.reg .edi))
  | .movAx value =>
    { m with reg := Function.update m.reg .eax (UInt32.ofNat ((m.reg .eax).toNat / 65536 * 65536 + value.toNat)) }
  | .movSeg target => m.setSeg target (m.reg .eax).toUInt16
  | .addEsp value => m.addEsp value
  | .popSeg target => (m.addEsp 4).setSeg target (m.slot 0).toUInt16
  -- The value of ESP is skipped.
  | .popad => { m with reg := fun
    | .edi => m.slot 0
    | .esi => m.slot 1
    | .ebp => m.slot 2
    | .esp => m.reg .esp + 32
    | .ebx => m.slot 4
    | .edx => m.slot 5
    | .ecx => m.slot 6
    | .eax => m.slot 7 }

def runStack (wide : Bool) (code : List StackInstr) (m : Machine) : Machine :=
  code.foldl (StackInstr.exec wide) m

theorem runStack_append (wide : Bool) (first second : List StackInstr) (m : Machine) :
    runStack wide (first ++ second) m = runStack wide second (runStack wide first m) := List.foldl_append

variable {m m' : Machine} {value old : UInt32} {selector : UInt16} {wide : Bool} {k : Nat} {r : Reg}

theorem selectorWord_toUInt16 : (selectorWord wide old selector).toUInt16 = selector := by
  have bound := selector.toNat_lt
  have low := old.toNat_lt
  apply UInt16.toNat.inj
  rw [selectorWord]
  split
  · rw [UInt32.toNat_toUInt16, UInt16.toNat_toUInt32, Nat.mod_eq_of_lt bound]
  · rw [UInt32.toNat_toUInt16, UInt32.toNat_ofNat']
    omega

theorem sub_sub_eq (a b c : UInt32) : a - b - c = a - (b + c) := by
  apply UInt32.toNat.inj
  have boundA := a.toNat_lt
  have boundB := b.toNat_lt
  have boundC := c.toNat_lt
  simp only [UInt32.toNat_sub, UInt32.toNat_add]
  omega

namespace Machine

/-! ## Words that do not meet -/

theorem loadWord_storeWord_apart {mem : Memory} {address x : UInt32} (low : 4 ≤ (x - address).toNat)
    (high : (x - address).toNat + 4 ≤ 4294967296) :
    loadWord (storeWord mem address value) x = loadWord mem x := by
  rw [loadWord_eq_iff]
  intro k bound
  have offset : (x + UInt32.ofNat k - address).toNat = (x - address).toNat + k := by
    have boundX := x.toNat_lt
    have boundA := address.toNat_lt
    rw [UInt32.toNat_sub] at low high ⊢
    rw [UInt32.toNat_sub, UInt32.toNat_add, UInt32.toNat_ofNat']
    omega
  rw [storeWord, put_outside (by omega)]
  exact loadWord_eq_iff.mp rfl k bound

/-! ## Pushes -/

@[simp] theorem push_reg_esp : (m.push value).reg .esp = m.reg .esp - 4 := by
  simp [push]

@[simp] theorem push_reg (other : r ≠ .esp) : (m.push value).reg r = m.reg r := Function.update_of_ne other _ _

@[simp] theorem push_seg : (m.push value).seg = m.seg := rfl

@[simp] theorem slot_push_zero : (m.push value).slot 0 = value := by
  have top : m.reg .esp - 4 + UInt32.ofNat (4 * 0) = m.reg .esp - 4 := UInt32.add_zero _
  rw [slot, push_reg_esp, top, push, loadWord_storeWord]

theorem slot_push_succ (bound : k < 1073741823) : (m.push value).slot (k + 1) = m.slot k := by
  have same : m.reg .esp - 4 + UInt32.ofNat (4 * (k + 1)) = m.reg .esp + UInt32.ofNat (4 * k) := by
    apply UInt32.toNat.inj
    have top := (m.reg .esp).toNat_lt
    simp only [UInt32.toNat_add, UInt32.toNat_sub, UInt32.toNat_ofNat', UInt32.reduceToNat]
    omega
  have apart : (m.reg .esp + UInt32.ofNat (4 * k) - (m.reg .esp - 4)).toNat = 4 * k + 4 := by
    have top := (m.reg .esp).toNat_lt
    simp only [UInt32.toNat_add, UInt32.toNat_sub, UInt32.toNat_ofNat', UInt32.reduceToNat]
    omega
  rw [slot, push_reg_esp, same, push, loadWord_storeWord_apart (by omega) (by omega)]
  rfl

theorem below_push (bound : k < 1073741822) : (m.push value).below k = m.below (k + 1) := by
  have same : m.reg .esp - 4 - UInt32.ofNat (4 * (k + 1)) = m.reg .esp - UInt32.ofNat (4 * (k + 1 + 1)) := by
    apply UInt32.toNat.inj
    have top := (m.reg .esp).toNat_lt
    simp only [UInt32.toNat_sub, UInt32.toNat_ofNat', UInt32.reduceToNat]
    omega
  have apart : (m.reg .esp - UInt32.ofNat (4 * (k + 1 + 1)) - (m.reg .esp - 4)).toNat =
      4294967296 - 4 * (k + 1) := by
    have top := (m.reg .esp).toNat_lt
    simp only [UInt32.toNat_sub, UInt32.toNat_ofNat', UInt32.reduceToNat]
    omega
  rw [below, push_reg_esp, same, push, loadWord_storeWord_apart (by omega) (by omega)]
  rfl

@[simp] theorem setSeg_reg {target : Seg} : (m.setSeg target selector).reg = m.reg := rfl

@[simp] theorem setSeg_seg {target : Seg} :
    (m.setSeg target selector).seg = Function.update m.seg target selector := rfl

@[simp] theorem setSeg_mem {target : Seg} : (m.setSeg target selector).mem = m.mem := rfl

@[simp] theorem setSeg_slot {target : Seg} : (m.setSeg target selector).slot k = m.slot k := rfl

/-- The pushes of a list of words. -/
def pushAll (m : Machine) (values : List UInt32) : Machine := values.foldl push m

theorem pushAll_append (first second : List UInt32) :
    m.pushAll (first ++ second) = (m.pushAll first).pushAll second := List.foldl_append

theorem pushAll_concat (values : List UInt32) (value : UInt32) :
    m.pushAll (values ++ [value]) = (m.pushAll values).push value := pushAll_append values [value]

@[simp] theorem pushAll_reg (other : r ≠ .esp) (values : List UInt32) : (m.pushAll values).reg r = m.reg r := by
  induction values using List.reverseRecOn with
  | nil => rfl
  | append_singleton values value ih => rw [pushAll_concat, push_reg other, ih]

@[simp] theorem pushAll_seg (values : List UInt32) : (m.pushAll values).seg = m.seg := by
  induction values using List.reverseRecOn with
  | nil => rfl
  | append_singleton values value ih => rw [pushAll_concat, push_seg, ih]

theorem pushAll_esp (values : List UInt32) :
    (m.pushAll values).reg .esp = m.reg .esp - UInt32.ofNat (4 * values.length) := by
  induction values using List.reverseRecOn with
  | nil => exact (UInt32.sub_zero _).symm
  | append_singleton values value ih =>
    rw [pushAll_concat, push_reg_esp, ih, List.length_append, List.length_singleton, Nat.mul_add, UInt32.ofNat_add]
    exact sub_sub_eq _ _ _

theorem below_pushAll {values : List UInt32} (bound : values.length + k < 1073741823) :
    (m.pushAll values).below k = m.below (values.length + k) := by
  induction values using List.reverseRecOn generalizing k with
  | nil => simp [pushAll]
  | append_singleton values value ih =>
    rw [List.length_append, List.length_singleton] at bound ⊢
    rw [pushAll_concat, below_push (by omega), ih (by omega)]
    congr 1
    omega

/-- What was on the stack lies behind the words that were pushed. -/
theorem slot_pushAll_add {values : List UInt32} (bound : values.length + k < 1073741824) :
    (m.pushAll values).slot (values.length + k) = m.slot k := by
  induction values using List.reverseRecOn with
  | nil => simp [pushAll]
  | append_singleton values value ih =>
    rw [List.length_append, List.length_singleton] at bound ⊢
    rw [pushAll_concat, show values.length + 1 + k = values.length + k + 1 by omega, slot_push_succ (by omega)]
    exact ih (by omega)

/-- The last word that was pushed is on top. -/
theorem slot_pushAll {values : List UInt32} (fits : values.length < 1073741824)
    (pushed : values.reverse[k]? = some value) : (m.pushAll values).slot k = value := by
  induction values using List.reverseRecOn generalizing k with
  | nil => simp at pushed
  | append_singleton values last ih =>
    rw [List.length_append, List.length_singleton] at fits
    rw [List.reverse_append, List.reverse_singleton, List.singleton_append] at pushed
    rw [pushAll_concat]
    cases k with
    | zero =>
      rw [slot_push_zero]
      exact Option.some.inj pushed
    | succ k =>
      have inside := (List.getElem?_eq_some_iff.mp pushed).1
      rw [List.length_cons, List.length_reverse] at inside
      rw [slot_push_succ (by omega)]
      exact ih (by omega) pushed

/-- Two machines with the same stack. -/
structure SameStack (m m' : Machine) : Prop where
  mem : m.mem = m'.mem
  esp : m.reg .esp = m'.reg .esp

theorem SameStack.slot (same : SameStack m m') : m.slot k = m'.slot k := by
  rw [Machine.slot, same.mem, same.esp, Machine.slot]

theorem SameStack.push (same : SameStack m m') : SameStack (m.push value) (m'.push value) where
  mem := by rw [Machine.push, Machine.push, same.mem, same.esp]
  esp := by rw [push_reg_esp, push_reg_esp, same.esp]

/-! ## Pops -/

/-- A stack pointer that is `n` words higher skips `n` words. -/
theorem slot_of_esp {n : Nat} (mem : m'.mem = m.mem) (esp : m'.reg .esp = m.reg .esp + UInt32.ofNat (4 * n)) :
    m'.slot k = m.slot (k + n) := by
  rw [slot, mem, esp, slot, UInt32.add_assoc, ← UInt32.ofNat_add, ← Nat.mul_add, Nat.add_comm]

@[simp] theorem addEsp_reg_esp : (m.addEsp value).reg .esp = m.reg .esp + value := by
  simp [addEsp]

@[simp] theorem addEsp_reg (other : r ≠ .esp) : (m.addEsp value).reg r = m.reg r := Function.update_of_ne other _ _

@[simp] theorem addEsp_seg : (m.addEsp value).seg = m.seg := rfl

@[simp] theorem addEsp_slot_one : (m.addEsp 4).slot k = m.slot (k + 1) := slot_of_esp rfl addEsp_reg_esp

end Machine

end I386
