import QuantumKernel.Library.I386
import QuantumKernel.Task.Tasks

/-! # `context_switch`

The routine takes the addresses of the two records from EAX and EDX and the address to
go on at from ECX, while its callers follow cdecl and put the two arguments on the stack.
-/

namespace QuantumKernel.Task

open I386 Memory32 ByteStore

/-- `context_switch.asm`. -/
def contextSwitch : List Instr :=
  [.store .eax 0 .esp,
   .store .eax 4 .ebp,
   .store .eax 8 .ecx,
   .load .esp .edx 0,
   .load .ebp .edx 4,
   .load .ecx .edx 8,
   .jump .ecx]

/-- The byte at `x` after the registers ESP, EBP and ECX were stored at EAX. -/
def savedByte (m : Cpu) (x : UInt32) : UInt8 :=
  if (x - m.reg .eax).toNat < 12 then
    words [m.reg .esp, m.reg .ebp, m.reg .ecx] (x - m.reg .eax).toNat
  else m.mem x

/-- The word at `x` is then `value`. -/
def Holds (m : Cpu) (x value : UInt32) : Prop := ∀ k < 4, savedByte m (x + UInt32.ofNat k) = bytes32 value k

variable {m c c₂ : Cpu} {a b ret ret₂ entry stackTop taskExit x value : UInt32}

/-- What the routine does. -/
theorem contextSwitch_run (m : Cpu) :
    (run contextSwitch m).mem = savedByte m ∧
      (run contextSwitch m).eip = loadWord (savedByte m) (m.reg .edx + 8) ∧
      (run contextSwitch m).reg .esp = loadWord (savedByte m) (m.reg .edx) ∧
      (run contextSwitch m).reg .ebp = loadWord (savedByte m) (m.reg .edx + 4) ∧
      ∀ r, r ≠ .esp → r ≠ .ebp → r ≠ .ecx → (run contextSwitch m).reg r = m.reg r := by
  have saved : storeWord (storeWord (storeWord m.mem (m.reg .eax) (m.reg .esp)) (m.reg .eax + 4)
      (m.reg .ebp)) (m.reg .eax + 8) (m.reg .ecx) = savedByte m := storeWord_three _ _ _ _ _
  simp only [run, contextSwitch, List.foldl_cons, List.foldl_nil, Instr.exec, UInt32.add_zero, saved]
  simp only [true_and]
  refine ⟨?_, ?_, ?_, ?_⟩
  · simp
  · simp
  · simp
  · intro r notEsp notEbp notEcx
    simp [notEsp, notEbp, notEcx]

theorem loadWord_savedByte : loadWord (savedByte m) x = value ↔ Holds m x value := loadWord_eq_iff

/-! ## Switching back -/

/-- Execution goes on in the caller `c` of a function with two arguments, right behind its
call: the arguments are still on the stack. -/
structure Resumes (c : Cpu) (ret : UInt32) (m : Cpu) : Prop where
  eip : m.eip = ret
  esp : m.reg .esp = c.reg .esp - 8
  ebp : m.reg .ebp = c.reg .ebp
  ebx : m.reg .ebx = c.reg .ebx
  esi : m.reg .esi = c.reg .esi
  edi : m.reg .edi = c.reg .edi

/-- The record that EDX points at, when the loads of the routine read it. -/
structure Record (m : Cpu) (esp ebp eip : UInt32) : Prop where
  esp : Holds m (m.reg .edx) esp
  ebp : Holds m (m.reg .edx + 4) ebp
  eip : Holds m (m.reg .edx + 8) eip

/-- The registers that a function has to preserve are those of `c`. -/
structure KeepsSaved (c m : Cpu) : Prop where
  ebx : m.reg .ebx = c.reg .ebx
  esi : m.reg .esi = c.reg .esi
  edi : m.reg .edi = c.reg .edi

theorem resumes_iff :
    Resumes c ret (run contextSwitch m) ↔
      KeepsSaved c m ∧ Record m (c.reg .esp - 8) (c.reg .ebp) ret := by
  obtain ⟨-, eip, esp, ebp, others⟩ := contextSwitch_run m
  have ebx := others .ebx (by decide) (by decide) (by decide)
  have esi := others .esi (by decide) (by decide) (by decide)
  have edi := others .edi (by decide) (by decide) (by decide)
  constructor
  · rintro ⟨toRet, toEsp, toEbp, sameEbx, sameEsi, sameEdi⟩
    rw [eip, loadWord_savedByte] at toRet
    rw [esp, loadWord_savedByte] at toEsp
    rw [ebp, loadWord_savedByte] at toEbp
    exact ⟨⟨ebx ▸ sameEbx, esi ▸ sameEsi, edi ▸ sameEdi⟩, ⟨toEsp, toEbp, toRet⟩⟩
  · rintro ⟨⟨sameEbx, sameEsi, sameEdi⟩, ⟨toEsp, toEbp, toRet⟩⟩
    refine ⟨?_, ?_, ?_, ebx.trans sameEbx, esi.trans sameEsi, edi.trans sameEdi⟩
    · rw [eip, loadWord_savedByte]
      exact toRet
    · rw [esp, loadWord_savedByte]
      exact toEsp
    · rw [ebp, loadWord_savedByte]
      exact toEbp

/-- Two words at one place are the same. -/
theorem Holds.unique {other : UInt32} (first : Holds m x value) (second : Holds m x other) :
    value = other :=
  (loadWord_savedByte.mpr first).symm.trans (loadWord_savedByte.mpr second)

/-- The record that the routine itself stored for a caller does not bring the caller back:
its stack pointer still has the return address above it. -/
theorem stored_record_not_resumed {ebp eip : UInt32}
    (record : Record m ((c.call [a + 4, b + 4] ret).reg .esp) ebp eip) :
    ¬ Resumes c ret (run contextSwitch m) := by
  intro resumed
  have esp := (resumes_iff.mp resumed).2.esp.unique record.esp
  have pushed : (c.call [a + 4, b + 4] ret).reg .esp = c.reg .esp - 4 - 4 - 4 := by
    simp [Cpu.call, Cpu.push]
  rw [pushed] at esp
  have values := congrArg UInt32.toNat esp
  have bound := (c.reg .esp).toNat_lt
  simp only [UInt32.toNat_sub, UInt32.reduceToNat] at values
  omega

/-! ## The first switch to a task -/

/-- The task starts at its entry, on its own stack, with `task_exit` to return to. -/
structure Starts (entry stackTop taskExit : UInt32) (m : Cpu) : Prop where
  eip : m.eip = entry
  esp : m.reg .esp = stackTop
  ret : loadWord m.mem stackTop = taskExit

theorem starts_iff :
    Starts entry stackTop taskExit (run contextSwitch m) ↔
      Holds m (m.reg .edx) stackTop ∧ Holds m (m.reg .edx + 8) entry ∧ Holds m stackTop taskExit := by
  obtain ⟨mem, eip, esp, -⟩ := contextSwitch_run m
  constructor
  · rintro ⟨toEntry, toTop, exit⟩
    rw [eip, loadWord_savedByte] at toEntry
    rw [esp, loadWord_savedByte] at toTop
    rw [mem, loadWord_savedByte] at exit
    exact ⟨toTop, toEntry, exit⟩
  · rintro ⟨toTop, toEntry, exit⟩
    refine ⟨?_, ?_, ?_⟩
    · rw [eip, loadWord_savedByte]
      exact toEntry
    · rw [esp, loadWord_savedByte]
      exact toTop
    · rw [mem, loadWord_savedByte]
      exact exit

/-- The stores of `task_create` to the structure at `t` and to the stack; `name` are the
bytes that `strncpy` copies. -/
def createdTask (mem : Memory) (t stack entry taskExit pid pageCtx next : UInt32) (name : Bytes) : Memory :=
  let mem := put mem t (fun _ => 0) 64
  let context := initialContext stack entry
  let mem := storeWord mem context.esp taskExit
  let mem := storeWord mem (t + 4) context.esp
  let mem := storeWord mem (t + 8) context.ebp
  let mem := storeWord mem (t + 12) context.eip
  let mem := storeWord mem (t + 16) 0
  let mem := storeWord mem (t + 0) pid
  let mem := put mem (t + 24) name 31
  let mem := storeWord mem (t + 56) pageCtx
  storeWord mem (t + 60) next

/-- The stack of the new task lies outside its structure. -/
def StackApart (t stackTop : UInt32) : Prop := ∀ k < 4, 64 ≤ (stackTop + UInt32.ofNat k - t).toNat

/-- A word that was not stored over. -/
theorem loadWord_put_outside {mem : Memory} {address : UInt32} {source : Bytes} {count : Nat}
    (apart : ∀ k < 4, count ≤ (x + UInt32.ofNat k - address).toNat) :
    loadWord (put mem address source count) x = loadWord mem x :=
  load32_congr fun k bound => put_outside (by simpa using apart k bound)

/-- A field of a structure is not changed by a store to another field of it. -/
theorem loadWord_field {t offset other : UInt32} {mem : Memory} {source : Bytes} {count : Nat}
    (small : offset.toNat + 4 ≤ 64) (fits : other.toNat + count ≤ 64)
    (apart : offset.toNat + 4 ≤ other.toNat ∨ other.toNat + count ≤ offset.toNat) :
    loadWord (put mem (t + other) source count) (t + offset) = loadWord mem (t + offset) := by
  apply loadWord_put_outside
  intro k bound
  have boundT := t.toNat_lt
  simp only [UInt32.toNat_sub, UInt32.toNat_add, UInt32.toNat_ofNat']
  omega

/-- A store to a field leaves the stack alone. -/
theorem StackApart.loadWord {t stackTop other : UInt32} {mem : Memory} {source : Bytes} {count : Nat}
    (apart : StackApart t stackTop) (fits : other.toNat + count ≤ 64) :
    Memory32.loadWord (put mem (t + other) source count) stackTop = Memory32.loadWord mem stackTop := by
  apply loadWord_put_outside
  intro k bound
  have far := apart k bound
  have boundT := t.toNat_lt
  have boundS := stackTop.toNat_lt
  simp only [UInt32.toNat_sub, UInt32.toNat_add, UInt32.toNat_ofNat'] at far ⊢
  omega

/-- What `context_switch` reads of a new task. -/
theorem createdTask_words {t stack : UInt32} (mem : Memory) (entry taskExit pid pageCtx next : UInt32)
    (name : Bytes) (apart : StackApart t (initialContext stack entry).esp) :
    let created := createdTask mem t stack entry taskExit pid pageCtx next name
    loadWord created (t + 4) = (initialContext stack entry).esp ∧
      loadWord created (t + 12) = (initialContext stack entry).eip ∧
      loadWord created (initialContext stack entry).esp = taskExit := by
  intro created
  simp only [created, createdTask]
  refine ⟨?_, ?_, ?_⟩
  · simp (disch := decide) only [storeWord, loadWord_field]
    exact loadWord_storeWord _ _ _
  · simp (disch := decide) only [storeWord, loadWord_field]
    exact loadWord_storeWord _ _ _
  · simp (disch := first | decide | exact apart) only [storeWord, StackApart.loadWord]
    exact loadWord_storeWord _ _ _

/-- The registers are stored away from a word. -/
def SavesOutside (m : Cpu) (x : UInt32) : Prop := ∀ k < 4, 12 ≤ (x + UInt32.ofNat k - m.reg .eax).toNat

theorem SavesOutside.holds (outside : SavesOutside m x) : Holds m x value ↔ loadWord m.mem x = value := by
  rw [loadWord_eq_iff]
  have same : ∀ k < 4, savedByte m (x + UInt32.ofNat k) = m.mem (x + UInt32.ofNat k) := fun k bound =>
    if_neg (Nat.not_lt.mpr (outside k bound))
  constructor
  · intro holds k bound
    rw [← same k bound]
    exact holds k bound
  · intro word k bound
    rw [same k bound]
    exact word k bound

/-- A new task starts as it should if EDX happens to point at its record. -/
theorem created_task_starts {t : UInt32} (record : m.reg .edx = t + 4)
    (esp : loadWord m.mem (t + 4) = stackTop) (eip : loadWord m.mem (t + 12) = entry)
    (ret : loadWord m.mem stackTop = taskExit) (clearEsp : SavesOutside m (t + 4))
    (clearEip : SavesOutside m (t + 12)) (clearStack : SavesOutside m stackTop) :
    Starts entry stackTop taskExit (run contextSwitch m) := by
  have place : t + 4 + 8 = t + 12 := UInt32.add_assoc t 4 8
  rw [starts_iff, record, place]
  exact ⟨clearEsp.holds.mpr esp, clearEip.holds.mpr eip, clearStack.holds.mpr ret⟩

/-! ## Both switches -/

/-- **When a context switch is transparent.**  `a` and `b` are the structures of the two
tasks, `c` is the caller in the first one, and `c₂` the later caller in the second one.
The first one goes on as it should exactly if EDX points at a record of its registers
behind the call, and the second one has not used EBX, ESI and EDI; it never does with a
record that the routine stored. -/
theorem context_switch_iff (a b ret ret₂ entry stackTop taskExit : UInt32) (c c₂ : Cpu) :
    (Resumes c ret (run contextSwitch (c₂.call [b + 4, a + 4] ret₂)) ↔
      KeepsSaved c c₂ ∧ Record (c₂.call [b + 4, a + 4] ret₂) (c.reg .esp - 8) (c.reg .ebp) ret) ∧
    (Starts entry stackTop taskExit (run contextSwitch (c.call [a + 4, b + 4] ret)) ↔
      Holds (c.call [a + 4, b + 4] ret) (c.reg .edx) stackTop ∧
      Holds (c.call [a + 4, b + 4] ret) (c.reg .edx + 8) entry ∧
      Holds (c.call [a + 4, b + 4] ret) stackTop taskExit) ∧
    (∀ ebp eip, Record (c₂.call [b + 4, a + 4] ret₂) ((c.call [a + 4, b + 4] ret).reg .esp) ebp eip →
      ¬ Resumes c ret (run contextSwitch (c₂.call [b + 4, a + 4] ret₂))) := by
  have kept {r : Reg} (other : r ≠ .esp) : (c₂.call [b + 4, a + 4] ret₂).reg r = c₂.reg r :=
    Cpu.call_reg other _ _
  refine ⟨resumes_iff.trans (and_congr_left fun _ => ?_), ?_, fun _ _ => stored_record_not_resumed⟩
  · constructor
    · rintro ⟨ebx, esi, edi⟩
      rw [kept (by decide)] at ebx esi edi
      exact ⟨ebx, esi, edi⟩
    · rintro ⟨ebx, esi, edi⟩
      exact ⟨(kept (by decide)).trans ebx, (kept (by decide)).trans esi, (kept (by decide)).trans edi⟩
  · rw [starts_iff, Cpu.call_reg (by decide)]

/-- A caller of `context_switch` whose compiler left the two arguments in EAX and EDX, too. -/
def callerWith (old new esp : UInt32) (mem : Memory) : Cpu where
  reg := fun
    | .eax => old
    | .edx => new
    | .esp => esp
    | _ => 0
  eip := 0
  mem := mem

/-- Even then, and with both tasks leaving the records alone, the first task does not go on
behind its call. -/
theorem switch_back_fails :
    let c := callerWith 4100 8196 36864 fun _ => 0
    let first := run contextSwitch (c.call [4100, 8196] 1048867)
    let c₂ := callerWith 8196 4100 40960 first.mem
    ¬ Resumes c 1048867 (run contextSwitch (c₂.call [8196, 4100] 1048867)) := by
  intro c first c₂ resumed
  exact absurd resumed.esp (by decide +kernel)

end QuantumKernel.Task
