import QuantumKernel.Mm.Allocation
import QuantumKernel.Task.TaskList

/-! # Tasks on the heap

`task_create` takes the structure and the stack from `kmalloc`, as every part of the kernel does.
As long as `heap_ptr` does not wrap, a new structure lies behind all earlier ones and behind the
kernel's own: the tasks of such a run are a run with `Fresh`, and no two structures overlap.
-/

namespace QuantumKernel.Task

open LinkedRing Transition Mm

/-- `sizeof(task_t)`. -/
def taskSize : UInt32 := 64

/-- The tasks, and the allocator that the whole kernel uses. -/
structure HeapTasks where
  tasks : Tasks
  heap : History

inductive HeapOp
  /-- `task_create`. -/
  | create (entry : UInt32)
  /-- An allocation for something else. -/
  | allocate (call : AllocCall)
  /-- An operation on the tasks that allocates nothing. -/
  | operate (op : TaskOp)

/-- The reply is the operation on the tasks with the task that it selected, if there was one. -/
def HeapTasks.step (fuel : Nat) (s : HeapTasks) :
    HeapOp → Option (Option (TaskOp × Option UInt32) × HeapTasks)
  | .create entry => do
    let (t, heap) ← s.heap.step (.kmalloc taskSize)
    let (stack, heap) ← heap.step (.kmalloc 4096)
    some (some (.create t stack entry, none), ⟨taskCreate s.tasks t stack entry, heap⟩)
  | .allocate call => do
    let (_, heap) ← s.heap.step call
    some (none, ⟨s.tasks, heap⟩)
  | .operate op => do
    let (sel, tasks) ← Task.step fuel s.tasks op
    some (some (op, sel), ⟨tasks, s.heap⟩)

/-- `heap_ptr` does not wrap. -/
def HeapTasks.Room (s : HeapTasks) : HeapOp → Prop
  | .create _ => s.heap.heapPtr.toNat + taskSize.toNat + 4096 < 4294967296
  | .allocate call => NoWrap s.heap call
  | .operate op => op.made = []

/-- The structures do not overlap. -/
def Apart (a b : UInt32) : Prop :=
  a.toNat + taskSize.toNat ≤ b.toNat ∨ b.toNat + taskSize.toNat ≤ a.toNat

theorem Apart.symm {a b : UInt32} (apart : Apart a b) : Apart b a := Or.symm apart

/-- The tasks lie below `heap_ptr`, each in its own memory. -/
structure OnHeap (s : HeapTasks) (ring : List UInt32) : Prop where
  ready : Ready s.tasks ring
  bounded : Bounded s.heap
  below : ∀ t ∈ ring, t.toNat + taskSize.toNat ≤ s.heap.heapPtr.toNat
  apart : ring.Pairwise Apart

variable {s s' : HeapTasks} {ring : List UInt32} {fuel : Nat} {op : HeapOp} {entry : UInt32}
  {reply : Option (TaskOp × Option UInt32)} {calls : List (HeapOp × Option (TaskOp × Option UInt32))}
  {memory : UInt32 → TaskT} {ticks kernelPageContext kernelTask : UInt32}

/-- After `task_init`, before the first allocation. -/
def HeapTasks.boot (memory : UInt32 → TaskT) (ticks kernelPageContext kernelTask : UInt32) : HeapTasks :=
  ⟨taskInit (Tasks.boot memory ticks kernelPageContext) kernelTask, .start⟩

theorem OnHeap.boot (below : kernelTask.toNat + taskSize.toNat ≤ heapBase.toNat) :
    OnHeap (.boot memory ticks kernelPageContext kernelTask) [kernelTask] where
  ready := taskInit_ready memory ticks kernelPageContext kernelTask
  bounded := .start
  below _ member := List.mem_singleton.mp member ▸ below
  apart := List.pairwise_singleton _ _

/-- What lies behind all tasks is not one of them. -/
theorem OnHeap.fresh (onHeap : OnHeap s ring) (stack entry : UInt32) :
    Fresh s.tasks (.create s.heap.heapPtr stack entry) := by
  intro n reached
  have member := onHeap.ready.linked.iterate_mem n
  have below := onHeap.below _ member
  have positive : 0 < taskSize.toNat := by decide
  rw [reached] at below
  omega

/-- What `heap_ptr` passes stays below it. -/
theorem OnHeap.grow (onHeap : OnHeap s ring) {heap : History} (bounded : Bounded heap)
    (grows : s.heap.heapPtr.toNat ≤ heap.heapPtr.toNat) : OnHeap ⟨s.tasks, heap⟩ ring where
  ready := onHeap.ready
  bounded := bounded
  below t member := (onHeap.below t member).trans grows
  apart := onHeap.apart

/-- What one step does to the tasks. -/
inductive HeapOutcome (fuel : Nat) (s : HeapTasks) (s' : HeapTasks) :
    Option (TaskOp × Option UInt32) → Prop
  | kept : s'.tasks = s.tasks → HeapOutcome fuel s s' none
  | stepped (op : TaskOp) (sel : Option UInt32) : Fresh s.tasks op →
      Task.step fuel s.tasks op = some (sel, s'.tasks) → HeapOutcome fuel s s' (some (op, sel))

/-- A task is created behind the others. -/
theorem OnHeap.create (onHeap : OnHeap s ring) (room : s.Room (.create entry))
    (done : s.step fuel (.create entry) = some (reply, s')) :
    HeapOutcome fuel s s' reply ∧ ∃ ring', OnHeap s' ring' := by
  have size : taskSize.toNat = 64 := rfl
  have room : s.heap.heapPtr.toNat + taskSize.toNat + 4096 < 4294967296 := room
  -- the structure
  obtain ⟨heap₁, first, moved⟩ : ∃ heap₁, s.heap.step (.kmalloc taskSize) = some (s.heap.heapPtr, heap₁) ∧
      heap₁.heapPtr = s.heap.heapPtr + taskSize := ⟨_, rfl, rfl⟩
  have noWrap : NoWrap s.heap (.kmalloc taskSize) :=
    ⟨trivial, show s.heap.heapPtr.toNat + taskSize.toNat < 4294967296 by omega⟩
  have bounded₁ := onHeap.bounded.step noWrap first
  have behind : heap₁.heapPtr.toNat = s.heap.heapPtr.toNat + taskSize.toNat := by
    rw [moved, UInt32.toNat_add]
    omega
  -- the stack
  obtain ⟨heap₂, second⟩ : ∃ heap₂, heap₁.step (.kmalloc 4096) = some (heap₁.heapPtr, heap₂) := ⟨_, rfl⟩
  have noWrap₂ : NoWrap heap₁ (.kmalloc 4096) :=
    ⟨trivial, show heap₁.heapPtr.toNat + 4096 < 4294967296 by omega⟩
  have grows := noWrap₂.grows bounded₁.positive second
  simp only [HeapTasks.step, first, second, Option.bind_eq_bind, Option.bind_some, Option.some.injEq,
    Prod.mk.injEq] at done
  obtain ⟨rfl, rfl⟩ := done
  have fresh := onHeap.fresh heap₁.heapPtr entry
  have created : Task.step fuel s.tasks (.create s.heap.heapPtr heap₁.heapPtr entry) =
    some (none, taskCreate s.tasks s.heap.heapPtr heap₁.heapPtr entry) := rfl
  obtain ⟨ring', stepped⟩ := onHeap.ready.stepped fresh created
  refine ⟨.stepped _ _ fresh created, ring', stepped.ready, bounded₁.step noWrap₂ second, fun t member => ?_, ?_⟩
  · cases List.mem_cons.mp (stepped.tasks.subset member) with
    | inl new =>
      show t.toNat + taskSize.toNat ≤ heap₂.heapPtr.toNat
      rw [new]
      omega
    | inr old =>
      have below := onHeap.below t old
      show t.toNat + taskSize.toNat ≤ heap₂.heapPtr.toNat
      omega
  · refine (stepped.tasks.pairwise_iff Apart.symm).mpr (List.pairwise_cons.mpr ⟨fun b member => ?_, onHeap.apart⟩)
    exact Or.inr (onHeap.below b member)

/-- One step keeps the tasks below `heap_ptr` and apart, and creates in fresh memory. -/
theorem OnHeap.step (onHeap : OnHeap s ring) (room : s.Room op)
    (done : s.step fuel op = some (reply, s')) :
    HeapOutcome fuel s s' reply ∧ ∃ ring', OnHeap s' ring' := by
  cases op with
  | create entry => exact onHeap.create room done
  | allocate call =>
    simp only [HeapTasks.step, Option.bind_eq_bind, Option.bind_eq_some_iff] at done
    obtain ⟨⟨ptr, heap⟩, allocated, same⟩ := done
    cases same
    have noWrap : NoWrap s.heap call := room
    exact ⟨.kept rfl, ring, onHeap.grow (onHeap.bounded.step noWrap allocated)
      (noWrap.grows onHeap.bounded.positive allocated)⟩
  | operate op =>
    simp only [HeapTasks.step, Option.bind_eq_bind, Option.bind_eq_some_iff] at done
    obtain ⟨⟨sel, tasks⟩, run, same⟩ := done
    cases same
    have fresh : Fresh s.tasks op := by
      cases op with
      | create t stack entry => cases room
      | schedule saved => trivial
      | sleep ms saved => trivial
      | kill pid saved => trivial
      | exit saved => trivial
      | tick => trivial
    obtain ⟨ring', stepped⟩ := onHeap.ready.stepped fresh run
    have same : ring' = ring := stepped.kept room
    subst same
    exact ⟨.stepped op sel fresh run, ring', stepped.ready, onHeap.bounded, onHeap.below, onHeap.apart⟩

/-- Along a run the operations on the tasks are a run with `Fresh`. -/
theorem OnHeap.run (onHeap : OnHeap s ring) (run : Run (HeapTasks.step fuel) HeapTasks.Room s calls s') :
    Run (Task.step fuel) Fresh s.tasks (calls.filterMap Prod.snd) s'.tasks ∧ ∃ ring', OnHeap s' ring' := by
  induction run generalizing ring with
  | refl s => exact ⟨.refl _, ring, onHeap⟩
  | @call s s₁ s' op reply rest room done _ ih =>
    obtain ⟨outcome, ring₁, onHeap₁⟩ := onHeap.step room done
    obtain ⟨later, last⟩ := ih onHeap₁
    refine ⟨?_, last⟩
    cases outcome with
    | kept same => exact same ▸ later
    | stepped op sel fresh run => exact .call fresh run later

/-- **Fresh memory for tasks.**  In a run from `task_init` in which `heap_ptr` does not wrap, with
allocations by the rest of the kernel in between, every task is created in memory that no task of
the list occupies, and the structures of the list do not overlap.  The kernel's task lies below
the heap, as `link.ld` places it. -/
theorem tasks_in_fresh_memory (below : kernelTask.toNat + taskSize.toNat ≤ heapBase.toNat)
    (run : Run (HeapTasks.step fuel) HeapTasks.Room (.boot memory ticks kernelPageContext kernelTask) calls s) :
    Run (Task.step fuel) Fresh (taskInit (Tasks.boot memory ticks kernelPageContext) kernelTask)
      (calls.filterMap Prod.snd) s.tasks ∧
      ∃ ring, IsRing (nextOf s.tasks.task) ring ∧ s.tasks.taskList ∈ ring ∧ ring.Pairwise Apart := by
  obtain ⟨tasksRun, ring, onHeap⟩ := (OnHeap.boot below).run run
  exact ⟨tasksRun, ring, onHeap.ready.linked.isRing, onHeap.ready.linked.list, onHeap.apart⟩

end QuantumKernel.Task
