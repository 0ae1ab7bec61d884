import QuantumKernel.Library.Transition
import QuantumKernel.Library.LinkedRing

/-! # Tasks

The task structures of `task.c` in memory, the variables of `task.c`, and the operations
that a task in the kernel performs on them, up to the point where another task runs.
Names are left out: nothing here reads them.
-/

namespace QuantumKernel.Task

/-- `task_state_t`. -/
inductive TaskState
  | running | sleeping | zombie
  deriving DecidableEq, Repr

/-- The fields that `context_switch` saves and loads. -/
structure SavedContext where
  esp : UInt32
  ebp : UInt32
  eip : UInt32

/-- `task_t`. -/
structure TaskT where
  pid : Int32
  context : SavedContext
  state : TaskState
  wakeupTick : UInt32
  pageCtx : UInt32
  next : UInt32

structure Tasks where
  /-- The structure at an address. -/
  task : UInt32 → TaskT
  current : UInt32
  taskList : UInt32
  nextPid : Int32
  /-- `ticks` of the timer. -/
  ticks : UInt32
  kernelPageContext : UInt32
  currentContext : UInt32

/-- Stores to one structure. -/
def Tasks.modify (s : Tasks) (t : UInt32) (f : TaskT → TaskT) : Tasks :=
  { s with task := Function.update s.task t (f (s.task t)) }

/-- A structure after `memset(t, 0, sizeof(task_t))`. -/
def TaskT.zero : TaskT where
  pid := 0
  context := ⟨0, 0, 0⟩
  state := .running
  wakeupTick := 0
  pageCtx := 0
  next := 0

/-- `task_init`: `kernelTask` is the address of the static `kernel_task`. -/
def taskInit (s : Tasks) (kernelTask : UInt32) : Tasks :=
  let s := s.modify kernelTask fun _ => { TaskT.zero with
    pid := 0
    state := .running
    pageCtx := s.kernelPageContext
    next := kernelTask }
  { s with current := kernelTask, taskList := kernelTask }

/-- `paging_create_context`. -/
def pagingCreateContext (s : Tasks) : UInt32 := s.kernelPageContext

/-- The saved registers of a new task, whose stack starts at `stack`. -/
def initialContext (stack entry : UInt32) : SavedContext :=
  let stackTop := stack + 4096 - 4
  ⟨stackTop, stackTop, entry⟩

/-- `task_create`: `t` and `stack` are what the two calls of `kmalloc` returned. -/
def taskCreate (s : Tasks) (t stack entry : UInt32) : Tasks :=
  let s := { s.modify t fun _ => { TaskT.zero with
    context := initialContext stack entry
    state := .running
    pid := s.nextPid
    pageCtx := pagingCreateContext s } with nextPid := s.nextPid + 1 }
  let s := s.modify t fun task => { task with next := (s.task s.taskList).next }
  s.modify s.taskList fun task => { task with next := t }

/-- `task_set_current`, with `paging_switch_context`. -/
def taskSetCurrent (s : Tasks) (t : UInt32) : Tasks :=
  let s := { s with current := t }
  if t ≠ 0 ∧ (s.task t).pageCtx ≠ 0 then { s with currentContext := (s.task t).pageCtx } else s

/-- The body of the search loop of `task_schedule`: a sleeper that is due is woken. -/
def wake (now : UInt32) (task : TaskT) : TaskT :=
  if task.state = .sleeping ∧ task.wakeupTick ≤ now then { task with state := .running } else task

/-- The search loop of `task_schedule`; `none` when the fuel runs out. -/
def scheduleLoop (now : UInt32) : Nat → (UInt32 → TaskT) → UInt32 → Option (UInt32 × (UInt32 → TaskT))
  | 0, _, _ => none
  | fuel + 1, task, next =>
    if (task next).state ≠ .running then
      let task := Function.update task next (wake now (task next))
      scheduleLoop now fuel task (task next).next
    else some (next, task)

/-- `task_schedule`: the task it selects, and the state when that task goes on.  `saved`
are the registers that `context_switch` stores for the old task. -/
def taskSchedule (fuel : Nat) (s : Tasks) (saved : SavedContext) : Option (UInt32 × Tasks) := do
  let prev := s.current
  let (next, task) ← scheduleLoop s.ticks fuel s.task (s.task prev).next
  let s := { s with task := task }
  if next = prev then some (next, s)
  else some (next, (taskSetCurrent s next).modify prev fun task => { task with context := saved })

/-- `task_exit`. -/
def taskExit (fuel : Nat) (s : Tasks) (saved : SavedContext) : Option (UInt32 × Tasks) :=
  taskSchedule fuel (s.modify s.current fun task => { task with state := .zombie }) saved

/-- `task_sleep`. -/
def taskSleep (fuel : Nat) (s : Tasks) (ms : UInt32) (saved : SavedContext) :
    Option (UInt32 × Tasks) :=
  taskSchedule fuel (s.modify s.current fun task =>
    { task with state := .sleeping, wakeupTick := s.ticks + ms }) saved

/-- The loop of `task_kill`: the first task with the given pid. -/
def killLoop (task : UInt32 → TaskT) (start : UInt32) (pid : Int32) :
    Nat → UInt32 → Option (Option UInt32)
  | 0, _ => none
  | fuel + 1, t =>
    if (task t).pid = pid then some (some t)
    else if (task t).next = start then some none
    else killLoop task start pid fuel (task t).next

/-- `task_kill`: its result, and the task selected when it ends in `task_exit`. -/
def taskKill (fuel : Nat) (s : Tasks) (pid : Int32) (saved : SavedContext) :
    Option (Int32 × Option UInt32 × Tasks) := do
  let found ← killLoop s.task s.taskList pid fuel s.taskList
  match found with
  | none => some (-1, none, s)
  | some t =>
    if t = s.current then do
      let (next, s) ← taskExit fuel s saved
      some (0, some next, s)
    else some (0, none, s.modify t fun task => { task with state := .zombie })

/-! ## Operations -/

/-- What the running task, or the timer, can do. -/
inductive TaskOp
  | create (t stack entry : UInt32)
  | schedule (saved : SavedContext)
  | sleep (ms : UInt32) (saved : SavedContext)
  | kill (pid : Int32) (saved : SavedContext)
  | exit (saved : SavedContext)
  | tick

/-- One operation: the task that `task_schedule` selected, if it was called. -/
def step (fuel : Nat) (s : Tasks) : TaskOp → Option (Option UInt32 × Tasks)
  | .create t stack entry => some (none, taskCreate s t stack entry)
  | .schedule saved => (taskSchedule fuel s saved).map fun (next, s) => (some next, s)
  | .sleep ms saved => (taskSleep fuel s ms saved).map fun (next, s) => (some next, s)
  | .kill pid saved => (taskKill fuel s pid saved).map fun (_, next, s) => (next, s)
  | .exit saved => (taskExit fuel s saved).map fun (next, s) => (some next, s)
  | .tick => some (none, { s with ticks := s.ticks + 1 })

end QuantumKernel.Task
