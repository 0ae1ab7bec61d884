import QuantumKernel.Task.Scheduler

/-! # The list of tasks

`Ready` is the invariant of the task list between two operations: the structures form a
single ring that contains the current task and the head of the list, the pids count
the tasks up from the kernel's 0, and the current task is running.
-/

namespace QuantumKernel.Task

open LinkedRing Transition

/-- The tasks `ring` are linked in a single ring, with the pids that were handed out. -/
structure Linked (s : Tasks) (ring : List UInt32) : Prop where
  isRing : IsRing (nextOf s.task) ring
  list : s.taskList ∈ ring
  current : s.current ∈ ring
  pids : (ring.map fun t => (s.task t).pid).Perm ((List.range ring.length).map Int32.ofNat)
  nextPid : s.nextPid = Int32.ofNat ring.length

/-- Between two operations the current task is running. -/
structure Ready (s : Tasks) (ring : List UInt32) : Prop where
  linked : Linked s ring
  running : (s.task s.current).state = .running

/-- `kmalloc` returns memory that no task of the list occupies. -/
def Fresh (s : Tasks) : TaskOp → Prop
  | .create t _ _ => ∀ n, (nextOf s.task)^[n] s.taskList ≠ t
  | _ => True

/-- The task that an operation creates. -/
def TaskOp.made : TaskOp → List UInt32
  | .create t _ _ => [t]
  | _ => []

/-- After `task_schedule`: the tasks are those that the search left, up to the saved
registers, and `next` is the current one. -/
structure Switched (s : Tasks) (task' : UInt32 → TaskT) (next : UInt32) (s' : Tasks) : Prop where
  current : s'.current = next
  taskList : s'.taskList = s.taskList
  nextPid : s'.nextPid = s.nextPid
  ticks : s'.ticks = s.ticks
  task : ∀ t, s'.task t = { task' t with context := (s'.task t).context }

variable {s s' : Tasks} {ring : List UInt32} {task' : UInt32 → TaskT} {t a next : UInt32} {fuel : Nat}
  {op : TaskOp} {sel : Option UInt32} {saved : SavedContext} {f : TaskT → TaskT}

/-! ## Changes that keep the list -/

theorem Switched.state (switched : Switched s task' next s') (t : UInt32) :
    (s'.task t).state = (task' t).state := by
  rw [switched.task]

theorem Switched.next_eq (switched : Switched s task' next s') (t : UInt32) :
    (s'.task t).next = (task' t).next := by
  rw [switched.task]

theorem Switched.pid (switched : Switched s task' next s') (t : UInt32) :
    (s'.task t).pid = (task' t).pid := by
  rw [switched.task]

theorem Tasks.modify_self (s : Tasks) (t : UInt32) (f : TaskT → TaskT) :
    (s.modify t f).task t = f (s.task t) := Function.update_self _ _ _

theorem Tasks.modify_of_ne (ne : a ≠ t) (f : TaskT → TaskT) : (s.modify t f).task a = s.task a :=
  Function.update_of_ne ne _ _

/-- The list depends on the next pointers and the pids only. -/
theorem Linked.congr (linked : Linked s ring) (next : ∀ t ∈ ring, (s'.task t).next = (s.task t).next)
    (pid : ∀ t ∈ ring, (s'.task t).pid = (s.task t).pid) (list : s'.taskList = s.taskList)
    (current : s'.current ∈ ring) (nextPid : s'.nextPid = s.nextPid) : Linked s' ring where
  isRing := linked.isRing.congr next
  list := list ▸ linked.list
  current := current
  pids := by
    rw [List.map_congr_left pid]
    exact linked.pids
  nextPid := nextPid.trans linked.nextPid

theorem Linked.modify (linked : Linked s ring) (t : UInt32) (next : (f (s.task t)).next = (s.task t).next)
    (pid : (f (s.task t)).pid = (s.task t).pid) : Linked (s.modify t f) ring := by
  refine linked.congr (fun x _ => ?_) (fun x _ => ?_) rfl linked.current rfl
  · by_cases here : x = t
    · rw [here, Tasks.modify_self, next]
    · rw [Tasks.modify_of_ne here]
  · by_cases here : x = t
    · rw [here, Tasks.modify_self, pid]
    · rw [Tasks.modify_of_ne here]

theorem Linked.closed (linked : Linked s ring) : ∀ x ∈ {x | x ∈ ring}, (s.task x).next ∈ {x | x ∈ ring} :=
  fun _ member => linked.isRing.next_mem member

theorem Linked.iterate_mem (linked : Linked s ring) (n : Nat) : (nextOf s.task)^[n] s.taskList ∈ ring := by
  induction n with
  | zero => exact linked.list
  | succ n ih =>
    rw [Function.iterate_succ_apply']
    exact linked.closed _ ih

/-! ## `task_schedule` -/

theorem taskSchedule_switched (done : taskSchedule fuel s saved = some (next, s')) :
    ∃ task', scheduleLoop s.ticks fuel s.task (s.task s.current).next = some (next, task') ∧
      Switched s task' next s' := by
  simp only [taskSchedule, Option.bind_eq_bind, Option.bind_eq_some_iff] at done
  obtain ⟨⟨x, task'⟩, found, done⟩ := done
  refine ⟨task', ?_⟩
  split at done
  · rename_i same
    cases done
    exact ⟨found, same.symm, rfl, rfl, rfl, fun t => rfl⟩
  · rename_i other
    cases done
    refine ⟨found, ?_, ?_, ?_, ?_, fun t => ?_⟩
    · simp only [Tasks.modify, taskSetCurrent]
      split <;> rfl
    · simp only [Tasks.modify, taskSetCurrent]
      split <;> rfl
    · simp only [Tasks.modify, taskSetCurrent]
      split <;> rfl
    · simp only [Tasks.modify, taskSetCurrent]
      split <;> rfl
    · have kept : (taskSetCurrent { s with task := task' } x).task = task' := by
        simp only [taskSetCurrent]
        split <;> rfl
      by_cases here : t = s.current
      · rw [here, Tasks.modify_self, kept]
      · rw [Tasks.modify_of_ne here, kept]

theorem taskSchedule_returns (saved : SavedContext)
    (found : scheduleLoop s.ticks fuel s.task (s.task s.current).next = some (next, task')) :
    ∃ s', taskSchedule fuel s saved = some (next, s') := by
  simp only [taskSchedule, found, Option.bind_eq_bind, Option.bind_some]
  split
  · exact ⟨_, rfl⟩
  · exact ⟨_, rfl⟩

/-- What a call of `task_schedule` did to a linked list of tasks. -/
structure Scheduled (s : Tasks) (ring : List UInt32) (next : UInt32) (s' : Tasks) : Prop where
  ready : Ready s' ring
  current : s'.current = next
  zombie : ∀ t, (s.task t).state = .zombie → (s'.task t).state = .zombie
  running : ∀ t, (s.task t).state = .running → (s'.task t).state = .running

theorem Linked.scheduled (linked : Linked s ring) (done : taskSchedule fuel s saved = some (next, s')) :
    Scheduled s ring next s' := by
  obtain ⟨task', found, switched⟩ := taskSchedule_switched done
  obtain ⟨running, woken⟩ := scheduleLoop_woken found
  have member := scheduleLoop_mem linked.closed (linked.closed _ linked.current) found
  refine ⟨⟨linked.congr (fun x _ => ?_) (fun x _ => ?_) switched.taskList ?_ switched.nextPid, ?_⟩,
    switched.current, fun x zombie => ?_, fun x run => ?_⟩
  · rw [switched.next_eq, woken.next]
  · rw [switched.pid, woken.pid]
  · rw [switched.current]
    exact member
  · rw [switched.current, switched.state, running]
  · rw [switched.state, woken.zombie zombie, zombie]
  · rw [switched.state, woken.running run, run]

/-! ## One operation -/

theorem Ready.not_fresh (ready : Ready s ring) {stack entry : UInt32}
    (fresh : Fresh s (.create t stack entry)) : t ∉ ring := by
  intro member
  obtain ⟨n, reached⟩ := ready.linked.isRing.iterate ready.linked.list member
  exact fresh n reached

/-- The structures after `task_create`. -/
theorem taskCreate_task (s : Tasks) (stack entry : UInt32) (ne : t ≠ s.taskList) :
    (taskCreate s t stack entry).task = Function.update (Function.update s.task t
      { TaskT.zero with
        context := initialContext stack entry
        state := .running
        pid := s.nextPid
        pageCtx := pagingCreateContext s
        next := (s.task s.taskList).next }) s.taskList { s.task s.taskList with next := t } := by
  simp only [taskCreate, Tasks.modify, Function.update_of_ne (Ne.symm ne), Function.update_idem,
    Function.update_self]

@[simp] theorem taskCreate_current (s : Tasks) (t stack entry : UInt32) :
    (taskCreate s t stack entry).current = s.current := rfl

/-- The tasks that exist keep all but the next pointer. -/
theorem taskCreate_old (s : Tasks) (stack entry : UInt32) (ne : t ≠ s.taskList) (old : a ≠ t) :
    ∃ next, (taskCreate s t stack entry).task a = { s.task a with next := next } := by
  rw [taskCreate_task s stack entry ne]
  by_cases here : a = s.taskList
  · subst here
    exact ⟨t, Function.update_self _ _ _⟩
  · rw [Function.update_of_ne here, Function.update_of_ne old]
    exact ⟨(s.task a).next, rfl⟩

/-- A new task is linked in behind the head of the list. -/
theorem Ready.create (ready : Ready s ring) (stack entry : UInt32) (notIn : t ∉ ring) {p q : List UInt32}
    (split : ring = p ++ s.taskList :: q) :
    Ready (taskCreate s t stack entry) (p ++ s.taskList :: t :: q) := by
  obtain ⟨⟨isRing, list, current, pids, nextPid⟩, running⟩ := ready
  have ne : t ≠ s.taskList := fun same => notIn (same ▸ list)
  have task := taskCreate_task s stack entry ne
  have old {a : UInt32} (member : a ∈ ring) : a ≠ t := fun same => notIn (same ▸ member)
  -- the new task is linked behind the head of the list
  have next : nextOf (taskCreate s t stack entry).task = Function.update
      (Function.update (nextOf s.task) t (nextOf s.task s.taskList)) s.taskList t := by
    funext a
    rw [nextOf, task]
    by_cases here : a = s.taskList
    · subst here
      rw [Function.update_self, Function.update_self]
    · rw [Function.update_of_ne here, Function.update_of_ne here]
      by_cases new : a = t
      · subst new
        rw [Function.update_self, Function.update_self]
      · rw [Function.update_of_ne new, Function.update_of_ne new]
  have pidOld : ∀ a ∈ ring, ((taskCreate s t stack entry).task a).pid = (s.task a).pid := by
    intro a member
    obtain ⟨next, same⟩ := taskCreate_old s stack entry ne (old member)
    rw [same]
  -- it gets the next pid, the others keep theirs
  have pidNew : ((taskCreate s t stack entry).task t).pid = Int32.ofNat ring.length := by
    rw [task, Function.update_of_ne ne, Function.update_self]
    exact nextPid
  have inserted : (p ++ s.taskList :: t :: q).Perm (t :: ring) := by
    rw [split]
    exact (List.perm_middle.symm.trans (List.Perm.append_left p (List.Perm.swap _ _ _))).symm
  refine ⟨⟨?_, ?_, ?_, ?_, ?_⟩, ?_⟩
  · rw [next]
    rw [split] at isRing notIn
    exact isRing.insert notIn
  · simp [taskCreate, Tasks.modify]
  · exact inserted.symm.subset (List.mem_cons_of_mem _ current)
  · have counted : (List.range (ring.length + 1)).map Int32.ofNat =
        (List.range ring.length).map Int32.ofNat ++ [Int32.ofNat ring.length] := by
      rw [List.range_succ, List.map_append]
      rfl
    rw [inserted.length_eq, List.length_cons, counted]
    refine ((inserted.map _).trans ?_).trans List.perm_append_comm
    rw [List.map_cons, pidNew, List.map_congr_left pidOld]
    exact List.Perm.cons _ pids
  · rw [inserted.length_eq, List.length_cons]
    show s.nextPid + 1 = _
    rw [nextPid, Int32.ofNat_add]
    rfl
  · obtain ⟨next, same⟩ := taskCreate_old s stack entry ne (old current)
    show ((taskCreate s t stack entry).task s.current).state = .running
    rw [same]
    exact running

/-- What an operation can do: the current task stores a state of its own and calls
`task_schedule`, or nobody is selected. -/
inductive Outcome (fuel : Nat) (s : Tasks) : TaskOp → Option UInt32 → Tasks → Prop
  | created (t stack entry : UInt32) : Outcome fuel s (.create t stack entry) none (taskCreate s t stack entry)
  | ticked : Outcome fuel s .tick none { s with ticks := s.ticks + 1 }
  | missed (pid : Int32) (saved : SavedContext) : Outcome fuel s (.kill pid saved) none s
  | killed (pid : Int32) (saved : SavedContext) {t : UInt32} : t ≠ s.current →
      Outcome fuel s (.kill pid saved) none (s.modify t fun task => { task with state := .zombie })
  | switched {op : TaskOp} {f : TaskT → TaskT} {saved : SavedContext} {next : UInt32} {s' : Tasks} :
      op.made = [] → op ≠ .tick → (∀ task, (f task).next = task.next ∧ (f task).pid = task.pid) →
      taskSchedule fuel (s.modify s.current f) saved = some (next, s') → Outcome fuel s op (some next) s'

theorem step_outcome (done : step fuel s op = some (sel, s')) : Outcome fuel s op sel s' := by
  cases op with
  | create t stack entry =>
    cases done
    exact .created t stack entry
  | tick =>
    cases done
    exact .ticked
  | schedule saved =>
    simp only [step, Option.map_eq_some_iff] at done
    obtain ⟨⟨next, s₁⟩, run, same⟩ := done
    cases same
    -- the current task stays as it is
    have kept : s.modify s.current id = s := by
      rw [Tasks.modify, id, Function.update_eq_self]
    rw [← kept] at run
    exact .switched rfl TaskOp.noConfusion (fun _ => ⟨rfl, rfl⟩) run
  | sleep ms saved =>
    simp only [step, Option.map_eq_some_iff] at done
    obtain ⟨⟨next, s₁⟩, run, same⟩ := done
    cases same
    exact .switched (f := fun task => { task with state := .sleeping, wakeupTick := s.ticks + ms })
      rfl TaskOp.noConfusion (fun _ => ⟨rfl, rfl⟩) run
  | exit saved =>
    simp only [step, Option.map_eq_some_iff] at done
    obtain ⟨⟨next, s₁⟩, run, same⟩ := done
    cases same
    exact .switched (f := fun task => { task with state := .zombie }) rfl TaskOp.noConfusion
      (fun _ => ⟨rfl, rfl⟩) run
  | kill pid saved =>
    simp only [step, taskKill, Option.bind_eq_bind, Option.map_eq_some_iff,
      Option.bind_eq_some_iff] at done
    obtain ⟨⟨result, next, s₁⟩, ⟨found, walked, done⟩, same⟩ := done
    cases same
    cases found with
    | none =>
      cases done
      exact .missed pid saved
    | some t =>
      by_cases here : t = s.current
      · simp only [here, if_true, Option.bind_eq_some_iff] at done
        obtain ⟨⟨next, s₂⟩, run, same⟩ := done
        cases same
        exact .switched (f := fun task => { task with state := .zombie }) rfl TaskOp.noConfusion
          (fun _ => ⟨rfl, rfl⟩) run
      · simp only [here, if_false] at done
        cases done
        exact .killed pid saved here

/-- What holds after one operation. -/
structure Stepped (s : Tasks) (ring : List UInt32) (op : TaskOp) (sel : Option UInt32) (s' : Tasks)
    (ring' : List UInt32) : Prop where
  ready : Ready s' ring'
  tasks : ring'.Perm (op.made ++ ring)
  kept : op.made = [] → ring' = ring
  selected : ∀ t, sel = some t → s'.current = t
  zombie : ∀ t ∈ ring, (s.task t).state = .zombie → (s'.task t).state = .zombie

/-- The caller changes its own state and calls `task_schedule`. -/
theorem Ready.schedule_as (ready : Ready s ring) {f : TaskT → TaskT}
    (next : (f (s.task s.current)).next = (s.task s.current).next)
    (pid : (f (s.task s.current)).pid = (s.task s.current).pid)
    (done : taskSchedule fuel (s.modify s.current f) saved = some (t, s')) :
    Ready s' ring ∧ s'.current = t ∧
      ∀ x ∈ ring, (s.task x).state = .zombie → (s'.task x).state = .zombie := by
  have scheduled := (ready.linked.modify s.current next pid).scheduled done
  refine ⟨scheduled.ready, scheduled.current, fun x _ zombie => scheduled.zombie x ?_⟩
  have other : x ≠ s.current := by
    rintro rfl
    exact absurd (ready.running.symm.trans zombie) (by decide)
  rw [Tasks.modify_of_ne other]
  exact zombie

/-- `task_kill` of another task. -/
theorem Ready.killed (ready : Ready s ring) (other : t ≠ s.current) :
    Ready (s.modify t fun task => { task with state := .zombie }) ring := by
  refine ⟨ready.linked.modify t rfl rfl, ?_⟩
  have same := Tasks.modify_of_ne (s := s) (Ne.symm other) fun task => { task with state := .zombie }
  exact (congrArg TaskT.state same).trans ready.running

/-- **One operation keeps the task list in order.** -/
theorem Ready.stepped (ready : Ready s ring) (fresh : Fresh s op)
    (done : step fuel s op = some (sel, s')) : ∃ ring', Stepped s ring op sel s' ring' := by
  cases step_outcome done with
  | created t stack entry =>
    have notIn := ready.not_fresh fresh
    obtain ⟨p, q, split⟩ := List.append_of_mem ready.linked.list
    refine ⟨_, ready.create stack entry notIn split, ?_, by simp [TaskOp.made], by simp,
      fun x member zombie => ?_⟩
    · rw [split]
      exact (List.perm_middle.symm.trans (List.Perm.append_left p (List.Perm.swap _ _ _))).symm
    · have ne : t ≠ s.taskList := fun same => notIn (same ▸ ready.linked.list)
      obtain ⟨next, same⟩ := taskCreate_old s stack entry ne
        (fun equal : x = t => notIn (equal ▸ member))
      rw [same]
      exact zombie
  | ticked =>
    obtain ⟨⟨isRing, list, current, pids, nextPid⟩, running⟩ := ready
    exact ⟨ring, ⟨⟨isRing, list, current, pids, nextPid⟩, running⟩, .refl ring, fun _ => rfl, by simp,
      fun _ _ zombie => zombie⟩
  | missed pid saved => exact ⟨ring, ready, .refl ring, fun _ => rfl, by simp, fun _ _ zombie => zombie⟩
  | @killed pid saved x other =>
    refine ⟨ring, ready.killed other, .refl ring, fun _ => rfl, by simp, fun t _ zombie => ?_⟩
    by_cases here : t = x
    · rw [here, Tasks.modify_self]
    · rw [Tasks.modify_of_ne here]
      exact zombie
  | switched old _ links run =>
    obtain ⟨ready', current, zombie⟩ := ready.schedule_as (links _).1 (links _).2 run
    refine ⟨ring, ready', ?_, fun _ => rfl, fun t same => by cases same; exact current, zombie⟩
    rw [old]
    exact .refl ring

/-! ## Runs -/

/-- The variables of `task.c` before `task_init`. -/
def Tasks.boot (task : UInt32 → TaskT) (ticks kernelPageContext : UInt32) : Tasks where
  task := task
  current := 0
  taskList := 0
  nextPid := 1
  ticks := ticks
  kernelPageContext := kernelPageContext
  currentContext := kernelPageContext

/-- The tasks that the calls created. -/
def created (calls : List (TaskOp × Option UInt32)) : List UInt32 := calls.flatMap fun call => call.1.made

variable {calls : List (TaskOp × Option UInt32)} {memory : UInt32 → TaskT}
  {ticks kernelPageContext kernelTask : UInt32}

theorem taskInit_ready (memory : UInt32 → TaskT) (ticks kernelPageContext kernelTask : UInt32) :
    Ready (taskInit (Tasks.boot memory ticks kernelPageContext) kernelTask) [kernelTask] := by
  have task : (taskInit (Tasks.boot memory ticks kernelPageContext) kernelTask).task kernelTask =
      { TaskT.zero with pid := 0, state := .running, pageCtx := kernelPageContext, next := kernelTask } :=
    Function.update_self _ _ _
  refine ⟨⟨⟨List.nodup_singleton _, List.cons_ne_nil _ _, kernelTask, .cons ?_⟩,
    List.mem_singleton_self _, List.mem_singleton_self _, ?_, rfl⟩, ?_⟩
  · rw [nextOf, task]
    exact .nil kernelTask
  · rw [List.map_singleton, task]
    exact .refl _
  · exact congrArg TaskT.state task

/-- Along a run the task list stays in order and gets the created tasks. -/
theorem Ready.run (ready : Ready s ring) (run : Run (step fuel) Fresh s calls s') :
    ∃ ring', Ready s' ring' ∧ ring'.Perm (created calls ++ ring) ∧
      (∀ t ∈ ring, (s.task t).state = .zombie → (s'.task t).state = .zombie) := by
  induction run generalizing ring with
  | refl s => exact ⟨ring, ready, .refl ring, fun _ _ zombie => zombie⟩
  | @call s s₁ s' op sel rest fresh done _ ih =>
    obtain ⟨ring₁, ready₁, tasks₁, -, -, zombie₁⟩ := ready.stepped fresh done
    obtain ⟨ring', ready', tasks', zombie'⟩ := ih ready₁
    refine ⟨ring', ready', ?_, fun t member zombie => ?_⟩
    · rw [created, List.flatMap_cons]
      refine tasks'.trans ((List.Perm.append_left _ tasks₁).trans ?_)
      rw [← List.append_assoc]
      exact List.Perm.append_right _ List.perm_append_comm
    · exact zombie' t (tasks₁.symm.subset (List.mem_append_right _ member)) (zombie₁ t member zombie)

/-- A zombie is not selected. -/
theorem Ready.not_selected (ready : Ready s ring) (run : Run (step fuel) Fresh s calls s')
    (member : t ∈ ring) (zombie : (s.task t).state = .zombie) : ∀ call ∈ calls, call.2 ≠ some t := by
  induction run generalizing ring with
  | refl s => simp
  | @call s s₁ s' op sel rest fresh done _ ih =>
    obtain ⟨ring₁, ready₁, tasks₁, -, selected, zombie₁⟩ := ready.stepped fresh done
    have still := zombie₁ t member zombie
    refine List.forall_mem_cons.mpr ⟨fun same => ?_,
      ih ready₁ (tasks₁.symm.subset (List.mem_append_right _ member)) still⟩
    -- the selected task is the current one, which is running
    have running := ready₁.running
    rw [selected t same, still] at running
    exact absurd running (by decide)

/-- Up to `2^32` tasks have different pids. -/
theorem Linked.pids_distinct (linked : Linked s ring) (few : ring.length ≤ 4294967296) :
    (ring.map fun t => (s.task t).pid).Nodup := by
  refine linked.pids.nodup_iff.mpr (List.Nodup.map_on ?_ List.nodup_range)
  intro i boundI j boundJ same
  have boundI := List.mem_range.mp boundI
  have boundJ := List.mem_range.mp boundJ
  have value (n : Nat) (bound : n < 4294967296) : (Int32.ofNat n).toBitVec.toNat = n :=
    Nat.mod_eq_of_lt bound
  have values := congrArg (fun pid => pid.toBitVec.toNat) same
  rwa [value i (by omega), value j (by omega)] at values

/-- **The task list.**  In every state reached from `task_init` the tasks form one ring
that holds the kernel task and every created task once; the pids are different; what
the next operation selects is running and becomes the current task; and a zombie stays
one and is not selected any more. -/
theorem task_list_in_order
    (run : Run (step fuel) Fresh (taskInit (Tasks.boot memory ticks kernelPageContext) kernelTask)
      calls s) (few : (created calls).length < 2147483648) :
    ∃ ring, IsRing (nextOf s.task) ring ∧ ring.Perm (kernelTask :: created calls) ∧
      (ring.map fun t => (s.task t).pid).Nodup ∧ s.current ∈ ring ∧
      (∀ op sel s', Fresh s op → step fuel s op = some (sel, s') → ∀ t, sel = some t →
        s'.current = t ∧ (s'.task t).state = .running) ∧
      ∀ t ∈ ring, (s.task t).state = .zombie → ∀ later s', Run (step fuel) Fresh s later s' →
        (s'.task t).state = .zombie ∧ ∀ call ∈ later, call.2 ≠ some t := by
  obtain ⟨ring, ready, tasks, -⟩ :=
    (taskInit_ready memory ticks kernelPageContext kernelTask).run run
  have perm : ring.Perm (kernelTask :: created calls) := tasks.trans List.perm_append_comm
  refine ⟨ring, ready.linked.isRing, perm, ready.linked.pids_distinct ?_, ready.linked.current, ?_, ?_⟩
  · rw [perm.length_eq, List.length_cons]
    omega
  · intro op sel s' fresh done t selected
    obtain ⟨ring', stepped⟩ := ready.stepped fresh done
    have current := stepped.selected t selected
    exact ⟨current, current ▸ stepped.ready.running⟩
  · intro t member zombie later s' laterRun
    obtain ⟨-, -, -, still⟩ := ready.run laterRun
    exact ⟨still t member zombie, ready.not_selected laterRun member zombie⟩

/-- The kernel task alone: its next pointer leads back to it. -/
theorem taskInit_fresh (memory : UInt32 → TaskT) (ticks kernelPageContext : UInt32) {t : UInt32}
    (ne : t ≠ kernelTask) (stack entry : UInt32) :
    Fresh (taskInit (Tasks.boot memory ticks kernelPageContext) kernelTask) (.create t stack entry) := by
  intro n reached
  have member := (taskInit_ready memory ticks kernelPageContext kernelTask).linked.iterate_mem n
  exact ne (reached ▸ List.mem_singleton.mp member)

theorem task_list_in_order_two :
    ∃ calls s, Run (step 10) Fresh (taskInit (Tasks.boot (fun _ => TaskT.zero) 0 4096) 64) calls s ∧
      ∃ ring, IsRing (nextOf s.task) ring ∧ ring.Perm [64, 8192] := by
  have run : Run (step 10) Fresh (taskInit (Tasks.boot (fun _ => TaskT.zero) 0 4096) 64)
      [(.create 8192 8256 1048576, none)] _ :=
    .call (taskInit_fresh _ 0 4096 (by decide) 8256 1048576) rfl (.refl _)
  obtain ⟨ring, isRing, perm, -⟩ := task_list_in_order run (by decide)
  exact ⟨_, _, run, ring, isRing, perm⟩

end QuantumKernel.Task
