import QuantumKernel.Exec.Translations

/-! # One address space for all tasks

`paging_create_context` hands out the kernel's own page context, to every task that is
created and to every program that is loaded.  So all tasks have the same address space in
every reachable state, and a mapping made for one of them is made for all.
-/

namespace QuantumKernel.Exec

open Pages Fat32 Transition QuantumKernel.Task

/-- A call of `paging_map_page` or of `paging_unmap_page`. -/
inductive PageCall
  | map (virt phys flags : UInt32)
  | unmap (virt : UInt32)

def PageCall.virt : PageCall → UInt32
  | .map virt _ _ => virt
  | .unmap virt => virt

def PageCall.run (p : Paging) (ctx : UInt32) : PageCall → Paging
  | .map virt phys flags => pagingMapPage p ctx virt phys flags
  | .unmap virt => pagingUnmapPage p ctx virt

/-- Calls in the context of the task `t`. -/
def Kernel.onBehalf (k : Kernel) (t : UInt32) (calls : List PageCall) : Kernel :=
  { k with paging := calls.foldl (fun p call => call.run p (k.tasks.task t).pageCtx) k.paging }

/-- The translation that the task `t` sees. -/
def seenBy (k : Kernel) (t a : UInt32) : UInt32 := pagingGetPhysical k.paging (k.tasks.task t).pageCtx a

inductive KernelOp
  | task (op : TaskOp)
  /-- `exec`, by the task that runs. -/
  | exec (path : CString)
  | page (t : UInt32) (call : PageCall)

/-- One operation: the task that was selected, or the entry point of the program. -/
def kernelStep (fuel : Nat) (k : Kernel) : KernelOp → Option (Option UInt32 × Kernel)
  | .task op => (step fuel k.tasks op).map fun (sel, tasks) => (sel, { k with tasks := tasks })
  | .exec path => exec fuel k path
  | .page t call => some (none, k.onBehalf t [call])

/-- The tasks that the calls created. -/
def tasksMade (calls : List (KernelOp × Option UInt32)) : List UInt32 :=
  calls.flatMap fun call => match call.1 with
    | .task op => op.made
    | _ => []

variable {k k' : Kernel} {s s' : Tasks} {t u a ctx : UInt32} {fuel : Nat} {op : TaskOp} {sel r : Option UInt32}
  {saved : SavedContext} {f : TaskT → TaskT} {path : CString} {header : ElfHeader} {file file' : Fat32File}
  {i : UInt16} {ph : ElfProgramHeader} {base : UInt32} {calls : List (KernelOp × Option UInt32)}
  {made : List UInt32}

/-! ## Page contexts of the tasks -/

/-- The kernel's context stays, and so do those of the tasks. -/
structure SameContexts (s s' : Tasks) : Prop where
  kernel : s'.kernelPageContext = s.kernelPageContext
  task : ∀ t, (s'.task t).pageCtx = (s.task t).pageCtx

theorem SameContexts.trans {s'' : Tasks} (first : SameContexts s s') (second : SameContexts s' s'') :
    SameContexts s s'' :=
  ⟨second.kernel.trans first.kernel, fun t => (second.task t).trans (first.task t)⟩

theorem SameContexts.modify (s : Tasks) (t : UInt32) (keeps : ∀ task, (f task).pageCtx = task.pageCtx) :
    SameContexts s (s.modify t f) := by
  refine ⟨rfl, fun x => ?_⟩
  by_cases here : x = t
  · rw [here, Tasks.modify_self, keeps]
  · rw [Tasks.modify_of_ne here]

theorem taskSchedule_contexts (done : taskSchedule fuel s saved = some (t, s')) : SameContexts s s' := by
  obtain ⟨task', found, switched⟩ := taskSchedule_switched done
  obtain ⟨-, woken⟩ := scheduleLoop_woken found
  refine ⟨?_, fun x => ?_⟩
  · simp only [taskSchedule, Option.bind_eq_bind, Option.bind_eq_some_iff] at done
    obtain ⟨⟨next, task₁⟩, -, done⟩ := done
    split at done
    · cases done
      rfl
    · cases done
      simp only [Tasks.modify, taskSetCurrent]
      split <;> rfl
  · rw [switched.task]
    show (task' x).pageCtx = (s.task x).pageCtx
    cases woken x with
    | inl same => rw [same]
    | inr waked =>
      rw [waked, wake]
      split <;> rfl

/-- The caller changes its own state and calls `task_schedule`. -/
theorem taskSchedule_as (keeps : ∀ task, (f task).pageCtx = task.pageCtx)
    (done : taskSchedule fuel (s.modify s.current f) saved = some (t, s')) : SameContexts s s' :=
  (SameContexts.modify s s.current keeps).trans (taskSchedule_contexts done)

/-- The page context of a new task is the kernel's, and the others keep theirs. -/
theorem taskCreate_pageCtx (s : Tasks) (t stack entry x : UInt32) :
    ((taskCreate s t stack entry).task x).pageCtx = if x = t then s.kernelPageContext else (s.task x).pageCtx := by
  simp only [taskCreate, Tasks.modify, pagingCreateContext, Function.update_apply]
  grind

/-- What an operation on the tasks can do to the page contexts. -/
theorem step_contexts (done : step fuel s op = some (sel, s')) :
    s'.kernelPageContext = s.kernelPageContext ∧
      ∀ x, (s'.task x).pageCtx = if x ∈ op.made then s.kernelPageContext else (s.task x).pageCtx := by
  -- an operation that makes no task changes no page directory
  have unmade (same : SameContexts s s') (none : op.made = []) :
      s'.kernelPageContext = s.kernelPageContext ∧
        ∀ x, (s'.task x).pageCtx = if x ∈ op.made then s.kernelPageContext else (s.task x).pageCtx := by
    refine ⟨same.kernel, fun x => ?_⟩
    rw [none, if_neg List.not_mem_nil, same.task]
  cases op with
  | create t stack entry =>
    cases done
    refine ⟨rfl, fun x => ?_⟩
    rw [taskCreate_pageCtx]
    simp [TaskOp.made]
  | tick =>
    cases done
    exact unmade ⟨rfl, fun _ => rfl⟩ rfl
  | schedule saved =>
    obtain ⟨⟨next, s₁⟩, run, same⟩ := Option.map_eq_some_iff.mp done
    cases same
    exact unmade (taskSchedule_contexts run) rfl
  | sleep ms saved =>
    obtain ⟨⟨next, s₁⟩, run, same⟩ := Option.map_eq_some_iff.mp done
    cases same
    exact unmade (taskSchedule_as
      (f := fun task => { task with state := .sleeping, wakeupTick := s.ticks + ms }) (fun _ => rfl) run) rfl
  | exit saved =>
    obtain ⟨⟨next, s₁⟩, run, same⟩ := Option.map_eq_some_iff.mp done
    cases same
    exact unmade (taskSchedule_as (f := fun task => { task with state := .zombie }) (fun _ => rfl) run) rfl
  | kill pid saved =>
    simp only [step, taskKill, Option.bind_eq_bind, Option.map_eq_some_iff,
      Option.bind_eq_some_iff] at done
    obtain ⟨⟨result, next, s₁⟩, ⟨found, -, done⟩, same⟩ := done
    cases same
    refine unmade ?_ rfl
    cases found with
    | none =>
      cases done
      exact ⟨rfl, fun _ => rfl⟩
    | some t =>
      by_cases here : t = s.current
      · simp only [here, if_true, Option.bind_eq_some_iff] at done
        obtain ⟨⟨next, s₂⟩, run, same⟩ := done
        cases same
        exact taskSchedule_as (f := fun task => { task with state := .zombie }) (fun _ => rfl) run
      · simp only [here, if_false] at done
        cases done
        exact SameContexts.modify (f := fun task => { task with state := .zombie }) s t fun _ => rfl

/-! ## `exec` leaves the tasks alone, up to its end -/

theorem prepareSegment_tasks {action : HeaderAction}
    (done : prepareSegment fuel header k file i = some (action, file', k')) : k'.tasks = k.tasks := by
  simp only [prepareSegment, Option.bind_eq_bind, Option.bind_eq_some_iff] at done
  obtain ⟨⟨count, bytes, file₁, fs⟩, -, done⟩ := done
  split at done
  · cases done
    rfl
  · split at done
    · cases done
      rfl
    · split at done
      · cases done
        rfl
      · cases done
        rfl

theorem fillSegment_tasks (done : fillSegment fuel k file ph base = some (file', k')) : k'.tasks = k.tasks := by
  rw [fillSegment] at done
  split at done
  · simp only [readMemory, Option.bind_eq_bind, Option.bind_eq_some_iff] at done
    obtain ⟨⟨count, buffer, file₁, fs⟩, -, same⟩ := done
    cases same
    rfl
  · cases done
    rfl

theorem loadHeader_tasks {going : Bool} (done : loadHeader fuel ctx header k file i = some (going, file', k')) :
    k'.tasks = k.tasks := by
  simp only [loadHeader, Option.bind_eq_bind, Option.bind_eq_some_iff] at done
  obtain ⟨⟨action, file₁, k₁⟩, prepare, done⟩ := done
  have tasks := prepareSegment_tasks prepare
  cases action with
  | failed =>
    cases done
    exact tasks
  | skipped =>
    cases done
    exact tasks
  | segment ph base =>
    obtain ⟨⟨file₂, k₂⟩, filled, same⟩ := Option.bind_eq_some_iff.mp done
    cases same
    exact (fillSegment_tasks filled).trans tasks

theorem loadLoop_tasks {going : Bool} (remaining : Nat)
    (done : loadLoop fuel ctx header remaining k file i = some (going, file', k')) : k'.tasks = k.tasks := by
  induction remaining generalizing k file i with
  | zero =>
    cases done
    rfl
  | succ remaining ih =>
    simp only [loadLoop, Option.bind_eq_bind, Option.bind_eq_some_iff] at done
    obtain ⟨⟨more, file₁, k₁⟩, step, done⟩ := done
    have tasks := loadHeader_tasks step
    split at done
    · exact (ih done).trans tasks
    · cases done
      exact tasks

theorem loadElf_tasks (done : loadElf fuel k path ctx = some (r, k')) : k'.tasks = k.tasks := by
  simp only [loadElf, openElf, Option.bind_eq_bind, Option.bind_eq_some_iff] at done
  obtain ⟨⟨opened, k₁⟩, ⟨⟨status, file, fs⟩, -, openDone⟩, done⟩ := done
  have tasks : k₁.tasks = k.tasks := by
    split at openDone
    · cases openDone
      rfl
    · obtain ⟨⟨count, bytes, file₁, fs₁⟩, -, openDone⟩ := Option.bind_eq_some_iff.mp openDone
      split at openDone
      · cases openDone
        rfl
      · split at openDone
        · cases openDone
          rfl
        · cases openDone
          rfl
  cases opened with
  | none =>
    cases done
    exact tasks
  | some pair =>
    obtain ⟨⟨going, file₂, k₂⟩, loop, done⟩ := Option.bind_eq_some_iff.mp done
    have later := (loadLoop_tasks _ loop).trans tasks
    split at done
    · cases done
      exact later
    · cases done
      exact later

/-- `exec` gives its caller the kernel's context, or leaves the tasks alone. -/
theorem exec_tasks (done : exec fuel k path = some (r, k')) :
    k'.tasks = k.tasks ∨ k'.tasks = enterContext k.tasks k.tasks.kernelPageContext := by
  rw [exec, pagingCreateContext] at done
  by_cases null : k.tasks.kernelPageContext = 0
  · simp only [if_pos null] at done
    cases done
    exact Or.inl rfl
  · simp only [if_neg null, Option.bind_eq_bind] at done
    obtain ⟨⟨loaded, k₁⟩, load, done⟩ := Option.bind_eq_some_iff.mp done
    have tasks := loadElf_tasks load
    cases loaded with
    | none =>
      cases done
      exact Or.inl tasks
    | some entry =>
      simp only at done
      split at done
      · cases done
        exact Or.inl tasks
      · cases done
        refine Or.inr ?_
        rw [← tasks]
        rfl

/-! ## Runs -/

/-- The tasks `made` all have the kernel's context. -/
structure Shared (ctx : UInt32) (made : List UInt32) (k : Kernel) : Prop where
  kernel : k.tasks.kernelPageContext = ctx
  task : ∀ t ∈ made, (k.tasks.task t).pageCtx = ctx

theorem Shared.step {op : KernelOp} (shared : Shared ctx made k) (done : kernelStep fuel k op = some (r, k')) :
    Shared ctx (made ++ tasksMade [(op, r)]) k' := by
  obtain ⟨kernel, task⟩ := shared
  have unmade {s' : Tasks} (same : k'.tasks = s') (kernel' : s'.kernelPageContext = ctx)
      (task' : ∀ t ∈ made, (s'.task t).pageCtx = ctx) (none : tasksMade [(op, r)] = []) :
      Shared ctx (made ++ tasksMade [(op, r)]) k' := by
    rw [none, List.append_nil]
    exact ⟨same ▸ kernel', same ▸ task'⟩
  cases op with
  | task op =>
    obtain ⟨⟨sel, s₁⟩, run, same⟩ := Option.map_eq_some_iff.mp done
    cases same
    obtain ⟨kernel', task'⟩ := step_contexts run
    refine ⟨kernel'.trans kernel, fun t member => ?_⟩
    rw [task' t]
    split
    · exact kernel
    · rename_i old
      cases List.mem_append.mp member with
      | inl before => exact task t before
      | inr new => exact absurd (by simpa [tasksMade] using new) old
  | exec path =>
    cases exec_tasks done with
    | inl same => exact unmade same kernel task rfl
    | inr entered =>
      refine unmade entered kernel (fun t member => ?_) rfl
      simp only [enterContext]
      by_cases here : t = k.tasks.current
      · rw [here, Tasks.modify_self]
        exact kernel
      · rw [Tasks.modify_of_ne here]
        exact task t member
  | page t call =>
    cases done
    exact unmade rfl kernel task rfl

theorem Shared.run (shared : Shared ctx made k)
    (run : Run (kernelStep fuel) (fun _ _ => True) k calls k') : Shared ctx (made ++ tasksMade calls) k' := by
  induction run generalizing made with
  | refl k =>
    rw [tasksMade, List.flatMap_nil, List.append_nil]
    exact shared
  | @call k k₁ k' op r rest _ done _ ih =>
    have later := ih (shared.step done)
    rwa [List.append_assoc, tasksMade, tasksMade, ← List.flatMap_append] at later

theorem Shared.boot {memory : UInt32 → TaskT} {ticks kernelTask : UInt32}
    (start : k.tasks = taskInit (Tasks.boot memory ticks ctx) kernelTask) : Shared ctx [kernelTask] k := by
  refine ⟨by rw [start]; rfl, fun t member => ?_⟩
  rw [List.mem_singleton.mp member, start, taskInit]
  simp only [Tasks.modify_self]
  rfl

/-! ## Calls on behalf of one task -/

theorem PageCall.run_entry (call : PageCall) (p : Paging) (apart : pageOf call.virt ≠ pageOf a) :
    ((call.run p ctx).context ctx).entry a = (p.context ctx).entry a := by
  cases call with
  | map virt phys flags => exact (pagingMapPage_entry p ctx virt phys flags a).trans (if_neg (Ne.symm apart))
  | unmap virt => exact (pagingUnmapPage_entry p ctx virt a).trans (if_neg (Ne.symm apart))

theorem pageCalls_entry (calls : List PageCall) (p : Paging) (apart : ∀ call ∈ calls, pageOf call.virt ≠ pageOf a) :
    ((calls.foldl (fun p call => call.run p ctx) p).context ctx).entry a = (p.context ctx).entry a := by
  induction calls generalizing p with
  | nil => rfl
  | cons call rest ih =>
    rw [List.foldl_cons, ih _ fun c member => apart c (List.mem_cons_of_mem _ member),
      call.run_entry p (apart call List.mem_cons_self)]

/-- What all tasks see after calls on behalf of one of them: the same, and as before
where no call names the page. -/
structure SeenByAll (k k' : Kernel) (made : List UInt32) (calls : List PageCall) : Prop where
  same : ∀ t ∈ made, ∀ u ∈ made, seenBy k' t = seenBy k' u
  kept : ∀ u ∈ made, ∀ a, (∀ call ∈ calls, pageOf call.virt ≠ pageOf a) → seenBy k' u a = seenBy k u a

theorem Shared.onBehalf (shared : Shared ctx made k) (member : t ∈ made) (calls : List PageCall) :
    SeenByAll k (k.onBehalf t calls) made calls where
  same := fun x inX y inY => by
    funext a
    rw [seenBy, seenBy]
    exact congrArg (fun own => pagingGetPhysical (k.onBehalf t calls).paging own a)
      ((shared.task x inX).trans (shared.task y inY).symm)
  kept := fun u inU a apart => by
    rw [seenBy, seenBy, Kernel.onBehalf, shared.task t member, shared.task u inU, pagingGetPhysical_eq,
      pagingGetPhysical_eq, pageCalls_entry calls k.paging apart]

/-- **All tasks share one address space.**  In every reachable state they see the same
translations, and so they do after calls on behalf of any of them, which leave the pages
that they do not name as they are. -/
theorem address_space_shared {memory : UInt32 → TaskT} {ticks kernelTask : UInt32}
    (start : k.tasks = taskInit (Tasks.boot memory ticks ctx) kernelTask)
    (run : Run (kernelStep fuel) (fun _ _ => True) k calls k') :
    (∀ t ∈ kernelTask :: tasksMade calls, (k'.tasks.task t).pageCtx = ctx) ∧
      ∀ t ∈ kernelTask :: tasksMade calls, ∀ pageCalls,
        SeenByAll k' (k'.onBehalf t pageCalls) (kernelTask :: tasksMade calls) pageCalls := by
  have shared := (Shared.boot start).run run
  exact ⟨shared.task, fun t member pageCalls => shared.onBehalf member pageCalls⟩

/-- A kernel that has created two tasks. -/
def twoTasks : Kernel :=
  { bootKernel linkedProgram with
    tasks := taskCreate (taskCreate (bootKernel linkedProgram).tasks 0x300000 0x301000 0x101000)
      0x300100 0x302000 0x102000 }

def twoTasksCalls : List (KernelOp × Option UInt32) :=
  [(.task (.create 0x300000 0x301000 0x101000), none), (.task (.create 0x300100 0x302000 0x102000), none)]

theorem twoTasks_run :
    Run (kernelStep 4294967296) (fun _ _ => True) (bootKernel linkedProgram) twoTasksCalls twoTasks :=
  .call trivial rfl (.call trivial rfl (.refl _))

theorem address_space_shared_two :
    (∀ t ∈ [0x200000, 0x300000, 0x300100], (twoTasks.tasks.task t).pageCtx = 0x01000000) ∧
      ∀ t ∈ [0x200000, 0x300000, 0x300100], ∀ pageCalls,
        SeenByAll twoTasks (twoTasks.onBehalf t pageCalls) [0x200000, 0x300000, 0x300100] pageCalls :=
  address_space_shared (k := bootKernel linkedProgram) rfl twoTasks_run

/-- A page that is mapped on behalf of one task appears in the other. -/
theorem mapping_seen_by_other_task :
    Run (kernelStep 4294967296) (fun _ _ => True) (bootKernel linkedProgram) twoTasksCalls twoTasks ∧
      0x300000 ∈ tasksMade twoTasksCalls ∧ 0x300100 ∈ tasksMade twoTasksCalls ∧
      seenBy twoTasks 0x300100 0x80000000 = 0 ∧
      seenBy (twoTasks.onBehalf 0x300000 [.map 0x80000000 0x5000 userFlags]) 0x300100 0x80000000 = 0x5000 :=
  ⟨twoTasks_run, by decide, by decide, by decide +kernel, by decide +kernel⟩

end QuantumKernel.Exec
