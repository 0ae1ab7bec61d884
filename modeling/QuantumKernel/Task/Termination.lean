import QuantumKernel.Task.TaskList

/-! # When `task_schedule` comes back

The search ends exactly if the list has a running task or a sleeper that is due: the
tick count is read once, so nothing becomes due while the search goes round.
-/

namespace QuantumKernel.Task

open LinkedRing Transition

/-- A task at which the search can stop. -/
def Runnable (now : UInt32) (task : TaskT) : Prop := task.state = .running ∨ Due now task

instance (now : UInt32) (task : TaskT) : Decidable (Runnable now task) :=
  inferInstanceAs (Decidable (_ ∨ _))

variable {s s' : Tasks} {ring l p q : List UInt32} {task : UInt32 → TaskT} {a start t now : UInt32}
  {fuel : Nat} {op : TaskOp} {pid : Int32} {saved : SavedContext} {f : TaskT → TaskT}
  {calls : List (TaskOp × Option UInt32)} {memory : UInt32 → TaskT}
  {ticks kernelPageContext kernelTask : UInt32}

/-! ## The loops end -/

/-- The first task of a list with a decidable property. -/
theorem exists_first {P : UInt32 → Prop} [DecidablePred P] (member : t ∈ l) (holds : P t) :
    ∃ p x q, l = p ++ x :: q ∧ P x ∧ ∀ y ∈ p, ¬ P y := by
  have found : (l.find? fun y => decide (P y)).isSome :=
    List.find?_isSome.mpr ⟨t, member, decide_eq_true holds⟩
  obtain ⟨x, found⟩ := Option.isSome_iff_exists.mp found
  obtain ⟨holds, p, q, split, before⟩ := List.find?_eq_some_iff_append.mp found
  refine ⟨p, x, q, split, of_decide_eq_true holds, fun y member => ?_⟩
  simpa using before y member

/-- With a running task on the ring the search ends in its first round. -/
theorem search_running (walk : Walk (nextOf task) a l b) (nodup : l.Nodup) (member : t ∈ l)
    (running : (task t).state = .running) (enough : l.length ≤ fuel) :
    ∃ result, scheduleLoop now fuel task a = some result := by
  obtain ⟨p, x, q, rfl, runs, idle⟩ := exists_first (P := fun y => (task y).state = .running) member
    running
  obtain ⟨c, first, rest⟩ := walk.split
  obtain rfl := rest.head_eq
  have start : p ++ c :: q = (p ++ [c]) ++ q := List.append_cons p c q
  rw [start] at nodup
  have shorter : p.length < fuel := by
    rw [List.length_append, List.length_cons] at enough
    omega
  exact ⟨_, scheduleLoop_found first (List.nodup_append.mp nodup).1 idle runs shorter⟩

/-- With a sleeper that is due it ends in its second round at the latest. -/
theorem search_returns (walk : Walk (nextOf task) a l a) (nodup : l.Nodup) (member : t ∈ l)
    (runnable : Runnable now (task t)) (enough : 2 * l.length ≤ fuel) :
    ∃ result, scheduleLoop now fuel task a = some result := by
  by_cases someRunning : ∃ x ∈ l, (task x).state = .running
  · obtain ⟨x, member, running⟩ := someRunning
    exact search_running walk nodup member running (by omega)
  · have idle : ∀ x ∈ l, (task x).state ≠ .running :=
      fun x inList running => someRunning ⟨x, inList, running⟩
    have due := runnable.resolve_left (idle t member)
    obtain ⟨more, rfl⟩ := Nat.exists_eq_add_of_le (show l.length ≤ fuel by omega)
    rw [scheduleLoop_skip walk nodup idle]
    -- the second round: the sleeper was woken in the first one
    have again : Walk (nextOf (passed now l task)) a l a :=
      walk.congr fun x _ => passed_next now l task x
    refine search_running again nodup member ?_ (by omega)
    rw [passed_inside member, wake_of_due due]

/-- A search whose list has a task where it can stop. -/
theorem Linked.taskSchedule_returns (saved : SavedContext) (linked : Linked s ring) (member : t ∈ ring)
    (runnable : Runnable s.ticks (s.task t)) (enough : 2 * ring.length ≤ fuel) :
    ∃ result, taskSchedule fuel s saved = some result := by
  obtain ⟨m, turned, perm⟩ := linked.isRing.turn linked.current
  -- the search starts behind the current task and passes it last
  have walk := turned.walk_next
  have order : (m ++ [s.current]).Perm ring := List.perm_append_comm.trans perm
  have enough : 2 * (m ++ [s.current]).length ≤ fuel := by
    rw [order.length_eq]
    exact enough
  obtain ⟨⟨next, task'⟩, found⟩ := search_returns walk (order.nodup_iff.mpr linked.isRing.nodup)
    (order.symm.subset member) runnable enough
  obtain ⟨s', done⟩ := Task.taskSchedule_returns saved found
  exact ⟨(next, s'), done⟩

/-- A search whose list has none. -/
theorem Linked.taskSchedule_stuck (saved : SavedContext) (linked : Linked s ring)
    (nobody : ∀ t ∈ ring, ¬ Runnable s.ticks (s.task t)) (fuel : Nat) :
    taskSchedule fuel s saved = none := by
  have stuck := scheduleLoop_stuck linked.closed (linked.closed _ linked.current)
    (fun t member => not_or.mp (nobody t member)) fuel
  rw [taskSchedule, stuck]
  rfl

/-- `task_kill` looks at every task once. -/
theorem killLoop_spec (walk : Walk (nextOf task) a (a :: l) start) (notIn : start ∉ l)
    (enough : l.length < fuel) :
    killLoop task start pid fuel a = some ((a :: l).find? fun t => (task t).pid = pid) := by
  induction l generalizing a fuel with
  | nil =>
    obtain ⟨more, rfl⟩ := Nat.exists_eq_add_of_lt enough
    have back : (task a).next = start := walk.tail.nil_eq
    simp only [killLoop, back, if_true, List.find?_cons, List.find?_nil]
    split <;> simp_all
  | cons b l ih =>
    rw [List.length_cons] at enough
    obtain ⟨more, rfl⟩ := Nat.exists_eq_add_of_lt enough
    have rest := walk.tail
    have step : (task a).next = b := rest.head_eq
    have other : b ≠ start := fun same => notIn (same ▸ List.mem_cons_self)
    rw [nextOf, step] at rest
    rw [killLoop, step, if_neg other, List.find?_cons]
    by_cases here : (task a).pid = pid
    · simp [here]
    · rw [if_neg here, ih rest (fun member => notIn (List.mem_cons_of_mem _ member)) (by omega)]
      simp [here]

/-- More fuel does not change the result. -/
theorem killLoop_mono {found : Option UInt32} (done : killLoop task start pid fuel a = some found)
    (more : Nat) : killLoop task start pid (fuel + more) a = some found := by
  induction fuel generalizing a with
  | zero => cases done
  | succ fuel ih =>
    rw [killLoop] at done
    rw [Nat.add_right_comm, killLoop]
    split at done
    · rename_i here
      rw [if_pos here, done]
    · rename_i notHere
      rw [if_neg notHere]
      split at done
      · rename_i last
        rw [if_pos last, done]
      · rename_i further
        rw [if_neg further]
        exact ih done

/-! ## When an operation returns -/

/-- A task on the list. -/
def OnList (s : Tasks) (t : UInt32) : Prop := ∃ n, (nextOf s.task)^[n] s.taskList = t

/-- A task other than the current one at which the search can stop. -/
def OtherRunnable (s : Tasks) : Prop := ∃ t, OnList s t ∧ t ≠ s.current ∧ Runnable s.ticks (s.task t)

/-- The operation leaves somebody to run.  A sleep whose wake-up tick wraps is over at
once. -/
def TaskOp.Returns (s : Tasks) : TaskOp → Prop
  | .sleep ms _ => s.ticks + ms ≤ s.ticks ∨ OtherRunnable s
  | .exit _ => OtherRunnable s
  | .kill pid _ => (s.task s.current).pid = pid → OtherRunnable s
  | .create _ _ _ | .schedule _ | .tick => True

theorem Linked.onList_iff (linked : Linked s ring) : OnList s t ↔ t ∈ ring := by
  constructor
  · rintro ⟨n, reached⟩
    rw [← reached]
    clear reached
    induction n with
    | zero => exact linked.list
    | succ n ih =>
      rw [Function.iterate_succ_apply']
      exact linked.closed _ ih
  · exact fun member => linked.isRing.iterate linked.list member

/-- The current task gives up the processor in the state that `f` stores, and somebody
can run. -/
theorem Ready.schedule_returns (saved : SavedContext) (ready : Ready s ring) {f : TaskT → TaskT}
    (next : (f (s.task s.current)).next = (s.task s.current).next)
    (pid : (f (s.task s.current)).pid = (s.task s.current).pid)
    (somebody : Runnable s.ticks (f (s.task s.current)) ∨ OtherRunnable s)
    (enough : 2 * ring.length ≤ fuel) :
    ∃ result, taskSchedule fuel (s.modify s.current f) saved = some result := by
  have linked : Linked (s.modify s.current f) ring := ready.linked.modify s.current next pid
  cases somebody with
  | inl me =>
    apply linked.taskSchedule_returns saved ready.linked.current _ enough
    rw [Tasks.modify_self]
    exact me
  | inr other =>
    obtain ⟨t, onList, ne, runnable⟩ := other
    apply linked.taskSchedule_returns saved (ready.linked.onList_iff.mp onList) _ enough
    rw [Tasks.modify_of_ne ne]
    exact runnable

/-- The same with nobody to run: the search goes on for ever. -/
theorem Ready.schedule_stuck (saved : SavedContext) (ready : Ready s ring) {f : TaskT → TaskT}
    (next : (f (s.task s.current)).next = (s.task s.current).next)
    (pid : (f (s.task s.current)).pid = (s.task s.current).pid)
    (notMe : ¬ Runnable s.ticks (f (s.task s.current))) (noOther : ¬ OtherRunnable s) (fuel : Nat) :
    taskSchedule fuel (s.modify s.current f) saved = none := by
  have linked : Linked (s.modify s.current f) ring := ready.linked.modify s.current next pid
  apply linked.taskSchedule_stuck
  intro t member runnable
  by_cases here : t = s.current
  · rw [here, Tasks.modify_self] at runnable
    exact notMe runnable
  · rw [Tasks.modify_of_ne here] at runnable
    exact noOther ⟨t, ready.linked.onList_iff.mpr member, here, runnable⟩

/-- Two tasks of the list never have the same pid, as there are at most `2^32`
addresses. -/
theorem Linked.pid_injective (linked : Linked s ring) (member : t ∈ ring) (other : a ∈ ring)
    (same : (s.task t).pid = (s.task a).pid) : t = a := by
  have few : ring.length ≤ 4294967296 := by
    have addresses : (ring.map UInt32.toNat).Nodup :=
      linked.isRing.nodup.map fun _ _ => UInt32.toNat_inj.mp
    have bounded : ring.map UInt32.toNat ⊆ List.range 4294967296 := by
      intro n member
      obtain ⟨x, -, rfl⟩ := List.mem_map.mp member
      exact List.mem_range.mpr x.toNat_lt
    simpa using (addresses.subperm bounded).length_le
  exact List.inj_on_of_nodup_map (linked.pids_distinct few) member other same

/-- `task_kill` finds the task with the pid. -/
theorem Ready.killLoop_current (ready : Ready s ring) (pid : Int32) (enough : 2 * ring.length ≤ fuel) :
    ∃ found, killLoop s.task s.taskList pid fuel s.taskList = some found ∧
      (found = some s.current ↔ (s.task s.current).pid = pid) := by
  obtain ⟨m, turned, perm⟩ := ready.linked.isRing.turn ready.linked.list
  have notIn : s.taskList ∉ m := (List.nodup_cons.mp turned.nodup).1
  have length := perm.length_eq
  rw [List.length_cons] at length
  refine ⟨_, killLoop_spec turned.walk notIn (by omega), fun found => ?_, fun mine => ?_⟩
  · simpa using List.find?_some found
  · have member : s.current ∈ s.taskList :: m := perm.symm.subset ready.linked.current
    cases found : (s.taskList :: m).find? fun t => (s.task t).pid = pid with
    | none => simpa [mine] using List.find?_eq_none.mp found s.current member
    | some x =>
      have same : (s.task x).pid = pid := by simpa using List.find?_some found
      have inRing : x ∈ ring := perm.subset (List.mem_of_find?_eq_some found)
      rw [ready.linked.pid_injective inRing ready.linked.current (same.trans mine.symm)]

/-- An operation that leaves somebody to run returns. -/
theorem Ready.step_returns (ready : Ready s ring) (returns : op.Returns s)
    (enough : 2 * ring.length ≤ fuel) : ∃ result, step fuel s op = some result := by
  cases op with
  | create t stack entry => exact ⟨_, rfl⟩
  | tick => exact ⟨_, rfl⟩
  | schedule saved =>
    obtain ⟨result, done⟩ := ready.linked.taskSchedule_returns saved ready.linked.current
      (Or.inl ready.running) enough
    exact ⟨_, by rw [step, done]; rfl⟩
  | sleep ms saved =>
    have somebody : Runnable s.ticks
        { s.task s.current with state := .sleeping, wakeupTick := s.ticks + ms } ∨ OtherRunnable s :=
      returns.imp_left fun wraps => Or.inr ⟨rfl, wraps⟩
    obtain ⟨result, done⟩ := ready.schedule_returns saved (f := fun task =>
      { task with state := .sleeping, wakeupTick := s.ticks + ms }) rfl rfl somebody enough
    exact ⟨_, by rw [step, taskSleep, done]; rfl⟩
  | exit saved =>
    obtain ⟨result, done⟩ := ready.schedule_returns saved
      (f := fun task => { task with state := .zombie }) rfl rfl (Or.inr returns) enough
    exact ⟨_, by rw [step, taskExit, done]; rfl⟩
  | kill pid saved =>
    obtain ⟨found, walked, mine⟩ := ready.killLoop_current pid enough
    simp only [step, taskKill, walked, Option.bind_eq_bind, Option.bind_some]
    cases found with
    | none => exact ⟨_, rfl⟩
    | some x =>
      by_cases here : x = s.current
      · obtain ⟨result, done⟩ := ready.schedule_returns saved
          (f := fun task => { task with state := .zombie }) rfl rfl
          (Or.inr (returns (mine.mp (congrArg some here)))) enough
        exact ⟨_, by simp only [here, if_true, taskExit, done]; rfl⟩
      · exact ⟨_, by simp only [here, if_false]; rfl⟩

/-- Any other operation does not. -/
theorem Ready.step_stuck (ready : Ready s ring) (stuck : ¬ op.Returns s) (fuel : Nat) :
    step fuel s op = none := by
  cases op with
  | create t stack entry => exact absurd trivial stuck
  | tick => exact absurd trivial stuck
  | schedule saved => exact absurd trivial stuck
  | sleep ms saved =>
    obtain ⟨notMe, noOther⟩ := not_or.mp stuck
    have none := ready.schedule_stuck saved (f := fun task =>
      { task with state := .sleeping, wakeupTick := s.ticks + ms }) rfl rfl
      (by simpa [Runnable, Due] using notMe) noOther fuel
    rw [step, taskSleep, none]
    rfl
  | exit saved =>
    have none := ready.schedule_stuck saved
      (f := fun task => { task with state := .zombie }) rfl rfl (by simp [Runnable, Due]) stuck fuel
    rw [step, taskExit, none]
    rfl
  | kill pid saved =>
    obtain ⟨mine, noOther⟩ := Classical.not_imp.mp stuck
    have none := ready.schedule_stuck saved
      (f := fun task => { task with state := .zombie }) rfl rfl (by simp [Runnable, Due]) noOther fuel
    cases walked : killLoop s.task s.taskList pid fuel s.taskList with
    | none =>
      rw [step, taskKill, walked]
      rfl
    | some found =>
      -- with more fuel the loop finds the same task
      obtain ⟨found', walked', current⟩ := ready.killLoop_current pid
        (Nat.le_add_left (2 * ring.length) fuel)
      have same := (killLoop_mono walked (2 * ring.length)).symm.trans walked'
      have here : found = some s.current := (Option.some.inj same).trans (current.mpr mine)
      simp only [step, taskKill, walked, Option.bind_eq_bind, Option.bind_some, here, if_true, taskExit,
        none]
      rfl

/-- **An operation returns exactly if it leaves somebody to run**, in every state that is
reached from `task_init`. -/
theorem operation_returns_iff
    (run : Run (step fuel) Fresh (taskInit (Tasks.boot memory ticks kernelPageContext) kernelTask)
      calls s) (op : TaskOp) :
    (∃ fuel result, step fuel s op = some result) ↔ op.Returns s := by
  obtain ⟨ring, ready, -⟩ := (taskInit_ready memory ticks kernelPageContext kernelTask).run run
  constructor
  · rintro ⟨fuel, result, done⟩
    by_contra stuck
    rw [ready.step_stuck stuck fuel] at done
    cases done
  · intro returns
    obtain ⟨result, done⟩ := ready.step_returns returns (Nat.le_refl _)
    exact ⟨_, result, done⟩

/-- The kernel task sleeps while another task runs: it returns. -/
theorem operation_returns_iff_two :
    ∃ calls s, Run (step 10) Fresh (taskInit (Tasks.boot (fun _ => TaskT.zero) 0 4096) 64) calls s ∧
      ∃ fuel result, step fuel s (.sleep 1000 ⟨1, 2, 3⟩) = some result := by
  have run : Run (step 10) Fresh (taskInit (Tasks.boot (fun _ => TaskT.zero) 0 4096) 64)
      [(.create 8192 8256 1048576, none)] _ :=
    .call (taskInit_fresh _ 0 4096 (by decide) 8256 1048576) rfl (.refl _)
  refine ⟨_, _, run, (operation_returns_iff run _).mpr (Or.inr ⟨8192, ⟨1, rfl⟩, by decide, Or.inl rfl⟩)⟩

/-- Both of two tasks sleep: the second call never comes back, whatever the timer does. -/
theorem both_sleep_forever :
    ∃ calls s, Run (step 10) Fresh (taskInit (Tasks.boot (fun _ => TaskT.zero) 0 4096) 64) calls s ∧
      ∀ fuel, step fuel s (.sleep 10 ⟨1, 2, 3⟩) = none := by
  have run : Run (step 10) Fresh (taskInit (Tasks.boot (fun _ => TaskT.zero) 0 4096) 64)
      [(.create 8192 8256 1048576, none), (.sleep 1000 ⟨1, 2, 3⟩, some 8192)] _ :=
    .call (taskInit_fresh _ 0 4096 (by decide) 8256 1048576) rfl (.call trivial rfl (.refl _))
  obtain ⟨ring, ready, tasks, -⟩ := (taskInit_ready (fun _ => TaskT.zero) 0 4096 64).run run
  refine ⟨_, _, run, fun fuel => ready.step_stuck (fun somebody => ?_) fuel⟩
  cases somebody with
  | inl ended => exact absurd ended (by decide)
  | inr other =>
    obtain ⟨t, onList, ne, runnable⟩ := other
    have member := tasks.subset (ready.linked.onList_iff.mp onList)
    simp only [created, List.flatMap_cons, List.flatMap_nil, TaskOp.made, List.cons_append,
      List.nil_append, List.append_nil, List.mem_cons, List.not_mem_nil, or_false] at member
    cases member with
    | inl second => exact ne (second.trans rfl)
    | inr kernel =>
      subst kernel
      exact absurd runnable (by decide)

end QuantumKernel.Task
