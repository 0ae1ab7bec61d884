import QuantumKernel.Task.RoundRobin

/-! # How long `task_sleep` sleeps

`task_sleep` stores `ticks + ms` as the tick to wake up at, and the search of
`task_schedule` compares it with the tick count, both in 32 bits.  `sleep` of the timer
converts milliseconds to ticks first.
-/

namespace QuantumKernel.Task

open LinkedRing Transition

/-! ## The timer -/

/-- `ticks_needed` of `sleep`. -/
def ticksNeeded (ms frequency : UInt32) : UInt32 :=
  let ticks := ms * frequency / 1000
  if ticks = 0 then 1 else ticks

/-! ## The tasks that a search examines -/

/-- The tasks for which the body of the search loop runs. -/
def examined (now : UInt32) : Nat → (UInt32 → TaskT) → UInt32 → List UInt32
  | 0, _, _ => []
  | fuel + 1, task, next =>
    if (task next).state ≠ .running then
      let task := Function.update task next (wake now (task next))
      next :: examined now fuel task (task next).next
    else []

variable {s s' s₁ s₂ p p' : Tasks} {ring : List UInt32} {task task' : UInt32 → TaskT}
  {a b t next now ms frequency : UInt32} {fuel : Nat} {op : TaskOp} {sel : Option UInt32}
  {saved : SavedContext} {f : TaskT → TaskT} {calls earlier : List (TaskOp × Option UInt32)}
  {memory : UInt32 → TaskT} {ticks kernelPageContext kernelTask : UInt32} {e : Nat}

/-- The search wakes the tasks it examines, as far as they are due, and no others. -/
theorem scheduleLoop_task (found : scheduleLoop now fuel task a = some (b, task')) (t : UInt32) :
    task' t = if t ∈ examined now fuel task a then wake now (task t) else task t := by
  induction fuel generalizing task a with
  | zero => cases found
  | succ fuel ih =>
    rw [scheduleLoop] at found
    rw [examined]
    split at found
    · rename_i idle
      rw [if_pos idle, ih found]
      by_cases here : t = a
      · subst here
        simp only [Function.update_self, wake_wake, ite_self, List.mem_cons, true_or, if_true]
      · simp only [Function.update_of_ne here, List.mem_cons, here, false_or]
    · rename_i running
      cases found
      rw [if_neg running]
      rfl

/-- A sleeper that is examined runs afterwards exactly if it was due. -/
theorem examined_running_iff (done : taskSchedule fuel p saved = some (next, p'))
    (asleep : (p.task t).state = .sleeping)
    (seen : t ∈ examined p.ticks fuel p.task (p.task p.current).next) :
    (p'.task t).state = .running ↔ (p.task t).wakeupTick ≤ p.ticks := by
  obtain ⟨task', found, switched⟩ := taskSchedule_switched done
  rw [switched.state, scheduleLoop_task found, if_pos seen]
  by_cases due : Due p.ticks (p.task t)
  · rw [wake_of_due due]
    simp [due.2]
  · rw [wake_of_not_due due, asleep]
    simpa [Due, asleep] using due

/-! ## A sleeper between two passes -/

/-- The timer ticks that an operation stands for. -/
def TaskOp.elapsed : TaskOp → Nat
  | .tick => 1
  | _ => 0

/-- The timer ticks during the calls. -/
def elapsedTicks (calls : List (TaskOp × Option UInt32)) : Nat := (calls.map fun call => call.1.elapsed).sum

theorem step_ticks (done : step fuel s op = some (sel, s')) :
    s'.ticks = s.ticks + UInt32.ofNat op.elapsed := by
  cases step_outcome done with
  | created t stack entry => exact (UInt32.add_zero _).symm
  | ticked => rfl
  | missed pid saved => exact (UInt32.add_zero _).symm
  | killed pid saved _ => exact (UInt32.add_zero _).symm
  | @switched op f saved next s' _ notTick _ run =>
    obtain ⟨task', -, switched⟩ := taskSchedule_switched run
    have none : op.elapsed = 0 := by
      cases op with
      | tick => exact absurd rfl notTick
      | create | schedule | sleep | kill | exit => rfl
    rw [switched.ticks, none]
    exact (UInt32.add_zero _).symm

/-- A task that is not the current one keeps its wake-up tick. -/
theorem Ready.step_wakeupTick (ready : Ready s ring) (fresh : Fresh s op)
    (done : step fuel s op = some (sel, s')) (member : t ∈ ring) (other : t ≠ s.current) :
    (s'.task t).wakeupTick = (s.task t).wakeupTick := by
  cases step_outcome done with
  | created x stack entry =>
    have notIn := ready.not_fresh fresh
    obtain ⟨next, same⟩ := taskCreate_old s stack entry
      (fun same : x = s.taskList => notIn (same ▸ ready.linked.list))
      (fun same : t = x => notIn (same ▸ member))
    rw [same]
  | ticked => rfl
  | missed pid saved => rfl
  | @killed pid saved x _ =>
    by_cases here : t = x
    · rw [here, Tasks.modify_self]
    · rw [Tasks.modify_of_ne here]
  | @switched op f saved next s' _ _ _ run =>
    obtain ⟨task', found, switched⟩ := taskSchedule_switched run
    have kept : (s'.task t).wakeupTick = (task' t).wakeupTick := by
      rw [switched.task]
    rw [kept, scheduleLoop_task found, Tasks.modify_of_ne other]
    split
    · rw [wake_eq]
    · rfl

/-- The operations during which `t` stays asleep. -/
def StaysAsleep (t : UInt32) (s : Tasks) (op : TaskOp) : Prop := Fresh s op ∧ (s.task t).state = .sleeping

/-- While a task sleeps the tick count runs on and its wake-up tick stays. -/
theorem Ready.asleep (ready : Ready s ring) (member : t ∈ ring)
    (run : Run (step fuel) (StaysAsleep t) s calls s') :
    ∃ ring', Ready s' ring' ∧ t ∈ ring' ∧ (s'.task t).wakeupTick = (s.task t).wakeupTick ∧
      s'.ticks = s.ticks + UInt32.ofNat (elapsedTicks calls) := by
  induction run generalizing ring with
  | refl s => exact ⟨ring, ready, member, rfl, (UInt32.add_zero _).symm⟩
  | @call s s₁ s' op sel rest allowed done _ ih =>
    obtain ⟨fresh, sleeping⟩ := allowed
    obtain ⟨ring₁, stepped⟩ := ready.stepped fresh done
    have member₁ : t ∈ ring₁ := stepped.tasks.symm.subset (List.mem_append_right _ member)
    have other : t ≠ s.current := by
      rintro rfl
      exact absurd (ready.running.symm.trans sleeping) (by decide)
    obtain ⟨ring', ready', member', wakeup, ticks⟩ := ih stepped.ready member₁
    refine ⟨ring', ready', member', ?_, ?_⟩
    · rw [wakeup, ready.step_wakeupTick fresh done member other]
    · rw [ticks, step_ticks done, UInt32.add_assoc, ← UInt32.ofNat_add]
      rfl

/-! ## When a sleeper wakes -/

/-- `Asleep fuel s ms p e`: the current task of `s` has called `task_sleep(ms)` and is still
asleep when, `e` timer ticks later, `task_schedule` is called in the state `p`. -/
inductive Asleep (fuel : Nat) (s : Tasks) (ms : UInt32) : Tasks → Nat → Prop
  /-- The call of `task_sleep` itself. -/
  | own : Asleep fuel s ms
      (s.modify s.current fun task => { task with state := .sleeping, wakeupTick := s.ticks + ms }) 0
  /-- A call of the task that is then the current one. -/
  | later {s₁ s₂ : Tasks} {sel : Option UInt32} {saved : SavedContext} {f : TaskT → TaskT}
      {calls : List (TaskOp × Option UInt32)} :
      step fuel s (.sleep ms saved) = some (sel, s₁) →
      Run (step fuel) (StaysAsleep s.current) s₁ calls s₂ → (s₂.task s.current).state = .sleeping →
      Asleep fuel s ms (s₂.modify s₂.current f) (elapsedTicks calls)

/-- How many ticks after the call the comparison of `task_schedule` begins to hold: `ms`,
shifted by the wraps of the deadline and of the tick count until then. -/
def deadline (ticks ms : UInt32) (e : Nat) : Int :=
  let counterWraps : Nat := (ticks.toNat + e) / 4294967296
  let deadlineWraps : Nat := (ticks.toNat + ms.toNat) / 4294967296
  ms.toNat + (counterWraps - deadlineWraps) * 4294967296

theorem due_iff (ticks ms : UInt32) (e : Nat) :
    ticks + ms ≤ ticks + UInt32.ofNat e ↔ deadline ticks ms e ≤ e := by
  have boundTicks := ticks.toNat_lt
  have boundMs := ms.toNat_lt
  simp only [deadline, UInt32.le_iff_toNat_le, UInt32.toNat_add, UInt32.toNat_ofNat']
  omega

theorem Asleep.facts (ready : Ready s ring) (asleep : Asleep fuel s ms p e) :
    (p.task s.current).state = .sleeping ∧ (p.task s.current).wakeupTick = s.ticks + ms ∧
      p.ticks = s.ticks + UInt32.ofNat e := by
  cases asleep with
  | own =>
    rw [Tasks.modify_self]
    exact ⟨rfl, rfl, (UInt32.add_zero _).symm⟩
  | @later s₁ s₂ sel saved f calls called run sleeping =>
    have fresh : Fresh s (.sleep ms saved) := trivial
    obtain ⟨ring₁, stepped⟩ := ready.stepped fresh called
    have member₁ : s.current ∈ ring₁ :=
      stepped.tasks.symm.subset (List.mem_append_right _ ready.linked.current)
    obtain ⟨ring₂, ready₂, -, wakeup, ticks⟩ := stepped.ready.asleep member₁ run
    have other : s.current ≠ s₂.current := by
      intro same
      rw [same] at sleeping
      exact absurd (ready₂.running.symm.trans sleeping) (by decide)
    -- the search inside `task_sleep` left the deadline as it was
    have own : (s₁.task s.current).wakeupTick = s.ticks + ms := by
      simp only [step, Option.map_eq_some_iff] at called
      obtain ⟨⟨next, s₁⟩, called, same⟩ := called
      cases same
      rw [taskSleep] at called
      obtain ⟨task', found, switched⟩ := taskSchedule_switched called
      have kept : (s₁.task s.current).wakeupTick = (task' s.current).wakeupTick := by
        rw [switched.task]
      rw [kept, scheduleLoop_task found, Tasks.modify_self]
      split
      · rw [wake_eq]
      · rfl
    rw [Tasks.modify_of_ne other]
    refine ⟨sleeping, wakeup.trans own, ?_⟩
    show s₂.ticks = _
    rw [ticks, step_ticks called]
    exact congrArg (· + _) (UInt32.add_zero _)

/-- What a pass makes of a sleeper. -/
theorem Asleep.running_iff (ready : Ready s ring) (asleep : Asleep fuel s ms p e)
    (pass : taskSchedule fuel p saved = some (next, p'))
    (seen : s.current ∈ examined p.ticks fuel p.task (p.task p.current).next) :
    (p'.task s.current).state = .running ↔ deadline s.ticks ms e ≤ e := by
  obtain ⟨sleeping, wakeup, now⟩ := asleep.facts ready
  rw [examined_running_iff pass sleeping seen, wakeup, now, due_iff]

/-- The tick of the pass is not between the tick that was asked for and the one at which
the comparison begins to hold; a millisecond is `frequency / 1000` ticks. -/
def InTime (ticks ms frequency : UInt32) (e : Nat) : Prop :=
  max (ms.toNat * frequency.toNat : Int) (1000 * deadline ticks ms e) ≤ 1000 * e ∨
    (1000 * e : Int) < min (ms.toNat * frequency.toNat : Int) (1000 * deadline ticks ms e)

/-- **A pass treats a sleeper as asked exactly if it is in time.** -/
theorem sleeps_as_asked_iff
    (run : Run (step fuel) Fresh (taskInit (Tasks.boot memory ticks kernelPageContext) kernelTask)
      earlier s)
    (asleep : Asleep fuel s ms p e) (pass : taskSchedule fuel p saved = some (next, p'))
    (seen : s.current ∈ examined p.ticks fuel p.task (p.task p.current).next) (frequency : UInt32) :
    ((p'.task s.current).state = .running ↔ ms.toNat * frequency.toNat ≤ 1000 * e) ↔
      InTime s.ticks ms frequency e := by
  obtain ⟨ring, ready, -⟩ := (taskInit_ready memory ticks kernelPageContext kernelTask).run run
  rw [asleep.running_iff ready pass seen, InTime, ← Int.natCast_mul]
  generalize ms.toNat * frequency.toNat = asked
  omega

/-- The same for the number of ticks that `sleep` waits, which is rounded and at least one. -/
theorem sleeps_like_sleep_iff
    (run : Run (step fuel) Fresh (taskInit (Tasks.boot memory ticks kernelPageContext) kernelTask)
      earlier s)
    (asleep : Asleep fuel s ms p e) (pass : taskSchedule fuel p saved = some (next, p'))
    (seen : s.current ∈ examined p.ticks fuel p.task (p.task p.current).next) (frequency : UInt32) :
    ((p'.task s.current).state = .running ↔ (ticksNeeded ms frequency).toNat ≤ e) ↔
      max ((ticksNeeded ms frequency).toNat : Int) (deadline s.ticks ms e) ≤ e ∨
        e < min ((ticksNeeded ms frequency).toNat : Int) (deadline s.ticks ms e) := by
  obtain ⟨ring, ready, -⟩ := (taskInit_ready memory ticks kernelPageContext kernelTask).run run
  rw [asleep.running_iff ready pass seen]
  omega

/-- At 1000 ticks a second a sleep of two milliseconds ends after two ticks. -/
theorem sleeps_as_asked_iff_two :
    let s := taskCreate (taskInit (Tasks.boot (fun _ => TaskT.zero) 0 4096) 64) 8192 8256 1048576
    ∃ p p', Asleep 10 s 2 p 2 ∧ taskSchedule 10 p ⟨4, 5, 6⟩ = some (8192, p') ∧
      ((p'.task 64).state = .running ↔ (2 : UInt32).toNat * (1000 : UInt32).toNat ≤ 1000 * 2) := by
  intro s
  have start : Run (step 10) Fresh (taskInit (Tasks.boot (fun _ => TaskT.zero) 0 4096) 64)
      [(.create 8192 8256 1048576, none)] s :=
    .call (taskInit_fresh _ 0 4096 (by decide) 8256 1048576) rfl (.refl _)
  let s₁ := (taskSetCurrent (s.modify 64 fun task => { task with state := .sleeping, wakeupTick := 2 })
    8192).modify 64 fun task => { task with context := ⟨1, 2, 3⟩ }
  have called : step 10 s (.sleep 2 ⟨1, 2, 3⟩) = some (some 8192, s₁) := rfl
  let s₂ := { s₁ with ticks := 2 }
  have later : Run (step 10) (StaysAsleep 64) s₁ [(.tick, none), (.tick, none)] s₂ :=
    .call ⟨trivial, rfl⟩ rfl (.call ⟨trivial, rfl⟩ rfl (.refl _))
  let p := s₂.modify s₂.current id
  have asleep : Asleep 10 s 2 p 2 := .later called later rfl
  obtain ⟨p', pass⟩ : ∃ p', taskSchedule 10 p ⟨4, 5, 6⟩ = some (8192, p') := ⟨_, rfl⟩
  exact ⟨p, p', asleep, pass,
    (sleeps_as_asked_iff start asleep pass (by decide) 1000).mpr (Or.inl (by decide))⟩

/-- At the 100 ticks a second of the kernel a sleep of 30 milliseconds is not over after the
three ticks that it should take. -/
theorem sleeps_too_long :
    let s := taskCreate (taskInit (Tasks.boot (fun _ => TaskT.zero) 0 4096) 64) 8192 8256 1048576
    ∃ p p', Asleep 10 s 30 p 3 ∧ taskSchedule 10 p ⟨4, 5, 6⟩ = some (8192, p') ∧
      64 ∈ examined p.ticks 10 p.task (p.task p.current).next ∧
      ¬ ((p'.task 64).state = .running ↔ (30 : UInt32).toNat * (100 : UInt32).toNat ≤ 1000 * 3) := by
  intro s
  let s₁ := (taskSetCurrent (s.modify 64 fun task => { task with state := .sleeping, wakeupTick := 30 })
    8192).modify 64 fun task => { task with context := ⟨1, 2, 3⟩ }
  have called : step 10 s (.sleep 30 ⟨1, 2, 3⟩) = some (some 8192, s₁) := rfl
  have later : Run (step 10) (StaysAsleep 64) s₁ [(.tick, none), (.tick, none), (.tick, none)]
      { s₁ with ticks := 3 } :=
    .call ⟨trivial, rfl⟩ rfl (.call ⟨trivial, rfl⟩ rfl (.call ⟨trivial, rfl⟩ rfl (.refl _)))
  exact ⟨_, _, Asleep.later (f := id) called later rfl, rfl, by decide, by decide⟩

end QuantumKernel.Task
