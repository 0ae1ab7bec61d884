import QuantumKernel.Task.Tasks

/-! # The search of `task_schedule`

The loop of `task_schedule` walks the ring behind the current task.  It passes tasks
that are not running, waking those whose sleep is over, and stops at the first running
one: in its first round, or, if a sleeper was woken there, in its second.  If no task
is running and no sleeper is due it never stops, since the tick count was read before
the loop.
-/

namespace QuantumKernel.Task

open LinkedRing

/-- A sleeper whose wake-up tick has come. -/
def Due (now : UInt32) (task : TaskT) : Prop := task.state = .sleeping ∧ task.wakeupTick ≤ now

instance (now : UInt32) (task : TaskT) : Decidable (Due now task) :=
  inferInstanceAs (Decidable (_ ∧ _))

/-- The next pointers of the structures in memory. -/
abbrev nextOf (task : UInt32 → TaskT) (t : UInt32) : UInt32 := (task t).next

/-- The structures after the search passed the tasks `l`. -/
def passed (now : UInt32) (l : List UInt32) (task : UInt32 → TaskT) : UInt32 → TaskT :=
  fun t => if t ∈ l then wake now (task t) else task t

variable {now : UInt32} {task task' : UInt32 → TaskT} {a b c t x : UInt32} {l p q skip : List UInt32}
  {fuel : Nat}

/-! ## Waking one task -/

theorem wake_of_due {task : TaskT} (due : Due now task) :
    wake now task = { task with state := .running } := if_pos due

theorem wake_of_not_due {task : TaskT} (notDue : ¬ Due now task) : wake now task = task := if_neg notDue

/-- A woken task differs in its state only. -/
theorem wake_eq (now : UInt32) (task : TaskT) :
    wake now task = { task with state := (wake now task).state } := by
  by_cases due : Due now task
  · rw [wake_of_due due]
  · rw [wake_of_not_due due]

@[simp] theorem wake_next (now : UInt32) (task : TaskT) : (wake now task).next = task.next := by
  rw [wake_eq]

@[simp] theorem wake_pid (now : UInt32) (task : TaskT) : (wake now task).pid = task.pid := by
  rw [wake_eq]

theorem wake_running {task : TaskT} (running : task.state = .running) : wake now task = task :=
  wake_of_not_due fun due => absurd (running.symm.trans due.1) (by decide)

theorem wake_zombie {task : TaskT} (zombie : task.state = .zombie) : wake now task = task :=
  wake_of_not_due fun due => absurd (zombie.symm.trans due.1) (by decide)

/-- Waking a task twice at the same tick is waking it once. -/
theorem wake_wake (now : UInt32) (task : TaskT) : wake now (wake now task) = wake now task := by
  by_cases due : Due now task
  · refine wake_running ?_
    rw [wake_of_due due]
  · rw [wake_of_not_due due, wake_of_not_due due]

/-! ## What the search does to the tasks -/

/-- Some sleepers that are due have been woken. -/
def Woken (now : UInt32) (task task' : UInt32 → TaskT) : Prop :=
  ∀ t, task' t = task t ∨ task' t = wake now (task t)

theorem Woken.refl (now : UInt32) (task : UInt32 → TaskT) : Woken now task task := fun _ => Or.inl rfl

theorem Woken.next (woken : Woken now task task') (t : UInt32) : (task' t).next = (task t).next := by
  rcases woken t with same | waked
  · rw [same]
  · rw [waked, wake_next]

theorem Woken.pid (woken : Woken now task task') (t : UInt32) : (task' t).pid = (task t).pid := by
  rcases woken t with same | waked
  · rw [same]
  · rw [waked, wake_pid]

theorem Woken.zombie (woken : Woken now task task') (zombie : (task t).state = .zombie) :
    task' t = task t := by
  rcases woken t with same | waked
  · exact same
  · rw [waked, wake_zombie zombie]

theorem Woken.running (woken : Woken now task task') (running : (task t).state = .running) :
    task' t = task t := by
  rcases woken t with same | waked
  · exact same
  · rw [waked, wake_running running]

/-- Whatever the search selects is running, and it only woke sleepers that were due. -/
theorem scheduleLoop_woken (found : scheduleLoop now fuel task a = some (b, task')) :
    (task' b).state = .running ∧ Woken now task task' := by
  induction fuel generalizing task a with
  | zero => cases found
  | succ fuel ih =>
    rw [scheduleLoop] at found
    split at found
    · obtain ⟨running, woken⟩ := ih found
      refine ⟨running, fun t => ?_⟩
      by_cases here : t = a
      · subst here
        rcases woken t with same | waked
        · exact Or.inr (same.trans (Function.update_self _ _ _))
        · rw [Function.update_self, wake_wake] at waked
          exact Or.inr waked
      · have later := woken t
        rwa [Function.update_of_ne here] at later
    · rename_i running
      cases found
      exact ⟨not_not.mp running, .refl now _⟩

/-- The search stays in a set of tasks that is closed under next pointers. -/
theorem scheduleLoop_mem {S : Set UInt32} (closed : ∀ t ∈ S, (task t).next ∈ S) (start : a ∈ S)
    (found : scheduleLoop now fuel task a = some (b, task')) : b ∈ S := by
  induction fuel generalizing task a with
  | zero => cases found
  | succ fuel ih =>
    rw [scheduleLoop] at found
    split at found
    · have agree : ∀ t, (Function.update task a (wake now (task a)) t).next = (task t).next := by
        intro t
        by_cases here : t = a
        · subst here
          rw [Function.update_self, wake_next]
        · rw [Function.update_of_ne here]
      refine ih (fun t member => ?_) ?_ found
      · rw [agree]
        exact closed t member
      · rw [agree]
        exact closed a start
    · cases found
      exact start

/-! ## Where the search stops -/

theorem passed_next (now : UInt32) (l : List UInt32) (task : UInt32 → TaskT) (t : UInt32) :
    (passed now l task t).next = (task t).next := by
  rw [passed]
  split
  · rw [wake_next]
  · rfl

theorem passed_outside (out : t ∉ l) : passed now l task t = task t := if_neg out

theorem passed_inside (member : t ∈ l) : passed now l task t = wake now (task t) := if_pos member

/-- Passing one task and then others. -/
theorem passed_cons (notIn : a ∉ l) :
    passed now l (Function.update task a (wake now (task a))) = passed now (a :: l) task := by
  funext t
  by_cases here : t = a
  · subst here
    rw [passed_outside notIn, passed_inside List.mem_cons_self, Function.update_self]
  · simp only [passed, List.mem_cons, here, false_or, Function.update_of_ne here]

/-- The search passes tasks that are not running. -/
theorem scheduleLoop_skip (walk : Walk (nextOf task) a skip b) (nodup : skip.Nodup)
    (idle : ∀ t ∈ skip, (task t).state ≠ .running) (fuel : Nat) :
    scheduleLoop now (skip.length + fuel) task a = scheduleLoop now fuel (passed now skip task) b := by
  induction skip generalizing task a with
  | nil =>
    cases walk
    rw [List.length_nil, Nat.zero_add, show passed now [] task = task from rfl]
  | cons x skip ih =>
    obtain rfl := walk.head_eq
    obtain ⟨notIn, nodup⟩ := List.nodup_cons.mp nodup
    rw [List.length_cons, Nat.add_right_comm, scheduleLoop, if_pos (idle a List.mem_cons_self)]
    have rest : Walk (nextOf (Function.update task a (wake now (task a)))) (task a).next skip b := by
      refine walk.tail.congr fun t member => ?_
      have ne : t ≠ a := by
        rintro rfl
        exact notIn member
      rw [nextOf, Function.update_of_ne ne]
    simp only [Function.update_self, wake_next]
    rw [ih rest nodup, passed_cons notIn]
    intro t member
    have ne : t ≠ a := by
      rintro rfl
      exact notIn member
    rw [Function.update_of_ne ne]
    exact idle t (List.mem_cons_of_mem _ member)

/-- The search stops at the first running task. -/
theorem scheduleLoop_found (walk : Walk (nextOf task) a skip b) (nodup : (skip ++ [b]).Nodup)
    (idle : ∀ t ∈ skip, (task t).state ≠ .running) (running : (task b).state = .running)
    (enough : skip.length < fuel) :
    scheduleLoop now fuel task a = some (b, passed now skip task) := by
  obtain ⟨more, rfl⟩ := Nat.exists_eq_add_of_lt enough
  have notIn : b ∉ skip := fun member =>
    (List.nodup_append.mp nodup).2.2 b member b (List.mem_singleton_self b) rfl
  rw [Nat.add_assoc, scheduleLoop_skip walk (List.nodup_append.mp nodup).1 idle, scheduleLoop,
    passed_outside notIn, if_neg (not_not.mpr running)]

/-- With no running task and no sleeper due the search goes round for ever. -/
theorem scheduleLoop_stuck {S : Set UInt32} (closed : ∀ t ∈ S, (task t).next ∈ S) (start : a ∈ S)
    (idle : ∀ t ∈ S, (task t).state ≠ .running ∧ ¬ Due now (task t)) (fuel : Nat) :
    scheduleLoop now fuel task a = none := by
  induction fuel generalizing a with
  | zero => rfl
  | succ fuel ih =>
    obtain ⟨notRunning, notDue⟩ := idle a start
    rw [scheduleLoop, if_pos notRunning, wake_of_not_due notDue, Function.update_eq_self]
    exact ih (closed a start)

end QuantumKernel.Task
