import QuantumKernel.Task.Termination

/-! # Round-robin

From one selection of a task to its next one the scheduler goes round the ring once.
`Turn` cuts the ring at the task: the part that was passed since its selection, up to the
current task, and the part that is still to come.  Operations insert tasks into either
part and a selection moves the cut forward, but no task moves back.
-/

namespace QuantumKernel.Task

open LinkedRing Transition

variable {s s' s₀ : Tasks} {ring l p q sel front after : List UInt32} {task task' : UInt32 → TaskT}
  {a b t x now : UInt32} {fuel : Nat} {op : TaskOp} {pid : Int32} {saved : SavedContext}
  {f : TaskT → TaskT} {calls earlier : List (TaskOp × Option UInt32)} {memory : UInt32 → TaskT}
  {ticks kernelPageContext kernelTask : UInt32} {awake : Set UInt32}

/-! ## Which task a search selects -/

/-- More fuel does not change the result. -/
theorem scheduleLoop_mono {result : UInt32 × (UInt32 → TaskT)}
    (found : scheduleLoop now fuel task a = some result) (more : Nat) :
    scheduleLoop now (fuel + more) task a = some result := by
  induction fuel generalizing task a with
  | zero => cases found
  | succ fuel ih =>
    rw [scheduleLoop] at found
    rw [Nat.add_right_comm, scheduleLoop]
    split at found
    · rename_i idle
      rw [if_pos idle]
      exact ih found
    · rename_i running
      rw [if_neg running, found]

/-- The first running task of a walk is the one that is selected. -/
theorem search_first (walk : Walk (nextOf task) a p b) (nodup : (p ++ [b]).Nodup)
    (idle : ∀ t ∈ p, (task t).state ≠ .running) (running : (task b).state = .running)
    (found : scheduleLoop now fuel task a = some (x, task')) : x = b := by
  have here : scheduleLoop now (p.length + 1 + fuel) task a = some (b, passed now p task) :=
    scheduleLoop_found walk nodup idle running (by omega)
  have same := (scheduleLoop_mono found (p.length + 1)).symm.trans (Nat.add_comm fuel _ ▸ here)
  exact congrArg Prod.fst (Option.some.inj same)

/-- A search that starts behind the current task selects a task of the part `after` and
passed no running one on its way, or it came to `t`. -/
theorem search_selects (walk : Walk (nextOf task) a (after ++ t :: l) a) (nodup : (after ++ t :: l).Nodup)
    (stops : (task t).state = .running ∨ l = [])
    (found : scheduleLoop now fuel task a = some (x, task')) :
    (∃ p q, after = p ++ x :: q ∧ ∀ y ∈ p, (task y).state ≠ .running) ∨
      x = t ∧ ∀ y ∈ after, (task y).state ≠ .running := by
  by_cases someRunning : ∃ y ∈ after, (task y).state = .running
  · obtain ⟨y, member, running⟩ := someRunning
    obtain ⟨p, y, q, rfl, running, idle⟩ := exists_first (P := fun y => (task y).state = .running)
      member running
    rw [List.append_assoc] at walk nodup
    obtain ⟨c, first, rest⟩ := walk.split
    obtain rfl := rest.head_eq
    have start : p ++ (c :: q ++ t :: l) = (p ++ [c]) ++ (q ++ t :: l) := by simp
    rw [start] at nodup
    obtain rfl := search_first first (List.nodup_append.mp nodup).1 idle running found
    exact Or.inl ⟨p, q, rfl, idle⟩
  · have idle : ∀ y ∈ after, (task y).state ≠ .running :=
      fun y inAfter running => someRunning ⟨y, inAfter, running⟩
    cases stops with
    | inl running =>
      obtain ⟨c, first, rest⟩ := walk.split
      obtain rfl := rest.head_eq
      rw [List.append_cons] at nodup
      exact Or.inr ⟨search_first first (List.nodup_append.mp nodup).1 idle running found, idle⟩
    | inr alone =>
      -- `t` itself gave up the processor, and the search may stop anywhere
      subst alone
      have isRing : IsRing (nextOf task) (after ++ [t]) := ⟨nodup, by simp, a, walk⟩
      have start : a ∈ after ++ [t] := by
        cases after with
        | nil => exact walk.head_eq ▸ List.mem_cons_self
        | cons y after => exact walk.head_eq ▸ List.mem_cons_self
      have member := scheduleLoop_mem (S := {y | y ∈ after ++ [t]}) (fun y => isRing.next_mem) start found
      cases List.mem_append.mp member with
      | inl inAfter =>
        obtain ⟨p, q, rfl⟩ := List.append_of_mem inAfter
        exact Or.inl ⟨p, q, rfl, fun y before => idle y (List.mem_append_left _ before)⟩
      | inr itself => exact Or.inr ⟨List.mem_singleton.mp itself, idle⟩

/-! ## Going round -/

/-- The ring in the middle of a turn of `t`, which began with `t` as the current task:
`front` and then the current task have been passed, and `sel` was selected among them.
The tasks of `awake` that were passed have been selected. -/
structure Turn (s : Tasks) (t : UInt32) (awake : Set UInt32) (sel front after : List UInt32) : Prop where
  ready : Ready s (front ++ s.current :: after)
  head : (front ++ [s.current]).head? = some t
  selected : (t :: sel).Sublist (front ++ [s.current])
  served : ∀ x ∈ awake, x ∈ front ++ [s.current] → x = t ∨ x ∈ sel
  listed : ∀ x ∈ awake, x ∈ front ++ s.current :: after

/-- Every task of `awake` is running. -/
def Awake (awake : Set UInt32) (s : Tasks) : Prop := ∀ x ∈ awake, (s.task x).state = .running

/-- The ring may be read from another task. -/
theorem Ready.perm (ready : Ready s ring) (isRing : IsRing (nextOf s.task) l) (perm : l.Perm ring) :
    Ready s l := by
  obtain ⟨⟨-, list, current, pids, nextPid⟩, running⟩ := ready
  refine ⟨⟨isRing, perm.symm.subset list, perm.symm.subset current, ?_, ?_⟩, running⟩
  · rw [perm.length_eq]
    exact (perm.map _).trans pids
  · rw [perm.length_eq, nextPid]

/-- A turn begins. -/
theorem Ready.turn (ready : Ready s ring) (listed : ∀ x ∈ awake, x ∈ ring) :
    ∃ after, Turn s s.current awake [] [] after := by
  obtain ⟨after, turned, perm⟩ := ready.linked.isRing.turn ready.linked.current
  refine ⟨after, ready.perm turned perm, rfl, .refl _, fun x _ here => ?_, fun x member => ?_⟩
  · exact Or.inl (List.mem_singleton.mp here)
  · exact perm.symm.subset (listed x member)

/-- `task_create` inserts the task into one of the two parts. -/
theorem Turn.create (turn : Turn s t awake sel front after) (stack entry : UInt32)
    (fresh : Fresh s (.create x stack entry)) :
    ∃ front' after', Turn (taskCreate s x stack entry) t awake sel front' after' := by
  have notIn := turn.ready.not_fresh fresh
  have notAwake {y : UInt32} (member : y ∈ awake) : y ≠ x := fun same => notIn (same ▸ turn.listed y member)
  have split : s.taskList ∈ front ∨ s.taskList = s.current ∨ s.taskList ∈ after := by
    simpa using turn.ready.linked.list
  obtain ⟨ready, head, selected, served, listed⟩ := turn
  cases split with
  | inl inFront =>
    obtain ⟨p, q, rfl⟩ := List.append_of_mem inFront
    have longer : ((p ++ s.taskList :: q) ++ [s.current]).Sublist
        ((p ++ s.taskList :: x :: q) ++ [s.current]) :=
      (((List.sublist_cons_self x q).cons_cons _).append_left p).append_right _
    refine ⟨p ++ s.taskList :: x :: q, after, ?_, ?_, selected.trans longer, ?_, ?_⟩
    · have ready' := ready.create stack entry notIn (p := p) (q := q ++ s.current :: after) (by simp)
      simpa using ready'
    · rw [← head]
      cases p <;> rfl
    · intro y member before
      have old : y ∈ (p ++ s.taskList :: q) ++ [s.current] := by
        simpa [notAwake member] using before
      exact served y member old
    · intro y member
      have old := listed y member
      simp only [List.mem_append, List.mem_cons, taskCreate_current] at old ⊢
      tauto
  | inr notFront =>
    -- the part that is still to come gets the new task
    have inserted : ∃ after', Ready (taskCreate s x stack entry) (front ++ s.current :: after') ∧
        ∀ y ∈ after, y ∈ after' := by
      cases notFront with
      | inl isCurrent =>
        have ready' := ready.create stack entry notIn (p := front) (q := after) (by rw [isCurrent])
        rw [isCurrent] at ready'
        exact ⟨x :: after, ready', fun y member => List.mem_cons_of_mem _ member⟩
      | inr inAfter =>
        obtain ⟨p, q, rfl⟩ := List.append_of_mem inAfter
        have ready' := ready.create stack entry notIn (p := front ++ s.current :: p) (q := q) (by simp)
        refine ⟨p ++ s.taskList :: x :: q, by simpa using ready', fun y member => ?_⟩
        simp only [List.mem_append, List.mem_cons] at member ⊢
        tauto
    obtain ⟨after', ready', kept⟩ := inserted
    refine ⟨front, after', ready', head, selected, served, fun y member => ?_⟩
    have old := listed y member
    simp only [List.mem_append, List.mem_cons, taskCreate_current] at old ⊢
    exact old.imp_right fun others => others.imp_right (kept y)

/-- The search behind the current task comes to the part that is still to come, and then
to `t`. -/
theorem Turn.search (turn : Turn s t awake sel front after) (awakeNow : Awake awake s) (turning : t ∈ awake)
    (links : ∀ task, (f task).next = task.next ∧ (f task).pid = task.pid)
    (done : taskSchedule fuel (s.modify s.current f) saved = some (x, s')) :
    (∃ p q, after = p ++ x :: q ∧ ∀ y ∈ p, y ∉ awake) ∨ x = t ∧ ∀ y ∈ after, y ∉ awake := by
  obtain ⟨task', found, -⟩ := taskSchedule_switched done
  obtain ⟨ready, head, -, -, -⟩ := turn
  have isRing := (ready.linked.modify s.current (links _).1 (links _).2).isRing
  have turned : IsRing (nextOf (s.modify s.current f).task) (s.current :: (after ++ front)) := isRing.rotate
  have walk := turned.walk_next
  rw [List.append_assoc] at walk
  have nodup := isRing.nodup
  have order : (after ++ (front ++ [s.current])).Nodup := by
    have split : front ++ s.current :: after = (front ++ [s.current]) ++ after := by simp
    rw [split] at nodup
    exact List.perm_append_comm.nodup_iff.mp nodup
  obtain ⟨l, cut⟩ : ∃ l, front ++ [s.current] = t :: l := List.head?_eq_some_iff.mp head
  have others : ∀ y ∈ after, y ≠ s.current := by
    rintro y member rfl
    exact (List.nodup_cons.mp (List.nodup_append.mp nodup).2.1).1 member
  have stops : ((s.modify s.current f).task t).state = .running ∨ l = [] := by
    by_cases current : t = s.current
    · -- the turn has only begun: `t` does not come twice
      rw [cut] at order
      have notIn := (List.nodup_cons.mp (List.nodup_append.mp order).2.1).1
      cases front with
      | nil => exact Or.inr (by simpa using (congrArg List.tail cut).symm)
      | cons y front =>
        have rest : front ++ [s.current] = l := by simpa using congrArg List.tail cut
        exact absurd (rest ▸ List.mem_append_right _ (current ▸ List.mem_cons_self)) notIn
    · refine Or.inl ?_
      rw [Tasks.modify_of_ne current]
      exact awakeNow t turning
  have notAwake {y : UInt32} (member : y ∈ after)
      (idle : ((s.modify s.current f).task y).state ≠ .running) : y ∉ awake := by
    rw [Tasks.modify_of_ne (others y member)] at idle
    exact fun here => idle (awakeNow y here)
  rw [cut] at order walk
  cases search_selects walk order stops found with
  | inl found =>
    obtain ⟨p, q, rfl, idle⟩ := found
    exact Or.inl ⟨p, q, rfl, fun y before =>
      notAwake (List.mem_append_left _ before) (idle y before)⟩
  | inr found =>
    obtain ⟨same, idle⟩ := found
    exact Or.inr ⟨same, fun y member => notAwake member (idle y member)⟩

/-- An operation that selects no task, or another one than `t`, goes on with the turn. -/
theorem Turn.advance (turn : Turn s t awake sel front after) (awakeNow : Awake awake s) (turning : t ∈ awake)
    (fresh : Fresh s op) {selected : Option UInt32} (done : step fuel s op = some (selected, s'))
    (other : selected ≠ some t) :
    ∃ front' after', Turn s' t awake (sel ++ selected.toList) front' after' := by
  obtain ⟨ring', stepped⟩ := turn.ready.stepped fresh done
  -- without a new task, and with the same current one, nothing moves
  have still {s₁ : Tasks} (ready : Ready s₁ (front ++ s.current :: after))
      (current : s₁.current = s.current) : ∃ front' after', Turn s₁ t awake sel front' after' := by
    obtain ⟨-, head, selected, served, listed⟩ := turn
    rw [← current] at ready head selected served listed
    exact ⟨front, after, ready, head, selected, served, listed⟩
  cases step_outcome done with
  | created x stack entry =>
    rw [Option.toList_none, List.append_nil]
    exact turn.create stack entry fresh
  | ticked =>
    rw [Option.toList_none, List.append_nil]
    exact still (stepped.kept rfl ▸ stepped.ready) rfl
  | missed pid saved =>
    rw [Option.toList_none, List.append_nil]
    exact still (stepped.kept rfl ▸ stepped.ready) rfl
  | killed pid saved _ =>
    rw [Option.toList_none, List.append_nil]
    exact still (stepped.kept rfl ▸ stepped.ready) rfl
  | @switched op f saved x s' old _ links run =>
    have current := stepped.selected x rfl
    have kept := stepped.kept old
    cases turn.search awakeNow turning links run with
    | inr found => exact absurd (congrArg some found.1) other
    | inl found =>
      obtain ⟨p, q, rfl, idle⟩ := found
      obtain ⟨-, head, selected, served, listed⟩ := turn
      have reading : front ++ s.current :: (p ++ x :: q) = (front ++ s.current :: p) ++ x :: q := by simp
      have passed : (front ++ s.current :: p) ++ [x] = (front ++ [s.current]) ++ (p ++ [x]) := by simp
      rw [reading] at kept listed
      refine ⟨front ++ s.current :: p, q, ?_⟩
      rw [Option.toList_some]
      refine ⟨?_, ?_, ?_, ?_, ?_⟩
      · rw [current, ← kept]
        exact stepped.ready
      · rw [current, passed, List.head?_append, head]
        rfl
      · rw [current, passed]
        exact selected.append (List.sublist_append_right p [x])
      · intro y member before
        rw [current, passed] at before
        cases List.mem_append.mp before with
        | inl earlier => exact (served y member earlier).imp_right (List.mem_append_left _)
        | inr later =>
          cases List.mem_append.mp later with
          | inl skipped => exact absurd member (idle y skipped)
          | inr itself => exact Or.inr (List.mem_append_right _ itself)
      · rw [current]
        exact listed

/-- When `t` is selected again, every task of `awake` has had its turn. -/
theorem Turn.complete (turn : Turn s t awake sel front after) (awakeNow : Awake awake s)
    (turning : t ∈ awake) (done : step fuel s op = some (some t, s')) :
    ∀ y ∈ awake, y = t ∨ y ∈ sel := by
  cases step_outcome done with
  | switched _ _ links run =>
    have found := turn.search awakeNow turning links run
    obtain ⟨ready, head, -, served, listed⟩ := turn
    have split : ∀ y ∈ awake, y ∈ front ++ [s.current] ∨ y ∈ after := by
      intro y member
      have onRing := listed y member
      simp only [List.mem_append, List.mem_cons, List.not_mem_nil, or_false] at onRing ⊢
      tauto
    intro y member
    cases split y member with
    | inl before => exact served y member before
    | inr toCome =>
      cases found with
      | inr nobody => exact absurd member (nobody.2 y toCome)
      | inl earlier =>
        -- `t` is where the turn began, so it is not still to come
        obtain ⟨p, q, rfl, -⟩ := earlier
        have reading : front ++ s.current :: (p ++ t :: q) = (front ++ [s.current]) ++ (p ++ t :: q) := by
          simp
        have nodup := ready.linked.isRing.nodup
        rw [reading] at nodup
        exact absurd rfl ((List.nodup_append.mp nodup).2.2 t (List.mem_of_mem_head? head) t (by simp))

/-! ## From one selection to the next -/

/-- The tasks that the calls selected, in order. -/
def selections (calls : List (TaskOp × Option UInt32)) : List UInt32 := calls.filterMap Prod.snd

/-- Calls in whose states every task of `awake` is running. -/
def StaysAwake (awake : Set UInt32) (s : Tasks) (op : TaskOp) : Prop := Fresh s op ∧ Awake awake s

theorem Turn.run (turn : Turn s t awake sel front after) (turning : t ∈ awake)
    (run : Run (step fuel) (StaysAwake awake) s calls s') (others : ∀ call ∈ calls, call.2 ≠ some t) :
    ∃ front' after', Turn s' t awake (sel ++ selections calls) front' after' := by
  induction run generalizing sel front after with
  | refl s => exact ⟨front, after, by simpa [selections] using turn⟩
  | @call s s₁ s' op selected rest allowed done _ ih =>
    obtain ⟨other, others⟩ := List.forall_mem_cons.mp others
    obtain ⟨front₁, after₁, turn₁⟩ := turn.advance allowed.2 turning allowed.1 done other
    obtain ⟨front', after', turn'⟩ := ih turn₁ others
    refine ⟨front', after', ?_⟩
    have list : selections ((op, selected) :: rest) = selected.toList ++ selections rest := by
      cases selected <;> rfl
    rwa [list, ← List.append_assoc]

/-- **Round-robin.**  Let `t` be the current task, and let it and the other tasks of
`awake` stay running until `t` is selected next.  Until then no other task is selected
twice, and every other task of `awake` is selected exactly once. -/
theorem round_robin
    (start : Run (step fuel) Fresh (taskInit (Tasks.boot memory ticks kernelPageContext) kernelTask)
      earlier s₀)
    (turning : s₀.current ∈ awake) (listed : ∀ x ∈ awake, OnList s₀ x)
    (between : Run (step fuel) (StaysAwake awake) s₀ calls s)
    (others : ∀ call ∈ calls, call.2 ≠ some s₀.current)
    (last : StaysAwake awake s op) (again : step fuel s op = some (some s₀.current, s')) :
    (∀ x, (selections calls).count x ≤ 1) ∧
      ∀ x ∈ awake, x ≠ s₀.current → (selections calls).count x = 1 := by
  obtain ⟨ring, ready, -⟩ := (taskInit_ready memory ticks kernelPageContext kernelTask).run start
  obtain ⟨after, turn⟩ := ready.turn fun x member => ready.linked.onList_iff.mp (listed x member)
  obtain ⟨front', after', turn'⟩ := turn.run turning between others
  rw [List.nil_append] at turn'
  have reading : front' ++ s.current :: after' = (front' ++ [s.current]) ++ after' := by simp
  have nodup := turn'.ready.linked.isRing.nodup
  rw [reading] at nodup
  have once : (selections calls).Nodup :=
    (List.nodup_cons.mp ((List.nodup_append.mp nodup).1.sublist turn'.selected)).2
  refine ⟨fun x => List.nodup_iff_count_le_one.mp once x, fun x member other => ?_⟩
  exact List.count_eq_one_of_mem once ((turn'.complete last.2 turning again x member).resolve_left other)

/-- The kernel task and another one take turns. -/
theorem round_robin_two :
    let s₀ := taskCreate (taskInit (Tasks.boot (fun _ => TaskT.zero) 0 4096) 64) 8192 8256 1048576
    ∃ calls s, Run (step 10) (StaysAwake {64, 8192}) s₀ calls s ∧ (selections calls).count 8192 = 1 := by
  intro s₀
  have start : Run (step 10) Fresh (taskInit (Tasks.boot (fun _ => TaskT.zero) 0 4096) 64)
      [(.create 8192 8256 1048576, none)] s₀ :=
    .call (taskInit_fresh _ 0 4096 (by decide) 8256 1048576) rfl (.refl _)
  have onList : ∀ x ∈ ({64, 8192} : Set UInt32), OnList s₀ x := by
    rintro x (rfl | rfl)
    · exact ⟨0, rfl⟩
    · exact ⟨1, rfl⟩
  have allowed (saved : SavedContext) : StaysAwake {64, 8192} s₀ (.schedule saved) :=
    ⟨trivial, by rintro x (rfl | rfl) <;> rfl⟩
  let s := (taskSetCurrent s₀ 8192).modify 64 fun task => { task with context := ⟨1, 2, 3⟩ }
  have between : Run (step 10) (StaysAwake {64, 8192}) s₀ [(.schedule ⟨1, 2, 3⟩, some 8192)] s :=
    .call (allowed _) rfl (.refl _)
  have last : StaysAwake {64, 8192} s (.schedule ⟨4, 5, 6⟩) :=
    ⟨trivial, by rintro x (rfl | rfl) <;> rfl⟩
  obtain ⟨-, once⟩ := round_robin start (Or.inl rfl) onList between (by decide) last rfl
  exact ⟨_, s, between, once 8192 (Or.inr rfl) (by decide)⟩

end QuantumKernel.Task
