/-! # Runs of a call interface

A component is driven by calls: `step s a` answers the call `a` with a reply and a new
state, or does not return.  `Run` is a finite sequence of calls, each of them allowed
in the state where it is made; `Trace` is the same for an abstract component given by a
relation.  An invariant is proved for one step and holds along a run; a simulation is
proved for one step and turns a run of one component into a trace of the other.
-/

namespace Transition

variable {S T A R : Type}

/-- The calls with their replies, from the first state to the last. -/
inductive Run (step : S → A → Option (R × S)) (allowed : S → A → Prop) :
    S → List (A × R) → S → Prop
  | refl (s : S) : Run step allowed s [] s
  | call {s s' s'' : S} {a : A} {r : R} {rest : List (A × R)} :
      allowed s a → step s a = some (r, s') → Run step allowed s' rest s'' →
      Run step allowed s ((a, r) :: rest) s''

/-- A sequence of abstract steps with the given calls and replies. -/
inductive Trace (next : T → A → R → T → Prop) : T → List (A × R) → T → Prop
  | refl (t : T) : Trace next t [] t
  | call {t t' t'' : T} {a : A} {r : R} {rest : List (A × R)} :
      next t a r t' → Trace next t' rest t'' → Trace next t ((a, r) :: rest) t''

/-- A step of `step`, and beside it one of `next`, which may refer to the states of the first. -/
inductive Beside (step : S → A → Option (R × S)) (next : S → S → T → A → R → T → Prop) :
    S × T → A → R → S × T → Prop
  | both {s s' : S} {t t' : T} {a : A} {r : R} :
      step s a = some (r, s') → next s s' t a r t' → Beside step next (s, t) a r (s', t')

variable {step : S → A → Option (R × S)} {allowed allowed' : S → A → Prop}
  {next : T → A → R → T → Prop} {s s' s'' : S} {t : T} {calls rest : List (A × R)}

theorem Run.invariant (inv : S → Prop)
    (preserves : ∀ s a r s', inv s → allowed s a → step s a = some (r, s') → inv s')
    (run : Run step allowed s calls s') (start : inv s) : inv s' := by
  induction run with
  | refl => exact start
  | call permitted done _ ih => exact ih (preserves _ _ _ _ start permitted done)

theorem Run.append (first : Run step allowed s calls s') (second : Run step allowed s' rest s'') :
    Run step allowed s (calls ++ rest) s'' := by
  induction first with
  | refl => exact second
  | call permitted done _ ih => exact .call permitted done (ih second)

theorem Run.mono (weaker : ∀ s a, allowed s a → allowed' s a) (run : Run step allowed s calls s') :
    Run step allowed' s calls s' := by
  induction run with
  | refl => exact .refl _
  | call permitted done _ ih => exact .call (weaker _ _ permitted) done ih

/-- Two conditions on calls that agree as long as an invariant holds allow the same runs. -/
theorem Run.allowed_iff (inv : S → Prop)
    (preserves : ∀ s a r s', inv s → step s a = some (r, s') → inv s')
    (same : ∀ s a r s', inv s → step s a = some (r, s') → (allowed s a ↔ allowed' s a)) (start : inv s) :
    Run step allowed s calls s' ↔ Run step allowed' s calls s' := by
  constructor
  · intro run
    induction run with
    | refl => exact .refl _
    | call permitted done _ ih =>
      exact .call ((same _ _ _ _ start done).mp permitted) done (ih (preserves _ _ _ _ start done))
  · intro run
    induction run with
    | refl => exact .refl _
    | call permitted done _ ih =>
      exact .call ((same _ _ _ _ start done).mpr permitted) done (ih (preserves _ _ _ _ start done))

/-- A step-by-step simulation carries over to runs. -/
theorem Run.simulate (rel : S → T → Prop)
    (advance : ∀ s t a r s', rel s t → allowed s a → step s a = some (r, s') →
      ∃ t', next t a r t' ∧ rel s' t')
    (run : Run step allowed s calls s') (start : rel s t) :
    ∃ t', Trace next t calls t' ∧ rel s' t' := by
  induction run generalizing t with
  | refl => exact ⟨t, .refl t, start⟩
  | call permitted done _ ih =>
    obtain ⟨t₁, moved, related⟩ := advance _ _ _ _ _ start permitted done
    obtain ⟨t', trace, final⟩ := ih related
    exact ⟨t', .call moved trace, final⟩

/-- A simulation whose abstract steps refer to the concrete states. -/
theorem Run.beside {next : S → S → T → A → R → T → Prop} (rel : S → T → Prop)
    (advance : ∀ s t a r s', rel s t → allowed s a → step s a = some (r, s') →
      ∃ t', next s s' t a r t' ∧ rel s' t')
    (run : Run step allowed s calls s') (start : rel s t) :
    ∃ t', Trace (Beside step next) (s, t) calls (s', t') ∧ rel s' t' := by
  induction run generalizing t with
  | refl => exact ⟨t, .refl _, start⟩
  | call permitted done _ ih =>
    obtain ⟨t₁, moved, related⟩ := advance _ _ _ _ _ start permitted done
    obtain ⟨t', trace, final⟩ := ih related
    exact ⟨t', .call (.both done moved) trace, final⟩

/-! ## Replaying calls -/

/-- The calls made one after another, as long as they are allowed and return. -/
def replay (step : S → A → Option (R × S)) (allowed : S → A → Prop)
    [∀ s a, Decidable (allowed s a)] : S → List A → Option (List (A × R) × S)
  | s, [] => some ([], s)
  | s, a :: rest =>
    if allowed s a then do
      let (r, s) ← step s a
      let (calls, s) ← replay step allowed s rest
      some ((a, r) :: calls, s)
    else none

theorem Run.of_replay [∀ s a, Decidable (allowed s a)] {inputs : List A}
    (replayed : replay step allowed s inputs = some (calls, s')) : Run step allowed s calls s' := by
  induction inputs generalizing s calls with
  | nil =>
    cases replayed
    exact .refl _
  | cons a rest ih =>
    rw [replay] at replayed
    split at replayed
    · rename_i permitted
      simp only [Option.bind_eq_bind, Option.bind_eq_some_iff] at replayed
      obtain ⟨⟨r, s₁⟩, done, ⟨later, s₂⟩, tail, same⟩ := replayed
      cases same
      exact .call permitted done (ih tail)
    · cases replayed

theorem replay_inputs [∀ s a, Decidable (allowed s a)] {inputs : List A}
    (replayed : replay step allowed s inputs = some (calls, s')) : calls.map Prod.fst = inputs := by
  induction inputs generalizing s calls with
  | nil =>
    cases replayed
    rfl
  | cons a rest ih =>
    rw [replay] at replayed
    split at replayed
    · simp only [Option.bind_eq_bind, Option.bind_eq_some_iff] at replayed
      obtain ⟨⟨r, s₁⟩, done, ⟨later, s₂⟩, tail, same⟩ := replayed
      cases same
      rw [List.map_cons, ih tail]
    · cases replayed

/-- A replayed run whose outcome passes a test. -/
theorem Run.exists_of_replay_inputs (step : S → A → Option (R × S)) (allowed : S → A → Prop)
    [∀ s a, Decidable (allowed s a)] (s : S) (inputs : List A)
    (P : List (A × R) → S → Prop) [∀ calls s, Decidable (P calls s)]
    (replayed : (replay step allowed s inputs).any (fun result => P result.1 result.2) = true) :
    ∃ calls s', Run step allowed s calls s' ∧ calls.map Prod.fst = inputs ∧ P calls s' := by
  cases outcome : replay step allowed s inputs with
  | none =>
    rw [outcome] at replayed
    cases replayed
  | some result =>
    rw [outcome] at replayed
    exact ⟨result.1, result.2, Run.of_replay outcome, replay_inputs outcome, of_decide_eq_true replayed⟩

theorem Run.exists_of_replay (step : S → A → Option (R × S)) (allowed : S → A → Prop)
    [∀ s a, Decidable (allowed s a)] (s : S) (inputs : List A)
    (P : List (A × R) → S → Prop) [∀ calls s, Decidable (P calls s)]
    (replayed : (replay step allowed s inputs).any (fun result => P result.1 result.2) = true) :
    ∃ calls s', Run step allowed s calls s' ∧ P calls s' := by
  obtain ⟨calls, s', run, -, passes⟩ := Run.exists_of_replay_inputs step allowed s inputs P replayed
  exact ⟨calls, s', run, passes⟩

end Transition
