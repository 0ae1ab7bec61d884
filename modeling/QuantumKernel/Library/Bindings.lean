import Mathlib.Data.List.Basic
import Mathlib.Logic.Function.Basic

/-! # Bindings

A list of keys with values, of which the last one for a key counts: what remains of a
sequence of assignments.
-/

namespace Bindings

variable {K V : Type*} [DecidableEq K]

/-- The value of the last binding of a key. -/
def lookupLast : List (K × V) → K → Option V
  | [], _ => none
  | binding :: rest, key => (lookupLast rest key).or (if key = binding.1 then some binding.2 else none)

variable {l l' : List (K × V)} {key : K} {value : V}

@[simp] theorem lookupLast_nil (key : K) : lookupLast ([] : List (K × V)) key = none := rfl

theorem lookupLast_cons (binding : K × V) (rest : List (K × V)) (key : K) :
    lookupLast (binding :: rest) key =
      (lookupLast rest key).or (if key = binding.1 then some binding.2 else none) := rfl

theorem lookupLast_append (l l' : List (K × V)) (key : K) :
    lookupLast (l ++ l') key = (lookupLast l' key).or (lookupLast l key) := by
  induction l with
  | nil => simp
  | cons binding rest ih => rw [List.cons_append, lookupLast_cons, lookupLast_cons, ih, Option.or_assoc]

theorem lookupLast_eq_none : lookupLast l key = none ↔ ∀ binding ∈ l, key ≠ binding.1 := by
  induction l with
  | nil => simp
  | cons binding rest ih => simp [lookupLast_cons, ih, and_comm]

theorem lookupLast_mem (found : lookupLast l key = some value) : (key, value) ∈ l := by
  induction l with
  | nil => cases found
  | cons binding rest ih =>
    rw [lookupLast_cons, Option.or_eq_some_iff] at found
    cases found with
    | inl later => exact List.mem_cons_of_mem _ (ih later)
    | inr here =>
      have same : key = binding.1 := by
        by_contra other
        rw [if_neg other] at here
        cases here.2
      rw [if_pos same] at here
      cases here.2
      rw [same]
      exact List.mem_cons_self

/-- A key that has only one value. -/
theorem lookupLast_unique (bound : (key, value) ∈ l) (unique : ∀ binding ∈ l, key = binding.1 → binding.2 = value) :
    lookupLast l key = some value := by
  cases found : lookupLast l key with
  | none => exact absurd rfl (lookupLast_eq_none.mp found _ bound)
  | some other => exact congrArg some (unique _ (lookupLast_mem found) rfl)

/-- A table that is written entry by entry holds what was written last. -/
theorem foldl_update (l : List (K × V)) (table : K → V) (key : K) :
    l.foldl (fun table binding => Function.update table binding.1 binding.2) table key =
      (lookupLast l key).getD (table key) := by
  induction l generalizing table with
  | nil => rfl
  | cons binding rest ih =>
    rw [List.foldl_cons, ih, lookupLast_cons]
    cases lookupLast rest key with
    | some value => rfl
    | none => by_cases same : key = binding.1 <;> simp [same]

end Bindings
