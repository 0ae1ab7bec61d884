import Mathlib.Data.Finset.Card
import Mathlib.Tactic

/-! # Walking a successor table

A table stores one successor for every cell, and nothing is assumed about it: links may run in
circles, join, or lead out of the table.  `Reach` is the set of cells that following the links
from a value visits.

`clear` follows the links and overwrites each cell behind it.  It needs no set of visited cells:
when it comes back to one, it reads the mark it left there.  A loop that changes nothing has no
such mark, and `Loop.returns_iff` says when it returns: if the walk leaves the table, or visits a
cell at which the loop stops.
-/

namespace TableWalk

variable {α : Type*} {next : α → α} {cell : α → Prop} {a x free : α}

/-- The cells visited by following the links from `a`. -/
inductive Reach (next : α → α) (cell : α → Prop) (a : α) : α → Prop
  | here : cell a → Reach next cell a a
  | step {x : α} : Reach next cell a x → cell (next x) → Reach next cell a (next x)

theorem Reach.isCell (reach : Reach next cell a x) : cell x := by
  cases reach with
  | here valid => exact valid
  | step _ valid => exact valid

theorem Reach.start (reach : Reach next cell a x) : cell a := by
  induction reach with
  | here valid => exact valid
  | step _ _ ih => exact ih

theorem Reach.cons (valid : cell a) (reach : Reach next cell (next a) x) : Reach next cell a x := by
  induction reach with
  | here valid' => exact .step (.here valid) valid'
  | step _ valid' ih => exact .step ih valid'

/-- A walk goes on from the successor of its first cell. -/
theorem Reach.tail (reach : Reach next cell a x) : x = a ∨ Reach next cell (next a) x := by
  induction reach with
  | here => exact Or.inl rfl
  | step walked valid ih =>
    rcases ih with rfl | later
    · exact Or.inr (.here valid)
    · exact Or.inr (.step later valid)

/-- A cell that is its own successor is the only one visited. -/
theorem Reach.fixed (own : next a = a) (reach : Reach next cell a x) : x = a := by
  induction reach with
  | here => rfl
  | step _ _ ih => rw [ih, own]

/-! ## Loops that stop at some cells -/

section Search

variable {σ β : Type*} {stop : α → Prop} {loop : Nat → σ → α → Option β} {good : σ → Prop} {s : σ}

/-- A walk that stops at some cells comes to an end. -/
inductive Ends (next : α → α) (cell stop : α → Prop) : α → Prop
  | outside {a : α} : ¬ cell a → Ends next cell stop a
  | stops {a : α} : stop a → Ends next cell stop a
  | step {a : α} : cell a → Ends next cell stop (next a) → Ends next cell stop a

theorem Reach.ends (reach : Reach next cell a x) (ends : Ends next cell stop x) : Ends next cell stop a := by
  induction reach with
  | here => exact ends
  | step walked _ ih => exact ih (.step walked.isCell ends)

theorem ends_iff :
    Ends next cell stop a ↔ (cell a → ∃ x, Reach next cell a x ∧ (stop x ∨ ¬ cell (next x))) := by
  constructor
  · intro ends
    induction ends with
    | outside out => exact fun valid => absurd valid out
    | @stops a stopped => exact fun valid => ⟨a, .here valid, Or.inl stopped⟩
    | @step a _ _ ih =>
      intro valid
      by_cases onward : cell (next a)
      · obtain ⟨x, reach, ending⟩ := ih onward
        exact ⟨x, .cons valid reach, ending⟩
      · exact ⟨a, .here valid, Or.inr onward⟩
  · intro visits
    by_cases valid : cell a
    · obtain ⟨x, reach, ending⟩ := visits valid
      apply reach.ends
      rcases ending with stopped | leaves
      · exact .stops stopped
      · exact .step reach.isCell (.outside leaves)
    · exact .outside valid

/-- One round of a loop over a table: it returns where the walk ends, and goes on elsewhere. -/
structure Loop (next : α → α) (cell stop : α → Prop) (good : σ → Prop) (loop : Nat → σ → α → Option β) :
    Prop where
  empty : ∀ s a, loop 0 s a = none
  returns : ∀ s a, good s → (cell a → stop a) → ∃ fuel r, loop fuel s a = some r
  goes : ∀ s a, good s → cell a → ¬ stop a →
    ∃ s', good s' ∧ ∀ fuel, loop (fuel + 1) s a = loop fuel s' (next a)

/-- A loop returns exactly if its walk comes to an end. -/
theorem Loop.returns_iff (rounds : Loop next cell stop good loop) (start : good s) :
    (∃ fuel r, loop fuel s a = some r) ↔ Ends next cell stop a := by
  constructor
  · rintro ⟨fuel, r, run⟩
    induction fuel generalizing s a with
    | zero =>
      rw [rounds.empty] at run
      cases run
    | succ fuel ih =>
      by_cases valid : cell a
      · by_cases stopped : stop a
        · exact .stops stopped
        · obtain ⟨s', start', round⟩ := rounds.goes s a start valid stopped
          rw [round] at run
          exact .step valid (ih start' run)
      · exact .outside valid
  · intro ends
    induction ends generalizing s with
    | outside out => exact rounds.returns s _ start (fun valid => absurd valid out)
    | stops stopped => exact rounds.returns s _ start (fun _ => stopped)
    | @step a valid _ ih =>
      by_cases stopped : stop a
      · exact rounds.returns s a start (fun _ => stopped)
      · obtain ⟨s', start', round⟩ := rounds.goes s a start valid stopped
        obtain ⟨fuel, r, run⟩ := ih start'
        exact ⟨fuel + 1, r, (round fuel).trans run⟩

end Search

/-! ## Overwriting -/

section Overwrite

variable [DecidableEq α]

/-- Overwriting the cell that was left does not change what its successor reaches, apart from the
cell itself. -/
theorem reach_update_iff (stop : ¬ cell free) (ne : x ≠ a) :
    Reach (Function.update next a free) cell (next a) x ↔ Reach next cell (next a) x := by
  constructor
  · intro reach
    clear ne
    induction reach with
    | here valid => exact .here valid
    | @step y walked valid ih =>
      by_cases same : y = a
      · rw [same, Function.update_self] at valid
        exact absurd valid stop
      · rw [Function.update_of_ne same] at valid ⊢
        exact .step ih valid
  · intro reach
    have kept : x = a ∨ Reach (Function.update next a free) cell (next a) x := by
      clear ne
      induction reach with
      | here valid => exact Or.inr (.here valid)
      | @step y walked valid ih =>
        by_cases same : y = a
        · -- back at the overwritten cell: its old successor is where the walk began
          subst same
          exact Or.inr (.here valid)
        · have stepped := (ih.resolve_left same).step (by rwa [Function.update_of_ne same])
          rw [Function.update_of_ne same] at stepped
          exact Or.inr stepped
    exact kept.resolve_left ne

/-- Follows the links from `a`, overwrites every cell it leaves, and returns the cells in order. -/
def clear (cell : α → Prop) [DecidablePred cell] (free : α) : Nat → (α → α) → α → Option (List α)
  | 0, _, _ => none
  | fuel + 1, next, a =>
    if cell a then (clear cell free fuel (Function.update next a free) (next a)).map (a :: ·) else some []

variable [DecidablePred cell]

theorem clear_stop (fuel : Nat) (outside : ¬ cell a) : clear cell free (fuel + 1) next a = some [] :=
  if_neg outside

/-- The walk ends: every round but the last one frees a cell that was in use.  It visits what can
be reached. -/
theorem clear_spec (next : α → α) (a : α) (stop : ¬ cell free) (cells : Finset α)
    (covers : ∀ x, cell x → x ∈ cells) (fuel : Nat)
    (enough : (cells.filter (next · ≠ free)).card + 1 < fuel) :
    ∃ l, clear cell free fuel next a = some l ∧ ∀ x, x ∈ l ↔ Reach next cell a x := by
  induction fuel generalizing next a with
  | zero => exact absurd enough (Nat.not_lt_zero _)
  | succ fuel ih =>
    by_cases valid : cell a
    case neg =>
      refine ⟨[], clear_stop fuel valid, fun x => ?_⟩
      simpa using fun reach => valid (Reach.start reach)
    case pos =>
      by_cases inUse : next a = free
      · obtain ⟨fuel, rfl⟩ : ∃ k, fuel = k + 1 := ⟨fuel - 1, by omega⟩
        refine ⟨[a], ?_, fun x => ?_⟩
        · rw [clear, if_pos valid, inUse, clear_stop fuel stop]
          rfl
        · rw [List.mem_singleton]
          constructor
          · intro same
            rw [same]
            exact .here valid
          · intro reach
            refine reach.tail.resolve_right fun later => ?_
            rw [inUse] at later
            exact stop later.start
      · -- the induction is on the cells in use: this round frees one of them
        have fewer : cells.filter (Function.update next a free · ≠ free) =
            (cells.filter (next · ≠ free)).erase a := by
          ext x
          by_cases same : x = a
          · simp [same]
          · simp [same]
        have counted : a ∈ cells.filter (next · ≠ free) := Finset.mem_filter.mpr ⟨covers a valid, inUse⟩
        have card := Finset.card_erase_add_one counted
        rw [← fewer] at card
        obtain ⟨l, walked, visited⟩ := ih (Function.update next a free) (next a) (by omega)
        refine ⟨a :: l, ?_, fun x => ?_⟩
        · rw [clear, if_pos valid, walked]
          rfl
        · rw [List.mem_cons, visited]
          constructor
          · rintro (same | later)
            · rw [same]
              exact .here valid
            · by_cases same : x = a
              · rw [same]
                exact .here valid
              · exact .cons valid ((reach_update_iff stop same).mp later)
          · intro reach
            by_cases same : x = a
            · exact Or.inl same
            · exact Or.inr ((reach_update_iff stop same).mpr (reach.tail.resolve_left same))

end Overwrite

end TableWalk
