import Mathlib.Data.List.Lex

/-! # The lexicographic order of byte strings, as a difference

C compares two byte strings by the difference of the first two bytes that differ, where the end of a
string counts as 0.  The sign of the difference is the lexicographic order, if no byte of a string is
0 or the strings are equally long.
-/

namespace ByteOrder

/-- The difference of two bytes. -/
def byteDiff (a b : UInt8) : Int := (a.toNat : Int) - b.toNat

/-- The difference of the first bytes that differ. -/
def difference : List UInt8 → List UInt8 → Int
  | [], [] => 0
  | [], b :: _ => byteDiff 0 b
  | a :: _, [] => byteDiff a 0
  | a :: l, b :: m => if a = b then difference l m else byteDiff a b

/-- `r` has the sign of the comparison. -/
structure Compares (r : Int) (l m : List UInt8) : Prop where
  less : r < 0 ↔ l < m
  equal : r = 0 ↔ l = m
  greater : 0 < r ↔ m < l

variable {a b : UInt8} {l m : List UInt8} {r : Int}

theorem byteDiff_neg : byteDiff a b < 0 ↔ a < b := by
  rw [byteDiff, UInt8.lt_iff_toNat_lt]
  omega

theorem byteDiff_pos : 0 < byteDiff a b ↔ b < a := by
  rw [byteDiff, UInt8.lt_iff_toNat_lt]
  omega

theorem byteDiff_zero : byteDiff a b = 0 ↔ a = b := by
  rw [byteDiff, ← UInt8.toNat_inj]
  omega

theorem pos_of_ne_zero (notNul : a ≠ 0) : 0 < a := by
  rw [UInt8.lt_iff_toNat_lt]
  exact Nat.pos_of_ne_zero fun zero => notNul (UInt8.toNat_inj.mp zero)

/-- Strings compare as what is behind an equal first byte. -/
theorem Compares.cons (compares : Compares r l m) (a : UInt8) : Compares r (a :: l) (a :: m) := by
  have plain : ¬ a < a := UInt8.lt_irrefl a
  refine ⟨?_, ?_, ?_⟩
  · rw [compares.less, List.cons_lt_cons_iff]
    simp [plain]
  · rw [compares.equal]
    simp
  · rw [compares.greater, List.cons_lt_cons_iff]
    simp [plain]

/-- Strings compare as their first bytes, if these differ. -/
theorem Compares.first (differ : a ≠ b) (l m : List UInt8) : Compares (byteDiff a b) (a :: l) (b :: m) := by
  refine ⟨?_, ?_, ?_⟩
  · rw [byteDiff_neg, List.cons_lt_cons_iff]
    simp [differ]
  · rw [byteDiff_zero]
    simp [differ]
  · rw [byteDiff_pos, List.cons_lt_cons_iff]
    simp [Ne.symm differ]

/-- The difference orders strings without NUL bytes. -/
theorem compares_difference (l m : List UInt8) (left : 0 ∉ l) (right : 0 ∉ m) : Compares (difference l m) l m := by
  induction l generalizing m with
  | nil =>
    cases m with
    | nil => exact ⟨by simp [difference], by simp [difference], by simp [difference]⟩
    | cons b m =>
      have notNul : 0 ≠ b := List.ne_of_not_mem_cons right
      refine ⟨?_, ?_, ?_⟩
      · simp [difference, byteDiff_neg, pos_of_ne_zero notNul.symm]
      · simp [difference, byteDiff_zero, notNul]
      · simp [difference, byteDiff_pos]
  | cons a l ih =>
    cases m with
    | nil =>
      have notNul : 0 ≠ a := List.ne_of_not_mem_cons left
      refine ⟨?_, ?_, ?_⟩
      · simp [difference, byteDiff_neg]
      · simp [difference, byteDiff_zero, notNul.symm]
      · simp [difference, byteDiff_pos, pos_of_ne_zero notNul.symm]
    | cons b m =>
      rw [difference]
      split
      · rename_i same
        subst same
        exact (ih m (List.not_mem_of_not_mem_cons left) (List.not_mem_of_not_mem_cons right)).cons a
      · rename_i differ
        exact .first differ l m

/-- It orders strings of one length, whatever their bytes. -/
theorem compares_difference_length (l m : List UInt8) (length : l.length = m.length) :
    Compares (difference l m) l m := by
  induction l generalizing m with
  | nil =>
    obtain rfl := List.length_eq_zero_iff.mp length.symm
    exact ⟨by simp [difference], by simp [difference], by simp [difference]⟩
  | cons a l ih =>
    cases m with
    | nil => cases length
    | cons b m =>
      rw [difference]
      split
      · rename_i same
        subst same
        exact (ih m (Nat.succ.inj length)).cons a
      · rename_i differ
        exact .first differ l m

end ByteOrder
