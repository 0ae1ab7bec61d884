import Mathlib.Data.Nat.ModEq
import Mathlib.Tactic

/-! # Sums with an end-around carry

Adding in a word whose carry out of the top is added again at the bottom is addition modulo
`m`, the largest value of the word, except that the multiples of `m` keep two
representatives.  The sum of nothing but zeros is `0`, and every other multiple of `m` comes
out as `m` (`carried`).  So a word that complements a sum brings it to `m`, never to `0`
(`carried_complement`): this is what a receiver checks.
-/

namespace EndAround

/-- What is left of `sum` when all carries have been added again. -/
def carried (m sum : Nat) : Nat := if sum = 0 then 0 else (sum - 1) % m + 1

/-- One round: the carry is added to the low part. -/
def carryRound (m sum : Nat) : Nat := sum % (m + 1) + sum / (m + 1)

variable {m sum : Nat}

@[simp] theorem carried_zero : carried m 0 = 0 := rfl

theorem carried_of_pos (positive : 0 < sum) : carried m sum = (sum - 1) % m + 1 := if_neg (by omega)

theorem carried_le (modulus : 0 < m) : carried m sum ≤ m := by
  rw [carried]
  split
  · exact Nat.zero_le m
  · exact Nat.mod_lt _ modulus

theorem carried_of_le (low : sum ≤ m) : carried m sum = sum := by
  rcases Nat.eq_zero_or_pos sum with rfl | positive
  · rfl
  · rw [carried_of_pos positive, Nat.mod_eq_of_lt (by omega)]
    omega

/-- Whole multiples of `m` do not count, as long as something is left. -/
theorem carried_add_mul (positive : 0 < sum) (k : Nat) : carried m (sum + m * k) = carried m sum := by
  rw [carried_of_pos positive, carried_of_pos (by omega), show sum + m * k - 1 = sum - 1 + m * k by omega,
    Nat.add_mul_mod_self_left]

theorem carryRound_pos (positive : 0 < sum) : 0 < carryRound m sum := by
  have split := Nat.mod_add_div sum (m + 1)
  rw [carryRound]
  rcases Nat.eq_zero_or_pos (sum / (m + 1)) with none | carry
  · rw [none, Nat.mul_zero, Nat.add_zero] at split
    omega
  · omega

/-- A round takes away `m` for each carry. -/
theorem carryRound_add_mul : carryRound m sum + m * (sum / (m + 1)) = sum := by
  have split := Nat.mod_add_div sum (m + 1)
  rw [carryRound]
  rw [Nat.add_mul, Nat.one_mul] at split
  omega

@[simp] theorem carried_carryRound : carried m (carryRound m sum) = carried m sum := by
  rcases Nat.eq_zero_or_pos sum with rfl | positive
  · simp [carryRound]
  · calc carried m (carryRound m sum) = carried m (carryRound m sum + m * (sum / (m + 1))) :=
          (carried_add_mul (carryRound_pos positive) _).symm
      _ = carried m sum := by rw [carryRound_add_mul]

/-- With its complement a sum comes to `m`. -/
theorem carried_complement (modulus : 0 < m) : carried m (sum + (m - carried m sum)) = m := by
  rcases Nat.eq_zero_or_pos sum with rfl | positive
  · rw [carried_zero, Nat.zero_add, Nat.sub_zero, carried_of_le le_rfl]
  · have split := Nat.mod_add_div (sum - 1) m
    have low := Nat.mod_lt (sum - 1) modulus
    have whole : sum + (m - carried m sum) = m + m * ((sum - 1) / m) := by
      rw [carried_of_pos positive]
      omega
    rw [whole, carried_add_mul modulus, carried_of_le le_rfl]

end EndAround
