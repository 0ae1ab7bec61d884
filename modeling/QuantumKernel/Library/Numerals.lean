import QuantumKernel.Library.ByteStore
import Mathlib.Data.Nat.Digits.Defs
import Mathlib.Data.Nat.Digits.Lemmas
import Mathlib.Data.List.GetD

/-! # Numerals

The numeral of a number in a base up to 16: what makes a list of characters one, and that the
digits of `Nat.digits`, written from the last to the first, are one.  Code that prints numbers
stores the digits the other way round and reverses them in place; the second part is about storing
a list of bytes in a memory and about the loops that reverse it.
-/

namespace Numerals

open ByteStore

/-- The character of a digit. -/
def digitChar (d : Nat) : UInt8 := UInt8.ofNat (if d < 10 then 0x30 + d else 0x61 + (d - 10))

/-- The digit of a character. -/
def charDigit (c : UInt8) : Nat := if c.toNat < 0x3A then c.toNat - 0x30 else c.toNat - 0x61 + 10

/-- The number that a list of digits denotes, the most significant one first. -/
def numeralValue (base : Nat) (chars : List UInt8) : Nat :=
  chars.foldl (fun n c => n * base + charDigit c) 0

/-- The numeral of `n` without leading zeros. -/
structure IsNumeral (base : Nat) (chars : List UInt8) (n : Nat) : Prop where
  nonempty : chars ≠ []
  digits : ∀ c ∈ chars, ∃ d < base, c = digitChar d
  canonical : chars.head? = some (digitChar 0) → chars = [digitChar 0]
  value : numeralValue base chars = n

/-- The numeral of an integer, with a minus sign in front if it is negative. -/
def IsSignedNumeral (base : Nat) (chars : List UInt8) (z : Int) : Prop :=
  if z < 0 then ∃ rest, chars = 0x2D :: rest ∧ IsNumeral base rest z.natAbs
  else IsNumeral base chars z.toNat

/-- The numeral of `n`. -/
def numeral (base n : Nat) : List UInt8 :=
  if n = 0 then [digitChar 0] else ((Nat.digits base n).map digitChar).reverse

variable {base n d k lo hi ptr : Nat} {chars rest : List UInt8} {mem : Bytes} {c : UInt8}

/-! ## Digits -/

theorem charDigit_digitChar (small : d < 16) : charDigit (digitChar d) = d := by
  by_cases low : d < 10
  · rw [digitChar, if_pos low, charDigit, UInt8.toNat_ofNat', Nat.mod_eq_of_lt (by omega), if_pos (by omega)]
    omega
  · rw [digitChar, if_neg low, charDigit, UInt8.toNat_ofNat', Nat.mod_eq_of_lt (by omega), if_neg (by omega)]
    omega

theorem digitChar_eq_zero (small : d < 16) (zero : digitChar d = digitChar 0) : d = 0 := by
  have digit := congrArg charDigit zero
  rwa [charDigit_digitChar small, charDigit_digitChar (by decide)] at digit

theorem numeralValue_append (base : Nat) (chars : List UInt8) (c : UInt8) :
    numeralValue base (chars ++ [c]) = numeralValue base chars * base + charDigit c := by
  rw [numeralValue, List.foldl_append]
  rfl

/-- Digits with the least significant one first. -/
theorem numeralValue_reverse {digits : List Nat} (small : ∀ d ∈ digits, d < 16) :
    numeralValue base (digits.map digitChar).reverse = Nat.ofDigits base digits := by
  induction digits with
  | nil => rfl
  | cons d digits ih =>
    have value := ih fun e member => small e (List.mem_cons_of_mem d member)
    rw [List.map_cons, List.reverse_cons, numeralValue_append, value,
      charDigit_digitChar (small d List.mem_cons_self), Nat.ofDigits_cons, Nat.add_comm, Nat.mul_comm]

theorem numeral_isNumeral (low : 1 < base) (high : base ≤ 16) (n : Nat) : IsNumeral base (numeral base n) n := by
  by_cases zero : n = 0
  · subst zero
    refine ⟨List.cons_ne_nil _ _, fun c member => ⟨0, by omega, ?_⟩, fun _ => rfl, ?_⟩
    · exact List.mem_singleton.mp member
    · simp [numeral, numeralValue, charDigit_digitChar]
  · have small (d : Nat) (member : d ∈ Nat.digits base n) : d < base := Nat.digits_lt_base low member
    have digits : Nat.digits base n ≠ [] := Nat.digits_ne_nil_iff_ne_zero.mpr zero
    rw [numeral, if_neg zero]
    refine ⟨by simpa using digits, fun c member => ?_, fun leading => ?_, ?_⟩
    · obtain ⟨d, isDigit, rfl⟩ := List.mem_map.mp (List.mem_reverse.mp member)
      exact ⟨d, small d isDigit, rfl⟩
    · -- the first character is that of the last digit, which is not 0
      have last := Nat.getLast_digit_ne_zero base zero
      rw [List.head?_reverse, List.getLast?_map, List.getLast?_eq_some_getLast digits] at leading
      refine absurd (digitChar_eq_zero ?_ (Option.some.inj leading)) last
      exact lt_of_lt_of_le (small _ (List.getLast_mem digits)) high
    · rw [numeralValue_reverse fun d member => lt_of_lt_of_le (small d member) high, Nat.ofDigits_digits]

theorem numeral_length_le (low : 1 < base) (positive : 0 < k) (bound : n < base ^ k) :
    (numeral base n).length ≤ k := by
  by_cases zero : n = 0
  · simp only [numeral, if_pos zero, List.length_singleton]
    exact positive
  · rw [numeral, if_neg zero, List.length_reverse, List.length_map]
    exact (Nat.digits_length_le_iff low n).mpr bound

/-! ## Storing and reversing -/

/-- The characters stored from `ptr` on. -/
def put (mem : Bytes) (ptr : Nat) (chars : List UInt8) : Bytes :=
  copy mem ptr (fun k => chars.getD k 0) chars.length

@[simp] theorem put_nil (mem : Bytes) (ptr : Nat) : put mem ptr [] = mem := by
  funext k
  exact copy_outside (by simp only [List.length_nil]; omega)

theorem put_inside (mem : Bytes) (ptr : Nat) (inside : k < chars.length) : put mem ptr chars (ptr + k) = chars[k] := by
  rw [put, copy_inside (by omega) (by omega), Nat.add_sub_cancel_left, List.getD_eq_getElem _ _ inside]

theorem put_cons (mem : Bytes) (ptr : Nat) (c : UInt8) (chars : List UInt8) :
    put mem ptr (c :: chars) = put (Function.update mem ptr c) (ptr + 1) chars := by
  funext k
  by_cases here : k = ptr
  · subst here
    have first : put mem k (c :: chars) (k + 0) = c := put_inside mem k (by simp)
    rw [Nat.add_zero] at first
    rw [first, put, copy_outside (by omega), Function.update_self]
  · by_cases behind : ptr < k ∧ k < ptr + 1 + chars.length
    · obtain ⟨j, rfl⟩ : ∃ j, k = ptr + 1 + j := ⟨k - (ptr + 1), by omega⟩
      have inside : j < chars.length := by omega
      rw [put_inside _ _ inside, Nat.add_right_comm, Nat.add_assoc, put_inside _ _ (by simpa using inside),
        List.getElem_cons_succ]
    · rw [put, put, copy_outside (by simp only [List.length_cons]; omega), copy_outside (by omega),
        Function.update_of_ne here]

theorem put_append (mem : Bytes) (ptr : Nat) (chars rest : List UInt8) :
    put mem ptr (chars ++ rest) = put (put mem ptr chars) (ptr + chars.length) rest := by
  induction chars generalizing mem ptr with
  | nil => simp
  | cons c chars ih => rw [List.cons_append, put_cons, ih, put_cons, List.length_cons, Nat.add_assoc, Nat.add_comm 1]

/-- One store behind the characters. -/
theorem put_snoc (mem : Bytes) (ptr : Nat) (chars : List UInt8) (c : UInt8) :
    Function.update (put mem ptr chars) (ptr + chars.length) c = put mem ptr (chars ++ [c]) := by
  rw [put_append, put_cons, put_nil]

/-- The bytes at `i` and `j` change places. -/
def swap (mem : Bytes) (i j : Nat) : Bytes := Function.update (Function.update mem j (mem i)) i (mem j)

theorem swap_comm (mem : Bytes) (i j : Nat) : swap mem i j = swap mem j i := by
  funext k
  simp only [swap, Function.update_apply]
  grind

/-- The bytes from `lo` to `hi` are in reverse order. -/
def mirror (mem : Bytes) (lo hi : Nat) : Bytes := fun k => if lo ≤ k ∧ k ≤ hi then mem (lo + hi - k) else mem k

theorem mirror_done (done : hi ≤ lo) : mirror mem lo hi = mem := by
  funext k
  rw [mirror]
  split
  · congr 1
    omega
  · rfl

/-- The outermost bytes first, then those between them. -/
theorem mirror_swap (more : lo < hi) : mirror (swap mem lo hi) (lo + 1) (hi - 1) = mirror mem lo hi := by
  funext k
  simp only [mirror, swap, Function.update_apply]
  grind

/-- A mirrored list of characters. -/
theorem mirror_put (mem : Bytes) (ptr : Nat) (nonempty : 0 < chars.length) :
    mirror (put mem ptr chars) ptr (ptr + chars.length - 1) = put mem ptr chars.reverse := by
  funext k
  rw [mirror]
  by_cases inside : ptr ≤ k ∧ k ≤ ptr + chars.length - 1
  · obtain ⟨j, rfl⟩ : ∃ j, k = ptr + j := ⟨k - ptr, by omega⟩
    have bound : j < chars.reverse.length := by
      rw [List.length_reverse]
      omega
    have other : ptr + (ptr + chars.length - 1) - (ptr + j) = ptr + (chars.length - 1 - j) := by omega
    rw [if_pos inside, other, put_inside _ _ (by omega), put_inside _ _ bound, List.getElem_reverse]
  · rw [if_neg inside, put, put, copy_outside (by omega), copy_outside (by rw [List.length_reverse]; omega)]

end Numerals
