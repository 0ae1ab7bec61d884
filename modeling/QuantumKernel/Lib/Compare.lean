import QuantumKernel.Library.ByteOrder
import QuantumKernel.Library.CStrings

/-! # Comparing strings

The kernel and the user programs have their own `strcmp`, `strncmp` and `memcmp`.  All of them return
the difference of the first two bytes that differ, so the sign of the result is the lexicographic order
of the strings, of their first `n` characters, or of the `n` bytes.  A pointer is an offset from the
start of the string it walks over.
-/

namespace QuantumKernel.Lib

open ByteStore ByteOrder

/-- `strcmp`, the same in the kernel and in user space, from the characters `i` on. -/
def strcmp (s1 s2 : Bytes) : (fuel i : Nat) → Option Int
  | 0, _ => none
  | fuel + 1, i => if s1 i ≠ 0 ∧ s1 i = s2 i then strcmp s1 s2 fuel (i + 1) else some (byteDiff (s1 i) (s2 i))

/-- The loop of the kernel's `strncmp`, with `remaining` characters to go. -/
def kernelStrncmpLoop (s1 s2 : Bytes) : (remaining i : Nat) → Int
  | 0, _ => 0
  | remaining + 1, i =>
    if s1 i ≠ s2 i ∨ s1 i = 0 ∨ s2 i = 0 then byteDiff (s1 i) (s2 i)
    else kernelStrncmpLoop s1 s2 remaining (i + 1)

/-- `strncmp` of the kernel. -/
def kernelStrncmp (s1 s2 : Bytes) (n : Int32) : Int := kernelStrncmpLoop s1 s2 n.toNatClampNeg 0

/-- The loop of the user's `strncmp`, and the returns behind it. -/
def userStrncmpLoop (s1 s2 : Bytes) : (n i : Nat) → Int
  | 0, _ => 0
  | n + 1, i => if s1 i ≠ 0 ∧ s1 i = s2 i then userStrncmpLoop s1 s2 n (i + 1) else byteDiff (s1 i) (s2 i)

/-- `strncmp` of user space. -/
def userStrncmp (s1 s2 : Bytes) (n : UInt32) : Int := userStrncmpLoop s1 s2 n.toNat 0

/-- `memcmp` of the kernel and of user space, with `n` bytes to go. -/
def memcmp (s1 s2 : Bytes) : (n i : Nat) → Int
  | 0, _ => 0
  | n + 1, i => if s1 i ≠ s2 i then byteDiff (s1 i) (s2 i) else memcmp s1 s2 n (i + 1)

variable {s1 s2 : Bytes} {l m : List UInt8} {fuel i : Nat}

theorem strcmp_eq (left : StringAt s1 i l) (right : StringAt s2 i m) (enough : l.length < fuel) :
    strcmp s1 s2 fuel i = some (difference l m) := by
  induction l generalizing m i fuel with
  | nil =>
    obtain ⟨fuel, rfl⟩ := Nat.exists_eq_add_one_of_ne_zero (Nat.ne_zero_of_lt enough)
    have nul : s1 i = 0 := left
    rw [strcmp, if_neg (by simp [nul]), nul]
    cases m with
    | nil =>
      rw [show s2 i = 0 from right]
      rfl
    | cons b m =>
      rw [right.1]
      rfl
  | cons a l ih =>
    obtain ⟨fuel, rfl⟩ := Nat.exists_eq_add_one_of_ne_zero (Nat.ne_zero_of_lt enough)
    obtain ⟨first, notNul, tail⟩ := left
    rw [strcmp, first]
    cases m with
    | nil =>
      rw [show s2 i = 0 from right, if_neg (by simp [notNul])]
      rfl
    | cons b m =>
      obtain ⟨first', -, tail'⟩ := right
      rw [first', difference]
      by_cases same : a = b
      · rw [if_pos ⟨notNul, same⟩, if_pos same]
        exact ih tail tail' (Nat.lt_of_succ_lt_succ enough)
      · rw [if_neg fun both => same both.2, if_neg same]

theorem userStrncmpLoop_eq (left : StringAt s1 i l) (right : StringAt s2 i m) (n : Nat) :
    userStrncmpLoop s1 s2 n i = difference (l.take n) (m.take n) := by
  induction n generalizing l m i with
  | zero => rfl
  | succ n ih =>
    rw [userStrncmpLoop]
    cases l with
    | nil =>
      have nul : s1 i = 0 := left
      rw [if_neg (by simp [nul]), nul]
      cases m with
      | nil =>
        rw [show s2 i = 0 from right]
        rfl
      | cons b m =>
        rw [right.1]
        rfl
    | cons a l =>
      obtain ⟨first, notNul, tail⟩ := left
      rw [first]
      cases m with
      | nil =>
        rw [show s2 i = 0 from right, if_neg (by simp [notNul])]
        rfl
      | cons b m =>
        obtain ⟨first', -, tail'⟩ := right
        rw [first', List.take_succ_cons, List.take_succ_cons, difference]
        by_cases same : a = b
        · rw [if_pos ⟨notNul, same⟩, if_pos same]
          exact ih tail tail'
        · rw [if_neg fun both => same both.2, if_neg same]

/-- The two loops stop at the same character. -/
theorem kernelStrncmpLoop_eq (s1 s2 : Bytes) (n i : Nat) :
    kernelStrncmpLoop s1 s2 n i = userStrncmpLoop s1 s2 n i := by
  induction n generalizing i with
  | zero => rfl
  | succ n ih =>
    rw [kernelStrncmpLoop, userStrncmpLoop]
    by_cases same : s1 i = s2 i
    · by_cases nul : s1 i = 0
      · rw [if_pos (Or.inr (Or.inl nul)), if_neg fun both => both.1 nul]
      · have behind : s2 i ≠ 0 := same ▸ nul
        rw [if_neg (by simp [same, behind]), if_pos ⟨nul, same⟩]
        exact ih (i + 1)
    · rw [if_pos (Or.inl same), if_neg fun both => same both.2]

theorem memcmp_eq (s1 s2 : Bytes) (n i : Nat) :
    memcmp s1 s2 n i = difference ((List.range' i n).map s1) ((List.range' i n).map s2) := by
  induction n generalizing i with
  | zero => rfl
  | succ n ih =>
    rw [memcmp, List.range'_succ, List.map_cons, List.map_cons, difference]
    by_cases same : s1 i = s2 i
    · rw [if_neg (not_not.mpr same), if_pos same]
      exact ih (i + 1)
    · rw [if_pos same, if_neg same]

/-- **Comparison is the lexicographic order.**  `strcmp` returns, with the sign of the comparison of
the strings; both `strncmp` agree for every `n` that is not negative, and compare the first `n`
characters; `memcmp` compares the `n` bytes. -/
theorem comparison_is_lexicographic (left : StringAt s1 0 l) (right : StringAt s2 0 m) (n : Nat) (small : n < 2 ^ 31) :
    (∃ r, strcmp s1 s2 (l.length + 1) 0 = some r ∧ Compares r l m) ∧
      kernelStrncmp s1 s2 (Int32.ofNat n) = userStrncmp s1 s2 (UInt32.ofNat n) ∧
      Compares (userStrncmp s1 s2 (UInt32.ofNat n)) (l.take n) (m.take n) ∧
      Compares (memcmp s1 s2 n 0) ((List.range n).map s1) ((List.range n).map s2) := by
  have plainL := (stringAt_iff.mp left).2.1
  have plainM := (stringAt_iff.mp right).2.1
  have user : userStrncmp s1 s2 (UInt32.ofNat n) = difference (l.take n) (m.take n) := by
    rw [userStrncmp, UInt32.toNat_ofNat', Nat.mod_eq_of_lt (by omega)]
    exact userStrncmpLoop_eq left right n
  have count : (Int32.ofNat n).toNatClampNeg = n := by
    rw [Int32.toNatClampNeg_ofNat_of_lt small]
  refine ⟨⟨_, strcmp_eq left right (Nat.lt_succ_self _), compares_difference l m plainL plainM⟩, ?_, ?_, ?_⟩
  · rw [kernelStrncmp, count, kernelStrncmpLoop_eq, userStrncmp, UInt32.toNat_ofNat', Nat.mod_eq_of_lt (by omega)]
  · rw [user]
    exact compares_difference _ _ (fun zero => plainL (List.mem_of_mem_take zero))
      fun zero => plainM (List.mem_of_mem_take zero)
  · rw [memcmp_eq, List.range_eq_range']
    exact compares_difference_length _ _ (by simp)

/-- `"cat"` and `"cab"`: they differ in the third character. -/
theorem comparison_is_lexicographic_cat :
    ∃ s1 s2 : Bytes, (∃ r, strcmp s1 s2 4 0 = some r ∧ Compares r [0x63, 0x61, 0x74] [0x63, 0x61, 0x62]) ∧
      kernelStrncmp s1 s2 2 = userStrncmp s1 s2 2 := by
  have lexicographic := comparison_is_lexicographic
    (show StringAt (fun k => [0x63, 0x61, 0x74].getD k 0) 0 [0x63, 0x61, 0x74] by decide)
    (show StringAt (fun k => [0x63, 0x61, 0x62].getD k 0) 0 [0x63, 0x61, 0x62] by decide) 2 (by decide)
  exact ⟨_, _, lexicographic.1, lexicographic.2.1⟩

end QuantumKernel.Lib
