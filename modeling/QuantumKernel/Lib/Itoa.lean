import QuantumKernel.Library.Numerals

/-! # `itoa` and `atoi`

The kernel's printer for numbers stores the digits from the last to the first and reverses them in
place.  It divides the value as it is, and the remainder of a negative one is a negative index into
the digit string; an access outside of an array ends the call with its index.
-/

namespace QuantumKernel.Lib

open ByteStore Numerals

inductive Fault
  | index (i : Int)
  | fuel

/-- `"0123456789abcdef"`, with its NUL. -/
def digitString : List UInt8 :=
  [0x30, 0x31, 0x32, 0x33, 0x34, 0x35, 0x36, 0x37, 0x38, 0x39, 0x61, 0x62, 0x63, 0x64, 0x65, 0x66, 0]

/-- `"0123456789abcdef"[index]`. -/
def digitAt (index : Int32) : Except Fault UInt8 :=
  if index.toInt < 0 then .error (.index index.toInt)
  else match digitString[index.toInt.toNat]? with
    | some c => .ok c
    | none => .error (.index index.toInt)

/-- `while (value)`: the memory and `ptr` behind the loop. -/
def itoaLoop (base : Int32) : Nat → Int32 → Bytes → Nat → Except Fault (Bytes × Nat)
  | 0, _, _, _ => .error .fuel
  | fuel + 1, value, str, ptr =>
    if value ≠ 0 then
      let tmpValue := value
      let value := value / base
      match digitAt (tmpValue - value * base) with
      | .error fault => .error fault
      | .ok c => itoaLoop base fuel value (Function.update str ptr c) (ptr + 1)
    else .ok (str, ptr)

/-- `while (ptr1 < ptr)`. -/
def reverseLoop : (str : Bytes) → (ptr1 ptr : Nat) → Bytes
  | str, _, 0 => str
  | str, ptr1, ptr + 1 =>
    if ptr1 < ptr + 1 then reverseLoop (swap str ptr1 (ptr + 1)) (ptr1 + 1) ptr else str

/-- `itoa`: the memory at `str` after the call. -/
def itoa (fuel : Nat) (value : Int32) (str : Bytes) (base : Int32) : Except Fault Bytes :=
  if base < 2 ∨ 16 < base then .ok (Function.update str 0 0)
  else if value = 0 then .ok (Function.update (Function.update str 0 0x30) 1 0)
  else
    let isNegative := value < 0 ∧ base = 10
    let value := if isNegative then -value else value
    match itoaLoop base fuel value str 0 with
    | .error fault => .error fault
    | .ok (str, ptr) =>
      let (str, ptr) := if isNegative then (Function.update str ptr 0x2D, ptr + 1) else (str, ptr)
      .ok (reverseLoop (Function.update str ptr 0) 0 (ptr - 1))

/-- `while (*str == ' ' || *str == '\t' || *str == '\n')`. -/
def skipBlanks (str : Bytes) : Nat → Nat → Option Nat
  | 0, _ => none
  | fuel + 1, p =>
    if str p = 0x20 ∨ str p = 9 ∨ str p = 10 then skipBlanks str fuel (p + 1) else some p

/-- `while (*str >= '0' && *str <= '9')`. -/
def atoiLoop (str : Bytes) : Nat → Nat → Int32 → Option Int32
  | 0, _, _ => none
  | fuel + 1, p, result =>
    if 0x30 ≤ str p ∧ str p ≤ 0x39 then
      atoiLoop str fuel (p + 1) (result * 10 + Int32.ofNat ((str p).toNat - 0x30))
    else some result

/-- `atoi`. -/
def atoi (fuel : Nat) (str : Bytes) : Option Int32 := do
  let p ← skipBlanks str fuel 0
  let (sign, p) : Int32 × Nat :=
    if str p = 0x2D then (-1, p + 1) else if str p = 0x2B then (1, p + 1) else (1, p)
  let result ← atoiLoop str fuel p 0
  some (sign * result)

/-- The memory holds the characters and a NUL behind them. -/
structure HoldsString (str : Bytes) (chars : List UInt8) : Prop where
  bytes : ∀ k, ∀ inside : k < chars.length, str k = chars[k]
  nul : str chars.length = 0

/-- `itoa` leaves the numeral of the value, signed in base 10 and unsigned in the other bases, and
`atoi` reads a decimal one back. -/
def PrintsNumber (fuel : Nat) (value : Int32) (str : Bytes) (base : Int32) : Prop :=
  ∃ str' chars, itoa fuel value str base = .ok str' ∧ HoldsString str' chars ∧
    (base = 10 → IsSignedNumeral 10 chars value.toInt ∧ atoi fuel str' = some value) ∧
    (base ≠ 10 → IsNumeral base.toInt.toNat chars value.toUInt32.toNat)

variable {fuel b n p r ptr : Nat} {value base result : Int32} {str : Bytes} {chars : List UInt8}

/-! ## The digit loop -/

/-- One round divides with truncation, and the index into the digit string is the remainder. -/
theorem itoa_round (isBase : base.toInt = b) (low : 2 ≤ b) (high : b ≤ 16) (value : Int32) :
    (value / base).toInt = value.toInt.tdiv b ∧ (value - value / base * base).toInt = value.toInt.tmod b := by
  have notNeg : base ≠ -1 := by
    rintro rfl
    rw [show (-1 : Int32).toInt = -1 from rfl] at isBase
    omega
  have quotient : (value / base).toInt = value.toInt.tdiv b := by
    rw [Int32.toInt_div_of_ne_right _ _ notNeg, isBase]
  have split := Int.tmod_add_mul_tdiv value.toInt b
  have remainder := Int.natAbs_tmod value.toInt b
  have below : value.toInt.natAbs % (b : Int).natAbs < b := Nat.mod_lt _ (by omega)
  have sign : 0 ≤ value.toInt → 0 ≤ value.toInt.tmod b := fun nonneg => Int.tmod_nonneg _ nonneg
  have sign' : value.toInt ≤ 0 → value.toInt.tmod b ≤ 0 := fun nonpos => by
    have negated := Int.tmod_nonneg (b : Int) (Int.neg_nonneg_of_nonpos nonpos)
    rw [Int.neg_tmod] at negated
    omega
  have lower := value.le_toInt
  have upper := value.toInt_lt
  refine ⟨quotient, ?_⟩
  rw [Int32.toInt_sub, Int32.toInt_mul, quotient, isBase, Int.mul_comm]
  generalize (b : Int) * value.toInt.tdiv b = product at split ⊢
  rw [Int.bmod_eq_of_le (n := product) (by omega) (by omega), Int.bmod_eq_of_le (by omega) (by omega)]
  omega

theorem digitAt_eq {index : Int32} (inside : index.toInt = n) (small : n < 16) : digitAt index = .ok (digitChar n) := by
  have chars : ∀ n < 16, digitString[n]? = some (digitChar n) := by decide
  rw [digitAt, if_neg (by omega), inside, Int.toNat_natCast, chars n small]

/-- A value that is not negative leaves its digits, the least significant one first. -/
theorem itoaLoop_digits (isBase : base.toInt = b) (low : 2 ≤ b) (high : b ≤ 16) (isValue : value.toInt = n)
    (enough : n < 2 ^ fuel) :
    itoaLoop base (fuel + 1) value str ptr =
      .ok (put str ptr ((Nat.digits b n).map digitChar), ptr + (Nat.digits b n).length) := by
  induction fuel generalizing value n str ptr with
  | zero =>
    obtain rfl : n = 0 := by omega
    have zero : value = 0 := Int32.toInt_inj.mp isValue
    simp [itoaLoop, zero]
  | succ fuel ih =>
    rw [itoaLoop]
    by_cases zero : n = 0
    · subst zero
      have zero : value = 0 := Int32.toInt_inj.mp isValue
      simp [zero]
    · have nonzero : value ≠ 0 := by
        rintro rfl
        exact zero (by simpa using isValue.symm)
      obtain ⟨quotient, remainder⟩ := itoa_round isBase low high value
      rw [isValue, ← Int.ofNat_tdiv] at quotient
      rw [isValue, ← Int.ofNat_tmod] at remainder
      have smaller : n / b < 2 ^ fuel := by
        have half : n / b ≤ n / 2 := Nat.div_le_div_left low (by decide)
        rw [Nat.pow_succ] at enough
        omega
      have digit : n % b < 16 := lt_of_lt_of_le (Nat.mod_lt n (by omega)) high
      rw [if_pos nonzero]
      simp only [digitAt_eq remainder digit, ih quotient smaller]
      rw [Nat.digits_def' low (Nat.pos_of_ne_zero zero), List.map_cons, put_cons, List.length_cons, Nat.add_assoc,
        Nat.add_comm 1]

/-- A negative value runs into a negative index. -/
theorem itoaLoop_negative (str : Bytes) (ptr : Nat) (isBase : base.toInt = b) (low : 2 ≤ b) (high : b ≤ 16) (negative : value.toInt < 0)
    (enough : value.toInt.natAbs < 2 ^ fuel) : ∃ i < 0, itoaLoop base fuel value str ptr = .error (.index i) := by
  induction fuel generalizing value str ptr with
  | zero => omega
  | succ fuel ih =>
    have nonzero : value ≠ 0 := by
      rintro rfl
      exact absurd negative (by decide)
    obtain ⟨quotient, remainder⟩ := itoa_round isBase low high value
    have split := Int.tmod_add_mul_tdiv value.toInt b
    have sign : value.toInt.tmod b ≤ 0 := by
      have negated := Int.tmod_nonneg (b : Int) (Int.neg_nonneg_of_nonpos negative.le)
      rw [Int.neg_tmod] at negated
      omega
    rw [itoaLoop, if_pos nonzero]
    by_cases exact_ : value.toInt.tmod b = 0
    · -- the remainder is 0, and the quotient is negative as well
      rw [exact_] at remainder split
      have absolute : (value.toInt.tdiv b).natAbs = value.toInt.natAbs / (b : Int).natAbs := Int.natAbs_tdiv _ _
      have half : value.toInt.natAbs / (b : Int).natAbs ≤ value.toInt.natAbs / 2 := Nat.div_le_div_left low (by decide)
      have smaller : (value / base).toInt.natAbs < 2 ^ fuel := by
        rw [quotient]
        rw [Nat.pow_succ] at enough
        omega
      have below : (value / base).toInt < 0 := by
        rw [quotient]
        by_contra nonneg
        have product := Int.mul_nonneg (Int.natCast_nonneg b) (Int.not_lt.mp nonneg)
        omega
      simp only [digitAt_eq (n := 0) remainder (by decide)]
      exact ih _ _ below smaller
    · have index : (value - value / base * base).toInt < 0 := by omega
      simp only [digitAt, if_pos index]
      exact ⟨_, index, rfl⟩

/-! ## The buffer -/

theorem reverseLoop_eq (str : Bytes) (lo hi : Nat) : reverseLoop str lo hi = mirror str lo hi := by
  induction hi generalizing str lo with
  | zero => rw [reverseLoop, mirror_done (Nat.zero_le lo)]
  | succ hi ih =>
    rw [reverseLoop]
    split
    · rename_i more
      rw [ih, ← mirror_swap more, Nat.add_sub_cancel]
    · rename_i done
      rw [mirror_done (Nat.not_lt.mp done)]

/-- The characters with their NUL, reversed. -/
theorem reverseLoop_put (str : Bytes) (chars : List UInt8) (nonempty : 0 < chars.length) :
    reverseLoop (Function.update (put str 0 chars) chars.length 0) 0 (chars.length - 1) =
      put (Function.update str chars.length 0) 0 chars.reverse := by
  have apart : Function.update (put str 0 chars) chars.length 0 = put (Function.update str chars.length 0) 0 chars := by
    funext k
    by_cases here : k = chars.length
    · subst here
      rw [Function.update_self, put, copy_outside (by omega), Function.update_self]
    · rw [Function.update_of_ne here, put, put, copy, copy, Function.update_of_ne here]
  have mirrored := mirror_put (Function.update str chars.length 0) 0 nonempty
  rw [Nat.zero_add] at mirrored
  rw [apart, reverseLoop_eq, mirrored]

theorem holdsString_put (str : Bytes) (chars : List UInt8) :
    HoldsString (put (Function.update str chars.length 0) 0 chars) chars where
  bytes := fun k inside => by
    have stored := put_inside (Function.update str chars.length 0) 0 inside
    rwa [Nat.zero_add] at stored
  nul := by rw [put, copy_outside (by omega), Function.update_self]

/-! ## `atoi` -/

theorem le_numeral_foldl (b n : Nat) (chars : List UInt8) (positive : 0 < b) :
    n ≤ chars.foldl (fun n c => n * b + charDigit c) n := by
  induction chars generalizing n with
  | nil => exact le_refl n
  | cons c chars ih =>
    have more : n ≤ n * b + charDigit c := le_add_right (Nat.le_mul_of_pos_right n positive)
    exact more.trans (ih _)

/-- The loop reads the digits up to the NUL, as long as the number is an `int`. -/
theorem atoiLoop_digits (isResult : result.toInt = r) (digits : ∀ c ∈ chars, ∃ d < 10, c = digitChar d)
    (there : ∀ k, ∀ inside : k < chars.length, str (p + k) = chars[k]) (nul : str (p + chars.length) = 0)
    (small : chars.foldl (fun n c => n * 10 + charDigit c) r < 2147483648) (enough : chars.length < fuel) :
    ∃ final, atoiLoop str fuel p result = some final ∧
      final.toInt = (chars.foldl (fun n c => n * 10 + charDigit c) r : Nat) := by
  induction chars generalizing p r result fuel with
  | nil =>
    obtain ⟨fuel, rfl⟩ := Nat.exists_eq_succ_of_ne_zero (Nat.ne_of_gt enough)
    have stop : str p = 0 := by simpa using nul
    exact ⟨result, by simp [atoiLoop, stop], isResult⟩
  | cons c chars ih =>
    obtain ⟨fuel, rfl⟩ := Nat.exists_eq_succ_of_ne_zero (Nat.ne_of_gt (Nat.zero_lt_of_lt enough))
    obtain ⟨d, isDigit, rfl⟩ := digits c List.mem_cons_self
    have here : str p = digitChar d := there 0 (by simp)
    have char : (digitChar d).toNat = 0x30 + d := by
      rw [digitChar, if_pos isDigit, UInt8.toNat_ofNat', Nat.mod_eq_of_lt (by omega)]
    have accepted : 0x30 ≤ str p ∧ str p ≤ 0x39 := by
      rw [here, UInt8.le_iff_toNat_le, UInt8.le_iff_toNat_le, char]
      exact ⟨Nat.le_add_right _ _, show 0x30 + d ≤ 0x39 by omega⟩
    have digit : charDigit (digitChar d) = d := charDigit_digitChar (by omega)
    rw [List.foldl_cons, digit] at small ⊢
    have grows := le_numeral_foldl 10 (r * 10 + d) chars (by decide)
    have next : (result * 10 + Int32.ofNat ((str p).toNat - 0x30)).toInt = ((r * 10 + d : Nat) : Int) := by
      rw [here, char, Nat.add_sub_cancel_left, Int32.toInt_add, Int32.toInt_mul, isResult,
        Int32.toInt_ofNat_of_lt (by omega), show (10 : Int32).toInt = 10 from rfl]
      rw [Int.bmod_eq_of_le (n := (r : Int) * 10) (by omega) (by omega), Int.bmod_eq_of_le (by omega) (by omega)]
      omega
    rw [atoiLoop, if_pos accepted]
    refine ih next (fun c member => digits c (List.mem_cons_of_mem _ member)) (fun k inside => ?_) ?_ small
      (Nat.lt_of_succ_lt_succ enough)
    · have stored := there (k + 1) (Nat.succ_lt_succ inside)
      rwa [List.getElem_cons_succ, Nat.add_comm k, ← Nat.add_assoc] at stored
    · rwa [List.length_cons, Nat.add_comm chars.length, ← Nat.add_assoc] at nul

/-- The loop reads a numeral that is an `int`. -/
theorem atoiLoop_numeral (str : Bytes) (p : Nat) (isNumeral : IsNumeral 10 chars n)
    (there : ∀ k, ∀ inside : k < chars.length, str (p + k) = chars[k]) (nul : str (p + chars.length) = 0)
    (small : n < 2147483648) (enough : chars.length < fuel) :
    ∃ final, atoiLoop str fuel p 0 = some final ∧ final.toInt = n := by
  have isValue := isNumeral.value
  rw [numeralValue] at isValue
  obtain ⟨final, run, isFinal⟩ := atoiLoop_digits (show (0 : Int32).toInt = (0 : Nat) from rfl) isNumeral.digits there
    nul (by rwa [isValue]) enough
  exact ⟨final, run, by rw [isFinal, isValue]⟩

/-- A product that is an `int` does not wrap. -/
theorem mul_eq_of_toInt {final sign value : Int32} (product : final.toInt * sign.toInt = value.toInt) :
    final * sign = value := by
  have lower := value.le_toInt
  have upper := value.toInt_lt
  apply Int32.toInt_inj.mp
  rw [Int32.toInt_mul, product, Int.bmod_eq_of_le (by omega) (by omega)]

/-- `atoi` reads a decimal numeral back. -/
theorem atoi_numeral (holds : HoldsString str chars) (signed : IsSignedNumeral 10 chars value.toInt)
    (isInt : value ≠ Int32.minValue) (enough : chars.length < fuel) : atoi fuel str = some value := by
  have lower := value.le_toInt
  have upper := value.toInt_lt
  have notMin : value.toInt ≠ -2 ^ 31 := fun same => isInt (Int32.toInt_inj.mp same)
  obtain ⟨fuel, rfl⟩ := Nat.exists_eq_succ_of_ne_zero (Nat.ne_of_gt (Nat.zero_lt_of_lt enough))
  -- a numeral does not start with a blank or a sign
  have notSpecial {c : UInt8} {d : Nat} (isDigit : d < 10) (char : c = digitChar d) :
      ¬ (c = 0x20 ∨ c = 9 ∨ c = 10) ∧ c ≠ 0x2D ∧ c ≠ 0x2B := by
    subst char
    have all : ∀ d < 10, ¬ (digitChar d = 0x20 ∨ digitChar d = 9 ∨ digitChar d = 10) ∧ digitChar d ≠ 0x2D ∧
        digitChar d ≠ 0x2B := by decide
    exact all d isDigit
  rw [IsSignedNumeral] at signed
  split at signed
  · rename_i negative
    obtain ⟨rest, rfl, isNumeral⟩ := signed
    have sign : str 0 = 0x2D := holds.bytes 0 (by simp)
    rw [List.length_cons] at enough
    -- the digits start behind the sign
    have there (k : Nat) (inside : k < rest.length) : str (1 + k) = rest[k] := by
      have stored := holds.bytes (k + 1) (Nat.succ_lt_succ inside)
      rwa [List.getElem_cons_succ, Nat.add_comm] at stored
    have nul : str (1 + rest.length) = 0 := by
      rw [Nat.add_comm]
      exact holds.nul
    obtain ⟨final, run, isFinal⟩ := atoiLoop_numeral str 1 isNumeral there nul (by omega)
      (Nat.lt_trans (Nat.lt_succ_self _) enough)
    have skipped : skipBlanks str (fuel + 1) 0 = some 0 := by simp [skipBlanks, sign]
    simp only [atoi, skipped, Option.bind_eq_bind, Option.bind_some, sign, if_true, run, Option.some.injEq]
    refine mul_eq_of_toInt ?_
    rw [isFinal, show (-1 : Int32).toInt = -1 from rfl]
    omega
  · rename_i nonneg
    obtain ⟨c, rest, rfl⟩ := List.exists_cons_of_ne_nil signed.nonempty
    have first : str 0 = c := holds.bytes 0 (by simp)
    obtain ⟨d, isDigit, char⟩ := signed.digits c List.mem_cons_self
    obtain ⟨notBlank, notMinus, notPlus⟩ := notSpecial isDigit char
    obtain ⟨final, run, isFinal⟩ := atoiLoop_numeral str 0 signed
      (fun k inside => by rw [Nat.zero_add]; exact holds.bytes k inside) (by rw [Nat.zero_add]; exact holds.nul)
      (by omega) enough
    have skipped : skipBlanks str (fuel + 1) 0 = some 0 := by
      rw [skipBlanks, first, if_neg notBlank]
    simp only [atoi, skipped, Option.bind_eq_bind, Option.bind_some, first, if_neg notMinus, if_neg notPlus, run,
      Option.some.injEq]
    refine mul_eq_of_toInt ?_
    rw [isFinal, show (1 : Int32).toInt = 1 from rfl]
    omega

/-! ## `itoa` -/

theorem base_range (isBase : base.toInt = b) (low : 2 ≤ b) (high : b ≤ 16) : ¬ (base < 2 ∨ 16 < base) := by
  rw [Int32.lt_iff_toInt_lt, Int32.lt_iff_toInt_lt, isBase]
  simp only [show (2 : Int32).toInt = 2 from rfl, show (16 : Int32).toInt = 16 from rfl]
  omega

/-- A value that is not negative. -/
theorem itoa_nonneg (enough : 33 ≤ fuel) (isBase : base.toInt = b) (low : 2 ≤ b) (high : b ≤ 16)
    (isValue : value.toInt = n) (str : Bytes) :
    ∃ str', itoa fuel value str base = .ok str' ∧ HoldsString str' (numeral b n) := by
  obtain ⟨fuel, rfl⟩ : ∃ k, fuel = k + 1 := ⟨fuel - 1, by omega⟩
  have upper := value.toInt_lt
  rw [itoa, if_neg (base_range isBase low high)]
  by_cases zero : n = 0
  · subst zero
    have zero : value = 0 := Int32.toInt_inj.mp isValue
    refine ⟨_, if_pos zero, fun k inside => ?_, rfl⟩
    obtain rfl : k = 0 := Nat.lt_one_iff.mp inside
    rfl
  · have nonzero : value ≠ 0 := by
      rintro rfl
      exact zero (by simpa using isValue.symm)
    have sign : ¬ value < 0 := by
      rw [Int32.lt_iff_toInt_lt, isValue]
      exact Int.not_lt.mpr (Int.natCast_nonneg n)
    have fits : n < 2 ^ fuel := lt_of_lt_of_le (by omega) (Nat.pow_le_pow_right (by decide) (by omega : 31 ≤ fuel))
    have digits : 0 < ((Nat.digits b n).map digitChar).length := by
      rw [List.length_map]
      exact List.length_pos_iff.mpr (Nat.digits_ne_nil_iff_ne_zero.mpr zero)
    have stored := reverseLoop_put str _ digits
    rw [List.length_map] at stored
    rw [if_neg nonzero]
    simp only [sign, false_and, if_false, itoaLoop_digits isBase low high isValue fits, Nat.zero_add, stored]
    refine ⟨_, rfl, ?_⟩
    have holds := holdsString_put str ((Nat.digits b n).map digitChar).reverse
    rw [List.length_reverse, List.length_map] at holds
    rwa [numeral, if_neg zero]

/-- A negative value in base 10 that can be negated. -/
theorem itoa_decimal_negative (enough : 33 ≤ fuel) (isBase : base = 10) (isValue : value.toInt = -(n : Int))
    (positive : 0 < n) (isInt : value ≠ Int32.minValue) (str : Bytes) :
    ∃ str', itoa fuel value str base = .ok str' ∧ HoldsString str' (0x2D :: numeral 10 n) := by
  obtain ⟨fuel, rfl⟩ : ∃ k, fuel = k + 1 := ⟨fuel - 1, by omega⟩
  have lower := value.le_toInt
  have notMin : value.toInt ≠ -2 ^ 31 := fun same => isInt (Int32.toInt_inj.mp same)
  have sign : value < 0 := by
    rw [Int32.lt_iff_toInt_lt, isValue, show (0 : Int32).toInt = 0 from rfl]
    omega
  have negated : (-value).toInt = n := by
    rw [Int32.toInt_neg, isValue, Int.bmod_eq_of_le (by omega) (by omega), Int.neg_neg]
  have nonzero : value ≠ 0 := by
    rintro rfl
    exact absurd sign (by decide)
  have fits : n < 2 ^ fuel := lt_of_lt_of_le (by omega) (Nat.pow_le_pow_right (by decide) (by omega : 31 ≤ fuel))
  have base10 : base.toInt = (10 : Nat) := by rw [isBase]; rfl
  have signed := put_snoc str 0 ((Nat.digits 10 n).map digitChar) 0x2D
  have stored := reverseLoop_put str ((Nat.digits 10 n).map digitChar ++ [0x2D]) (by simp)
  rw [Nat.zero_add, List.length_map] at signed
  rw [List.length_append, List.length_map, List.length_singleton] at stored
  have both : value < 0 ∧ base = 10 := ⟨sign, isBase⟩
  rw [itoa, if_neg (base_range base10 (by decide) (by decide)), if_neg nonzero]
  simp only [if_pos both, itoaLoop_digits base10 (by decide) (by decide) negated fits, Nat.zero_add, signed, stored]
  refine ⟨_, rfl, ?_⟩
  have holds := holdsString_put str ((Nat.digits 10 n).map digitChar ++ [0x2D]).reverse
  rw [List.length_reverse, List.length_append, List.length_map, List.length_singleton] at holds
  have reversed : ((Nat.digits 10 n).map digitChar ++ [0x2D]).reverse = 0x2D :: numeral 10 n := by
    rw [numeral, if_neg (Nat.ne_of_gt positive), List.reverse_append, List.reverse_singleton, List.singleton_append]
  rwa [← reversed]

/-- The values whose digits come out as negative indices: negative ones in a base other than 10, and
the smallest one, which is its own negation. -/
theorem itoa_outside (enough : 33 ≤ fuel) (isBase : base.toInt = b) (low : 2 ≤ b) (high : b ≤ 16)
    (negative : value.toInt < 0) (wrong : base = 10 → value = Int32.minValue) (str : Bytes) :
    ∃ i < 0, itoa fuel value str base = .error (.index i) := by
  have lower := value.le_toInt
  have fits : value.toInt.natAbs < 2 ^ fuel :=
    lt_of_lt_of_le (by omega) (Nat.pow_le_pow_right (by decide) (by omega : 32 ≤ fuel))
  obtain ⟨i, below, run⟩ := itoaLoop_negative str 0 isBase low high negative fits
  have nonzero : value ≠ 0 := by
    rintro rfl
    exact absurd negative (by decide)
  have divided : (if value < 0 ∧ base = 10 then -value else value) = value := by
    by_cases decimal : value < 0 ∧ base = 10
    · rw [if_pos decimal, wrong decimal.2]
      rfl
    · exact if_neg decimal
  refine ⟨i, below, ?_⟩
  rw [itoa, if_neg (base_range isBase low high), if_neg nonzero]
  simp only [divided, run]

/-- **`itoa` is right exactly for the values that it divides as positive ones.** -/
theorem itoa_right_iff (enough : 33 ≤ fuel) (low : 2 ≤ base) (high : base ≤ 16) (str : Bytes) :
    PrintsNumber fuel value str base ↔ 0 ≤ value ∨ base = 10 ∧ value ≠ Int32.minValue := by
  have lowInt := Int32.le_iff_toInt_le.mp low
  have highInt := Int32.le_iff_toInt_le.mp high
  simp only [show (2 : Int32).toInt = 2 from rfl, show (16 : Int32).toInt = 16 from rfl] at lowInt highInt
  obtain ⟨b, isBase⟩ : ∃ b : Nat, base.toInt = b := ⟨base.toInt.toNat, by omega⟩
  have lowNat : 2 ≤ b := by omega
  have highNat : b ≤ 16 := by omega
  have zero : (0 : Int32).toInt = 0 := rfl
  have decimal : base = 10 → b = 10 := by
    rintro rfl
    exact Int.ofNat_inj.mp isBase.symm
  have upper := value.toInt_lt
  constructor
  · rintro ⟨str', chars, run, -⟩
    -- any other negative value has a remainder that is no index of the digit string
    by_contra wrong
    rw [not_or, Int32.not_le, Int32.lt_iff_toInt_lt, zero] at wrong
    obtain ⟨negative, outside⟩ := wrong
    obtain ⟨i, -, fails⟩ := itoa_outside enough isBase lowNat highNat negative
      (fun ten => not_not.mp fun other => outside ⟨ten, other⟩) str
    rw [fails] at run
    cases run
  · intro right
    by_cases negative : value.toInt < 0
    · -- in base 10 the sign is taken off first
      have nonneg : ¬ 0 ≤ value := by
        rw [Int32.le_iff_toInt_le, zero]
        omega
      obtain ⟨ten, isInt⟩ := right.resolve_left nonneg
      obtain ⟨n, isValue⟩ : ∃ n : Nat, value.toInt = -(n : Int) := ⟨value.toInt.natAbs, by omega⟩
      obtain ⟨str', run, holds⟩ := itoa_decimal_negative enough ten isValue (by omega) isInt str
      have absolute : value.toInt.natAbs = n := by omega
      have signed : IsSignedNumeral 10 (0x2D :: numeral 10 n) value.toInt := by
        rw [IsSignedNumeral, if_pos negative, absolute]
        exact ⟨_, rfl, numeral_isNumeral (by decide) (by decide) n⟩
      have lower := value.le_toInt
      have short : (numeral 10 n).length ≤ 10 := numeral_length_le (by decide) (by decide) (by omega)
      have room : (0x2D :: numeral 10 n).length < fuel := by
        rw [List.length_cons]
        omega
      exact ⟨str', _, run, holds, fun _ => ⟨signed, atoi_numeral holds signed isInt room⟩, fun other => absurd ten other⟩
    · -- without a sign the digits are those of a natural number
      obtain ⟨n, isValue⟩ : ∃ n : Nat, value.toInt = n := ⟨value.toInt.toNat, by omega⟩
      obtain ⟨str', run, holds⟩ := itoa_nonneg enough isBase lowNat highNat isValue str
      have isNumeral := numeral_isNumeral lowNat highNat n
      have absolute : value.toInt.toNat = n := by omega
      have nonneg : 0 ≤ value := by
        rw [Int32.le_iff_toInt_le, zero]
        omega
      refine ⟨str', _, run, holds, fun ten => ?_, fun _ => ?_⟩
      · obtain rfl := decimal ten
        have signed : IsSignedNumeral 10 (numeral 10 n) value.toInt := by
          rw [IsSignedNumeral, if_neg negative, absolute]
          exact isNumeral
        have isInt : value ≠ Int32.minValue := by
          rintro rfl
          exact absurd nonneg (by decide)
        have short : (numeral 10 n).length ≤ 10 := numeral_length_le (by decide) (by decide) (by omega)
        exact ⟨signed, atoi_numeral holds signed isInt (by omega)⟩
      · have unsigned : value.toUInt32.toNat = n := by
          rw [Int32.toNat_toUInt32_of_le nonneg]
          exact absolute
        rw [unsigned, isBase, Int.toNat_natCast]
        exact isNumeral

theorem itoa_right_iff_negative : PrintsNumber 33 (-42) (fun _ => 0x41) 10 :=
  (itoa_right_iff (le_refl 33) (by decide) (by decide) _).mpr (Or.inr ⟨rfl, by decide⟩)

/-- The address `0xFFFFFFFF` in base 16: the last digit is looked up at index -1. -/
theorem itoa_negative_index :
    itoa 33 (0xFFFFFFFF : UInt32).toInt32 (fun _ => 0) 16 = .error (.index (-1)) ∧
    ¬ PrintsNumber 33 (0xFFFFFFFF : UInt32).toInt32 (fun _ => 0) 16 := by
  refine ⟨rfl, ?_⟩
  rintro ⟨str', chars, run, -⟩
  cases run

end QuantumKernel.Lib
