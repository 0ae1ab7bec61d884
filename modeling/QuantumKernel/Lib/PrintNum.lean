import QuantumKernel.Lib.Itoa

/-! # `print_num`

The printer for numbers of the C library of user programs.  The value is negated as a signed word
and divided as an unsigned one, so that the digits are right for every value; at most eleven
characters go into the buffer of 32.
-/

namespace QuantumKernel.Lib

open ByteStore Numerals

/-- A store to the 32 bytes of `buf`. -/
def storeBuf (buf : Bytes) (i : Nat) (c : UInt8) : Except Fault Bytes :=
  if i < 32 then .ok (Function.update buf i c) else .error (.index i)

/-- `while (num > 0)`: the buffer and `i` behind the loop. -/
def printNumLoop (base : UInt32) : Nat → UInt32 → Bytes → Nat → Except Fault (Bytes × Nat)
  | 0, _, _, _ => .error .fuel
  | fuel + 1, num, buf, i =>
    if 0 < num then
      let digit := num % base
      let c := if digit < 10 then 0x30 + digit.toUInt8 else 0x61 + digit.toUInt8 - 10
      match storeBuf buf i c with
      | .error fault => .error fault
      | .ok buf => printNumLoop base fuel (num / base) buf (i + 1)
    else .ok (buf, i)

/-- `for (int j = 0; j < i / 2; j++)`, with the number of rounds left. -/
def swapLoop (i : Nat) : (rounds : Nat) → Bytes → (j : Nat) → Bytes
  | 0, buf, _ => buf
  | rounds + 1, buf, j => swapLoop i rounds (swap buf (i - 1 - j) j) (j + 1)

/-- `print_num` from the minus sign on: the bytes that it writes. -/
def printNumEnd (buf : Bytes) (i : Nat) (isNegative : Bool) : Except Fault (List UInt8) := do
  let (buf, i) ← if isNegative then do
      let buf ← storeBuf buf i 0x2D
      .ok (buf, i + 1)
    else .ok (buf, i)
  let buf := swapLoop i (i / 2) buf 0
  let buf ← storeBuf buf i 0
  .ok ((List.range i).map buf)

/-- `print_num`, from the contents of its buffer: the bytes that it writes. -/
def printNum (fuel : Nat) (buf : Bytes) (num : UInt32) (base : Int32) (sign : Bool) : Except Fault (List UInt8) := do
  let isNegative := sign && num.toInt32 < 0
  let num := if isNegative then -num else num
  let (buf, i) ← if num = 0 then do
      let buf ← storeBuf buf 0 0x30
      .ok (buf, 1)
    else printNumLoop base.toUInt32 fuel num buf 0
  printNumEnd buf i isNegative

variable {fuel b n i j : Nat} {num base : UInt32} {buf : Bytes} {chars : List UInt8}

/-! ## The loops -/

theorem storeBuf_eq (room : i < 32) (buf : Bytes) (c : UInt8) : storeBuf buf i c = .ok (Function.update buf i c) :=
  if_pos room

/-- The digits go into the buffer, the least significant one first. -/
theorem printNumLoop_digits (isBase : base.toNat = b) (low : 2 ≤ b) (high : b ≤ 16) (isNum : num.toNat = n)
    (room : i + (Nat.digits b n).length ≤ 32) (enough : n < 2 ^ fuel) :
    printNumLoop base (fuel + 1) num buf i =
      .ok (put buf i ((Nat.digits b n).map digitChar), i + (Nat.digits b n).length) := by
  induction fuel generalizing num n buf i with
  | zero =>
    obtain rfl : n = 0 := by omega
    have zero : num = 0 := UInt32.toNat_inj.mp isNum
    simp [printNumLoop, zero]
  | succ fuel ih =>
    rw [printNumLoop]
    by_cases zero : n = 0
    · subst zero
      have zero : num = 0 := UInt32.toNat_inj.mp isNum
      simp [zero]
    · have positive : 0 < num := by
        rw [UInt32.lt_iff_toNat_lt, isNum]
        exact Nat.pos_of_ne_zero zero
      have quotient : (num / base).toNat = n / b := by rw [UInt32.toNat_div, isNum, isBase]
      have remainder : num % base = UInt32.ofNat (n % b) := by
        apply UInt32.toNat_inj.mp
        have bound := num.toNat_lt
        have below : n % b < 2 ^ 32 := lt_of_le_of_lt (Nat.mod_le n b) (isNum ▸ bound)
        rw [UInt32.toNat_mod, isNum, isBase, UInt32.toNat_ofNat', Nat.mod_eq_of_lt below]
      -- the value at least halves in a round
      have smaller : n / b < 2 ^ fuel := by
        have half : n / b ≤ n / 2 := Nat.div_le_div_left low (by decide)
        rw [Nat.pow_succ] at enough
        omega
      have char : ∀ d < 16, (if UInt32.ofNat d < 10 then 0x30 + (UInt32.ofNat d).toUInt8
          else 0x61 + (UInt32.ofNat d).toUInt8 - 10) = digitChar d := by decide
      have digits := Nat.digits_def' low (Nat.pos_of_ne_zero zero)
      rw [digits, List.length_cons] at room
      have later (buf : Bytes) : printNumLoop base (fuel + 1) (num / base) buf (i + 1) =
          .ok (put buf (i + 1) ((Nat.digits b (n / b)).map digitChar), i + 1 + (Nat.digits b (n / b)).length) :=
        ih quotient (by omega) smaller
      rw [if_pos positive]
      simp only [remainder, char (n % b) (lt_of_lt_of_le (Nat.mod_lt n (by omega)) high),
        storeBuf_eq (show i < 32 by omega), later]
      rw [digits, List.map_cons, put_cons, List.length_cons, Nat.add_assoc, Nat.add_comm 1]

theorem swapLoop_eq {rounds : Nat} (left : j + rounds = i / 2) (buf : Bytes) :
    swapLoop i rounds buf j = mirror buf j (i - 1 - j) := by
  induction rounds generalizing buf j with
  | zero => rw [swapLoop, mirror_done (by omega)]
  | succ rounds ih =>
    have next : i - 1 - (j + 1) = i - 1 - j - 1 := by omega
    rw [swapLoop, ih (by omega), swap_comm, next, mirror_swap (by omega)]

/-- The characters in the buffer come out in reverse order, behind the minus sign. -/
theorem printNumEnd_eq (nonempty : 0 < chars.length) (room : chars.length < 31) (buf : Bytes) (isNegative : Bool) :
    printNumEnd (put buf 0 chars) chars.length isNegative =
      .ok ((chars ++ if isNegative then [0x2D] else []).reverse) := by
  -- the end of the call, with all characters in the buffer
  have written {all : List UInt8} (nonempty : 0 < all.length) (room : all.length < 32) :
      (do
        let buf ← storeBuf (swapLoop all.length (all.length / 2) (put buf 0 all) 0) all.length 0
        Except.ok ((List.range all.length).map buf)) = Except.ok all.reverse := by
    have swapped := swapLoop_eq (i := all.length) (Nat.zero_add _) (put buf 0 all)
    have mirrored := mirror_put buf 0 nonempty
    rw [Nat.zero_add] at mirrored
    rw [Nat.sub_zero, mirrored] at swapped
    rw [swapped, storeBuf_eq room]
    refine congrArg Except.ok (List.ext_getElem (by simp) fun k inside inside' => ?_)
    rw [List.length_map, List.length_range] at inside
    have stored := put_inside buf 0 inside'
    rw [Nat.zero_add] at stored
    rw [List.getElem_map, List.getElem_range, Function.update_of_ne (Nat.ne_of_lt inside), stored]
  cases isNegative with
  | false =>
    have finished := written nonempty (Nat.lt_succ_of_lt room)
    rw [if_neg Bool.false_ne_true, List.append_nil]
    exact finished
  | true =>
    have signed := put_snoc buf 0 chars 0x2D
    rw [Nat.zero_add] at signed
    have longer : (chars ++ [0x2D]).length = chars.length + 1 := by simp
    have finished := written (by rw [longer]; exact Nat.succ_pos _) (by rw [longer]; exact Nat.succ_lt_succ room)
    rw [longer] at finished
    rw [printNumEnd, if_pos rfl, storeBuf_eq (Nat.lt_succ_of_lt room), signed]
    exact finished

/-- The magnitude of a word goes into the buffer. -/
theorem printNum_magnitude (enough : 33 ≤ fuel) {base : Int32} (isBase : base = 10 ∨ base = 16) (buf : Bytes)
    (num : UInt32) (isNegative : Bool) :
    (do
      let (buf, i) ← if num = 0 then do
          let buf ← storeBuf buf 0 0x30
          .ok (buf, 1)
        else printNumLoop base.toUInt32 fuel num buf 0
      printNumEnd buf i isNegative) =
      .ok ((if isNegative then [0x2D] else []) ++ numeral base.toInt.toNat num.toNat) := by
  obtain ⟨fuel, rfl⟩ : ∃ k, fuel = k + 1 := ⟨fuel - 1, by omega⟩
  have bound := num.toNat_lt
  have fits : num.toNat < 2 ^ fuel := lt_of_lt_of_le (by omega) (Nat.pow_le_pow_right (by decide) (by omega : 32 ≤ fuel))
  have sign : (if isNegative then [(0x2D : UInt8)] else []).reverse = if isNegative then [0x2D] else [] := by
    cases isNegative <;> rfl
  obtain ⟨b, isBaseNat, unsigned, low, high⟩ : ∃ b, base.toInt.toNat = b ∧ base.toUInt32.toNat = b ∧ 10 ≤ b ∧ b ≤ 16 := by
    rcases isBase with rfl | rfl
    · exact ⟨10, rfl, rfl, by decide, by decide⟩
    · exact ⟨16, rfl, rfl, by decide, by decide⟩
  rw [isBaseNat]
  by_cases zero : num = 0
  · subst zero
    have finished := printNumEnd_eq (show 0 < [0x30].length by decide) (by decide) buf isNegative
    rw [put_cons, put_nil] at finished
    rw [if_pos rfl]
    refine finished.trans ?_
    rw [List.reverse_append, sign]
    rfl
  · have nonzero : num.toNat ≠ 0 := fun same => zero (UInt32.toNat_inj.mp same)
    -- at most ten digits, as the base is at least ten
    have short : (Nat.digits b num.toNat).length ≤ 10 := by
      have tens : num.toNat < b ^ 10 := lt_of_lt_of_le (by omega) (Nat.pow_le_pow_left low 10)
      exact (Nat.digits_length_le_iff (by omega) _).mpr tens
    have digits : 0 < ((Nat.digits b num.toNat).map digitChar).length := by
      rw [List.length_map]
      exact List.length_pos_iff.mpr (Nat.digits_ne_nil_iff_ne_zero.mpr nonzero)
    have finished := printNumEnd_eq digits (by rw [List.length_map]; omega) buf isNegative
    rw [List.length_map] at finished
    rw [if_neg zero, printNumLoop_digits unsigned (by omega) high rfl (by omega) fits, Nat.zero_add]
    refine finished.trans ?_
    rw [List.reverse_append, sign, numeral, if_neg nonzero]

/-! ## `print_num` -/

/-- The bytes written are the numeral of the value, signed or unsigned. -/
theorem printNum_isNumeral (enough : 33 ≤ fuel) {base : Int32} (isBase : base = 10 ∨ base = 16) (buf : Bytes)
    (num : UInt32) (sign : Bool) :
    ∃ chars, printNum fuel buf num base sign = .ok chars ∧
      (sign = true → IsSignedNumeral base.toInt.toNat chars num.toInt32.toInt) ∧
      (sign = false → IsNumeral base.toInt.toNat chars num.toNat) := by
  obtain ⟨low, high⟩ : 1 < base.toInt.toNat ∧ base.toInt.toNat ≤ 16 := by
    rcases isBase with rfl | rfl <;> decide
  have zero : (0 : Int32).toInt = 0 := rfl
  have bound := num.toNat_lt
  have value : num.toInt32.toInt = if 2 * num.toNat < 2 ^ 32 then (num.toNat : Int) else num.toNat - (2 ^ 32 : Nat) :=
    BitVec.toInt_eq_toNat_cond num.toBitVec
  by_cases isNegative : (sign && decide (num.toInt32 < 0)) = true
  · obtain ⟨signed, negative⟩ := Bool.and_eq_true_iff.mp isNegative
    have below := Int32.lt_iff_toInt_lt.mp (of_decide_eq_true negative)
    rw [zero] at below
    have run := printNum_magnitude enough isBase buf (-num) true
    refine ⟨[0x2D] ++ numeral base.toInt.toNat (-num).toNat, ?_, fun _ => ?_, fun unsigned => ?_⟩
    · rw [printNum]
      simp only [isNegative, if_true]
      exact run
    · -- the negated word is the absolute value, also for the least value
      have magnitude : num.toInt32.toInt.natAbs = (-num).toNat := by
        rw [value] at below ⊢
        rw [UInt32.toNat_neg, show UInt32.size = 4294967296 from rfl]
        split at below
        · omega
        · rename_i large
          rw [if_neg large, Nat.mod_eq_of_lt (by omega)]
          omega
      rw [IsSignedNumeral, if_pos below, magnitude]
      exact ⟨_, rfl, numeral_isNumeral low high _⟩
    · rw [signed] at unsigned
      cases unsigned
  · have run := printNum_magnitude enough isBase buf num false
    refine ⟨numeral base.toInt.toNat num.toNat, ?_, fun signed => ?_, fun _ => numeral_isNumeral low high _⟩
    · rw [printNum]
      simp only [Bool.eq_false_iff.mpr isNegative]
      exact run
    · have nonneg : ¬ num.toInt32.toInt < 0 := by
        intro below
        refine isNegative (Bool.and_eq_true_iff.mpr ⟨signed, decide_eq_true ?_⟩)
        rwa [Int32.lt_iff_toInt_lt, zero]
      have magnitude : num.toInt32.toInt.toNat = num.toNat := by
        rw [value] at nonneg ⊢
        split at nonneg
        · rename_i small
          rw [if_pos small, Int.toNat_natCast]
        · omega
      rw [IsSignedNumeral, if_neg nonneg, magnitude]
      exact numeral_isNumeral low high _

/-- **`print_num` is right for every value.**  Whatever the buffer held, the bytes written are the
numeral without leading zeros of the value, signed or unsigned; no store leaves the buffer. -/
theorem print_num_right (enough : 33 ≤ fuel) {base : Int32} (isBase : base = 10 ∨ base = 16) (buf : Bytes)
    (num : UInt32) (sign : Bool) :
    ∃ chars, printNum fuel buf num base sign = .ok chars ∧
      (sign = true → IsSignedNumeral base.toInt.toNat chars num.toInt32.toInt) ∧
      (sign = false → IsNumeral base.toInt.toNat chars num.toNat) :=
  printNum_isNumeral enough isBase buf num sign

/-- The smallest `int` in base 10. -/
theorem print_num_right_min :
    ∃ chars, printNum 33 (fun _ => 0x41) 0x80000000 10 true = .ok chars ∧ IsSignedNumeral 10 chars (-2147483648) := by
  obtain ⟨chars, run, signed, -⟩ :=
    print_num_right (le_refl 33) (Or.inl rfl : (10 : Int32) = 10 ∨ _) (fun _ => 0x41) 0x80000000 true
  exact ⟨chars, run, signed rfl⟩

end QuantumKernel.Lib
