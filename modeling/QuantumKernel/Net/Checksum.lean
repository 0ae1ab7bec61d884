import QuantumKernel.Net.Stack
import QuantumKernel.Library.EndAround

/-! # The Internet checksum

`checksum` of `ip.c` and `icmp.c` adds up the words of a buffer in 32 bits and folds the carries
back in until none is left.  For the lengths that it is given the 32 bits hold the exact sum, and two
rounds of folding are enough.  The result is the sum with an end-around carry, so it does not
depend on the order of the words, and a buffer that stores it verifies.
-/

namespace QuantumKernel.Net

open Packed EndAround

/-- The 16-bit words of a buffer, an odd byte left out. -/
def words : List UInt8 → List UInt16
  | low :: high :: rest => UInt16.ofNat (low.toNat + 256 * high.toNat) :: words rest
  | [_] | [] => []

/-- The exact sum of the words. -/
def wordSum (bytes : List UInt8) : Nat := ((words bytes).map UInt16.toNat).sum

/-- `h->csum = value`. -/
def storeWord16 (bytes : List UInt8) (offset : Nat) (value : UInt16) : List UInt8 :=
  (bytes.set offset (UInt8.ofNat value.toNat)).set (offset + 1) (UInt8.ofNat (value.toNat / 256))

/-- One round of the loop that adds the carries. -/
def foldRound (sum : UInt32) : UInt32 := (sum &&& (0xffff : UInt32)) + (sum >>> 16)

variable {buf : List UInt8} {sum : UInt32}

/-! ## The words of a buffer -/

theorem word_toNat (low high : UInt8) :
    (UInt16.ofNat (low.toNat + 256 * high.toNat)).toNat = low.toNat + 256 * high.toNat := by
  have boundLow := low.toNat_lt
  have boundHigh := high.toNat_lt
  rw [UInt16.toNat_ofNat', Nat.mod_eq_of_lt (by omega)]

@[simp] theorem wordSum_nil : wordSum [] = 0 := rfl

@[simp] theorem wordSum_cons (low high : UInt8) (rest : List UInt8) :
    wordSum (low :: high :: rest) = low.toNat + 256 * high.toNat + wordSum rest := by
  rw [wordSum, words, List.map_cons, List.sum_cons, word_toNat]
  rfl

theorem length_words : ∀ bytes : List UInt8, (words bytes).length = bytes.length / 2
  | _ :: _ :: rest => by
    simp only [words, List.length_cons, length_words rest]
    omega
  | [_] => by simp [words]
  | [] => rfl

/-- The sum stays below `0xffff` for each word. -/
theorem wordSum_le : ∀ bytes : List UInt8, wordSum bytes ≤ 65535 * (bytes.length / 2)
  | low :: high :: rest => by
    have boundLow := low.toNat_lt
    have boundHigh := high.toNat_lt
    have tail := wordSum_le rest
    simp only [wordSum_cons, List.length_cons]
    omega
  | [_] | [] => Nat.zero_le _

/-- A word that is stored over a zero counts in full. -/
theorem wordSum_storeWord16 (value : UInt16) : ∀ (k : Nat) (bytes : List UInt8),
    readWord16 bytes (2 * k) = some 0 → wordSum (storeWord16 bytes (2 * k) value) = wordSum bytes + value.toNat
  | 0, low :: high :: rest, cleared => by
    have word := congrArg UInt16.toNat (Option.some.inj cleared)
    rw [word_toNat] at word
    have bound := value.toNat_lt
    simp only [UInt16.toNat_zero] at word
    simp only [storeWord16, Nat.mul_zero, List.set_cons_zero, Nat.zero_add, List.set_cons_succ, wordSum_cons,
      UInt8.toNat_ofNat']
    omega
  | k + 1, low :: high :: rest, cleared => by
    have inner : readWord16 rest (2 * k) = some 0 := by
      have skipped : readWord16 ((low :: high :: rest).drop 2) (2 * k) = readWord16 (low :: high :: rest) (2 + 2 * k) :=
        readWord16_drop 2
      rw [show 2 + 2 * k = 2 * (k + 1) by omega, cleared] at skipped
      exact skipped
    have stored : storeWord16 (low :: high :: rest) (2 * (k + 1)) value =
        low :: high :: storeWord16 rest (2 * k) value := by
      rw [show 2 * (k + 1) = 2 * k + 1 + 1 by omega]
      rfl
    rw [stored, wordSum_cons, wordSum_cons, wordSum_storeWord16 value k rest inner]
    omega
  | k, [_], cleared | k, [], cleared => by
    have inside := readWord16_inside cleared
    simp only [List.length_cons, List.length_nil] at inside
    omega

@[simp] theorem length_storeWord16 (offset : Nat) (value : UInt16) :
    (storeWord16 buf offset value).length = buf.length := by
  simp [storeWord16]

/-! ## The loops -/

/-- The loop computes the exact sum, as long as 32 bits hold it. -/
theorem checksumLoop_toNat : ∀ (bytes : List UInt8) (sum : UInt32), 2 ∣ bytes.length →
    sum.toNat + wordSum bytes < 2 ^ 32 → (checksumLoop sum bytes).toNat = sum.toNat + wordSum bytes
  | low :: high :: rest, sum, even, bound => by
    have shorter : 2 ∣ rest.length := by
      simp only [List.length_cons] at even
      omega
    have boundLow := low.toNat_lt
    have boundHigh := high.toNat_lt
    rw [wordSum_cons] at bound
    have added : (sum + (low.toUInt32 + 256 * high.toUInt32)).toNat =
        sum.toNat + (low.toNat + 256 * high.toNat) := by
      simp only [UInt32.toNat_add, UInt32.toNat_mul, UInt8.toNat_toUInt32, UInt32.reduceToNat]
      omega
    rw [checksumLoop, checksumLoop_toNat rest _ shorter (by omega), added, wordSum_cons]
    omega
  | [_], _, even, _ => by simp at even
  | [], _, _, _ => rfl

theorem shiftRight16_toNat (sum : UInt32) : (sum >>> 16).toNat = sum.toNat / 65536 := by
  simp [UInt32.toNat_shiftRight, Nat.shiftRight_eq_div_pow]

theorem foldRound_toNat (sum : UInt32) : (foldRound sum).toNat = carryRound 65535 sum.toNat := by
  have bound := sum.toNat_lt
  have low : (sum &&& (0xffff : UInt32)).toNat = sum.toNat % 65536 := by
    simp only [UInt32.toNat_and, UInt32.reduceToNat]
    exact Nat.and_two_pow_sub_one_eq_mod _ 16
  rw [foldRound, UInt32.toNat_add, shiftRight16_toNat, low, Nat.mod_eq_of_lt (by omega)]
  rfl

theorem foldCarries_of_low (low : sum >>> 16 = 0) : foldCarries sum = sum := by
  rw [foldCarries, if_pos low]

theorem foldCarries_of_high (high : sum >>> 16 ≠ 0) : foldCarries sum = foldCarries (foldRound sum) := by
  rw [foldCarries, if_neg high]
  rfl

/-- The loop keeps the sum with its carries, and leaves a word. -/
theorem foldCarries_toNat (sum : UInt32) : (foldCarries sum).toNat = carried 65535 sum.toNat := by
  induction sum using foldCarries.induct with
  | case1 sum low =>
    have below := congrArg UInt32.toNat low
    rw [shiftRight16_toNat, UInt32.toNat_zero] at below
    rw [foldCarries_of_low low, carried_of_le (by omega)]
  | case2 sum high step =>
    have folded : foldCarries ((sum &&& (0xffff : UInt32)) + (sum >>> 16)) = foldCarries (foldRound sum) := rfl
    rw [folded, show (sum &&& (0xffff : UInt32)) + (sum >>> 16) = foldRound sum from rfl, foldRound_toNat,
      carried_carryRound] at step
    rw [foldCarries_of_high high, step]

/-- Two rounds are enough for every sum of 32 bits. -/
theorem foldCarries_two (sum : UInt32) : ∃ rounds ≤ 2, foldCarries sum = foldRound^[rounds] sum ∧
    (foldRound^[rounds] sum) >>> 16 = 0 := by
  have bound := sum.toNat_lt
  have small (word : UInt32) : word >>> 16 = 0 ↔ word.toNat < 65536 := by
    rw [← UInt32.toNat_inj, shiftRight16_toNat, UInt32.toNat_zero]
    omega
  by_cases low : sum >>> 16 = 0
  · exact ⟨0, by omega, foldCarries_of_low low, low⟩
  by_cases once : foldRound sum >>> 16 = 0
  · exact ⟨1, by omega, by rw [foldCarries_of_high low, foldCarries_of_low once]; rfl, once⟩
  have twice : foldRound (foldRound sum) >>> 16 = 0 := by
    rw [small, foldRound_toNat] at once
    rw [small, foldRound_toNat, foldRound_toNat]
    simp only [carryRound] at once ⊢
    omega
  refine ⟨2, by omega, ?_, twice⟩
  rw [foldCarries_of_high low, foldCarries_of_high once, foldCarries_of_low twice]
  rfl

/-! ## The checksum -/

/-- The bound on the length is what keeps the sum in 32 bits. -/
theorem checksumLoop_exact (even : 2 ∣ buf.length) (bound : buf.length ≤ 65534) :
    (checksumLoop 0 buf).toNat = wordSum buf := by
  have below := wordSum_le buf
  rw [checksumLoop_toNat buf 0 even (by simp only [UInt32.toNat_zero]; omega), UInt32.toNat_zero, Nat.zero_add]

theorem checksum_toNat (even : 2 ∣ buf.length) (bound : buf.length ≤ 65534) :
    (checksum buf).toNat = 65535 - carried 65535 (wordSum buf) := by
  have low : carried 65535 (wordSum buf) ≤ 65535 := carried_le (by omega)
  have folded := foldCarries_toNat (checksumLoop 0 buf)
  rw [checksumLoop_exact even bound] at folded
  rw [checksum, UInt16.toNat_not, UInt32.toNat_toUInt16, folded, Nat.mod_eq_of_lt (by omega)]
  rfl

theorem checksum_eq_zero_iff (even : 2 ∣ buf.length) (bound : buf.length ≤ 65534) :
    checksum buf = 0 ↔ carried 65535 (wordSum buf) = 65535 := by
  have low : carried 65535 (wordSum buf) ≤ 65535 := carried_le (by omega)
  rw [← UInt16.toNat_inj, checksum_toNat even bound, UInt16.toNat_zero]
  omega

/-- Stored into its cleared field the checksum complements the sum. -/
theorem checksum_stored {offset : Nat} (even : 2 ∣ buf.length) (bound : buf.length ≤ 65534) (aligned : 2 ∣ offset)
    (cleared : readWord16 buf offset = some 0) : checksum (storeWord16 buf offset (checksum buf)) = 0 := by
  obtain ⟨k, rfl⟩ := aligned
  rw [checksum_eq_zero_iff (by rwa [length_storeWord16]) (by rwa [length_storeWord16]),
    wordSum_storeWord16 _ k buf cleared, checksum_toNat even bound]
  exact carried_complement (by omega)

theorem checksum_of_perm {other : List UInt8} (even : 2 ∣ buf.length) (bound : buf.length ≤ 65534)
    (evenOther : 2 ∣ other.length) (same : (words other).Perm (words buf)) : checksum other = checksum buf := by
  have lengths := same.length_eq
  rw [length_words, length_words] at lengths
  have sums : wordSum other = wordSum buf := (same.map UInt16.toNat).sum_eq
  apply UInt16.toNat.inj
  rw [checksum_toNat even bound, checksum_toNat evenOther (by omega), sums]

/-- Every even buffer up to 65534 bytes: the 32-bit sum of each of its prefixes is the exact one, the loop
over the carries ends, what is computed depends on the words only and not on their order, and once it is
stored in a cleared field the buffer verifies. -/
theorem checksum_verifies (even : 2 ∣ buf.length) (bound : buf.length ≤ 65534) :
    (∀ n, (checksumLoop 0 (buf.take (2 * n))).toNat = wordSum (buf.take (2 * n))) ∧
    (∃ rounds ≤ 2, foldCarries (checksumLoop 0 buf) = foldRound^[rounds] (checksumLoop 0 buf) ∧
      (foldRound^[rounds] (checksumLoop 0 buf)) >>> 16 = 0) ∧
    (∀ other : List UInt8, 2 ∣ other.length → (words other : Multiset UInt16) = words buf →
      checksum other = checksum buf) ∧
    ∀ offset, 2 ∣ offset → readWord16 buf offset = some 0 →
      checksum (storeWord16 buf offset (checksum buf)) = 0 := by
  refine ⟨fun n => ?_, foldCarries_two _, fun other evenOther same => ?_, fun offset aligned cleared => ?_⟩
  · apply checksumLoop_exact
    · rw [List.length_take]
      omega
    · rw [List.length_take]
      omega
  · exact checksum_of_perm even bound evenOther (Multiset.coe_eq_coe.mp same)
  · exact checksum_stored even bound aligned cleared

/-- The first ping. -/
theorem checksum_verifies_ping :
    readWord16 [8, 0, 0, 0, 1, 0, 1, 0] 2 = some 0 ∧
      checksum (storeWord16 [8, 0, 0, 0, 1, 0, 1, 0] 2 (checksum [8, 0, 0, 0, 1, 0, 1, 0])) = 0 :=
  ⟨rfl, (checksum_verifies (by decide) (by decide)).2.2.2 2 (by decide) rfl⟩

/-! ## The headers that are sent -/

theorem ipHdr_eq_store {src dst : UInt32} {proto : UInt8} {len csum : UInt16} :
    ipHdr src dst proto len csum = storeWord16 (ipHdr src dst proto len 0) 10 csum := rfl

/-- The header that `ip_tx` and `ip_process_arp_queue` fill in verifies. -/
theorem ipHdr_verifies (src dst : UInt32) (proto : UInt8) (len : UInt16) :
    checksum (ipHdr src dst proto len (checksum (ipHdr src dst proto len 0))) = 0 := by
  rw [ipHdr_eq_store]
  refine checksum_stored ?_ ?_ (by omega) ?_
  · rw [length_ipHdr]
    omega
  · rw [length_ipHdr]
    omega
  · rfl

/-- The request before its checksum is stored. -/
def clearedRequest (id seq : UInt16) : List UInt8 := [8, 0] ++ (le16 0 ++ (le16 id ++ le16 seq))

theorem icmpRequest_eq_store (id seq : UInt16) :
    icmpRequest id seq = storeWord16 (clearedRequest id seq) 2 (checksum (clearedRequest id seq)) := rfl

/-- The request that `icmp_ping` fills in verifies. -/
theorem icmpRequest_verifies (id seq : UInt16) : checksum (icmpRequest id seq) = 0 := by
  rw [icmpRequest_eq_store]
  refine checksum_stored ?_ ?_ (by omega) ?_
  · simp [clearedRequest]
  · simp [clearedRequest]
  · rfl

end QuantumKernel.Net
