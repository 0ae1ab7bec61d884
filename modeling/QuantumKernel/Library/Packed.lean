import Mathlib.Data.Vector.Basic
import Mathlib.Tactic

/-! # Packed structures in lists of bytes

A packet is a list of bytes.  Its fields are written one behind the other, words with the low
byte first, and read at their offsets.  A read gives `none` if a part of the field lies
outside of the list, so a reader that always gives a value stays inside.  Every read skips
what comes before the field (`readByte_append` and its kind), and so a field that was
written is read back.
-/

namespace Packed

def le16 (value : UInt16) : List UInt8 := [UInt8.ofNat value.toNat, UInt8.ofNat (value.toNat / 256)]

def le32 (value : UInt32) : List UInt8 :=
  [UInt8.ofNat value.toNat, UInt8.ofNat (value.toNat / 256), UInt8.ofNat (value.toNat / 65536),
    UInt8.ofNat (value.toNat / 16777216)]

/-- `__builtin_bswap16`. -/
def bswap16 (value : UInt16) : UInt16 := (value <<< 8) ||| (value >>> 8)

def readByte (bytes : List UInt8) (offset : Nat) : Option UInt8 := bytes[offset]?

def readWord16 (bytes : List UInt8) (offset : Nat) : Option UInt16 := do
  let low ← readByte bytes offset
  let high ← readByte bytes (offset + 1)
  some (UInt16.ofNat (low.toNat + 256 * high.toNat))

def readWord32 (bytes : List UInt8) (offset : Nat) : Option UInt32 := do
  let low ← readWord16 bytes offset
  let high ← readWord16 bytes (offset + 2)
  some (UInt32.ofNat (low.toNat + 65536 * high.toNat))

/-- The bytes from `offset`, as many as a vector of length `n` has. -/
def readVector (n : Nat) (bytes : List UInt8) (offset : Nat) : Option (List.Vector UInt8 n) :=
  if fits : offset + n ≤ bytes.length then
    some ⟨(bytes.drop offset).take n, by rw [List.length_take, List.length_drop]; omega⟩
  else none

/-- The `count` bytes from `offset`. -/
def readSlice (bytes : List UInt8) (offset count : Nat) : Option (List UInt8) :=
  if offset + count ≤ bytes.length then some ((bytes.drop offset).take count) else none

variable {bytes rest : List UInt8} {offset count n : Nat}

@[simp] theorem length_le16 (value : UInt16) : (le16 value).length = 2 := rfl

@[simp] theorem length_le32 (value : UInt32) : (le32 value).length = 4 := rfl

theorem bswap16_toNat (value : UInt16) :
    (bswap16 value).toNat = value.toNat % 256 * 256 + value.toNat / 256 := by
  have shifted : (value <<< 8) ||| (value >>> 8) = (value <<< 8) + (value >>> 8) := by
    apply UInt16.toBitVec_inj.mp
    simp only [UInt16.toBitVec_or, UInt16.toBitVec_add]
    rw [BitVec.add_eq_or_of_and_eq_zero]
    ext i bound
    simp
    interval_cases i <;> simp
  have bound := value.toNat_lt
  rw [bswap16, shifted]
  simp [UInt16.toNat_add, UInt16.toNat_shiftLeft, UInt16.toNat_shiftRight, Nat.shiftLeft_eq,
    Nat.shiftRight_eq_div_pow]
  omega

@[simp] theorem bswap16_bswap16 (value : UInt16) : bswap16 (bswap16 value) = value := by
  apply UInt16.toNat.inj
  have bound := value.toNat_lt
  rw [bswap16_toNat, bswap16_toNat]
  omega

/-! ## Reading inside the list -/

theorem readByte_isSome (inside : offset < bytes.length) : ∃ value, readByte bytes offset = some value :=
  ⟨bytes[offset], List.getElem?_eq_getElem inside⟩

theorem readWord16_isSome (inside : offset + 2 ≤ bytes.length) :
    ∃ value, readWord16 bytes offset = some value := by
  obtain ⟨low, first⟩ := readByte_isSome (show offset < bytes.length by omega)
  obtain ⟨high, second⟩ := readByte_isSome (show offset + 1 < bytes.length by omega)
  rw [readWord16, first, second]
  exact ⟨_, rfl⟩

theorem readWord32_isSome (inside : offset + 4 ≤ bytes.length) :
    ∃ value, readWord32 bytes offset = some value := by
  obtain ⟨low, first⟩ := readWord16_isSome (show offset + 2 ≤ bytes.length by omega)
  obtain ⟨high, second⟩ := readWord16_isSome (show offset + 2 + 2 ≤ bytes.length by omega)
  rw [readWord32, first, second]
  exact ⟨_, rfl⟩

theorem readVector_isSome (inside : offset + n ≤ bytes.length) :
    ∃ value, readVector n bytes offset = some value := ⟨_, dif_pos inside⟩

theorem readWord16_inside {value : UInt16} (read : readWord16 bytes offset = some value) :
    offset + 2 ≤ bytes.length := by
  simp only [readWord16, Option.bind_eq_bind, Option.bind_eq_some_iff] at read
  obtain ⟨low, -, high, second, -⟩ := read
  obtain ⟨inside, -⟩ := List.getElem?_eq_some_iff.mp second
  omega

theorem readSlice_eq (inside : offset + count ≤ bytes.length) :
    readSlice bytes offset count = some ((bytes.drop offset).take count) := if_pos inside

/-! ## Reading a part of the list -/

/-- Behind a pointer the offsets start again. -/
theorem readByte_drop (k : Nat) : readByte (bytes.drop k) offset = readByte bytes (k + offset) :=
  List.getElem?_drop

theorem readWord16_drop (k : Nat) : readWord16 (bytes.drop k) offset = readWord16 bytes (k + offset) := by
  rw [readWord16, readByte_drop, readByte_drop, ← Nat.add_assoc]
  rfl

theorem readWord32_drop (k : Nat) : readWord32 (bytes.drop k) offset = readWord32 bytes (k + offset) := by
  rw [readWord32, readWord16_drop, readWord16_drop, ← Nat.add_assoc]
  rfl

theorem readVector_drop (k : Nat) (inside : k ≤ bytes.length) :
    readVector n (bytes.drop k) offset = readVector n bytes (k + offset) := by
  have length : (bytes.drop k).length = bytes.length - k := List.length_drop
  by_cases fits : k + offset + n ≤ bytes.length
  · rw [readVector, readVector, dif_pos fits, dif_pos (by omega)]
    refine congrArg some (List.Vector.eq _ _ ?_)
    show ((bytes.drop k).drop offset).take n = (bytes.drop (k + offset)).take n
    rw [List.drop_drop]
  · rw [readVector, readVector, dif_neg fits, dif_neg (by omega)]

/-- What is behind a field does not matter. -/
theorem readByte_append_left {value : UInt8} (read : readByte bytes offset = some value) :
    readByte (bytes ++ rest) offset = some value := by
  obtain ⟨inside, -⟩ := List.getElem?_eq_some_iff.mp read
  rw [← read]
  exact List.getElem?_append_left inside

theorem readWord16_append_left {value : UInt16} (read : readWord16 bytes offset = some value) :
    readWord16 (bytes ++ rest) offset = some value := by
  rw [← read]
  simp only [readWord16, Option.bind_eq_bind, Option.bind_eq_some_iff] at read
  obtain ⟨low, first, high, second, -⟩ := read
  rw [readWord16, readWord16, readByte_append_left first, readByte_append_left second, first, second]

theorem readWord32_append_left {value : UInt32} (read : readWord32 bytes offset = some value) :
    readWord32 (bytes ++ rest) offset = some value := by
  rw [← read]
  simp only [readWord32, Option.bind_eq_bind, Option.bind_eq_some_iff] at read
  obtain ⟨low, first, high, second, -⟩ := read
  rw [readWord32, readWord32, readWord16_append_left first, readWord16_append_left second, first, second]

/-! ## Reading what was written -/

/-- What comes before a field is skipped. -/
theorem readByte_append (before : bytes.length ≤ offset) :
    readByte (bytes ++ rest) offset = readByte rest (offset - bytes.length) :=
  List.getElem?_append_right before

theorem readWord16_append (before : bytes.length ≤ offset) :
    readWord16 (bytes ++ rest) offset = readWord16 rest (offset - bytes.length) := by
  rw [readWord16, readByte_append before, readByte_append (by omega), Nat.sub_add_comm before]
  rfl

theorem readWord32_append (before : bytes.length ≤ offset) :
    readWord32 (bytes ++ rest) offset = readWord32 rest (offset - bytes.length) := by
  rw [readWord32, readWord16_append before, readWord16_append (by omega), Nat.sub_add_comm before]
  rfl

theorem readVector_append (before : bytes.length ≤ offset) :
    readVector n (bytes ++ rest) offset = readVector n rest (offset - bytes.length) := by
  have length : (bytes ++ rest).length = bytes.length + rest.length := List.length_append
  by_cases inside : offset + n ≤ (bytes ++ rest).length
  · rw [readVector, readVector, dif_pos inside, dif_pos (by omega)]
    refine congrArg some (List.Vector.eq _ _ ?_)
    show ((bytes ++ rest).drop offset).take n = (rest.drop (offset - bytes.length)).take n
    rw [List.drop_append, List.drop_of_length_le before, List.nil_append]
  · rw [readVector, readVector, dif_neg inside, dif_neg (by omega)]

@[simp] theorem readWord16_le16 (value : UInt16) : readWord16 (le16 value ++ rest) 0 = some value := by
  have bound := value.toNat_lt
  refine congrArg some (UInt16.toNat.inj ?_)
  simp only [UInt16.toNat_ofNat', UInt8.toNat_ofNat']
  omega

@[simp] theorem readWord32_le32 (value : UInt32) : readWord32 (le32 value ++ rest) 0 = some value := by
  have bound := value.toNat_lt
  refine congrArg some (UInt32.toNat.inj ?_)
  simp only [UInt32.toNat_ofNat', UInt16.toNat_ofNat', UInt8.toNat_ofNat']
  omega

/-- Two words next to each other. -/
theorem readWord32_le16 (low high : UInt16) :
    readWord32 (le16 low ++ (le16 high ++ rest)) 0 = some (UInt32.ofNat (low.toNat + 65536 * high.toNat)) := by
  rw [readWord32, readWord16_le16, readWord16_append (by simp)]
  simp

@[simp] theorem readVector_toList (value : List.Vector UInt8 n) :
    readVector n (value.toList ++ rest) 0 = some value := by
  have length := value.toList_length
  have inside : 0 + n ≤ (value.toList ++ rest).length := by
    rw [List.length_append, length]
    omega
  rw [readVector, dif_pos inside]
  refine congrArg some (List.Vector.eq _ _ ?_)
  show ((value.toList ++ rest).drop 0).take n = value.toList
  rw [List.drop_zero, List.take_append_of_le_length length.ge, List.take_of_length_le length.le]

end Packed
