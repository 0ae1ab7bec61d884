import QuantumKernel.Library.Packed

/-! # Descriptors of the i386

The processor finds the handler of an interrupt, a segment and the stack of the kernel in tables in memory.
An address and a limit lie scattered over the eight bytes of a descriptor; here is how the processor puts
them together.
-/

namespace I386Descriptors

open Packed

/-- What the processor takes from a gate. -/
structure Gate where
  offset : UInt32
  selector : UInt16
  dpl : UInt8
  /-- `0x0E` for an interrupt gate. -/
  kind : UInt8
  deriving DecidableEq, Repr

/-- A gate of the interrupt descriptor table; `none` if it is not present. -/
def decodeGate (bytes : List UInt8) : Option Gate := do
  let low ← readWord16 bytes 0
  let selector ← readWord16 bytes 2
  let attributes ← readByte bytes 5
  let high ← readWord16 bytes 6
  if attributes &&& 0x80 = 0 then none
  else some ⟨UInt32.ofNat (low.toNat + 65536 * high.toNat), selector, (attributes >>> 5) &&& 3, attributes &&& 0x1F⟩

/-- What the processor takes from a descriptor of a segment. -/
structure Segment where
  base : UInt32
  /-- The last offset. -/
  limit : UInt32
  dpl : UInt8
  /-- `0x1A` for code, `0x12` for data, `0x09` for a task state. -/
  kind : UInt8
  deriving DecidableEq, Repr

/-- The limit in bytes of a limit of 20 bits that counts bytes or pages. -/
def scaledLimit (pages : Bool) (limit : Nat) : UInt32 :=
  UInt32.ofNat (if pages then limit * 4096 + 4095 else limit)

/-- A descriptor of the global descriptor table; `none` if it is not present. -/
def decodeSegment (bytes : List UInt8) : Option Segment := do
  let limitLow ← readWord16 bytes 0
  let baseLow ← readWord16 bytes 2
  let baseMid ← readByte bytes 4
  let access ← readByte bytes 5
  let flags ← readByte bytes 6
  let baseHigh ← readByte bytes 7
  if access &&& 0x80 = 0 then none
  else some {
    base := UInt32.ofNat (baseLow.toNat + 65536 * (baseMid.toNat + 256 * baseHigh.toNat))
    limit := scaledLimit (flags &&& 0x80 != 0) (limitLow.toNat + 65536 * (flags &&& 0x0F).toNat)
    dpl := (access >>> 5) &&& 3
    kind := access &&& 0x1F }

/-- The segment of a selector.  The null selector has none, and there is no local table. -/
def resolve (table : List (List UInt8)) (selector : UInt16) : Option Segment :=
  if selector &&& 4 ≠ 0 ∨ selector >>> 3 = 0 then none
  else table[(selector >>> 3).toNat]?.bind decodeSegment

/-- The stack of ring 0 in a task state: its segment and its pointer. -/
def ringZeroStack (task : List UInt8) : Option (UInt16 × UInt32) := do
  let esp ← readWord32 task 4
  let ss ← readWord16 task 8
  some (ss, esp)

/-! ## What was written in parts -/

/-- A word from its two halves. -/
theorem ofNat_halves (value : UInt32) : UInt32.ofNat
    ((value &&& 0xFFFF).toUInt16.toNat + 65536 * ((value >>> 16) &&& 0xFFFF).toUInt16.toNat) = value := by
  have bound := value.toNat_lt
  apply UInt32.toNat.inj
  simp only [UInt32.toNat_ofNat', UInt32.toNat_toUInt16, UInt32.toNat_and, UInt32.toNat_shiftRight,
    UInt32.reduceToNat, Nat.shiftRight_eq_div_pow]
  rw [show (65535 : Nat) = 2 ^ 16 - 1 by rfl, Nat.and_two_pow_sub_one_eq_mod, Nat.and_two_pow_sub_one_eq_mod]
  simp only [Nat.reduceMod, Nat.reducePow]
  omega

/-- A word from its lower half and its two upper bytes. -/
theorem ofNat_parts (value : UInt32) : UInt32.ofNat ((value &&& 0xFFFF).toUInt16.toNat +
    65536 * (((value >>> 16) &&& 0xFF).toUInt8.toNat + 256 * ((value >>> 24) &&& 0xFF).toUInt8.toNat)) = value := by
  have bound := value.toNat_lt
  apply UInt32.toNat.inj
  simp only [UInt32.toNat_ofNat', UInt32.toNat_toUInt16, UInt32.toNat_toUInt8, UInt32.toNat_and,
    UInt32.toNat_shiftRight, UInt32.reduceToNat, Nat.shiftRight_eq_div_pow]
  rw [show (65535 : Nat) = 2 ^ 16 - 1 by rfl, show (255 : Nat) = 2 ^ 8 - 1 by rfl, Nat.and_two_pow_sub_one_eq_mod,
    Nat.and_two_pow_sub_one_eq_mod, Nat.and_two_pow_sub_one_eq_mod]
  simp only [Nat.reduceMod, Nat.reducePow]
  omega

/-- The upper part of a limit, below the flags. -/
theorem flags_low (high : UInt32) (flags : UInt8) :
    ((high &&& 0x0F).toUInt8 ||| (flags &&& 0xF0)) &&& 0x0F = (high &&& 0x0F).toUInt8 := by
  apply UInt8.eq_of_toBitVec_eq
  apply BitVec.eq_of_getLsbD_eq
  intro i bound
  interval_cases i <;> simp

theorem flags_high (high : UInt32) (flags : UInt8) :
    ((high &&& 0x0F).toUInt8 ||| (flags &&& 0xF0)) &&& 0x80 = flags &&& 0x80 := by
  apply UInt8.eq_of_toBitVec_eq
  apply BitVec.eq_of_getLsbD_eq
  intro i bound
  interval_cases i <;> simp

/-- A limit of 20 bits from its lower half and the lower part of the flags. -/
theorem limit_parts (limit : UInt32) : (limit &&& 0xFFFF).toUInt16.toNat +
    65536 * ((limit >>> 16) &&& 0x0F).toUInt8.toNat = limit.toNat % 1048576 := by
  have bound := limit.toNat_lt
  simp only [UInt32.toNat_toUInt16, UInt32.toNat_toUInt8, UInt32.toNat_and, UInt32.toNat_shiftRight,
    UInt32.reduceToNat, Nat.shiftRight_eq_div_pow]
  rw [show (65535 : Nat) = 2 ^ 16 - 1 by rfl, show (15 : Nat) = 2 ^ 4 - 1 by rfl, Nat.and_two_pow_sub_one_eq_mod,
    Nat.and_two_pow_sub_one_eq_mod]
  simp only [Nat.reduceMod, Nat.reducePow]
  omega

end I386Descriptors
