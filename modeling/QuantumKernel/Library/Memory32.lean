import QuantumKernel.Library.ByteStore

/-! # Memory with 32-bit addresses

A memory gives a byte to each of the `2^32` addresses, and addresses wrap.  `put` stores
a range of bytes; every other writer is an instance of it.  A range of at most `2^32`
bytes never meets itself, so what a `put` leaves at one of its own addresses is the byte
that was meant for it (`put_at`), and a loaded word is known byte by byte
(`loadWord_eq_iff`).
-/

namespace Memory32

open ByteStore

abbrev Memory := UInt32 → UInt8

/-- The first `count` bytes of `source` go to `address` and the addresses after it. -/
def put (mem : Memory) (address : UInt32) (source : Bytes) (count : Nat) : Memory := fun x =>
  if (x - address).toNat < count then source (x - address).toNat else mem x

/-- The memory seen from an address. -/
def view (mem : Memory) (address : UInt32) : Bytes := fun k => mem (address + UInt32.ofNat k)

def loadWord (mem : Memory) (address : UInt32) : UInt32 := load32 (view mem address) 0

def storeWord (mem : Memory) (address value : UInt32) : Memory := put mem address (bytes32 value) 4

variable {mem : Memory} {address x value : UInt32} {source source' : Bytes} {count count' k : Nat}

/-- Offsets below `2^32` come back from addresses. -/
theorem offset_toNat (address : UInt32) (small : k < 4294967296) :
    (address + UInt32.ofNat k - address).toNat = k := by
  have bound := address.toNat_lt
  rw [UInt32.toNat_sub, UInt32.toNat_add, UInt32.toNat_ofNat']
  omega

theorem put_at (bound : k < count) (fits : count ≤ 4294967296) :
    put mem address source count (address + UInt32.ofNat k) = source k := by
  have offset := offset_toNat address (show k < 4294967296 by omega)
  rw [put, offset, if_pos bound]

theorem put_outside (outside : count ≤ (x - address).toNat) : put mem address source count x = mem x :=
  if_neg (Nat.not_lt.mpr outside)

/-- Two ranges one behind the other are one range. -/
theorem put_put (fits : count + count' ≤ 4294967296) :
    put (put mem address source count) (address + UInt32.ofNat count) source' count' =
      put mem address (fun k => if k < count then source k else source' (k - count)) (count + count') := by
  funext x
  have boundX := x.toNat_lt
  have boundA := address.toNat_lt
  have second : (x - (address + UInt32.ofNat count)).toNat =
      if count ≤ (x - address).toNat then (x - address).toNat - count
      else (x - address).toNat + (4294967296 - count) := by
    rw [UInt32.toNat_sub, UInt32.toNat_sub, UInt32.toNat_add, UInt32.toNat_ofNat']
    split <;> omega
  have boundD := (x - address).toNat_lt
  simp only [put, second]
  by_cases first : (x - address).toNat < count
  · rw [if_neg (show ¬ count ≤ (x - address).toNat by omega), if_neg (by omega), if_pos first,
      if_pos (by omega), if_pos first]
  · rw [if_pos (show count ≤ (x - address).toNat by omega), if_neg first, if_neg first]
    by_cases inside : (x - address).toNat - count < count'
    · rw [if_pos inside, if_pos (by omega)]
    · rw [if_neg inside, if_neg (by omega)]

theorem load32_eq_iff {bytes : Bytes} {value : UInt32} :
    load32 bytes 0 = value ↔ ∀ k < 4, bytes k = bytes32 value k := by
  constructor
  · rintro rfl k bound
    have b₀ := (bytes 0).toNat_lt
    have b₁ := (bytes 1).toNat_lt
    have b₂ := (bytes 2).toNat_lt
    have b₃ := (bytes 3).toNat_lt
    apply UInt8.toNat.inj
    simp only [load32, bytes32, UInt8.toNat_ofNat', UInt32.toNat_ofNat', Nat.zero_add]
    obtain rfl | rfl | rfl | rfl : k = 0 ∨ k = 1 ∨ k = 2 ∨ k = 3 := by omega
    all_goals omega
  · intro agree
    rw [← load32_bytes32 value]
    refine load32_congr fun k bound => ?_
    rw [Nat.zero_add]
    exact agree k bound

/-- A word in memory is known by its four bytes. -/
theorem loadWord_eq_iff :
    loadWord mem address = value ↔ ∀ k < 4, mem (address + UInt32.ofNat k) = bytes32 value k :=
  load32_eq_iff

@[simp] theorem loadWord_storeWord (mem : Memory) (address value : UInt32) :
    loadWord (storeWord mem address value) address = value :=
  loadWord_eq_iff.mpr fun _ bound => put_at bound (by decide)

/-! ## Several words -/

/-- The bytes of consecutive words. -/
def words (values : List UInt32) : Bytes := fun k => bytes32 (values.getD (k / 4) 0) (k % 4)

/-- Three words stored one behind the other. -/
theorem storeWord_three (mem : Memory) (address first second third : UInt32) :
    storeWord (storeWord (storeWord mem address first) (address + 4) second) (address + 8) third =
      put mem address (words [first, second, third]) 12 := by
  have two : put (put mem address (bytes32 first) 4) (address + UInt32.ofNat 4) (bytes32 second) 4 = _ :=
    put_put (by decide)
  have three : put (put mem address (fun k => if k < 4 then bytes32 first k else bytes32 second (k - 4)) 8)
      (address + UInt32.ofNat 8) (bytes32 third) 4 = _ := put_put (by decide)
  rw [storeWord, storeWord, storeWord]
  refine Eq.trans (congrArg (fun mem => put mem (address + 8) (bytes32 third) 4) two) (three.trans ?_)
  funext x
  simp only [put]
  by_cases inside : (x - address).toNat < 12
  · rw [if_pos inside, if_pos inside]
    generalize (x - address).toNat = k at inside
    obtain low | middle | high : k < 4 ∨ (4 ≤ k ∧ k < 8) ∨ 8 ≤ k := by omega
    · rw [if_pos (by omega), if_pos low, words, Nat.div_eq_of_lt low, Nat.mod_eq_of_lt low]
      rfl
    · rw [if_pos (by omega), if_neg (by omega), words, show k / 4 = 1 by omega,
        show k % 4 = k - 4 by omega]
      rfl
    · rw [if_neg (by omega), words, show k / 4 = 2 by omega, show k % 4 = k - 8 by omega]
      rfl
  · rw [if_neg inside, if_neg inside]

end Memory32
