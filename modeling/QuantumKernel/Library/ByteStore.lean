import Mathlib.Tactic

/-! # Byte memory with little-endian fields

A memory is a total function from offsets to bytes.  `load16`, `load32`, `store16`
and `store32` are the little-endian accesses of a packed C structure; `copy` and
`fill` are `memcpy` and `memset`.  Each writer comes with two facts: what it leaves
in its own range, and that it leaves the rest of the memory alone.
-/

namespace ByteStore

/-- Memory seen from one base address. -/
abbrev Bytes := Nat → UInt8

def load16 (mem : Bytes) (offset : Nat) : UInt16 :=
  UInt16.ofNat ((mem offset).toNat + 256 * (mem (offset + 1)).toNat)

def load32 (mem : Bytes) (offset : Nat) : UInt32 :=
  UInt32.ofNat ((mem offset).toNat + 256 * (mem (offset + 1)).toNat +
    65536 * (mem (offset + 2)).toNat + 16777216 * (mem (offset + 3)).toNat)

/-- `memcpy`: the first `count` bytes of `source` go to `offset`. -/
def copy (mem : Bytes) (offset : Nat) (source : Bytes) (count : Nat) : Bytes := fun i =>
  if offset ≤ i ∧ i < offset + count then source (i - offset) else mem i

/-- `memset`. -/
def fill (mem : Bytes) (offset : Nat) (value : UInt8) (count : Nat) : Bytes :=
  copy mem offset (fun _ => value) count

/-- The bytes of a 16-bit value, low byte first. -/
def bytes16 (value : UInt16) : Bytes := fun k => UInt8.ofNat (value.toNat / 256 ^ k)

/-- The bytes of a 32-bit value, low byte first. -/
def bytes32 (value : UInt32) : Bytes := fun k => UInt8.ofNat (value.toNat / 256 ^ k)

def store16 (mem : Bytes) (offset : Nat) (value : UInt16) : Bytes :=
  copy mem offset (bytes16 value) 2

def store32 (mem : Bytes) (offset : Nat) (value : UInt32) : Bytes :=
  copy mem offset (bytes32 value) 4

variable {mem mem' source : Bytes} {offset count i : Nat}

theorem copy_inside (low : offset ≤ i) (high : i < offset + count) :
    copy mem offset source count i = source (i - offset) := by
  simp [copy, low, high]

theorem copy_outside (outside : i < offset ∨ offset + count ≤ i) :
    copy mem offset source count i = mem i := by
  simp only [copy]
  rw [if_neg (by omega)]

/-- A copy depends on the bytes that it copies only. -/
theorem copy_congr {source' : Bytes} (agree : ∀ k < count, source k = source' k) :
    copy mem offset source count = copy mem offset source' count := by
  funext i
  by_cases inside : offset ≤ i ∧ i < offset + count
  · rw [copy_inside inside.1 inside.2, copy_inside inside.1 inside.2, agree _ (by omega)]
  · rw [copy_outside (by omega), copy_outside (by omega)]

/-- Copying a source in two parts. -/
theorem copy_copy (mem source : Bytes) (offset count more : Nat) :
    copy (copy mem offset source count) (offset + count) (fun k => source (count + k)) more =
      copy mem offset source (count + more) := by
  funext i
  by_cases behind : offset + count ≤ i ∧ i < offset + count + more
  · rw [copy_inside behind.1 behind.2, copy_inside (by omega) (by omega)]
    congr 1
    omega
  · rw [copy_outside (by omega)]
    by_cases inside : offset ≤ i ∧ i < offset + count
    · rw [copy_inside inside.1 inside.2, copy_inside inside.1 (by omega)]
    · rw [copy_outside (by omega), copy_outside (by omega)]

theorem fill_inside {value : UInt8} (low : offset ≤ i) (high : i < offset + count) :
    fill mem offset value count i = value := copy_inside low high

theorem fill_outside {value : UInt8} (outside : i < offset ∨ offset + count ≤ i) :
    fill mem offset value count i = mem i := copy_outside outside

theorem store16_outside {value : UInt16} (outside : i < offset ∨ offset + 2 ≤ i) :
    store16 mem offset value i = mem i := copy_outside outside

theorem store32_outside {value : UInt32} (outside : i < offset ∨ offset + 4 ≤ i) :
    store32 mem offset value i = mem i := copy_outside outside

/-- A load depends on the bytes of its own range only. -/
theorem load16_congr {offset' : Nat} (agree : ∀ k < 2, mem (offset + k) = mem' (offset' + k)) :
    load16 mem offset = load16 mem' offset' := by
  have first := agree 0 (by omega)
  rw [Nat.add_zero, Nat.add_zero] at first
  simp only [load16, first, agree 1 (by omega)]

theorem load32_congr {offset' : Nat} (agree : ∀ k < 4, mem (offset + k) = mem' (offset' + k)) :
    load32 mem offset = load32 mem' offset' := by
  have first := agree 0 (by omega)
  rw [Nat.add_zero, Nat.add_zero] at first
  simp only [load32, first, agree 1 (by omega), agree 2 (by omega), agree 3 (by omega)]

/-- A load determines the bytes of its range. -/
theorem load16_inj {offset' : Nat} (same : load16 mem offset = load16 mem' offset') :
    ∀ k < 2, mem (offset + k) = mem' (offset' + k) := by
  have low := (mem offset).toNat_lt
  have high := (mem (offset + 1)).toNat_lt
  have low' := (mem' offset').toNat_lt
  have high' := (mem' (offset' + 1)).toNat_lt
  have value := congrArg UInt16.toNat same
  simp only [load16, UInt16.toNat_ofNat'] at value
  intro k bound
  apply UInt8.toNat.inj
  obtain rfl | rfl : k = 0 ∨ k = 1 := by omega
  · rw [Nat.add_zero, Nat.add_zero]
    omega
  · omega

theorem load32_inj {offset' : Nat} (same : load32 mem offset = load32 mem' offset') :
    ∀ k < 4, mem (offset + k) = mem' (offset' + k) := by
  have byte (m : Bytes) (o : Nat) : (m o).toNat < 256 := (m o).toNat_lt
  have value := congrArg UInt32.toNat same
  simp only [load32, UInt32.toNat_ofNat'] at value
  have bytes := And.intro (byte mem offset) (byte mem' offset')
  have bytes₁ := And.intro (byte mem (offset + 1)) (byte mem' (offset' + 1))
  have bytes₂ := And.intro (byte mem (offset + 2)) (byte mem' (offset' + 2))
  have bytes₃ := And.intro (byte mem (offset + 3)) (byte mem' (offset' + 3))
  intro k bound
  apply UInt8.toNat.inj
  obtain rfl | rfl | rfl | rfl : k = 0 ∨ k = 1 ∨ k = 2 ∨ k = 3 := by omega
  · rw [Nat.add_zero, Nat.add_zero]
    omega
  · omega
  · omega
  · omega

theorem load16_bytes16 (value : UInt16) : load16 (bytes16 value) 0 = value := by
  apply UInt16.toNat.inj
  have bound := value.toNat_lt
  simp only [load16, bytes16, UInt16.toNat_ofNat', UInt8.toNat_ofNat']
  omega

theorem load32_bytes32 (value : UInt32) : load32 (bytes32 value) 0 = value := by
  apply UInt32.toNat.inj
  have bound := value.toNat_lt
  simp only [load32, bytes32, UInt32.toNat_ofNat', UInt8.toNat_ofNat']
  omega

@[simp] theorem load16_store16 (mem : Bytes) (offset : Nat) (value : UInt16) :
    load16 (store16 mem offset value) offset = value := by
  rw [← load16_bytes16 value]
  refine load16_congr fun k bound => ?_
  rw [store16, copy_inside (by omega) (by omega), Nat.add_sub_cancel_left, Nat.zero_add,
    load16_bytes16]

@[simp] theorem load32_store32 (mem : Bytes) (offset : Nat) (value : UInt32) :
    load32 (store32 mem offset value) offset = value := by
  rw [← load32_bytes32 value]
  refine load32_congr fun k bound => ?_
  rw [store32, copy_inside (by omega) (by omega), Nat.add_sub_cancel_left, Nat.zero_add,
    load32_bytes32]

end ByteStore
