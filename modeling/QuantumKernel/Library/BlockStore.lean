import QuantumKernel.Library.ByteStore

/-! # A byte array spread over blocks

A long byte array is often kept in blocks of one size, listed in order.  `byteAt`
reads such an array; `byteAt_write` says that overwriting a range inside one block
overwrites the same range of the array, and `byteAt_prefix` that appending blocks
does not move the bytes already there.
-/

namespace BlockStore

open ByteStore

variable {β : Type*}

/-- Byte `k` of the array whose blocks, of `size` bytes each, are `blocks`. -/
def byteAt (data : β → Bytes) (size : Nat) (blocks : List β) (k : Nat) : UInt8 :=
  match blocks[k / size]? with
  | some b => data b (k % size)
  | none => 0

variable {data data' : β → Bytes} {size i r k : Nat} {blocks blocks' : List β}

theorem byteAt_block (bound : i < blocks.length) (inside : r < size) :
    byteAt data size blocks (i * size + r) = data blocks[i] r := by
  have positive : 0 < size := by omega
  have block : (i * size + r) / size = i := by
    rw [Nat.mul_comm, Nat.mul_add_div positive, Nat.div_eq_of_lt inside, Nat.add_zero]
  have rest : (i * size + r) % size = r := by
    rw [Nat.mul_comm, Nat.mul_add_mod, Nat.mod_eq_of_lt inside]
  rw [byteAt, block, rest, List.getElem?_eq_getElem bound]

/-- Byte `k` depends on the block it lies in only. -/
theorem byteAt_congr (agree : ∀ b, blocks[k / size]? = some b → data' b = data b) :
    byteAt data' size blocks k = byteAt data size blocks k := by
  rw [byteAt, byteAt]
  cases found : blocks[k / size]? with
  | none => rfl
  | some b =>
    simp only
    rw [agree b found]

/-- Appending blocks leaves the bytes of the old blocks where they are. -/
theorem byteAt_prefix (extension : blocks <+: blocks') (old : k < blocks.length * size) :
    byteAt data size blocks' k = byteAt data size blocks k := by
  obtain ⟨tail, rfl⟩ := extension
  have inside : k / size < blocks.length := Nat.div_lt_of_lt_mul (by rwa [Nat.mul_comm])
  rw [byteAt, byteAt, List.getElem?_append_left inside]

/-- A range lies in block `i` exactly when its bytes divide to `i`. -/
theorem div_eq_of_range (low : i * size ≤ k) (high : k < i * size + size) : k / size = i := by
  have positive : 0 < size := by omega
  refine Nat.div_eq_of_lt_le low ?_
  rw [Nat.succ_mul]
  exact high

variable [DecidableEq β]

/-- Overwriting bytes inside one block. -/
theorem byteAt_write (nodup : blocks.Nodup) (bound : i < blocks.length) {offset count : Nat}
    (fits : offset + count ≤ size) (source : Bytes) :
    byteAt (Function.update data blocks[i] (copy (data blocks[i]) offset source count)) size blocks k =
      if i * size + offset ≤ k ∧ k < i * size + offset + count then
        source (k - (i * size + offset))
      else byteAt data size blocks k := by
  by_cases block : k / size = i
  · have place : k = i * size + k % size := by
      have division := Nat.div_add_mod k size
      rw [block, Nat.mul_comm] at division
      exact division.symm
    by_cases empty : size = 0
    · have nothing : ¬ (i * size + offset ≤ k ∧ k < i * size + offset + count) := by omega
      rw [if_neg nothing, byteAt, byteAt, block, List.getElem?_eq_getElem bound]
      simp only [Function.update_self]
      exact copy_outside (by omega)
    · have inside : k % size < size := Nat.mod_lt _ (by omega)
      generalize k % size = r at place inside
      subst place
      rw [byteAt_block bound inside, byteAt_block bound inside, Function.update_self]
      by_cases written : offset ≤ r ∧ r < offset + count
      · rw [if_pos (by omega), copy_inside written.1 written.2]
        congr 1
        omega
      · rw [if_neg (by omega), copy_outside (by omega)]
  · -- a byte of another block is not in the range either
    have outside : ¬ (i * size + offset ≤ k ∧ k < i * size + offset + count) := by
      rintro ⟨low, high⟩
      exact block (div_eq_of_range (by omega) (by omega))
    rw [if_neg outside, byteAt, byteAt]
    cases found : blocks[k / size]? with
    | none => rfl
    | some b =>
      obtain ⟨later, here⟩ := List.getElem?_eq_some_iff.mp found
      have ne : b ≠ blocks[i] := by
        intro same
        exact block ((List.Nodup.getElem_inj_iff nodup).mp (here.trans same))
      simp only [Function.update_of_ne ne]

end BlockStore
