import Mathlib.Tactic

/-! # Pages of 4096 bytes

An address of 32 bits is a page number and an offset, and the page number selects a page
table and an entry of it.  The masks and shifts with which page tables are addressed are
stated here as divisions and remainders.
-/

namespace Pages

/-- The number of the page that an address lies on. -/
def pageOf (address : UInt32) : UInt32 := address >>> 12

/-- The entry of the page directory for an address. -/
def directoryIndex (address : UInt32) : UInt32 := address >>> 22

/-- The entry of the page table for an address. -/
def tableIndex (address : UInt32) : UInt32 := (address >>> 12) &&& 0x3FF

/-- The first address of the page. -/
def baseOf (address : UInt32) : UInt32 := address &&& 0xFFFFF000

/-- The place of an address on its page. -/
def offsetOf (address : UInt32) : UInt32 := address &&& 0xFFF

variable (x y : UInt32)

theorem pageOf_toNat : (pageOf x).toNat = x.toNat / 4096 := by
  simp [pageOf, UInt32.toNat_shiftRight, Nat.shiftRight_eq_div_pow]

theorem directoryIndex_toNat : (directoryIndex x).toNat = x.toNat / 4194304 := by
  simp [directoryIndex, UInt32.toNat_shiftRight, Nat.shiftRight_eq_div_pow]

theorem tableIndex_toNat : (tableIndex x).toNat = x.toNat / 4096 % 1024 := by
  simp only [tableIndex, UInt32.toNat_and, UInt32.toNat_shiftRight, UInt32.reduceToNat, Nat.reduceMod,
    Nat.shiftRight_eq_div_pow, Nat.reducePow]
  exact Nat.and_two_pow_sub_one_eq_mod _ 10

theorem offsetOf_toNat : (offsetOf x).toNat = x.toNat % 4096 := by
  simp only [offsetOf, UInt32.toNat_and, UInt32.reduceToNat]
  exact Nat.and_two_pow_sub_one_eq_mod _ 12

theorem baseOf_toNat : (baseOf x).toNat = x.toNat / 4096 * 4096 := by
  have shifts : baseOf x = (x >>> 12) <<< 12 := by
    apply UInt32.toBitVec_inj.mp
    ext i bound
    simp only [baseOf]
    simp
    interval_cases i <;> simp
  have bound := x.toNat_lt
  rw [shifts]
  simp [UInt32.toNat_shiftLeft, UInt32.toNat_shiftRight, Nat.shiftLeft_eq, Nat.shiftRight_eq_div_pow]
  omega

/-- A page number and an offset make an address. -/
theorem base_or_offset_toNat : (baseOf x ||| offsetOf y).toNat = x.toNat / 4096 * 4096 + y.toNat % 4096 := by
  have joined : baseOf x ||| offsetOf y = baseOf x + offsetOf y := by
    apply UInt32.toBitVec_inj.mp
    simp only [baseOf, offsetOf, UInt32.toBitVec_or, UInt32.toBitVec_and, UInt32.toBitVec_add]
    rw [BitVec.add_eq_or_of_and_eq_zero]
    ext i bound
    simp
    interval_cases i <;> simp
  have bound := x.toNat_lt
  rw [joined, UInt32.toNat_add, baseOf_toNat, offsetOf_toNat]
  omega

/-- Rounding up to a page. -/
theorem roundUp_toNat :
    ((x + 4096 - 1) &&& ~~~((4096 : UInt32) - 1)).toNat = (x.toNat + 4095) % 4294967296 / 4096 * 4096 := by
  have mask : ~~~((4096 : UInt32) - 1) = 0xFFFFF000 := by decide
  have bound := x.toNat_lt
  have sum : (x + 4096 - 1).toNat = (x.toNat + 4095) % 4294967296 := by
    simp [UInt32.toNat_sub, UInt32.toNat_add]
    omega
  rw [mask, ← sum]
  exact baseOf_toNat (x + 4096 - 1)

variable {x y}

/-- Two addresses use the same entry exactly if they lie on the same page. -/
theorem same_entry_iff :
    directoryIndex x = directoryIndex y ∧ tableIndex x = tableIndex y ↔ pageOf x = pageOf y := by
  constructor
  · rintro ⟨directory, table⟩
    have directory := congrArg UInt32.toNat directory
    have table := congrArg UInt32.toNat table
    rw [directoryIndex_toNat, directoryIndex_toNat] at directory
    rw [tableIndex_toNat, tableIndex_toNat] at table
    apply UInt32.toNat.inj
    rw [pageOf_toNat, pageOf_toNat]
    omega
  · intro page
    have page := congrArg UInt32.toNat page
    rw [pageOf_toNat, pageOf_toNat] at page
    constructor
    · apply UInt32.toNat.inj
      rw [directoryIndex_toNat, directoryIndex_toNat]
      omega
    · apply UInt32.toNat.inj
      rw [tableIndex_toNat, tableIndex_toNat, page]

/-! ## Tables of words -/

/-- The address of an entry of the table of words at `table`. -/
def entryAddress (table i : UInt32) : UInt32 := table + 4 * i

/-- The words with those of one page set to 0. -/
def clearPage (word : UInt32 → UInt32) (page : UInt32) : UInt32 → UInt32 :=
  fun address => if address - page < 4096 then 0 else word address

variable {t u i j : UInt32}

theorem aligned_iff : baseOf x = x ↔ x.toNat % 4096 = 0 := by
  rw [← UInt32.toNat_inj, baseOf_toNat]
  omega

theorem baseOf_aligned (x : UInt32) : baseOf (baseOf x) = baseOf x := by
  rw [aligned_iff, baseOf_toNat]
  omega

theorem entryAddress_toNat (aligned : baseOf t = t) (bound : i < 1024) :
    (entryAddress t i).toNat = t.toNat + 4 * i.toNat := by
  rw [aligned_iff] at aligned
  have below : i.toNat < 1024 := bound
  have size := t.toNat_lt
  rw [entryAddress, UInt32.toNat_add, UInt32.toNat_mul, show (4 : UInt32).toNat = 4 from rfl]
  omega

/-- Tables on page boundaries share no entry. -/
theorem entryAddress_inj (alignedT : baseOf t = t) (alignedU : baseOf u = u) (boundI : i < 1024) (boundJ : j < 1024) :
    entryAddress t i = entryAddress u j ↔ t = u ∧ i = j := by
  constructor
  · intro same
    have same := congrArg UInt32.toNat same
    rw [entryAddress_toNat alignedT boundI, entryAddress_toNat alignedU boundJ] at same
    have belowI : i.toNat < 1024 := boundI
    have belowJ : j.toNat < 1024 := boundJ
    rw [aligned_iff] at alignedT alignedU
    constructor
    · apply UInt32.toNat.inj
      omega
    · apply UInt32.toNat.inj
      omega
  · rintro ⟨rfl, rfl⟩
    rfl

/-- Clearing a page clears the table on it, and no other. -/
theorem clearPage_entry (word : UInt32 → UInt32) (alignedT : baseOf t = t) (alignedU : baseOf u = u)
    (bound : i < 1024) : clearPage word t (entryAddress u i) = if u = t then 0 else word (entryAddress u i) := by
  have inside : entryAddress u i - t < 4096 ↔ u = t := by
    have value := entryAddress_toNat alignedU bound
    have below : i.toNat < 1024 := bound
    have sizeT := t.toNat_lt
    have sizeU := u.toNat_lt
    rw [aligned_iff] at alignedT alignedU
    rw [UInt32.lt_iff_toNat_lt, UInt32.toNat_sub, value, ← UInt32.toNat_inj, show (4096 : UInt32).toNat = 4096 from rfl]
    omega
  simp only [clearPage, inside]

/-! ## Loops over 32-bit numbers -/

variable {S : Type}

/-- `for (; goes(i); i += stride)`, for at most `fuel` rounds. -/
def forLoop (goes : UInt32 → Bool) (stride : UInt32) (body : S → UInt32 → S) : Nat → S → UInt32 → Option S
  | 0, _, _ => none
  | fuel + 1, s, i => if goes i then forLoop goes stride body fuel (body s i) (i + stride) else some s

/-- The values of the loop variable in `n` rounds. -/
def strided (stride : UInt32) : Nat → UInt32 → List UInt32
  | 0, _ => []
  | n + 1, i => i :: strided stride n (i + stride)

variable {goes : UInt32 → Bool} {stride a : UInt32} {body : S → UInt32 → S} {s : S} {n fuel : Nat}

/-- A loop that stops after `n` rounds, and not before. -/
theorem forLoop_eq (runs : ∀ a ∈ strided stride n i, goes a = true)
    (stops : goes (i + UInt32.ofNat n * stride) = false) (enough : n < fuel) :
    forLoop goes stride body fuel s i = some ((strided stride n i).foldl body s) := by
  induction n generalizing i s fuel with
  | zero =>
    obtain ⟨fuel, rfl⟩ := Nat.exists_eq_succ_of_ne_zero (Nat.ne_of_gt enough)
    have stop : goes i = false := by simpa using stops
    rw [forLoop, stop]
    rfl
  | succ n ih =>
    obtain ⟨fuel, rfl⟩ := Nat.exists_eq_succ_of_ne_zero (Nat.ne_of_gt (Nat.zero_lt_of_lt enough))
    have first : goes i = true := runs i List.mem_cons_self
    have last : i + stride + UInt32.ofNat n * stride = i + UInt32.ofNat (n + 1) * stride := by
      rw [UInt32.ofNat_add, UInt32.add_mul, show UInt32.ofNat 1 = 1 from rfl, UInt32.one_mul, UInt32.add_assoc,
        UInt32.add_comm stride]
    rw [forLoop, if_pos first, strided, List.foldl_cons]
    exact ih (fun a later => runs a (List.mem_cons_of_mem _ later)) (last ▸ stops) (Nat.lt_of_succ_lt_succ enough)

theorem next_toNat (positive : 0 < stride.toNat) (more : 0 < n)
    (fits : i.toNat + stride.toNat * (n + 1) ≤ 4294967296) : (i + stride).toNat = i.toNat + stride.toNat := by
  have twice : stride.toNat * 2 ≤ stride.toNat * (n + 1) := Nat.mul_le_mul_left _ (by omega)
  rw [UInt32.toNat_add]
  omega

/-- The loop variable, as long as it does not wrap around. -/
theorem mem_strided (positive : 0 < stride.toNat) (fits : i.toNat + stride.toNat * n ≤ 4294967296) :
    a ∈ strided stride n i ↔ ∃ k < n, a.toNat = i.toNat + stride.toNat * k := by
  induction n generalizing i with
  | zero => simp [strided]
  | succ n ih =>
    rw [strided, List.mem_cons]
    rcases Nat.eq_zero_or_pos n with rfl | more
    · simp [strided, ← UInt32.toNat_inj]
    · have next := next_toNat positive more fits
      rw [ih (by rw [next]; rw [Nat.mul_succ] at fits; omega), next, ← UInt32.toNat_inj]
      constructor
      · rintro (here | ⟨k, below, later⟩)
        · exact ⟨0, Nat.succ_pos n, by rw [here, Nat.mul_zero, Nat.add_zero]⟩
        · exact ⟨k + 1, Nat.succ_lt_succ below, by rw [later, Nat.mul_succ]; omega⟩
      · rintro ⟨k, below, value⟩
        cases k with
        | zero => exact .inl (by rw [value, Nat.mul_zero, Nat.add_zero])
        | succ k => exact .inr ⟨k, Nat.lt_of_succ_lt_succ below, by rw [value, Nat.mul_succ]; omega⟩

theorem strided_nodup (positive : 0 < stride.toNat) (fits : i.toNat + stride.toNat * n ≤ 4294967296) :
    (strided stride n i).Nodup := by
  induction n generalizing i with
  | zero => exact List.nodup_nil
  | succ n ih =>
    rw [strided, List.nodup_cons]
    rcases Nat.eq_zero_or_pos n with rfl | more
    · simp [strided]
    · have next := next_toNat positive more fits
      have fits' : (i + stride).toNat + stride.toNat * n ≤ 4294967296 := by
        rw [Nat.mul_succ] at fits
        omega
      refine ⟨fun again => ?_, ih fits'⟩
      obtain ⟨k, -, value⟩ := (mem_strided positive fits').mp again
      omega

end Pages
