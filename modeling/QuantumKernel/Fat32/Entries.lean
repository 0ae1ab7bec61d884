import QuantumKernel.Fat32.Slots

/-! # The entries that creation, close and unlink leave in a slot -/

namespace QuantumKernel.Fat32

open ByteStore

/-- `(x >> 16) & 0xFFFF`. -/
def highHalf (x : UInt32) : UInt16 := ((x >>> 16) &&& 0xFFFF).toUInt16

/-- `x & 0xFFFF`. -/
def lowHalf (x : UInt32) : UInt16 := (x &&& 0xFFFF).toUInt16

/-- The entry `fat32_create_entry` writes. -/
def newEntry (shortName : ShortName) (attr : UInt8) (firstCluster : UInt32) : Fat32Dirent where
  name := shortName
  attr := attr
  ntReserved := 0
  createTimeTenth := 0
  createTime := 0
  createDate := 0
  accessDate := 0
  firstClusterHigh := highHalf firstCluster
  writeTime := 0
  writeDate := 0
  firstClusterLow := lowHalf firstCluster
  fileSize := 0

/-- The entry `fat32_close` writes. -/
def closedEntry (entry : Fat32Dirent) (file : Fat32File) : Fat32Dirent :=
  { entry with
    fileSize := file.fileSize
    firstClusterHigh := highHalf file.firstCluster
    firstClusterLow := lowHalf file.firstCluster }

/-- The entry `fat32_unlink` writes. -/
def unlinkedEntry (entry : Fat32Dirent) : Fat32Dirent :=
  { entry with name := Function.update entry.name 0 0xE5 }

theorem highHalf_toNat (x : UInt32) : (highHalf x).toNat = x.toNat / 65536 := by
  have bound := x.toNat_lt
  have low (n : Nat) : n &&& 65535 = n % 65536 := Nat.and_two_pow_sub_one_eq_mod n 16
  simp only [highHalf, UInt32.toNat_toUInt16, UInt32.toNat_and, UInt32.toNat_shiftRight,
    UInt32.reduceToNat, Nat.shiftRight_eq_div_pow, low, Nat.reduceMod, Nat.reducePow]
  omega

theorem lowHalf_toNat (x : UInt32) : (lowHalf x).toNat = x.toNat % 65536 := by
  have low (n : Nat) : n &&& 65535 = n % 65536 := Nat.and_two_pow_sub_one_eq_mod n 16
  simp only [lowHalf, UInt32.toNat_toUInt16, UInt32.toNat_and, UInt32.reduceToNat, low]
  omega

theorem join_toNat (high low : UInt16) :
    ((high.toUInt32 <<< 16) ||| low.toUInt32).toNat = 65536 * high.toNat + low.toNat := by
  have bound := high.toNat_lt
  have small : low.toNat < 2 ^ 16 := low.toNat_lt
  have join := Nat.two_pow_add_eq_or_of_lt small high.toNat
  have keep : high.toNat * 2 ^ 16 % 2 ^ 32 = 2 ^ 16 * high.toNat := by omega
  simp only [UInt32.toNat_or, UInt32.toNat_shiftLeft, UInt16.toNat_toUInt32, UInt32.reduceToNat,
    Nat.reduceMod, Nat.shiftLeft_eq]
  rw [keep, ← join]

/-- The two halves of a cluster number in a directory entry give it back. -/
theorem join_halves (x : UInt32) :
    ((highHalf x).toUInt32 <<< 16) ||| (lowHalf x).toUInt32 = x := by
  apply UInt32.toNat.inj
  rw [join_toNat, highHalf_toNat, lowHalf_toNat]
  omega

theorem highHalf_join (high low : UInt16) :
    highHalf ((high.toUInt32 <<< 16) ||| low.toUInt32) = high := by
  have small := low.toNat_lt
  apply UInt16.toNat.inj
  rw [highHalf_toNat, join_toNat]
  omega

theorem lowHalf_join (high low : UInt16) :
    lowHalf ((high.toUInt32 <<< 16) ||| low.toUInt32) = low := by
  have small := low.toNat_lt
  apply UInt16.toNat.inj
  rw [lowHalf_toNat, join_toNat]
  omega

@[simp] theorem newEntry_firstCluster (shortName : ShortName) (attr : UInt8) (first : UInt32) :
    (newEntry shortName attr first).firstCluster = first := join_halves first

@[simp] theorem closedEntry_firstCluster (entry : Fat32Dirent) (file : Fat32File) :
    (closedEntry entry file).firstCluster = file.firstCluster := join_halves file.firstCluster

/-- Nothing changes when the file has the size and the first cluster of the entry. -/
theorem closedEntry_same {entry : Fat32Dirent} {file : Fat32File} (size : file.fileSize = entry.fileSize)
    (first : file.firstCluster = entry.firstCluster) : closedEntry entry file = entry := by
  have high : highHalf entry.firstCluster = entry.firstClusterHigh := highHalf_join _ _
  have low : lowHalf entry.firstCluster = entry.firstClusterLow := lowHalf_join _ _
  simp only [closedEntry, size, first, high, low]

@[simp] theorem unlinkedEntry_firstCluster (entry : Fat32Dirent) :
    (unlinkedEntry entry).firstCluster = entry.firstCluster := rfl

@[simp] theorem closedEntry_live (entry : Fat32Dirent) (file : Fat32File) :
    (closedEntry entry file).IsLive ↔ entry.IsLive := Iff.rfl

theorem unlinkedEntry_deleted (entry : Fat32Dirent) : (unlinkedEntry entry).IsDeleted := by
  simp [unlinkedEntry, Fat32Dirent.IsDeleted]

theorem Fat32Dirent.IsDeleted.not_live {entry : Fat32Dirent} (deleted : entry.IsDeleted) :
    ¬ entry.IsLive := fun live => live.2.1 deleted

theorem Fat32Dirent.IsEnd.not_live {entry : Fat32Dirent} (isEnd : entry.IsEnd) :
    ¬ entry.IsLive := fun live => live.1 isEnd

/-! ## Reading the edited slot back -/

section Fields

variable {mem source : Bytes} {offset o count : Nat}

theorem load16_outside {mem' : Bytes} (agree : ∀ i, o ≤ i → i < o + 2 → mem' i = mem i) :
    load16 mem' o = load16 mem o :=
  load16_congr fun k bound => agree (o + k) (by omega) (by omega)

theorem load32_outside {mem' : Bytes} (agree : ∀ i, o ≤ i → i < o + 4 → mem' i = mem i) :
    load32 mem' o = load32 mem o :=
  load32_congr fun k bound => agree (o + k) (by omega) (by omega)

theorem load16_zero (zero : ∀ i, o ≤ i → i < o + 2 → mem i = 0) : load16 mem o = 0 := by
  simp [load16, zero o (by omega) (by omega), zero (o + 1) (by omega) (by omega)]

theorem load32_zero (zero : ∀ i, o ≤ i → i < o + 4 → mem i = 0) : load32 mem o = 0 := by
  simp [load32, zero o (by omega) (by omega), zero (o + 1) (by omega) (by omega),
    zero (o + 2) (by omega) (by omega), zero (o + 3) (by omega) (by omega)]

end Fields

theorem direntAt_fillEntry (b : Bytes) (offset : Nat) (shortName : ShortName) (attr : UInt8)
    (first : UInt32) :
    direntAt (fillEntry b offset shortName attr first) offset = newEntry shortName attr first := by
  let b₁ := copy (fill b offset 0 32) offset (fun k => shortName (Fin.ofNat 11 k)) 11
  let b₂ := fill b₁ (offset + 11) attr 1
  let b₃ := store16 b₂ (offset + 26) (lowHalf first)
  have edited : fillEntry b offset shortName attr first = store16 b₃ (offset + 20) (highHalf first) :=
    rfl
  -- the bytes that no field store reaches
  have bare (k : Nat) (inSlot : k < 32) (notLow : k < 26 ∨ 28 ≤ k) (notHigh : k < 20 ∨ 22 ≤ k) :
      fillEntry b offset shortName attr first (offset + k) = b₂ (offset + k) := by
    rw [edited, store16_outside (by omega)]
    exact store16_outside (by omega)
  have zero (k : Nat) (past : 12 ≤ k) (inSlot : k < 32) : b₂ (offset + k) = 0 := by
    dsimp only [b₂, b₁]
    rw [fill_outside (by omega), copy_outside (by omega), fill_inside (by omega) (by omega)]
  have zero16 (k : Nat) (past : 12 ≤ k) (inSlot : k + 2 ≤ 32) (notLow : k + 2 ≤ 26 ∨ 28 ≤ k)
      (notHigh : k + 2 ≤ 20 ∨ 22 ≤ k) :
      load16 (fillEntry b offset shortName attr first) (offset + k) = 0 := by
    refine load16_zero fun i low high => ?_
    obtain ⟨j, rfl⟩ := Nat.exists_eq_add_of_le (show offset ≤ i by omega)
    rw [bare j (by omega) (by omega) (by omega), zero j (by omega) (by omega)]
  apply Fat32Dirent.ext
  · funext j
    simp only [direntAt, newEntry]
    rw [bare j.val (by omega) (by omega) (by omega)]
    dsimp only [b₂, b₁]
    rw [fill_outside (by omega), copy_inside (by omega) (by omega), Nat.add_sub_cancel_left]
    exact congrArg shortName (Fin.ext (Nat.mod_eq_of_lt j.isLt))
  · simp only [direntAt, newEntry]
    rw [bare 11 (by omega) (by omega) (by omega)]
    exact fill_inside (by omega) (by omega)
  · simp only [direntAt, newEntry]
    rw [bare 12 (by omega) (by omega) (by omega), zero 12 (by omega) (by omega)]
  · simp only [direntAt, newEntry]
    rw [bare 13 (by omega) (by omega) (by omega), zero 13 (by omega) (by omega)]
  · exact zero16 14 (by omega) (by omega) (by omega) (by omega)
  · exact zero16 16 (by omega) (by omega) (by omega) (by omega)
  · exact zero16 18 (by omega) (by omega) (by omega) (by omega)
  · simp only [direntAt, newEntry, edited, load16_store16]
  · exact zero16 22 (by omega) (by omega) (by omega) (by omega)
  · exact zero16 24 (by omega) (by omega) (by omega) (by omega)
  · simp only [direntAt, newEntry, edited]
    rw [load16_outside (fun i low high => store16_outside (by omega)), load16_store16]
  · simp only [direntAt, newEntry]
    refine load32_zero fun i low high => ?_
    obtain ⟨j, rfl⟩ := Nat.exists_eq_add_of_le (show offset ≤ i by omega)
    rw [bare j (by omega) (by omega) (by omega), zero j (by omega) (by omega)]

theorem direntAt_closeEntry (b : Bytes) (offset : Nat) (file : Fat32File) :
    direntAt (closeEntry b offset file) offset = closedEntry (direntAt b offset) file := by
  let b₁ := store32 b (offset + 28) file.fileSize
  let b₂ := store16 b₁ (offset + 26) (lowHalf file.firstCluster)
  have edited : closeEntry b offset file = store16 b₂ (offset + 20) (highHalf file.firstCluster) :=
    rfl
  have bare (k : Nat) (notSize : k < 28 ∨ 32 ≤ k) (notLow : k < 26 ∨ 28 ≤ k)
      (notHigh : k < 20 ∨ 22 ≤ k) : closeEntry b offset file (offset + k) = b (offset + k) := by
    rw [edited, store16_outside (by omega)]
    exact (store16_outside (by omega)).trans (store32_outside (by omega))
  have bare16 (k : Nat) (before : k + 2 ≤ 26) (notHigh : k + 2 ≤ 20 ∨ 22 ≤ k) :
      load16 (closeEntry b offset file) (offset + k) = load16 b (offset + k) := by
    refine load16_outside fun i low high => ?_
    obtain ⟨j, rfl⟩ := Nat.exists_eq_add_of_le (show offset ≤ i by omega)
    exact bare j (by omega) (by omega) (by omega)
  apply Fat32Dirent.ext
  · funext j
    exact bare j.val (by omega) (by omega) (by omega)
  · exact bare 11 (by omega) (by omega) (by omega)
  · exact bare 12 (by omega) (by omega) (by omega)
  · exact bare 13 (by omega) (by omega) (by omega)
  · exact bare16 14 (by omega) (by omega)
  · exact bare16 16 (by omega) (by omega)
  · exact bare16 18 (by omega) (by omega)
  · simp only [direntAt, closedEntry, edited, load16_store16]
  · exact bare16 22 (by omega) (by omega)
  · exact bare16 24 (by omega) (by omega)
  · simp only [direntAt, closedEntry, edited]
    rw [load16_outside (fun i low high => store16_outside (by omega)), load16_store16]
  · simp only [direntAt, closedEntry, edited]
    rw [load32_outside (fun i low high => store16_outside (by omega)),
      load32_outside (fun i low high => store16_outside (by omega)), load32_store32]

theorem direntAt_unlinkEntry (b : Bytes) (offset : Nat) :
    direntAt (fill b offset 0xE5 1) offset = unlinkedEntry (direntAt b offset) := by
  have kept (k : Nat) (past : 1 ≤ k) : fill b offset 0xE5 1 (offset + k) = b (offset + k) :=
    fill_outside (by omega)
  have kept16 (k : Nat) (past : 1 ≤ k) :
      load16 (fill b offset 0xE5 1) (offset + k) = load16 b (offset + k) :=
    load16_outside fun i low _ => fill_outside (by omega)
  apply Fat32Dirent.ext
  · funext j
    simp only [unlinkedEntry, direntAt]
    by_cases first : j = 0
    · subst first
      rw [Function.update_self]
      exact fill_inside (by simp) (by simp)
    · have positive : 1 ≤ j.val := Nat.one_le_iff_ne_zero.mpr fun zero => first (Fin.ext zero)
      rw [Function.update_of_ne first, kept j.val positive]
  · exact kept 11 (by omega)
  · exact kept 12 (by omega)
  · exact kept 13 (by omega)
  · exact kept16 14 (by omega)
  · exact kept16 16 (by omega)
  · exact kept16 18 (by omega)
  · exact kept16 20 (by omega)
  · exact kept16 22 (by omega)
  · exact kept16 24 (by omega)
  · exact kept16 26 (by omega)
  · exact load32_outside fun i low _ => fill_outside (by omega)

end QuantumKernel.Fat32
