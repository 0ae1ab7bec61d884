import QuantumKernel.Fat32.MountChecks

/-! # Formatting

`fat32_format` writes the header, the FSInfo sector, the two copies of the FAT and the first
cluster, sector by sector from `sector_buffer`, and mounts the result.  The FAT copies are written
from one buffer that is not cleared between them, and only the first twelve bytes of a copy are not
zero.
-/

namespace QuantumKernel.Fat32

open ByteStore

/-! ## What is written -/

def halfWord (value : UInt16) : List UInt8 := [bytes16 value 0, bytes16 value 1]

def word (value : UInt32) : List UInt8 := [bytes32 value 0, bytes32 value 1, bytes32 value 2, bytes32 value 3]

/-- The `fat32_boot_sector_t` that `fat32_format` fills in, field by field. -/
def formatBoot (totalSectors fatSize : UInt32) : List (List UInt8) := [
  [0xEB, 0x58, 0x90],
  -- "MYOS    "
  [0x4D, 0x59, 0x4F, 0x53, 0x20, 0x20, 0x20, 0x20],
  -- bytes_per_sector to num_fats
  halfWord 512, [8], halfWord 32, [2],
  -- root_entries to hidden_sectors
  halfWord 0, halfWord 0, [0xF8], halfWord 0, halfWord 63, halfWord 255, word 0,
  word totalSectors, word fatSize,
  -- ext_flags, fs_version, root_cluster, fs_info, backup_boot
  halfWord 0, halfWord 0, word 2, halfWord 1, halfWord 6,
  List.replicate 12 0,
  -- drive_number to volume_id
  [0x80], [0], [0x29], word 0x12345678,
  -- "MYOS DISK  "
  [0x4D, 0x59, 0x4F, 0x53, 0x20, 0x44, 0x49, 0x53, 0x4B, 0x20, 0x20],
  -- "FAT32   "
  [0x46, 0x41, 0x54, 0x33, 0x32, 0x20, 0x20, 0x20]]

/-- The `fat32_fsinfo_t`. -/
def formatFsinfo : List (List UInt8) := [
  word 0x41615252, List.replicate 480 0, word 0x61417272,
  -- free_count, next_free
  word 0xFFFFFFFF, word 3,
  List.replicate 12 0, word 0xAA550000]

/-- A packed structure in memory. -/
def packed (fields : List (List UInt8)) : Bytes := fun k => fields.flatten.getD k 0

/-- `sector_buffer` when the header is written. -/
def bootBuffer (buffer : Bytes) (totalSectors fatSize : UInt32) : Bytes :=
  fill (fill (copy (fill buffer 0 0 512) 0 (packed (formatBoot totalSectors fatSize)) 90) 510 0x55 1) 511 0xAA 1

/-- `sector_buffer` when the FSInfo sector is written. -/
def fsinfoBuffer (buffer : Bytes) : Bytes := copy (fill buffer 0 0 512) 0 (packed formatFsinfo) 512

/-- The twelve assignments for the entries 0, 1 and 2. -/
def reserveEntries (buffer : Bytes) : Bytes :=
  copy buffer 0 (packed [[0xF8, 0xFF, 0xFF, 0x0F], [0xFF, 0xFF, 0xFF, 0x0F], [0xFF, 0xFF, 0xFF, 0x0F]]) 12

/-! ## `fat32_format` -/

/-- A loop that prepares `sector_buffer` for the sectors `i`, `i + 1`, ... after `lba` and writes it. -/
def writeRows (prepare : UInt32 → Bytes → Bytes) (lba : UInt32) :
    Nat → UInt32 → Fat32State → AtaError × Fat32State
  | 0, _, s => (.ok, s)
  | remaining + 1, i, s =>
    match ({ s with sectorBuffer := prepare i s.sectorBuffer } : Fat32State).writeSectorBuffer (lba + i) with
    | (.ok, s) => writeRows prepare lba remaining (i + 1) s
    | (err, s) => (err, s)

/-- One copy of the FAT. -/
def formatFatCopy (fatLba fatSize : UInt32) (s : Fat32State) : AtaError × Fat32State :=
  writeRows (fun i buffer => if i = 0 then reserveEntries buffer else fill buffer 0 0 512)
    fatLba fatSize.toNat 0 s

/-- The loop over the copies `f`, `f + 1`, ... -/
def formatFats (fatSize : UInt32) : Nat → UInt8 → Fat32State → AtaError × Fat32State
  | 0, _, s => (.ok, s)
  | remaining + 1, f, s =>
    match formatFatCopy (32 + f.toUInt32 * fatSize) fatSize s with
    | (.ok, s) => formatFats fatSize remaining (f + 1) s
    | (err, s) => (err, s)

/-- The eight sectors of the root directory. -/
def clearRoot (dataBegin : UInt32) (s : Fat32State) : AtaError × Fat32State :=
  writeRows (fun _ buffer => buffer) dataBegin 8 0 s

/-- `((total_sectors - 32) / (8 + (2 * 128))) + 1`. -/
def formatFatSize (totalSectors : UInt32) : UInt32 := (totalSectors - 32) / (8 + 2 * 128) + 1

/-- `fat32_format`. -/
def fat32Format (s : Fat32State) (totalSectors : UInt32) : Option (Int32 × Fat32State) :=
  let fatSize := formatFatSize totalSectors
  let s := { s with
    gFs.boot := ⟨fatSize⟩
    sectorBuffer := bootBuffer s.sectorBuffer totalSectors fatSize }
  match s.writeSectorBuffer 0 with
  | (.ok, s) =>
    let s := { s with
      gFs.fsinfo := ⟨3⟩
      sectorBuffer := fsinfoBuffer s.sectorBuffer }
    match s.writeSectorBuffer 1 with
    | (.ok, s) =>
      match formatFats fatSize 2 0 { s with sectorBuffer := fill s.sectorBuffer 0 0 512 } with
      | (.ok, s) =>
        match clearRoot (32 + 2 * fatSize) { s with sectorBuffer := fill s.sectorBuffer 0 0 512 } with
        | (.ok, s) => fat32Mount s
        | (_, s) => some (-1, s)
      | (_, s) => some (-1, s)
    | (_, s) => some (-1, s)
  | (_, s) => some (-1, s)

/-! ## The sectors -/

/-- The sectors from `first` on hold these rows; the others, and the driver apart from its buffers,
are as before. -/
structure Written (s s' : Fat32State) (first count : Nat) (row : Nat → Bytes) : Prop where
  outcome : s'.ata.outcome = s.ata.outcome
  current : s'.gCurrentDirCluster = s.gCurrentDirCluster
  rows : ∀ j < count, ∀ k < 512, s'.ata.sector (first + j) k = row j k
  others : ∀ n, n < first ∨ first + count ≤ n → s'.ata.sector n = s.ata.sector n

variable {s s' : Fat32State} {lba fatSize totalSectors : UInt32} {row : Nat → Bytes}

theorem writeSectorBuffer_written (lba : UInt32) (ok : ∀ n, s.ata.outcome n = .ok) {n : Nat} (address : lba.toNat = n)
    (onDrive : n < 268435456) : ∃ s', s.writeSectorBuffer lba = (.ok, s') ∧
      s'.sectorBuffer = s.sectorBuffer ∧ Written s s' n 1 fun _ => s.sectorBuffer := by
  refine ⟨_, Fat32State.writeSectorBuffer_ok ok address onDrive, rfl, rfl, rfl, ?_, ?_⟩
  · intro j single k small
    obtain rfl : j = 0 := by omega
    simp only [Nat.add_zero, Function.update_self]
    exact copy_inside (Nat.zero_le _) (by omega)
  · intro m apart
    exact Function.update_of_ne (by omega) _ _

/-- The rows of a loop, if the buffer is prepared as they are whatever the rounds before left. -/
theorem writeRows_spec {prepare : UInt32 → Bytes → Bytes} (row : Nat → Bytes) (left : Bytes → Prop)
    (prepared : ∀ i buffer, left buffer → left (prepare i buffer) ∧ ∀ k < 512, prepare i buffer k = row i.toNat k)
    (remaining : Nat) (i : UInt32) (onDrive : lba.toNat + i.toNat + remaining ≤ 268435456)
    (ok : ∀ n, s.ata.outcome n = .ok) (start : left s.sectorBuffer) :
    ∃ s', writeRows prepare lba remaining i s = (.ok, s') ∧ left s'.sectorBuffer ∧
      Written s s' (lba.toNat + i.toNat) remaining fun j => row (i.toNat + j) := by
  induction remaining generalizing i s with
  | zero => exact ⟨s, rfl, start, rfl, rfl, fun _ none => absurd none (Nat.not_lt_zero _), fun _ _ => rfl⟩
  | succ remaining ih =>
    obtain ⟨kept, bytes⟩ := prepared i s.sectorBuffer start
    -- no address wraps, since the sectors fit on the drive
    have address : (lba + i).toNat = lba.toNat + i.toNat := by
      rw [UInt32.toNat_add, Nat.mod_eq_of_lt (by omega)]
    have next : (i + 1).toNat = i.toNat + 1 := by
      rw [UInt32.toNat_add, Nat.mod_eq_of_lt (by simp only [UInt32.reduceToNat]; omega)]
      rfl
    obtain ⟨s₁, run₁, buffer₁, written₁⟩ := writeSectorBuffer_written (lba + i)
      (s := { s with sectorBuffer := prepare i s.sectorBuffer }) ok address (by omega)
    have ok₁ : ∀ n, s₁.ata.outcome n = .ok := by
      rw [written₁.outcome]
      exact ok
    obtain ⟨s', run, left', written⟩ := ih (i + 1) (by omega) ok₁ (by rw [buffer₁]; exact kept)
    rw [next] at written
    refine ⟨s', ?_, left', written.outcome.trans written₁.outcome, written.current.trans written₁.current, ?_, ?_⟩
    · rw [writeRows, run₁]
      exact run
    · intro j below k small
      cases j with
      | zero =>
        rw [written.others _ (by omega), written₁.rows 0 Nat.one_pos k small]
        exact bytes k small
      | succ j =>
        have later := written.rows j (by omega) k small
        rw [show lba.toNat + i.toNat + (j + 1) = lba.toNat + (i.toNat + 1) + j by omega, later,
          show i.toNat + (j + 1) = i.toNat + 1 + j by omega]
    · intro n apart
      rw [written.others n (by omega), written₁.others n (by omega)]

/-- The sectors of a FAT copy after formatting. -/
def fatRow (j : Nat) : Bytes := if j = 0 then reserveEntries (fun _ => 0) else fun _ => 0

/-- What the rounds of the loop leave behind: nothing but the reserved entries. -/
def BlankTail (buffer : Bytes) : Prop := ∀ k, 12 ≤ k → k < 512 → buffer k = 0

theorem fatRow_prepared (i : UInt32) (buffer : Bytes) (blank : BlankTail buffer) :
    BlankTail (if i = 0 then reserveEntries buffer else fill buffer 0 0 512) ∧
      ∀ k < 512, (if i = 0 then reserveEntries buffer else fill buffer 0 0 512) k = fatRow i.toNat k := by
  by_cases first : i = 0
  · subst first
    have row : fatRow (0 : UInt32).toNat = reserveEntries fun _ => 0 := rfl
    simp only [if_true, row, reserveEntries]
    refine ⟨fun k low high => (copy_outside (Or.inr low)).trans (blank k low high), fun k small => ?_⟩
    by_cases reserved : k < 12
    · rw [copy_inside (Nat.zero_le _) (by omega), copy_inside (Nat.zero_le _) (by omega)]
    · rw [copy_outside (Or.inr (by omega)), copy_outside (Or.inr (by omega)), blank k (by omega) small]
  · have notFirst : i.toNat ≠ 0 := fun zero => first (UInt32.toNat.inj zero)
    simp only [if_neg first, fatRow, if_neg notFirst]
    exact ⟨fun k _ high => fill_inside (Nat.zero_le _) (by omega), fun k small => fill_inside (Nat.zero_le _) (by omega)⟩

theorem formatFatCopy_spec (lba fatSize : UInt32) (onDrive : lba.toNat + fatSize.toNat ≤ 268435456) (ok : ∀ n, s.ata.outcome n = .ok)
    (blank : BlankTail s.sectorBuffer) :
    ∃ s', formatFatCopy lba fatSize s = (.ok, s') ∧ BlankTail s'.sectorBuffer ∧
      Written s s' lba.toNat fatSize.toNat fatRow := by
  obtain ⟨s', run, left, written⟩ := writeRows_spec fatRow BlankTail fatRow_prepared fatSize.toNat 0 onDrive ok blank
  simp only [UInt32.reduceToNat, Nat.zero_add, Nat.add_zero] at written
  exact ⟨s', run, left, written⟩

theorem clearRoot_spec (lba : UInt32) (onDrive : lba.toNat + 8 ≤ 268435456) (ok : ∀ n, s.ata.outcome n = .ok)
    (blank : ∀ k < 512, s.sectorBuffer k = 0) :
    ∃ s', clearRoot lba s = (.ok, s') ∧ Written s s' lba.toNat 8 fun _ _ => 0 := by
  obtain ⟨s', run, -, written⟩ := writeRows_spec (fun _ _ => 0) (fun buffer => ∀ k < 512, buffer k = 0)
    (fun _ _ blank => ⟨blank, blank⟩) 8 0 onDrive ok blank
  exact ⟨s', run, written⟩

/-- The header as `fat32_mount` reads it. -/
def formatRecord (totalSectors fatSize : UInt32) : BootRecord where
  bytesPerSector := 512
  sectorsPerCluster := 8
  reservedSectors := 32
  numFats := 2
  totalSectors32 := totalSectors
  fatSize32 := fatSize
  rootCluster := 2
  fsInfo := 1

theorem bootRecordAt_formatBoot (totalSectors fatSize : UInt32) :
    bootRecordAt (packed (formatBoot totalSectors fatSize)) = formatRecord totalSectors fatSize := by
  have total : load32 (packed (formatBoot totalSectors fatSize)) 32 = totalSectors := load32_bytes32 totalSectors
  have size : load32 (packed (formatBoot totalSectors fatSize)) 36 = fatSize := load32_bytes32 fatSize
  rw [bootRecordAt, total, size]
  rfl

theorem bootRecordAt_bootBuffer (buffer : Bytes) (totalSectors fatSize : UInt32) :
    bootRecordAt (bootBuffer buffer totalSectors fatSize) = formatRecord totalSectors fatSize := by
  rw [← bootRecordAt_formatBoot]
  refine bootRecordAt_congr fun k small => ?_
  rw [bootBuffer, fill_outside (Or.inl (by omega)), fill_outside (Or.inl (by omega)),
    copy_inside (Nat.zero_le _) (by omega), Nat.sub_zero]

/-- A drive after formatting, up to the free clusters. -/
structure Formatted (totalSectors fatSize : UInt32) (sector : Nat → Bytes) : Prop where
  header : bootRecordAt (sector 0) = formatRecord totalSectors fatSize
  fats : ∀ f < 2, ∀ j < fatSize.toNat, ∀ k < 512, sector (32 + f * fatSize.toNat + j) k = fatRow j k
  root : ∀ j < 8, ∀ k < 512, sector (32 + 2 * fatSize.toNat + j) k = 0

theorem formatFats_spec (fatSize : UInt32) (onDrive : 32 + 2 * fatSize.toNat ≤ 268435456) (ok : ∀ n, s.ata.outcome n = .ok)
    (blank : BlankTail s.sectorBuffer) :
    ∃ s', formatFats fatSize 2 0 s = (.ok, s') ∧
      Written s s' 32 (2 * fatSize.toNat) fun j => fatRow (j % fatSize.toNat) := by
  have first : (32 + (0 : UInt8).toUInt32 * fatSize).toNat = 32 := by
    simp only [UInt32.toNat_add, UInt32.toNat_mul, UInt8.toNat_toUInt32, UInt8.reduceToNat, Nat.zero_mul,
      UInt32.reduceToNat, Nat.zero_mod, Nat.add_zero]
  have second : (32 + (0 + 1 : UInt8).toUInt32 * fatSize).toNat = 32 + fatSize.toNat := by
    have one : (0 + 1 : UInt8).toUInt32 = 1 := by decide
    rw [one, UInt32.one_mul, UInt32.toNat_add, Nat.mod_eq_of_lt (by simp only [UInt32.reduceToNat]; omega)]
    rfl
  obtain ⟨s₁, run₁, blank₁, written₁⟩ := formatFatCopy_spec (32 + (0 : UInt8).toUInt32 * fatSize) fatSize
    (by rw [first]; omega) ok blank
  obtain ⟨s₂, run₂, -, written₂⟩ := formatFatCopy_spec (32 + (0 + 1 : UInt8).toUInt32 * fatSize) fatSize
    (by rw [second]; omega) (by rw [written₁.outcome]; exact ok) blank₁
  rw [first] at written₁
  rw [second] at written₂
  refine ⟨s₂, ?_, written₂.outcome.trans written₁.outcome, written₂.current.trans written₁.current, ?_, ?_⟩
  · simp only [formatFats, run₁, run₂]
  · intro j below k small
    by_cases inFirst : j < fatSize.toNat
    · rw [written₂.others _ (by omega), written₁.rows j inFirst k small, Nat.mod_eq_of_lt inFirst]
    · have place : 32 + j = 32 + fatSize.toNat + (j - fatSize.toNat) := by omega
      rw [place, written₂.rows _ (by omega) k small, Nat.mod_eq_sub_mod (by omega), Nat.mod_eq_of_lt (by omega)]
  · intro n apart
    rw [written₂.others n (by omega), written₁.others n (by omega)]

/-- On a drive that accepts every command, `fat32_format` mounts a formatted drive. -/
theorem fat32Format_formatted (totalSectors : UInt32) (onDrive : 32 + 2 * (formatFatSize totalSectors).toNat + 8 ≤ 268435456)
    (ok : ∀ n, s.ata.outcome n = .ok) :
    ∃ s', fat32Format s totalSectors = fat32Mount s' ∧ Formatted totalSectors (formatFatSize totalSectors) s'.ata.sector ∧
      ∀ n, s'.ata.outcome n = .ok := by
  set fatSize := formatFatSize totalSectors with fatSize_def
  have dataBegin : (32 + 2 * fatSize).toNat = 32 + 2 * fatSize.toNat := by
    simp only [UInt32.toNat_add, UInt32.toNat_mul, UInt32.reduceToNat]
    omega
  obtain ⟨s₁, run₁, -, written₁⟩ := writeSectorBuffer_written 0 (n := 0)
    (s := { s with gFs.boot := ⟨fatSize⟩, sectorBuffer := bootBuffer s.sectorBuffer totalSectors fatSize })
    ok rfl (by decide)
  have ok₁ : ∀ n, s₁.ata.outcome n = .ok := by rw [written₁.outcome]; exact ok
  obtain ⟨s₂, run₂, -, written₂⟩ := writeSectorBuffer_written 1 (n := 1)
    (s := { s₁ with gFs.fsinfo := ⟨3⟩, sectorBuffer := fsinfoBuffer s₁.sectorBuffer }) ok₁ rfl (by decide)
  have ok₂ : ∀ n, s₂.ata.outcome n = .ok := by rw [written₂.outcome]; exact ok₁
  obtain ⟨s₃, run₃, written₃⟩ := formatFats_spec fatSize
    (s := { s₂ with sectorBuffer := fill s₂.sectorBuffer 0 0 512 }) (by omega) ok₂
    (fun k _ small => fill_inside (Nat.zero_le _) (by omega))
  have ok₃ : ∀ n, s₃.ata.outcome n = .ok := by rw [written₃.outcome]; exact ok₂
  obtain ⟨s₄, run₄, written₄⟩ := clearRoot_spec (32 + 2 * fatSize)
    (s := { s₃ with sectorBuffer := fill s₃.sectorBuffer 0 0 512 }) (by omega) ok₃
    (fun k small => fill_inside (Nat.zero_le _) (by omega))
  rw [dataBegin] at written₄
  refine ⟨s₄, ?_, ⟨?_, ?_, ?_⟩, by rw [written₄.outcome]; exact ok₃⟩
  · rw [fat32Format, ← fatSize_def]
    simp only [run₁, run₂, run₃, run₄]
  · -- the boot sector, which the later writes leave alone
    rw [written₄.others 0 (Or.inl (by omega)), written₃.others 0 (Or.inl (by omega)),
      written₂.others 0 (Or.inl (by omega))]
    rw [← bootRecordAt_bootBuffer s.sectorBuffer totalSectors fatSize]
    exact bootRecordAt_congr fun k small => written₁.rows 0 Nat.one_pos k (by omega)
  · intro f copy j below k small
    -- row `j` of copy `f` is the row with that number of both copies together
    have row : f * fatSize.toNat + j < 2 * fatSize.toNat := by
      obtain rfl | rfl : f = 0 ∨ f = 1 := by omega
      · omega
      · omega
    rw [written₄.others _ (Or.inl (by omega)), Nat.add_assoc, written₃.rows _ row k small,
      Nat.mul_add_mod', Nat.mod_eq_of_lt below]
  · exact fun j below k small => written₄.rows j below k small

end QuantumKernel.Fat32
