import QuantumKernel.Fat32.WorkingDirectory
import QuantumKernel.Fat32.Faults

/-! # What `fat32_mount` checks, and what it trusts

`fat32_mount` looks at the sector size and at the root cluster, and computes the layout from the
other fields of the header as they are.  The layout is one the driver can work with exactly if the
header describes a volume whose areas fit into each other; then the driver is `Mounted`.
-/

namespace QuantumKernel.Fat32

open ByteStore

/-- The `g_fs` that `fat32_mount` leaves for a header, with the hint of the FSInfo sector. -/
def BootRecord.layout (b : BootRecord) (hint : UInt32) : Fat32Fs where
  boot := ⟨b.fatSize32⟩
  fsinfo := ⟨hint⟩
  fatBeginLba := b.reservedSectors.toUInt32
  clusterBeginLba := b.reservedSectors.toUInt32 + b.numFats.toUInt32 * b.fatSize32
  rootDirFirstCluster := b.rootCluster
  sectorsPerCluster := b.sectorsPerCluster.toUInt32
  bytesPerCluster := b.sectorsPerCluster.toUInt32 * fat32SectorSize
  totalClusters := (b.totalSectors32 - (b.reservedSectors.toUInt32 + b.numFats.toUInt32 * b.fatSize32)) /
    b.sectorsPerCluster.toUInt32
  numFats := b.numFats

/-- The sectors before the data area, in exact arithmetic. -/
def BootRecord.dataBegin (b : BootRecord) : Nat :=
  b.reservedSectors.toNat + b.numFats.toNat * b.fatSize32.toNat

/-- The clusters that fit behind them. -/
def BootRecord.clusters (b : BootRecord) : Nat :=
  (b.totalSectors32.toNat - b.dataBegin) / b.sectorsPerCluster.toNat

/-- The header describes a volume: its areas lie one behind the other, the FATs have an entry for
every cluster, and the root directory is one of them. -/
structure BootRecord.Consistent (b : BootRecord) : Prop where
  sectors_pos : 1 ≤ b.sectorsPerCluster.toNat
  sectors_le : b.sectorsPerCluster.toNat ≤ 128
  fats_pos : 1 ≤ b.numFats.toNat
  areas : b.dataBegin ≤ b.totalSectors32.toNat
  root : b.rootCluster.toNat < b.clusters + 2
  room : b.clusters + 2 ≤ 128 * b.fatSize32.toNat

/-- A header that passes the two checks of `fat32_mount`. -/
def BootRecord.PassesChecks (b : BootRecord) : Prop := b.bytesPerSector = 512 ∧ 2 ≤ b.rootCluster

/-- Both sectors are read, and the header passes the checks. -/
def Fat32State.MountAccepts (s : Fat32State) : Prop :=
  s.Answers s.ata.command ∧ s.Answers (s.ata.command + 1) ∧ (bootRecordAt (s.ata.sector 0)).PassesChecks

/-- A geometry the driver can trust: a cluster fits into `cluster_buffer`, no address computation
wrapped, the root is a cluster, and each FAT has room for all entries. -/
structure ValidGeometry (totalSectors32 : UInt32) (g : Fat32Fs) : Prop where
  sectors_pos : 1 ≤ g.sectorsPerCluster.toNat
  sectors_le : g.sectorsPerCluster.toNat ≤ 128
  fats_pos : 1 ≤ g.numFats.toNat
  data_begin : g.clusterBeginLba.toNat = g.fatBeginLba.toNat + g.numFats.toNat * g.boot.fatSize32.toNat
  data_sectors : g.clusterBeginLba.toNat ≤ totalSectors32.toNat
  root_two_le : 2 ≤ g.rootDirFirstCluster.toNat
  root_lt : g.rootDirFirstCluster.toNat < g.totalClusters.toNat + 2
  room : g.totalClusters.toNat + 2 ≤ 128 * g.boot.fatSize32.toNat

/-- `fat32_mount` does not divide by zero, and fails or leaves a valid geometry. -/
def MountValidates (s : Fat32State) : Prop :=
  ∃ r s', fat32Mount s = some (r, s') ∧
    (r = -1 ∨ ValidGeometry (bootRecordAt (s.ata.sector 0)).totalSectors32 s'.gFs)

variable {b : BootRecord} {s : Fat32State} {hint : UInt32}

/-! ## The layout in exact arithmetic -/

theorem bootRecordAt_congr {buffer buffer' : Bytes} (agree : ∀ k < 90, buffer k = buffer' k) :
    bootRecordAt buffer = bootRecordAt buffer' := by
  have half (k : Nat) (small : k + 2 ≤ 90) : load16 buffer k = load16 buffer' k :=
    load16_congr fun j bound => agree (k + j) (by omega)
  have word (k : Nat) (small : k + 4 ≤ 90) : load32 buffer k = load32 buffer' k :=
    load32_congr fun j bound => agree (k + j) (by omega)
  simp only [bootRecordAt, agree 13 (by omega), agree 16 (by omega), half 11 (by omega), half 14 (by omega),
    half 48 (by omega), word 32 (by omega), word 36 (by omega), word 44 (by omega)]

theorem bootRecordAt_copy (buffer sector : Bytes) :
    bootRecordAt (copy buffer 0 sector 512) = bootRecordAt sector :=
  bootRecordAt_congr fun _ small => copy_inside (Nat.zero_le _) (by omega)

/-- The sum for `cluster_begin_lba`, modulo the width of the variable. -/
theorem BootRecord.layout_data_begin (b : BootRecord) (hint : UInt32) :
    (b.layout hint).clusterBeginLba.toNat = b.dataBegin % 4294967296 := by
  simp only [BootRecord.layout, BootRecord.dataBegin, UInt32.toNat_add, UInt32.toNat_mul, UInt16.toNat_toUInt32,
    UInt8.toNat_toUInt32]
  omega

theorem BootRecord.layout_clusters (areas : b.dataBegin ≤ b.totalSectors32.toNat) (hint : UInt32) :
    (b.layout hint).clusterBeginLba.toNat = b.dataBegin ∧ (b.layout hint).totalClusters.toNat = b.clusters := by
  have width := b.totalSectors32.toNat_lt
  have begins : (b.layout hint).clusterBeginLba.toNat = b.dataBegin := by
    rw [BootRecord.layout_data_begin, Nat.mod_eq_of_lt (by omega)]
  refine ⟨begins, ?_⟩
  have below : (b.layout hint).clusterBeginLba ≤ b.totalSectors32 := by
    rw [UInt32.le_iff_toNat_le, begins]
    exact areas
  have total : (b.layout hint).totalClusters =
      (b.totalSectors32 - (b.layout hint).clusterBeginLba) / b.sectorsPerCluster.toUInt32 := rfl
  rw [total, UInt32.toNat_div, UInt32.toNat_sub_of_le _ _ below, begins, UInt8.toNat_toUInt32, BootRecord.clusters]

/-- The layout is valid exactly if the header describes a volume. -/
theorem BootRecord.layout_valid_iff (root : 2 ≤ b.rootCluster) (hint : UInt32) :
    ValidGeometry b.totalSectors32 (b.layout hint) ↔ b.Consistent := by
  have spc : (b.layout hint).sectorsPerCluster.toNat = b.sectorsPerCluster.toNat := UInt8.toNat_toUInt32 _
  have fatBegin : (b.layout hint).fatBeginLba.toNat = b.reservedSectors.toNat := UInt16.toNat_toUInt32 _
  constructor
  · intro valid
    -- the sum did not wrap, so it is the exact one
    have exact_begin := valid.data_begin
    rw [fatBegin] at exact_begin
    have areas : b.dataBegin ≤ b.totalSectors32.toNat := exact_begin.symm.le.trans valid.data_sectors
    have total := (b.layout_clusters areas hint).2
    have rootLt := valid.root_lt
    have room := valid.room
    rw [total] at rootLt room
    exact ⟨spc ▸ valid.sectors_pos, spc ▸ valid.sectors_le, valid.fats_pos, areas, rootLt, room⟩
  · intro consistent
    obtain ⟨begins, total⟩ := b.layout_clusters consistent.areas hint
    refine ⟨spc ▸ consistent.sectors_pos, spc ▸ consistent.sectors_le, consistent.fats_pos, ?_, ?_,
      UInt32.le_iff_toNat_le.mp root, ?_, ?_⟩
    · rw [begins, fatBegin]
      rfl
    · rw [begins]
      exact consistent.areas
    · rw [total]
      exact consistent.root
    · rw [total]
      exact consistent.room

/-- The clusters lie on the volume. -/
theorem BootRecord.Consistent.data_fits (consistent : b.Consistent) :
    b.dataBegin + b.clusters * b.sectorsPerCluster.toNat ≤ b.totalSectors32.toNat := by
  have whole := Nat.div_mul_le_self (b.totalSectors32.toNat - b.dataBegin) b.sectorsPerCluster.toNat
  have areas := consistent.areas
  simp only [BootRecord.clusters]
  omega

/-- A volume that lies on the drive gets the geometry that the other calls rely on. -/
theorem BootRecord.Consistent.geometry (consistent : b.Consistent) (onDrive : b.totalSectors32.toNat ≤ 268435456)
    (hint : UInt32) : Geometry (b.layout hint) := by
  obtain ⟨begins, total⟩ := b.layout_clusters consistent.areas hint
  have spc : (b.layout hint).sectorsPerCluster.toNat = b.sectorsPerCluster.toNat := UInt8.toNat_toUInt32 _
  have fatBegin : (b.layout hint).fatBeginLba.toNat = b.reservedSectors.toNat := UInt16.toNat_toUInt32 _
  refine ⟨spc ▸ consistent.sectors_pos, spc ▸ consistent.sectors_le, rfl, consistent.fats_pos, ?_, ?_, ?_⟩
  · rw [total, Nat.mul_comm]
    exact consistent.room
  · rw [begins, fatBegin]
    rfl
  · rw [begins, total, spc]
    exact consistent.data_fits.trans onDrive

/-! ## `fat32_mount` -/

theorem ataProgram_zero : (ataProgram 0).sector = 0 := by
  rw [ataProgram_sector]
  rfl

/-- A sector that was read is in the buffer. -/
theorem Fat32State.readSectorBuffer_done {t : Fat32State} {lba : UInt32}
    (done : s.readSectorBuffer lba = (.ok, t)) :
    s.Answers s.ata.command ∧ t = { s with
      ata.command := s.ata.command + 1
      sectorBuffer := copy s.sectorBuffer 0 (s.ata.sector (ataProgram lba).sector) 512 } := by
  by_cases answers : s.Answers s.ata.command
  · rw [Fat32State.readSectorBuffer_answers answers] at done
    cases done
    exact ⟨answers, rfl⟩
  · obtain ⟨err, notOk, fails⟩ := Fat32State.readSectorBuffer_fails answers lba
    rw [fails] at done
    cases done
    exact absurd rfl notOk

theorem fat32Mount_rejects (rejected : ¬ s.MountAccepts) : ∃ s', fat32Mount s = some (-1, s') := by
  rw [fat32Mount]
  split
  · rename_i s₁ read₁
    obtain ⟨first, rfl⟩ := Fat32State.readSectorBuffer_done read₁
    simp only [ataProgram_zero, bootRecordAt_copy]
    split
    · exact ⟨_, rfl⟩
    · rename_i sectorSize
      split
      · rename_i s₂ read₂
        have second := (Fat32State.readSectorBuffer_done read₂).1
        have small : (bootRecordAt (s.ata.sector 0)).rootCluster < 2 := by
          by_contra large
          have whole : (bootRecordAt (s.ata.sector 0)).bytesPerSector = 512 :=
            UInt16.toUInt32_inj.mp (not_not.mp sectorSize)
          exact rejected ⟨first, second, whole, UInt32.not_lt.mp large⟩
        rw [if_pos small]
        exact ⟨_, rfl⟩
      · exact ⟨_, rfl⟩
  · exact ⟨_, rfl⟩

/-- A header that is accepted decides the layout; without sectors in a cluster there is none. -/
theorem fat32Mount_accepts (accepts : s.MountAccepts) :
    fat32Mount s = if (bootRecordAt (s.ata.sector 0)).sectorsPerCluster = 0 then none
      else some (0, { s with
        ata.command := s.ata.command + 1 + 1
        sectorBuffer := copy (copy s.sectorBuffer 0 (s.ata.sector 0) 512) 0
          (s.ata.sector (bootRecordAt (s.ata.sector 0)).fsInfo.toNat) 512
        gFs := (bootRecordAt (s.ata.sector 0)).layout
          (load32 (s.ata.sector (bootRecordAt (s.ata.sector 0)).fsInfo.toNat) 492) }) := by
  obtain ⟨first, second, whole, root⟩ := accepts
  have sectorSize : (bootRecordAt (s.ata.sector 0)).bytesPerSector.toUInt32 = fat32SectorSize := by
    rw [whole]
    rfl
  have address : (ataProgram (bootRecordAt (s.ata.sector 0)).fsInfo.toUInt32).sector =
      (bootRecordAt (s.ata.sector 0)).fsInfo.toNat := by
    have small := (bootRecordAt (s.ata.sector 0)).fsInfo.toNat_lt
    rw [ataProgram_sector, UInt16.toNat_toUInt32, Nat.mod_eq_of_lt (by omega)]
  have second' : s.ata.outcome (s.ata.command + 1) = .ok := second
  have hint (buffer : Bytes) (n : Nat) :
      load32 (copy buffer 0 (s.ata.sector n) 512) 492 = load32 (s.ata.sector n) 492 :=
    load32_congr fun k small => copy_inside (Nat.zero_le _) (by omega)
  rw [fat32Mount, Fat32State.readSectorBuffer_answers first, ataProgram_zero]
  simp only [bootRecordAt_copy, sectorSize, ne_eq, not_true_eq_false, if_false, Fat32State.readSectorBuffer,
    ataReadSector, second', address, hint, if_neg (UInt32.not_lt.mpr root)]
  rfl

/-- **When mounting validates the volume.**  `fat32_mount` fails or leaves a valid geometry, without
a division by zero, exactly if each header that passes its checks describes a volume. -/
theorem mount_validates_iff (s : Fat32State) :
    MountValidates s ↔ (s.MountAccepts → (bootRecordAt (s.ata.sector 0)).Consistent) := by
  constructor
  · rintro ⟨r, s', run, outcome⟩ accepts
    rw [fat32Mount_accepts accepts] at run
    split at run
    · cases run
    · cases run
      have valid := outcome.resolve_left (by decide)
      exact (BootRecord.layout_valid_iff accepts.2.2.2 _).mp valid
  · intro described
    by_cases accepts : s.MountAccepts
    · have consistent := described accepts
      have sectors : (bootRecordAt (s.ata.sector 0)).sectorsPerCluster ≠ 0 := by
        intro none
        have pos := consistent.sectors_pos
        rw [none] at pos
        exact absurd pos (by decide)
      refine ⟨0, _, (fat32Mount_accepts accepts).trans (if_neg sectors), Or.inr ?_⟩
      exact (BootRecord.layout_valid_iff accepts.2.2.2 _).mpr consistent
    · obtain ⟨s', run⟩ := fat32Mount_rejects accepts
      exact ⟨-1, s', run, Or.inl rfl⟩

/-- The boot sector of `bootBytes` with another number of sectors in a cluster. -/
def clusterSizeState (sectorsPerCluster : UInt8) : Fat32State :=
  mountedOn smallFs fun n => if n = 0 then Function.update (bootBytes 2) 13 sectorsPerCluster else fun _ => 0

/-- No sectors in a cluster: the mount divides by zero.  255 sectors: it succeeds, and clusters are
larger than `cluster_buffer`. -/
theorem mount_trusts_header :
    (fat32Mount (clusterSizeState 0) = none ∧ ¬ MountValidates (clusterSizeState 0)) ∧
    ∃ s', fat32Mount (clusterSizeState 255) = some (0, s') ∧ 128 * 512 < s'.gFs.bytesPerCluster.toNat := by
  have accepts (sectorsPerCluster : UInt8) : (clusterSizeState sectorsPerCluster).MountAccepts := by
    have root : (bootRecordAt ((clusterSizeState sectorsPerCluster).ata.sector 0)).rootCluster = 2 := rfl
    exact ⟨rfl, rfl, rfl, UInt32.le_of_eq root.symm⟩
  have divides : fat32Mount (clusterSizeState 0) = none := by
    rw [fat32Mount_accepts (accepts 0)]
    rfl
  refine ⟨⟨divides, ?_⟩, _, (fat32Mount_accepts (accepts 255)).trans (if_neg (by decide)), by decide⟩
  rintro ⟨r, s', run, -⟩
  rw [divides] at run
  cases run

end QuantumKernel.Fat32
