import QuantumKernel.Fat32.Accesses
import QuantumKernel.Fat32.Faults
import QuantumKernel.Fat32.Sessions

/-! # What the driver writes, and where

Two properties that no call can break.  The sectors outside of the FAT copies and of the data area
keep their contents, so the header of the volume, the FSInfo sector and whatever else lies on the
drive survive every run, with failing commands too.  And the copies of the FAT stay equal byte by
byte as long as the drive answers.
-/

namespace QuantumKernel.Fat32

open ByteStore Transition

/-- The sectors of the FAT copies and of the data area. -/
def Fat32Fs.Owns (g : Fat32Fs) (n : Nat) : Prop :=
  g.fatBeginLba.toNat ≤ n ∧ n < g.clusterBeginLba.toNat + g.totalClusters.toNat * g.sectorsPerCluster.toNat

instance (g : Fat32Fs) (n : Nat) : Decidable (g.Owns n) := inferInstanceAs (Decidable (_ ∧ _))

/-- The geometry is still `g`, and outside of the volume the drive is still `disk`. -/
structure Confined (g : Fat32Fs) (disk : Nat → Bytes) (s : Fat32State) : Prop where
  gFs : s.gFs = { g with fsinfo := s.gFs.fsinfo }
  outside : ∀ n, ¬ g.Owns n → s.ata.sector n = disk n

/-- All copies of the FAT have the same bytes. -/
def Mirrored (g : Fat32Fs) (sector : Nat → Bytes) : Prop :=
  ∀ i < g.numFats.toNat, ∀ row < g.boot.fatSize32.toNat, ∀ k < 512,
    sector (g.fatBeginLba.toNat + i * g.boot.fatSize32.toNat + row) k = sector (g.fatBeginLba.toNat + row) k

/-- The drive answers, and the copies of its FAT agree. -/
structure Mirroring (g : Fat32Fs) (s : Fat32State) : Prop where
  gFs : s.gFs = { g with fsinfo := s.gFs.fsinfo }
  outcome : ∀ n, s.ata.outcome n = .ok
  copies : Mirrored g s.ata.sector

variable {g : Fat32Fs} {disk sector : Nat → Bytes} {s s' : Fat32State} {cluster lba value : UInt32} {n : Nat}
  {d d' : Driver} {calls : List (DriverCall × DriverReply)} {fuel : Nat}

/-! ## Reads -/

/-- A FAT entry that is read changes no sector, also where the drive fails. -/
theorem fat32ReadFat_idle (s : Fat32State) (cluster : UInt32) :
    (fat32ReadFat s cluster).2.gFs = s.gFs ∧ (fat32ReadFat s cluster).2.ata.sector = s.ata.sector ∧
      (fat32ReadFat s cluster).2.ata.outcome = s.ata.outcome := by
  rw [fat32ReadFat]
  split
  · exact ⟨rfl, rfl, rfl⟩
  · by_cases answers : s.Answers s.ata.command
    · rw [Fat32State.readSectorBuffer_answers answers]
      exact ⟨rfl, rfl, rfl⟩
    · obtain ⟨err, notOk, fails⟩ := Fat32State.readSectorBuffer_fails answers
        (s.gFs.fatBeginLba + cluster * 4 / fat32SectorSize)
      rw [fails]
      cases err with
      | ok => exact absurd rfl notOk
      | _ => exact ⟨rfl, rfl, rfl⟩

theorem fat32ReadSectors_idle (lba : UInt32) (remaining : Nat) (i : UInt32) (s : Fat32State) :
    (fat32ReadSectors lba remaining i s).2.gFs = s.gFs ∧
      (fat32ReadSectors lba remaining i s).2.ata.sector = s.ata.sector ∧
      (fat32ReadSectors lba remaining i s).2.ata.outcome = s.ata.outcome := by
  induction remaining generalizing i s with
  | zero => exact ⟨rfl, rfl, rfl⟩
  | succ remaining ih =>
    rw [fat32ReadSectors]
    cases answer : s.ata.outcome s.ata.command with
    | ok =>
      simp only [ataReadSector, answer, if_true]
      exact ih _ _
    | _ => simp [ataReadSector, answer]

theorem fat32ReadCluster_idle (s : Fat32State) (cluster : UInt32) :
    (fat32ReadCluster s cluster).2.gFs = s.gFs ∧ (fat32ReadCluster s cluster).2.ata.sector = s.ata.sector ∧
      (fat32ReadCluster s cluster).2.ata.outcome = s.ata.outcome := by
  rw [fat32ReadCluster]
  split
  · exact ⟨rfl, rfl, rfl⟩
  · exact fat32ReadSectors_idle _ _ _ _

/-! ## Writes -/

theorem FatGeometry.owns_fat (geo : Geometry g) {i : Nat} {c : UInt32} (copy : i < g.numFats.toNat)
    (inRange : g.InRange c) : g.Owns (g.fatSector i c) := by
  have below := (geo.fatSector_lt copy inRange).2
  have start : g.fatBeginLba.toNat ≤ g.fatSector i c := by
    rw [Fat32Fs.fatSector, Nat.add_assoc]
    exact Nat.le_add_right _ _
  exact ⟨start, by omega⟩

theorem Geometry.owns_data (geo : Geometry g) {i : Nat} {c : UInt32} (inRange : g.InRange c)
    (bound : i < g.sectorsPerCluster.toNat) : g.Owns (g.dataSector c + i) := by
  have inside := Fat32Fs.dataSector_le inRange
  have begins := geo.data_begin
  have start : g.clusterBeginLba.toNat ≤ g.dataSector c := Nat.le_add_right _ _
  exact ⟨by omega, by omega⟩

/-- Each round of `fat32_write_fat` stores into its own copy of the FAT, or into nothing. -/
theorem Confined.writeFatCopies (geo : Geometry g) (inRange : g.InRange cluster) (remaining : Nat) (i : UInt8)
    (count : i.toNat + remaining = g.numFats.toNat) (confined : Confined g disk s) :
    Confined g disk (fat32WriteFatCopies cluster value remaining i s).2 := by
  induction remaining generalizing i s with
  | zero => exact confined
  | succ remaining ih =>
    have copy : i.toNat < g.numFats.toNat := by omega
    have sameSector : fat32FatSector s.gFs i cluster = fat32FatSector g i cluster := by
      rw [fat32FatSector, confined.gFs, fat32FatSector]
    have address : (ataProgram (fat32FatSector g i cluster)).sector = g.fatSector i.toNat cluster := by
      have below := geo.fats.fatSector_lt_drive copy inRange
      rw [ataProgram_sector, geo.fat32FatSector_toNat copy inRange, Nat.mod_eq_of_lt below]
    have next : (i + 1).toNat = i.toNat + 1 := by
      have small := g.numFats.toNat_lt
      rw [UInt8.toNat_add, show (1 : UInt8).toNat = 1 from rfl]
      omega
    rw [fat32WriteFatCopies]
    cases first : s.ata.outcome s.ata.command with
    | ok =>
      simp only [Fat32State.readSectorBuffer, ataReadSector, first, sameSector, address]
      cases second : s.ata.outcome (s.ata.command + 1) with
      | ok =>
        simp only [Fat32State.writeSectorBuffer, ataWriteSector, second, address]
        refine ih (i + 1) (by omega) ⟨confined.gFs, fun n foreign => ?_⟩
        refine (Function.update_of_ne ?_ _ _).trans (confined.outside n foreign)
        rintro rfl
        exact foreign (FatGeometry.owns_fat geo copy inRange)
      | _ =>
        simp only [Fat32State.writeSectorBuffer, ataWriteSector, second]
        exact ⟨confined.gFs, confined.outside⟩
    | _ =>
      simp only [Fat32State.readSectorBuffer, ataReadSector, first]
      exact ⟨confined.gFs, confined.outside⟩

/-- Each round of `fat32_write_cluster` stores into its sector of the cluster, or into nothing. -/
theorem Confined.writeSectors (geo : Geometry g) (inRange : g.InRange cluster)
    (start : lba.toNat = g.dataSector cluster) (remaining : Nat) (i : UInt32)
    (count : i.toNat + remaining = g.sectorsPerCluster.toNat) (confined : Confined g disk s) :
    Confined g disk (fat32WriteSectors lba remaining i s).2 := by
  induction remaining generalizing i s with
  | zero => exact confined
  | succ remaining ih =>
    have fits := geo.data_fits
    have inside := Fat32Fs.dataSector_le inRange
    have small := geo.sectors_le
    have next : (i + 1).toNat = i.toNat + 1 := by
      rw [UInt32.toNat_add, show (1 : UInt32).toNat = 1 from rfl]
      omega
    have address : (ataProgram (lba + i)).sector = g.dataSector cluster + i.toNat := by
      rw [ataProgram_sector, UInt32.toNat_add, start]
      omega
    rw [fat32WriteSectors]
    cases answer : s.ata.outcome s.ata.command with
    | ok =>
      simp only [ataWriteSector, answer, address, if_true]
      refine ih (i + 1) (by omega) ⟨confined.gFs, fun n foreign => ?_⟩
      refine (Function.update_of_ne ?_ _ _).trans (confined.outside n foreign)
      rintro rfl
      exact foreign (geo.owns_data inRange (by omega))
    | _ =>
      simp only [ataWriteSector, answer, reduceCtorEq, if_false]
      exact ⟨confined.gFs, confined.outside⟩

/-- A state with the geometry, seen as one that shows a volume. -/
theorem Confined.onDisk (geo : Geometry g) (confined : Confined g disk s) :
    OnDisk g s.gCurrentDirCluster (Volume.of g s.ata.sector) s :=
  ⟨geo, confined.gFs, rfl, rfl⟩

theorem Confined.writeFat (geo : Geometry g) (confined : Confined g disk s) (cluster value : UInt32) :
    Confined g disk (fat32WriteFat s cluster value).2 := by
  have range := (confined.onDisk geo).stores.readFat_range cluster
  rw [fat32WriteFat]
  split
  · exact confined
  · rename_i valid
    have inRange := not_not.mp fun outside => valid (range.mpr outside)
    have copies : s.gFs.numFats = g.numFats := by rw [confined.gFs]
    exact confined.writeFatCopies geo inRange _ 0 (by rw [copies]; exact Nat.zero_add _)

theorem Confined.writeCluster (geo : Geometry g) (confined : Confined g disk s) (cluster : UInt32) :
    Confined g disk (fat32WriteCluster s cluster).2 := by
  have stores := (confined.onDisk geo).stores
  rw [fat32WriteCluster]
  by_cases inRange : g.InRange cluster
  · have sectors : s.gFs.sectorsPerCluster = g.sectorsPerCluster := by rw [confined.gFs]
    have start : (fat32ClusterToLba s cluster).toNat = g.dataSector cluster := stores.clusterToLba_toNat inRange
    split
    · exact confined
    · exact confined.writeSectors geo inRange start _ 0 (by rw [sectors]; exact Nat.zero_add _)
  · have none : fat32ClusterToLba s cluster = 0 := stores.clusterToLba_eq_zero inRange
    simp only [none, if_true]
    exact confined

/-- What lies outside of the volume is safe from every access. -/
theorem Geometry.confined (geo : Geometry g) (disk : Nat → Bytes) : Upheld (Confined g disk) where
  readFat cluster confined := by
    obtain ⟨gFs, sector, -⟩ := fat32ReadFat_idle _ cluster
    exact ⟨by rw [gFs]; exact confined.gFs, by rw [sector]; exact confined.outside⟩
  readCluster cluster confined := by
    obtain ⟨gFs, sector, -⟩ := fat32ReadCluster_idle _ cluster
    exact ⟨by rw [gFs]; exact confined.gFs, by rw [sector]; exact confined.outside⟩
  writeFat cluster value confined := confined.writeFat geo cluster value
  writeCluster cluster confined := confined.writeCluster geo cluster
  buffer _ confined := ⟨confined.gFs, confined.outside⟩
  hint _ confined := ⟨by rw [confined.gFs], confined.outside⟩
  cwd _ confined := ⟨confined.gFs, confined.outside⟩

/-- **The driver stays on its volume.**  In every run of calls, by whatever callers, over whatever
directories and with whatever failures of the drive, no sector outside of the FAT copies and of the
data area changes, and neither does the geometry. -/
theorem driver_stays_on_volume (geo : Geometry d.dir.fs.gFs)
    (run : Run (Driver.step fuel) (fun _ _ => True) d calls d') :
    (∀ n, ¬ d.dir.fs.gFs.Owns n → d'.dir.fs.ata.sector n = d.dir.fs.ata.sector n) ∧
      d'.dir.fs.gFs = { d.dir.fs.gFs with fsinfo := d'.dir.fs.gFs.fsinfo } := by
  have confined := (geo.confined d.dir.fs.ata.sector).run run ⟨rfl, fun _ _ => rfl⟩
  exact ⟨confined.outside, confined.gFs⟩

theorem letter_nonzero : (0x41 : UInt8) ≠ 0 := by decide

/-- A driver on the blank volume, without a working directory and without open handles. -/
def blankDriver : Driver := ⟨⟨mountedOn smallFs blankDrive, fun _ => letterPath 0x41 letter_nonzero, 0⟩,
  fun _ => Fat32File.zero⟩

/-- A directory is made on a drive that fails at its last command. -/
theorem driver_stays_on_volume_mkdir :
    ∃ calls d', Run (Driver.step 5) (fun _ _ => True)
      { blankDriver with dir.fs.ata.outcome := fun n => if n = 7 then .timeout else .ok } calls d' ∧
      d'.dir.fs.ata.command = 8 ∧ d'.dir.fs.ata.sector 1 12 = 0xFF ∧
      ∀ n, ¬ smallFs.Owns n → d'.dir.fs.ata.sector n = blankDrive n := by
  obtain ⟨calls, d', run, commands, stored⟩ := Run.exists_of_replay (Driver.step 5) (fun _ _ => True)
    { blankDriver with dir.fs.ata.outcome := fun n => if n = 7 then .timeout else .ok }
    [.file (.mkdir (letterPath 0x41 (by decide)))]
    (fun _ d' => d'.dir.fs.ata.command = 8 ∧ d'.dir.fs.ata.sector 1 12 = 0xFF) (by decide +kernel)
  exact ⟨calls, d', run, commands, stored, (driver_stays_on_volume smallFs_geometry run).1⟩

/-! ## The copies of the FAT -/

theorem store32_congr {a b : Bytes} {offset k : Nat} (same : a k = b k) :
    store32 a offset value k = store32 b offset value k := by
  by_cases field : offset ≤ k ∧ k < offset + 4
  · rw [store32, store32, copy_inside field.1 field.2, copy_inside field.1 field.2]
  · rw [store32_outside (by omega), store32_outside (by omega), same]

/-- Every row of a copy lies between the reserved sectors and the data area. -/
theorem Geometry.row_lt (geo : Geometry g) {i row : Nat} (copy : i < g.numFats.toNat)
    (inside : row < g.boot.fatSize32.toNat) :
    g.fatBeginLba.toNat + i * g.boot.fatSize32.toNat + row < g.clusterBeginLba.toNat := by
  have begins := geo.data_begin
  have copies : (i + 1) * g.boot.fatSize32.toNat ≤ g.numFats.toNat * g.boot.fatSize32.toNat :=
    Nat.mul_le_mul_right _ copy
  rw [Nat.succ_mul] at copies
  omega

/-- An entry that is stored in all copies leaves them equal. -/
theorem Mirrored.storeCopies (geo : Geometry g) (inRange : g.InRange cluster) (mirrored : Mirrored g sector) :
    Mirrored g (g.storeCopies cluster value 0 sector) := by
  have rowLt := (geo.fatSector_lt geo.fats_pos inRange).1
  -- the store hits a row in every copy or in none
  have hits (i : Nat) (copy : i < g.numFats.toNat) (row : Nat) (inside : row < g.boot.fatSize32.toNat) :
      (∃ j < g.numFats.toNat, 0 ≤ j ∧
        g.fatBeginLba.toNat + i * g.boot.fatSize32.toNat + row = g.fatSector j cluster) ↔
        row = cluster.toNat / 128 := by
    constructor
    · rintro ⟨j, -, -, same⟩
      rw [Fat32Fs.fatSector] at same
      obtain below | equal | above := Nat.lt_trichotomy i j
      · have rows : (i + 1) * g.boot.fatSize32.toNat ≤ j * g.boot.fatSize32.toNat := Nat.mul_le_mul_right _ below
        rw [Nat.succ_mul] at rows
        omega
      · subst equal
        omega
      · have rows : (j + 1) * g.boot.fatSize32.toNat ≤ i * g.boot.fatSize32.toNat := Nat.mul_le_mul_right _ above
        rw [Nat.succ_mul] at rows
        omega
    · rintro rfl
      exact ⟨i, copy, Nat.zero_le i, rfl⟩
  intro i copy row inside k bound
  have first := hits 0 geo.fats_pos row inside
  rw [Nat.zero_mul, Nat.add_zero] at first
  simp only [Fat32Fs.storeCopies, hits i copy row inside, first]
  split
  · exact store32_congr (mirrored i copy row inside k bound)
  · exact mirrored i copy row inside k bound

/-- As long as the drive answers, the accesses keep the copies of the FAT equal. -/
theorem Geometry.mirroring (geo : Geometry g) : Upheld (Mirroring g) where
  readFat cluster holds := by
    obtain ⟨gFs, sector, outcome⟩ := fat32ReadFat_idle _ cluster
    exact ⟨by rw [gFs]; exact holds.gFs, by rw [outcome]; exact holds.outcome, by rw [sector]; exact holds.copies⟩
  readCluster cluster holds := by
    obtain ⟨gFs, sector, outcome⟩ := fat32ReadCluster_idle _ cluster
    exact ⟨by rw [gFs]; exact holds.gFs, by rw [outcome]; exact holds.outcome, by rw [sector]; exact holds.copies⟩
  writeFat {s} cluster value holds := by
    have mounted : FatMounted g s := ⟨geo.fats, holds.gFs, holds.outcome⟩
    by_cases inRange : g.InRange cluster
    · obtain ⟨s', run, moved⟩ := mounted.writeFat inRange value
      rw [run]
      exact ⟨by rw [moved.gFs]; exact holds.gFs, by rw [moved.outcome]; exact holds.outcome,
        by rw [moved.sector]; exact holds.copies.storeCopies geo inRange⟩
    · rw [fat32WriteFat, if_pos ((mounted.readFat_range cluster).mpr inRange)]
      exact holds
  writeCluster {s} cluster holds := by
    have stores : Stores g s.gCurrentDirCluster (Volume.of g s.ata.sector) s :=
      ⟨geo, holds.gFs, rfl, holds.outcome, rfl⟩
    by_cases inRange : g.InRange cluster
    · obtain ⟨s', run, stores', fats⟩ := fat32WriteCluster_spec stores inRange
      rw [run]
      refine ⟨stores'.gFs, stores'.outcome, fun i copy row inside k bound => ?_⟩
      have first := geo.row_lt geo.fats_pos inside
      rw [Nat.zero_mul, Nat.add_zero] at first
      rw [fats _ (geo.row_lt copy inside), fats _ first]
      exact holds.copies i copy row inside k bound
    · have none := stores.clusterToLba_eq_zero inRange
      simp only [fat32WriteCluster, none, if_true]
      exact holds
  buffer _ holds := ⟨holds.gFs, holds.outcome, holds.copies⟩
  hint _ holds := ⟨by rw [holds.gFs], holds.outcome, holds.copies⟩
  cwd _ holds := ⟨holds.gFs, holds.outcome, holds.copies⟩

/-- **The copies of the FAT stay equal.**  If they are equal when the volume is mounted, they are
after every run of calls on a drive that answers. -/
theorem fat_copies_stay_equal (geo : Geometry d.dir.fs.gFs) (answers : d.dir.fs.Reliable)
    (mirrored : Mirrored d.dir.fs.gFs d.dir.fs.ata.sector)
    (run : Run (Driver.step fuel) (fun _ _ => True) d calls d') :
    Mirrored d.dir.fs.gFs d'.dir.fs.ata.sector :=
  (geo.mirroring.run run ⟨rfl, answers, mirrored⟩).copies

theorem fat_copies_stay_equal_mkdir :
    ∃ calls d', Run (Driver.step 5) (fun _ _ => True) blankDriver calls d' ∧
      d'.dir.fs.ata.sector 2 12 = 0xFF ∧ Mirrored smallFs d'.dir.fs.ata.sector := by
  obtain ⟨calls, d', run, stored⟩ := Run.exists_of_replay (Driver.step 5) (fun _ _ => True) blankDriver
    [.file (.mkdir (letterPath 0x41 (by decide)))]
    (fun _ d' => d'.dir.fs.ata.sector 2 12 = 0xFF) (by decide +kernel)
  have mirrored : Mirrored smallFs blankDrive := by
    intro i copy row inside k bound
    have first : row = 0 := Nat.lt_one_iff.mp inside
    have second : i < 2 := copy
    subst first
    interval_cases i <;> rfl
  exact ⟨calls, d', run, stored, fat_copies_stay_equal smallFs_geometry (fun _ => rfl) mirrored run⟩

end QuantumKernel.Fat32
