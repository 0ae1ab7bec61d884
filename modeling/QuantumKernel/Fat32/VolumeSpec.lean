import QuantumKernel.Fat32.Volume

/-! # Specifications of the FAT and cluster functions

Every function of `Fat.lean`, run on a state that stores a volume without drive
errors, returns what the volume says and stores the edited volume.
-/

namespace QuantumKernel.Fat32

open ByteStore

variable {g : Fat32Fs} {cwd : UInt32} {v : Volume} {s : Fat32State}

/-! ## The drive -/

theorem ataReadSector_ok {ata : AtaDrive} (ok : ∀ n, ata.outcome n = .ok) (lba : UInt32)
    (buffer : Bytes) :
    ataReadSector ata lba buffer =
      (.ok, copy buffer 0 (ata.sector (lba.toNat % 268435456)) 512,
        { ata with command := ata.command + 1 }) := by
  simp only [ataReadSector, ok, ataProgram_sector]

theorem ataWriteSector_ok {ata : AtaDrive} (ok : ∀ n, ata.outcome n = .ok) (lba : UInt32)
    (buffer : Bytes) :
    ataWriteSector ata lba buffer =
      (.ok, { ata with
        sector := Function.update ata.sector (lba.toNat % 268435456)
          (copy (ata.sector (lba.toNat % 268435456)) 0 buffer 512)
        command := ata.command + 1 }) := by
  simp only [ataWriteSector, ok, ataProgram_sector]

theorem Fat32State.readSectorBuffer_ok (ok : ∀ n, s.ata.outcome n = .ok) {lba : UInt32} {n : Nat}
    (address : lba.toNat = n) (bound : n < 268435456) :
    s.readSectorBuffer lba = (.ok, { s with
      ata.command := s.ata.command + 1
      sectorBuffer := copy s.sectorBuffer 0 (s.ata.sector n) 512 }) := by
  simp only [Fat32State.readSectorBuffer, ataReadSector_ok ok, address, Nat.mod_eq_of_lt bound]

theorem Fat32State.writeSectorBuffer_ok (ok : ∀ n, s.ata.outcome n = .ok) {lba : UInt32} {n : Nat}
    (address : lba.toNat = n) (bound : n < 268435456) :
    s.writeSectorBuffer lba = (.ok, { s with
      ata.command := s.ata.command + 1
      ata.sector := Function.update s.ata.sector n (copy (s.ata.sector n) 0 s.sectorBuffer 512) }) := by
  simp only [Fat32State.writeSectorBuffer, ataWriteSector_ok ok, address, Nat.mod_eq_of_lt bound]

/-- The driver is mounted with a FAT in order, and its drive does not fail. -/
structure FatMounted (g : Fat32Fs) (s : Fat32State) : Prop where
  geometry : FatGeometry g
  gFs : s.gFs = { g with fsinfo := s.gFs.fsinfo }
  outcome : ∀ n, s.ata.outcome n = .ok

/-- Only buffers and the command counter differ, and the sectors are these. -/
structure Moved (s s' : Fat32State) (sector : Nat → Bytes) : Prop where
  gFs : s'.gFs = s.gFs
  current : s'.gCurrentDirCluster = s.gCurrentDirCluster
  outcome : s'.ata.outcome = s.ata.outcome
  buffer : s'.clusterBuffer = s.clusterBuffer
  sector : s'.ata.sector = sector

theorem FatMounted.of_geometry (geo : FatGeometry s.gFs) (ok : ∀ n, s.ata.outcome n = .ok) :
    FatMounted s.gFs s := ⟨geo, rfl, ok⟩

theorem FatMounted.moved {s' : Fat32State} {sector : Nat → Bytes} (h : FatMounted g s)
    (moved : Moved s s' sector) : FatMounted g s' :=
  ⟨h.geometry, by rw [moved.gFs, h.gFs], by rw [moved.outcome]; exact h.outcome⟩

theorem Stores.fatMounted (h : Stores g cwd v s) : FatMounted g s := ⟨h.geometry.fats, h.gFs, h.outcome⟩

theorem Stores.of_geometry (geo : Geometry s.gFs) (ok : ∀ n, s.ata.outcome n = .ok) :
    Stores s.gFs s.gCurrentDirCluster (Volume.of s.gFs s.ata.sector) s :=
  ⟨geo, rfl, rfl, ok, rfl⟩

theorem Stores.field_total (h : Stores g cwd v s) : s.gFs.totalClusters = g.totalClusters := by
  rw [h.gFs]

theorem Stores.field_bytes (h : Stores g cwd v s) : s.gFs.bytesPerCluster = g.bytesPerCluster := by
  rw [h.gFs]

theorem Stores.field_sectors (h : Stores g cwd v s) :
    s.gFs.sectorsPerCluster = g.sectorsPerCluster := by
  rw [h.gFs]

theorem FatMounted.fatSector_eq (h : FatMounted g s) (i : UInt8) (c : UInt32) :
    fat32FatSector s.gFs i c = fat32FatSector g i c := by
  rw [fat32FatSector, h.gFs, fat32FatSector]

theorem Stores.fatSector_eq (h : Stores g cwd v s) (i : UInt8) (c : UInt32) :
    fat32FatSector s.gFs i c = fat32FatSector g i c := h.fatMounted.fatSector_eq i c

/-- Buffers, the command counter and the allocation hint are not part of the volume. -/
theorem Stores.scratch {s' : Fat32State} (h : Stores g cwd v s)
    (gFs : s'.gFs = { s.gFs with fsinfo := s'.gFs.fsinfo })
    (current : s'.gCurrentDirCluster = s.gCurrentDirCluster)
    (outcome : s'.ata.outcome = s.ata.outcome) (sector : s'.ata.sector = s.ata.sector) :
    Stores g cwd v s' where
  geometry := h.geometry
  gFs := by rw [gFs, h.gFs]
  current := current.trans h.current
  outcome := by rw [outcome]; exact h.outcome
  volume := by rw [sector]; exact h.volume

theorem Stores.withBuffer (h : Stores g cwd v s) (buffer : Bytes) :
    Stores g cwd v { s with clusterBuffer := buffer } :=
  h.scratch rfl rfl rfl rfl

/-! ## `fat32_read_fat` -/

theorem FatMounted.readFat_range (h : FatMounted g s) (c : UInt32) :
    (c < 2 ∨ s.gFs.totalClusters + 2 ≤ c) ↔ ¬ g.InRange c := by
  rw [h.gFs]
  exact h.geometry.not_inRange_iff c

theorem FatMounted.readFat (h : FatMounted g s) (c : UInt32) :
    ∃ s', fat32ReadFat s c = ((Volume.of g s.ata.sector).fat c, s') ∧ Moved s s' s.ata.sector := by
  by_cases inRange : g.InRange c
  · have valid : ¬ (c < 2 ∨ s.gFs.totalClusters + 2 ≤ c) := by
      rw [h.readFat_range c]; exact not_not.mpr inRange
    have first : (0 : UInt8).toNat < g.numFats.toNat := h.geometry.fats_pos
    have zeroth : s.gFs.fatBeginLba + c * 4 / fat32SectorSize = fat32FatSector s.gFs 0 c := by
      simp [fat32FatSector]
    have address := h.geometry.fat32FatSector_toNat first inRange
    have bound := h.geometry.fatSector_lt_drive first inRange
    have offset := h.geometry.fat32EntryOffset_toNat inRange
    have inSector : c.toNat % 128 * 4 + 4 ≤ 512 := by omega
    rw [fat32ReadFat, if_neg valid, zeroth, h.fatSector_eq,
      Fat32State.readSectorBuffer_ok h.outcome address bound]
    refine ⟨_, Prod.ext ?_ rfl, ⟨rfl, rfl, rfl, rfl, rfl⟩⟩
    simp only [Volume.of, if_pos inRange, offset]
    refine congrArg (· &&& 0x0FFFFFFF) (load32_congr fun k bound => ?_)
    exact copy_inside (by omega) (by omega)
  · have invalid : c < 2 ∨ s.gFs.totalClusters + 2 ≤ c := (h.readFat_range c).mpr inRange
    refine ⟨s, ?_, ⟨rfl, rfl, rfl, rfl, rfl⟩⟩
    simp only [fat32ReadFat, if_pos invalid, Volume.of, if_neg inRange]

theorem Stores.readFat_range (h : Stores g cwd v s) (c : UInt32) :
    (c < 2 ∨ s.gFs.totalClusters + 2 ≤ c) ↔ ¬ g.InRange c := h.fatMounted.readFat_range c

theorem fat32ReadFat_spec (h : Stores g cwd v s) (c : UInt32) :
    ∃ s', fat32ReadFat s c = (v.fat c, s') ∧ Stores g cwd v s' ∧
      s'.clusterBuffer = s.clusterBuffer := by
  obtain ⟨s', run, moved⟩ := h.fatMounted.readFat c
  rw [h.volume] at run
  exact ⟨s', run, h.scratch (by rw [moved.gFs]) moved.current moved.outcome moved.sector, moved.buffer⟩

/-! ## `fat32_write_fat` -/

/-- The sectors after storing `value` for `c` in the FAT copies from `i` on. -/
def Fat32Fs.storeCopies (g : Fat32Fs) (c value : UInt32) (i : Nat) (sector : Nat → Bytes) :
    Nat → Bytes := fun n =>
  if ∃ j < g.numFats.toNat, i ≤ j ∧ n = g.fatSector j c then
    store32 (sector n) (c.toNat % 128 * 4) value
  else sector n

theorem Fat32Fs.fatSector_inj {i j : Nat} {c d : UInt32} (rowC : c.toNat / 128 < g.boot.fatSize32.toNat)
    (rowD : d.toNat / 128 < g.boot.fatSize32.toNat) (same : g.fatSector i c = g.fatSector j d) :
    i = j ∧ c.toNat / 128 = d.toNat / 128 := by
  simp only [Fat32Fs.fatSector] at same
  have order : i = j := by
    rcases Nat.lt_trichotomy i j with below | equal | above
    · have rows : (i + 1) * g.boot.fatSize32.toNat ≤ j * g.boot.fatSize32.toNat :=
        Nat.mul_le_mul_right _ below
      rw [Nat.succ_mul] at rows
      omega
    · exact equal
    · have rows : (j + 1) * g.boot.fatSize32.toNat ≤ i * g.boot.fatSize32.toNat :=
        Nat.mul_le_mul_right _ above
      rw [Nat.succ_mul] at rows
      omega
  subst order
  exact ⟨rfl, by omega⟩

/-- One round of the loop writes one copy. -/
theorem storeCopies_step (geo : FatGeometry g) {c value : UInt32} (inRange : g.InRange c) {i : Nat}
    (copy : i < g.numFats.toNat) (sector : Nat → Bytes) :
    g.storeCopies c value (i + 1)
        (Function.update sector (g.fatSector i c)
          (store32 (sector (g.fatSector i c)) (c.toNat % 128 * 4) value)) =
      g.storeCopies c value i sector := by
  have row := (geo.fatSector_lt copy inRange).1
  funext n
  simp only [Fat32Fs.storeCopies]
  by_cases here : n = g.fatSector i c
  · have later : ¬ ∃ j < g.numFats.toNat, i + 1 ≤ j ∧ n = g.fatSector j c := by
      rintro ⟨j, -, le, same⟩
      have := (Fat32Fs.fatSector_inj row row (here.symm.trans same)).1
      omega
    rw [if_neg later, if_pos ⟨i, copy, le_refl i, here⟩, here, Function.update_self]
  · have iff : (∃ j < g.numFats.toNat, i + 1 ≤ j ∧ n = g.fatSector j c) ↔
        ∃ j < g.numFats.toNat, i ≤ j ∧ n = g.fatSector j c := by
      constructor
      · rintro ⟨j, bound, le, same⟩
        exact ⟨j, bound, by omega, same⟩
      · rintro ⟨j, bound, le, same⟩
        refine ⟨j, bound, ?_, same⟩
        rcases Nat.eq_or_lt_of_le le with rfl | lt
        · exact absurd same here
        · exact lt
    simp only [iff, Function.update_of_ne here]

theorem store32_copy {sector buffer : Bytes} {offset : Nat} {value : UInt32}
    (inSector : offset + 4 ≤ 512) :
    copy sector 0 (store32 (copy buffer 0 sector 512) offset value) 512 =
      store32 sector offset value := by
  funext k
  by_cases inside : k < 512
  · rw [copy_inside (by omega) (by omega), Nat.sub_zero]
    by_cases field : offset ≤ k ∧ k < offset + 4
    · rw [store32, store32, copy_inside field.1 field.2, copy_inside field.1 field.2]
    · rw [store32_outside (by omega), store32_outside (by omega),
        copy_inside (by omega) (by omega), Nat.sub_zero]
  · rw [copy_outside (by omega), store32_outside (by omega)]

theorem fat32WriteFatCopies_spec {c : UInt32} (inRange : g.InRange c) (value : UInt32)
    (remaining : Nat) (i : UInt8) (count : i.toNat + remaining = g.numFats.toNat)
    (h : FatMounted g s) :
    ∃ s', fat32WriteFatCopies c value remaining i s = (0, s') ∧
      Moved s s' (g.storeCopies c value i.toNat s.ata.sector) := by
  induction remaining generalizing i s with
  | zero =>
    refine ⟨s, rfl, ⟨rfl, rfl, rfl, rfl, ?_⟩⟩
    funext n
    rw [Fat32Fs.storeCopies, if_neg]
    rintro ⟨j, bound, le, -⟩
    omega
  | succ remaining ih =>
    have copyBound : i.toNat < g.numFats.toNat := by omega
    have address := h.geometry.fat32FatSector_toNat copyBound inRange
    have bound := h.geometry.fatSector_lt_drive copyBound inRange
    have offset := h.geometry.fat32EntryOffset_toNat inRange
    have inSector : c.toNat % 128 * 4 + 4 ≤ 512 := by omega
    have numFats := g.numFats.toNat_lt
    have next : (i + 1).toNat = i.toNat + 1 := by
      simp only [UInt8.toNat_add, UInt8.reduceToNat]
      omega
    -- the state after the write to this copy
    have written : FatMounted g
        { s with
          ata := { s.ata with
            sector := Function.update s.ata.sector (g.fatSector i.toNat c)
              (store32 (s.ata.sector (g.fatSector i.toNat c)) (c.toNat % 128 * 4) value)
            command := s.ata.command + 1 + 1 }
          sectorBuffer := store32 (copy s.sectorBuffer 0 (s.ata.sector (g.fatSector i.toNat c)) 512)
            (c.toNat % 128 * 4) value } :=
      ⟨h.geometry, h.gFs, h.outcome⟩
    obtain ⟨s', run, moved⟩ := ih (i + 1) (by omega) written
    refine ⟨s', ?_, ⟨moved.gFs, moved.current, moved.outcome, moved.buffer, ?_⟩⟩
    · rw [fat32WriteFatCopies, h.fatSector_eq,
        Fat32State.readSectorBuffer_ok h.outcome address bound]
      simp only [h.fatSector_eq, offset]
      rw [Fat32State.writeSectorBuffer_ok (by exact h.outcome) address bound]
      simp only [store32_copy inSector]
      exact run
    · rw [moved.sector, next]
      exact storeCopies_step h.geometry inRange copyBound s.ata.sector

theorem FatMounted.writeFat (h : FatMounted g s) {c : UInt32} (inRange : g.InRange c) (value : UInt32) :
    ∃ s', fat32WriteFat s c value = (0, s') ∧
      Moved s s' (g.storeCopies c (value &&& 0x0FFFFFFF) 0 s.ata.sector) := by
  have valid : ¬ (c < 2 ∨ s.gFs.totalClusters + 2 ≤ c) := by
    rw [h.readFat_range c]; exact not_not.mpr inRange
  have numFats : s.gFs.numFats = g.numFats := by rw [h.gFs]
  obtain ⟨s', run, moved⟩ :=
    fat32WriteFatCopies_spec inRange (value &&& 0x0FFFFFFF) g.numFats.toNat 0 (by simp) h
  refine ⟨s', ?_, moved⟩
  rw [fat32WriteFat, if_neg valid, numFats]
  exact run

/-- Storing an entry in every copy changes that entry of the table and no other. -/
theorem fat_of_storeCopies (geo : FatGeometry g) {c : UInt32} (inRange : g.InRange c)
    (value : UInt32) (sector : Nat → Bytes) :
    (Volume.of g (g.storeCopies c value 0 sector)).fat =
      Function.update (Volume.of g sector).fat c (value &&& 0x0FFFFFFF) := by
  have first : 0 < g.numFats.toNat := geo.fats_pos
  have rowC := (geo.fatSector_lt first inRange).1
  funext d
  simp only [Volume.of]
  by_cases rangeD : g.InRange d
  · have rowD := (geo.fatSector_lt first rangeD).1
    by_cases same : d = c
    · subst same
      rw [if_pos rangeD, Function.update_self, Fat32Fs.storeCopies,
        if_pos ⟨0, first, le_refl 0, rfl⟩, load32_store32]
    · rw [if_pos rangeD, Function.update_of_ne same, if_pos rangeD]
      refine congrArg (· &&& 0x0FFFFFFF) (load32_congr fun k bound => ?_)
      simp only [Fat32Fs.storeCopies]
      split
      · rename_i hit
        obtain ⟨j, -, -, equal⟩ := hit
        obtain ⟨-, row⟩ := Fat32Fs.fatSector_inj rowD rowC equal
        have distinct : d.toNat ≠ c.toNat := fun eq => same (UInt32.toNat.inj eq)
        exact store32_outside (by omega)
      · rfl
  · have ne : d ≠ c := fun eq => rangeD (eq ▸ inRange)
    rw [if_neg rangeD, Function.update_of_ne ne, if_neg rangeD]

/-- Storing an entry in every copy changes that entry of the volume and nothing else. -/
theorem Volume.of_storeCopies (geo : Geometry g) {c : UInt32} (inRange : g.InRange c)
    (value : UInt32) (sector : Nat → Bytes) :
    Volume.of g (g.storeCopies c value 0 sector) =
      (Volume.of g sector).setFat c (value &&& 0x0FFFFFFF) := by
  refine Volume.ext (fat_of_storeCopies geo.fats inRange value sector) ?_
  funext d k
  simp only [Volume.of, Volume.setFat]
  split
  · rw [Fat32Fs.storeCopies, if_neg]
    rintro ⟨j, bound, -, equal⟩
    have below := (geo.fatSector_lt bound inRange).2
    have start : g.clusterBeginLba.toNat ≤ g.dataSector d := Nat.le_add_right _ _
    omega
  · rfl

theorem fat32WriteFat_spec (h : Stores g cwd v s) {c : UInt32} (inRange : g.InRange c)
    (value : UInt32) :
    ∃ s', fat32WriteFat s c value = (0, s') ∧
      Stores g cwd (v.setFat c (value &&& 0x0FFFFFFF)) s' ∧
      s'.clusterBuffer = s.clusterBuffer ∧
      s'.ata.sector = g.storeCopies c (value &&& 0x0FFFFFFF) 0 s.ata.sector := by
  obtain ⟨s', run, moved⟩ := h.fatMounted.writeFat inRange value
  refine ⟨s', run, ⟨h.geometry, ?_, moved.current.trans h.current, ?_, ?_⟩, moved.buffer, moved.sector⟩
  · rw [moved.gFs]; exact h.gFs
  · rw [moved.outcome]; exact h.outcome
  · rw [moved.sector, Volume.of_storeCopies h.geometry inRange, h.volume, UInt32.and_assoc, UInt32.and_self]

/-! ## `fat32_read_cluster` and `fat32_write_cluster` -/

theorem Stores.clusterToLba_toNat (h : Stores g cwd v s) {c : UInt32} (inRange : g.InRange c) :
    (fat32ClusterToLba s c).toNat = g.dataSector c := by
  have valid : ¬ (c < 2 ∨ s.gFs.totalClusters + 2 ≤ c) := by
    rw [h.readFat_range c]; exact not_not.mpr inRange
  have fits := h.geometry.data_fits
  have inside := Fat32Fs.dataSector_le inRange
  have lower : (2 : UInt32) ≤ c := by
    have := inRange.1
    simpa [UInt32.le_iff_toNat_le] using this
  have beginLba : s.gFs.clusterBeginLba = g.clusterBeginLba := by rw [h.gFs]
  simp only [Fat32Fs.dataSector] at inside ⊢
  rw [fat32ClusterToLba, if_neg valid, beginLba, h.field_sectors, UInt32.toNat_add, UInt32.toNat_mul,
    UInt32.toNat_sub_of_le _ _ lower]
  simp only [UInt32.reduceToNat]
  rw [Nat.mod_eq_of_lt (a := (c.toNat - 2) * g.sectorsPerCluster.toNat) (by omega),
    Nat.mod_eq_of_lt (by omega)]

theorem Stores.clusterToLba_ne_zero (h : Stores g cwd v s) {c : UInt32} (inRange : g.InRange c) :
    fat32ClusterToLba s c ≠ 0 := by
  intro zero
  have address := h.clusterToLba_toNat inRange
  have positive := h.geometry.clusterBegin_pos
  rw [zero, Fat32Fs.dataSector] at address
  simp only [UInt32.reduceToNat] at address
  omega

theorem Stores.clusterToLba_eq_zero (h : Stores g cwd v s) {c : UInt32} (outside : ¬ g.InRange c) :
    fat32ClusterToLba s c = 0 := by
  rw [fat32ClusterToLba, if_pos ((h.readFat_range c).mpr outside)]

/-- The sector of round `i`: no addition wraps, and the buffer offset is exact. -/
theorem Stores.sector_round (h : Stores g cwd v s) {c lba i : UInt32} (inRange : g.InRange c)
    (start : lba.toNat = g.dataSector c) (bound : i.toNat < g.sectorsPerCluster.toNat) :
    (lba + i).toNat = g.dataSector c + i.toNat ∧ g.dataSector c + i.toNat < 268435456 ∧
      (i * fat32SectorSize).toNat = i.toNat * 512 ∧ (i + 1).toNat = i.toNat + 1 := by
  have fits := h.geometry.data_fits
  have inside := Fat32Fs.dataSector_le inRange
  have small := h.geometry.sectors_le
  simp only [fat32SectorSize, UInt32.toNat_add, UInt32.toNat_mul, UInt32.reduceToNat, start]
  omega

theorem fat32ReadSectors_spec {c lba : UInt32} (inRange : g.InRange c)
    (start : lba.toNat = g.dataSector c) (remaining : Nat) (i : UInt32)
    (count : i.toNat + remaining = g.sectorsPerCluster.toNat) (h : Stores g cwd v s) :
    ∃ s', fat32ReadSectors lba remaining i s = (0, s') ∧ Stores g cwd v s' ∧
      (∀ k < i.toNat * 512, s'.clusterBuffer k = s.clusterBuffer k) ∧
      ∀ k < g.sectorsPerCluster.toNat * 512, i.toNat * 512 ≤ k →
        s'.clusterBuffer k = s.ata.sector (g.dataSector c + k / 512) (k % 512) := by
  induction remaining generalizing i s with
  | zero => exact ⟨s, rfl, h, fun _ _ => rfl, fun k _ _ => by omega⟩
  | succ remaining ih =>
    obtain ⟨address, below, base, next⟩ :=
      h.sector_round inRange start (i := i) (by omega)
    have read : Stores g cwd v { s with
        ata.command := s.ata.command + 1
        clusterBuffer := copy s.clusterBuffer (i.toNat * 512)
          (copy (fun k => s.clusterBuffer (i.toNat * 512 + k)) 0
            (s.ata.sector (g.dataSector c + i.toNat)) 512) 512 } :=
      h.scratch rfl rfl rfl rfl
    obtain ⟨s', run, stores, kept, loaded⟩ := ih (i + 1) (by omega) read
    rw [next, Nat.succ_mul] at kept loaded
    refine ⟨s', ?_, stores, fun k low => ?_, fun k high low => ?_⟩
    · rw [fat32ReadSectors]
      simp only [base, ataReadSector_ok h.outcome, address, Nat.mod_eq_of_lt below, if_true]
      exact run
    · exact (kept k (Nat.lt_add_right 512 low)).trans (copy_outside (Or.inl low))
    · by_cases current : k < i.toNat * 512 + 512
      · have row : k / 512 = i.toNat := by omega
        have column : k - i.toNat * 512 = k % 512 := by omega
        refine (kept k (by omega)).trans ((copy_inside low (by omega)).trans ?_)
        refine (copy_inside (by omega) (by omega)).trans ?_
        rw [row, column, Nat.sub_zero]
      · exact loaded k high (Nat.le_of_not_lt current)

theorem fat32ReadCluster_spec (h : Stores g cwd v s) {c : UInt32} (inRange : g.InRange c) :
    ∃ s', fat32ReadCluster s c = (0, s') ∧ Stores g cwd v s' ∧
      ∀ k < g.bytesPerCluster.toNat, s'.clusterBuffer k = v.data c k := by
  obtain ⟨s', run, stores, -, loaded⟩ :=
    fat32ReadSectors_spec inRange (h.clusterToLba_toNat inRange) g.sectorsPerCluster.toNat 0
      (by simp) h
  refine ⟨s', ?_, stores, fun k bound => ?_⟩
  · rw [fat32ReadCluster, h.field_sectors]
    simp only [if_neg (h.clusterToLba_ne_zero inRange)]
    exact run
  · rw [loaded k (by rw [← h.geometry.bytes_toNat]; exact bound) (by simp), ← h.volume]
    simp only [Volume.of, if_pos (And.intro inRange bound)]

theorem fat32ReadCluster_outside (h : Stores g cwd v s) {c : UInt32} (outside : ¬ g.InRange c) :
    fat32ReadCluster s c = (-1, s) := by
  rw [fat32ReadCluster]
  simp only [h.clusterToLba_eq_zero outside, if_true]

theorem fat32WriteSectors_spec {c lba : UInt32} (inRange : g.InRange c)
    (start : lba.toNat = g.dataSector c) (remaining : Nat) (i : UInt32)
    (count : i.toNat + remaining = g.sectorsPerCluster.toNat) (h : Stores g cwd v s) :
    ∃ s', fat32WriteSectors lba remaining i s = (0, s') ∧
      s'.gFs = s.gFs ∧ s'.gCurrentDirCluster = s.gCurrentDirCluster ∧
      s'.ata.outcome = s.ata.outcome ∧ s'.clusterBuffer = s.clusterBuffer ∧
      ∀ n, s'.ata.sector n =
        if g.dataSector c + i.toNat ≤ n ∧ n < g.dataSector c + g.sectorsPerCluster.toNat then
          copy (s.ata.sector n) 0 (fun k => s.clusterBuffer ((n - g.dataSector c) * 512 + k)) 512
        else s.ata.sector n := by
  induction remaining generalizing i s v with
  | zero => exact ⟨s, rfl, rfl, rfl, rfl, rfl, fun n => by rw [if_neg (by omega)]⟩
  | succ remaining ih =>
    obtain ⟨address, below, base, next⟩ :=
      h.sector_round inRange start (i := i) (by omega)
    let sector' := Function.update s.ata.sector (g.dataSector c + i.toNat)
      (copy (s.ata.sector (g.dataSector c + i.toNat)) 0
        (fun k => s.clusterBuffer (i.toNat * 512 + k)) 512)
    have written : Stores g cwd (Volume.of g sector')
        { s with ata.sector := sector', ata.command := s.ata.command + 1 } :=
      ⟨h.geometry, h.gFs, h.current, h.outcome, rfl⟩
    obtain ⟨s', run, gFs, current, outcome, buffer, sector⟩ := ih (i + 1) (by omega) written
    refine ⟨s', ?_, gFs, current, outcome, buffer, fun n => ?_⟩
    · rw [fat32WriteSectors]
      simp only [base, ataWriteSector_ok h.outcome, address, Nat.mod_eq_of_lt below, if_true]
      exact run
    · rw [sector n, next]
      dsimp only [sector']
      by_cases here : n = g.dataSector c + i.toNat
      · subst here
        rw [if_neg (by omega), if_pos (by omega), Function.update_self, Nat.add_sub_cancel_left]
      · rw [Function.update_of_ne here]
        by_cases later : g.dataSector c + (i.toNat + 1) ≤ n ∧
            n < g.dataSector c + g.sectorsPerCluster.toNat
        · rw [if_pos later, if_pos (by omega)]
        · rw [if_neg later, if_neg (by omega)]

/-- The volume behind the store of the first `done` sectors of a cluster. -/
theorem Volume.of_storeSectors (geo : Geometry g) {c : UInt32} (inRange : g.InRange c)
    {done : Nat} (most : done ≤ g.sectorsPerCluster.toNat) (buffer : Bytes) {sector sector' : Nat → Bytes}
    (written : ∀ n, sector' n =
      if g.dataSector c ≤ n ∧ n < g.dataSector c + done then
        copy (sector n) 0 (fun k => buffer ((n - g.dataSector c) * 512 + k)) 512
      else sector n) {bytes : Bytes}
    (inside : ∀ k < g.bytesPerCluster.toNat,
      bytes k = if k / 512 < done then buffer k else (Volume.of g sector).data c k)
    (outside : ∀ k, g.bytesPerCluster.toNat ≤ k → bytes k = 0) :
    Volume.of g sector' = (Volume.of g sector).setData c bytes := by
  have first : 0 < g.numFats.toNat := geo.fats_pos
  have size := geo.bytes_toNat
  apply Volume.ext
  · -- the FATs lie before the clusters
    funext d
    simp only [Volume.of, Volume.setData]
    split
    · rename_i rangeD
      have below := (geo.fatSector_lt first rangeD).2
      have start : g.clusterBeginLba.toNat ≤ g.dataSector c := Nat.le_add_right _ _
      rw [written, if_neg (by omega)]
    · rfl
  · funext d k
    simp only [Volume.setData]
    -- the cluster itself, sector by sector, or one whose sectors lie elsewhere
    by_cases same : d = c
    · subst same
      rw [Function.update_self]
      by_cases bound : k < g.bytesPerCluster.toNat
      · rw [inside k bound]
        simp only [Volume.of, if_pos (And.intro inRange bound), written]
        by_cases stored : k / 512 < done
        · rw [if_pos (by omega), if_pos stored, copy_inside (by omega) (by omega), Nat.add_sub_cancel_left,
            Nat.sub_zero, Nat.div_add_mod']
        · rw [if_neg (by omega), if_neg stored]
      · rw [outside k (Nat.le_of_not_lt bound)]
        simp only [Volume.of]
        rw [if_neg fun both => bound both.2]
    · rw [Function.update_of_ne same]
      simp only [Volume.of]
      split
      · rename_i both
        obtain ⟨rangeD, bound⟩ := both
        rw [written, if_neg]
        rintro ⟨low, high⟩
        exact Fat32Fs.dataSector_apart rangeD inRange same (i := k / 512)
          (j := g.dataSector d + k / 512 - g.dataSector c) (by omega) (by omega) (by omega)
      · rfl

/-- Storing a whole cluster changes the contents of that cluster and nothing else. -/
theorem Volume.of_storeCluster (geo : Geometry g) {c : UInt32} (inRange : g.InRange c)
    (buffer : Bytes) {sector sector' : Nat → Bytes}
    (written : ∀ n, sector' n =
      if g.dataSector c ≤ n ∧ n < g.dataSector c + g.sectorsPerCluster.toNat then
        copy (sector n) 0 (fun k => buffer ((n - g.dataSector c) * 512 + k)) 512
      else sector n) :
    Volume.of g sector' = (Volume.of g sector).setData c (g.clip buffer) := by
  have size := geo.bytes_toNat
  refine Volume.of_storeSectors geo inRange (Nat.le_refl _) buffer written (fun k bound => ?_)
    fun k beyond => if_neg (Nat.not_lt.mpr beyond)
  rw [if_pos (by omega)]
  exact Fat32Fs.clip_of_lt bound

theorem fat32WriteCluster_spec (h : Stores g cwd v s) {c : UInt32} (inRange : g.InRange c) :
    ∃ s', fat32WriteCluster s c = (0, s') ∧
      Stores g cwd (v.setData c (g.clip s.clusterBuffer)) s' ∧
      ∀ n < g.clusterBeginLba.toNat, s'.ata.sector n = s.ata.sector n := by
  obtain ⟨s', run, gFs, current, outcome, -, sector⟩ :=
    fat32WriteSectors_spec inRange (h.clusterToLba_toNat inRange) g.sectorsPerCluster.toNat 0
      (by simp) h
  refine ⟨s', ?_, ⟨h.geometry, ?_, ?_, ?_, ?_⟩, fun n below => ?_⟩
  · rw [fat32WriteCluster, h.field_sectors]
    simp only [if_neg (h.clusterToLba_ne_zero inRange)]
    exact run
  · rw [gFs]; exact h.gFs
  · rw [current]; exact h.current
  · rw [outcome]; exact h.outcome
  · rw [← h.volume]
    exact Volume.of_storeCluster h.geometry inRange s.clusterBuffer (by simpa using sector)
  · have start : g.clusterBeginLba.toNat ≤ g.dataSector c := Nat.le_add_right _ _
    rw [sector n, if_neg (by omega)]

end QuantumKernel.Fat32
