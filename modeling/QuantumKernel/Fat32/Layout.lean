import QuantumKernel.Fat32.VolumeSpec

/-! # The FAT and the data area are two independent arrays

The laws of `fat32_read_fat`, `fat32_write_fat`, `fat32_read_cluster` and
`fat32_write_cluster` among each other, stated on the functions themselves: what one
writes, its own read returns, and every other read is unchanged.
-/

namespace QuantumKernel.Fat32

open ByteStore

/-- The entry of `cluster` in FAT copy `i`, as it lies on the drive. -/
def fatCopyEntry (s : Fat32State) (i : UInt8) (cluster : UInt32) : UInt32 :=
  load32 (s.ata.sector (ataProgram (fat32FatSector s.gFs i cluster)).sector)
    (fat32EntryOffset cluster).toNat

/-- Every address computed for a cluster is exact: 32-bit arithmetic does not wrap, the
drive is not asked for a larger number than it can address, and the sector belongs to
the FAT copies or to the data area of the volume. -/
structure AddressesExact (s : Fat32State) (c : UInt32) : Prop where
  fat_sector : ∀ i : UInt8, i < s.gFs.numFats →
    (fat32FatSector s.gFs i c).toNat =
      s.gFs.fatBeginLba.toNat + i.toNat * s.gFs.boot.fatSize32.toNat + c.toNat * 4 / 512
  fat_inside : ∀ i : UInt8, i < s.gFs.numFats →
    s.gFs.fatBeginLba.toNat ≤ (fat32FatSector s.gFs i c).toNat ∧
      (fat32FatSector s.gFs i c).toNat < s.gFs.clusterBeginLba.toNat
  entry_offset : (fat32EntryOffset c).toNat = c.toNat * 4 % 512 ∧
    (fat32EntryOffset c).toNat + 4 ≤ 512
  data_sector : ∀ i < s.gFs.sectorsPerCluster,
    (fat32ClusterToLba s c + i).toNat = s.gFs.clusterBeginLba.toNat +
      (c.toNat - 2) * s.gFs.sectorsPerCluster.toNat + i.toNat
  data_inside : ∀ i < s.gFs.sectorsPerCluster,
    s.gFs.clusterBeginLba.toNat ≤ (fat32ClusterToLba s c + i).toNat ∧
      (fat32ClusterToLba s c + i).toNat < s.gFs.clusterBeginLba.toNat +
        s.gFs.totalClusters.toNat * s.gFs.sectorsPerCluster.toNat
  buffer_offset : ∀ i < s.gFs.sectorsPerCluster, (i * fat32SectorSize).toNat = i.toNat * 512
  drive_address : ∀ n : UInt32, n.toNat < s.gFs.clusterBeginLba.toNat +
    s.gFs.totalClusters.toNat * s.gFs.sectorsPerCluster.toNat → (ataProgram n).sector = n.toNat

/-- `t` reads the same contents for `d` as `s`. -/
def SameCluster (s t : Fat32State) (d : UInt32) : Prop :=
  (fat32ReadCluster t d).1 = 0 ∧ ∀ k < s.gFs.bytesPerCluster.toNat,
    (fat32ReadCluster t d).2.clusterBuffer k = (fat32ReadCluster s d).2.clusterBuffer k

/-- What holds after `fat32_write_fat(c, value)`. -/
structure FatWritten (s : Fat32State) (c value : UInt32) (t : Fat32State) : Prop where
  read_back : (fat32ReadFat t c).1 = value &&& 0x0FFFFFFF
  other_entries : ∀ d, s.gFs.InRange d → d ≠ c → (fat32ReadFat t d).1 = (fat32ReadFat s d).1
  copies : ∀ i : UInt8, i < s.gFs.numFats → fatCopyEntry t i c = value &&& 0x0FFFFFFF
  data : ∀ d, s.gFs.InRange d → SameCluster s t d

/-- What holds after `fat32_write_cluster(c, buffer)`. -/
structure DataWritten (s : Fat32State) (c : UInt32) (buffer : Bytes) (t : Fat32State) : Prop where
  read_back : (fat32ReadCluster t c).1 = 0 ∧ ∀ k < s.gFs.bytesPerCluster.toNat,
    (fat32ReadCluster t c).2.clusterBuffer k = buffer k
  other_clusters : ∀ d, s.gFs.InRange d → d ≠ c → SameCluster s t d
  entries : ∀ d, s.gFs.InRange d → (fat32ReadFat t d).1 = (fat32ReadFat s d).1
  copies : ∀ i : UInt8, i < s.gFs.numFats → ∀ d, s.gFs.InRange d →
    fatCopyEntry t i d = fatCopyEntry s i d

variable {g : Fat32Fs} {cwd : UInt32} {v w : Volume} {s t : Fat32State} {c : UInt32}

theorem Stores.readFat_eq (h : Stores g cwd v s) (d : UInt32) : (fat32ReadFat s d).1 = v.fat d := by
  obtain ⟨s', run, -⟩ := fat32ReadFat_spec h d
  rw [run]

theorem Stores.readCluster_eq (h : Stores g cwd v s) {d : UInt32} (inRange : g.InRange d) :
    (fat32ReadCluster s d).1 = 0 ∧ ∀ k < g.bytesPerCluster.toNat,
      (fat32ReadCluster s d).2.clusterBuffer k = v.data d k := by
  obtain ⟨s', run, -, loaded⟩ := fat32ReadCluster_spec h inRange
  rw [run]
  exact ⟨rfl, loaded⟩

/-- Two states whose volumes agree on a cluster read the same contents for it. -/
theorem Stores.sameCluster (hs : Stores s.gFs cwd v s) (ht : Stores s.gFs cwd w t) {d : UInt32}
    (inRange : s.gFs.InRange d) (agree : w.data d = v.data d) : SameCluster s t d := by
  obtain ⟨done, loaded⟩ := ht.readCluster_eq inRange
  refine ⟨done, fun k bound => ?_⟩
  rw [loaded k bound, (hs.readCluster_eq inRange).2 k bound, agree]

theorem Stores.fatCopyEntry_eq (h : Stores g cwd v s) {i : UInt8} (copy : i.toNat < g.numFats.toNat)
    {d : UInt32} (inRange : g.InRange d) :
    fatCopyEntry s i d = load32 (s.ata.sector (g.fatSector i.toNat d)) (d.toNat % 128 * 4) := by
  have below := (h.geometry.fatSector_lt copy inRange).2
  have fits := h.geometry.data_fits
  rw [fatCopyEntry, ataProgram_sector, h.fatSector_eq, h.geometry.fat32FatSector_toNat copy inRange,
    h.geometry.fat32EntryOffset_toNat inRange, Nat.mod_eq_of_lt (by omega)]

theorem addresses_exact (h : Stores s.gFs cwd v s) (inRange : s.gFs.InRange c) :
    AddressesExact s c where
  fat_sector := by
    intro i copy
    rw [h.geometry.fat32FatSector_toNat (UInt8.lt_iff_toNat_lt.mp copy) inRange, Fat32Fs.fatSector]
    omega
  fat_inside := by
    intro i copy
    have bound := UInt8.lt_iff_toNat_lt.mp copy
    rw [h.geometry.fat32FatSector_toNat bound inRange]
    refine ⟨?_, (h.geometry.fatSector_lt bound inRange).2⟩
    simp only [Fat32Fs.fatSector, Nat.add_assoc]
    exact Nat.le_add_right _ _
  entry_offset := by
    rw [h.geometry.fat32EntryOffset_toNat inRange]
    omega
  data_sector := by
    intro i bound
    exact (h.sector_round inRange (h.clusterToLba_toNat inRange) (UInt32.lt_iff_toNat_lt.mp bound)).1
  data_inside := by
    intro i bound
    have small := UInt32.lt_iff_toNat_lt.mp bound
    have inside := Fat32Fs.dataSector_le inRange
    have start : s.gFs.clusterBeginLba.toNat ≤ s.gFs.dataSector c := Nat.le_add_right _ _
    rw [(h.sector_round inRange (h.clusterToLba_toNat inRange) small).1]
    omega
  buffer_offset := by
    intro i bound
    exact (h.sector_round inRange (h.clusterToLba_toNat inRange)
      (UInt32.lt_iff_toNat_lt.mp bound)).2.2.1
  drive_address := by
    intro n inside
    have fits := h.geometry.data_fits
    rw [ataProgram_sector, Nat.mod_eq_of_lt (by omega)]

theorem fat_written (h : Stores s.gFs cwd v s) (inRange : s.gFs.InRange c) (value : UInt32) :
    (fat32WriteFat s c value).1 = 0 ∧ FatWritten s c value (fat32WriteFat s c value).2 := by
  obtain ⟨t, run, stores, -, sector⟩ := fat32WriteFat_spec h inRange value
  rw [run]
  refine ⟨rfl, ?_, fun d _ ne => ?_, fun i copy => ?_, fun d rangeD => h.sameCluster stores rangeD rfl⟩
  · rw [stores.readFat_eq, Volume.setFat_fat, Function.update_self]
  · rw [stores.readFat_eq, h.readFat_eq, Volume.setFat_fat, Function.update_of_ne ne]
  · have bound := UInt8.lt_iff_toNat_lt.mp copy
    rw [stores.fatCopyEntry_eq bound inRange, sector, Fat32Fs.storeCopies,
      if_pos ⟨i.toNat, bound, Nat.zero_le _, rfl⟩, load32_store32]

theorem data_written (h : Stores s.gFs cwd v s) (inRange : s.gFs.InRange c) (buffer : Bytes) :
    (fat32WriteCluster { s with clusterBuffer := buffer } c).1 = 0 ∧
      DataWritten s c buffer (fat32WriteCluster { s with clusterBuffer := buffer } c).2 := by
  obtain ⟨t, run, stores, sector⟩ := fat32WriteCluster_spec (h.withBuffer buffer) inRange
  rw [run]
  refine ⟨rfl, ?_, fun d rangeD ne => h.sameCluster stores rangeD ?_, fun d _ => ?_,
    fun i copy d rangeD => ?_⟩
  · obtain ⟨done, loaded⟩ := stores.readCluster_eq inRange
    refine ⟨done, fun k bound => ?_⟩
    rw [loaded k bound, Volume.setData_data, Function.update_self, Fat32Fs.clip_of_lt bound]
  · rw [Volume.setData_data, Function.update_of_ne ne]
  · rw [stores.readFat_eq, h.readFat_eq, Volume.setData_fat]
  · have bound := UInt8.lt_iff_toNat_lt.mp copy
    rw [stores.fatCopyEntry_eq bound rangeD, h.fatCopyEntry_eq bound rangeD,
      sector _ (h.geometry.fatSector_lt bound rangeD).2]

/-- **The FAT and the data area are independent arrays.**  On a drive without errors,
storing a FAT entry changes that entry, in every copy, and no other entry and no data
cluster; storing a cluster changes its contents and no other cluster and no entry; and
every address on the way is exact. -/
theorem fat_and_data_independent (s : Fat32State) (geo : Geometry s.gFs)
    (ok : ∀ n, s.ata.outcome n = .ok) :
    ∀ c, s.gFs.InRange c →
      AddressesExact s c ∧
      (∀ value, (fat32WriteFat s c value).1 = 0 ∧
        FatWritten s c value (fat32WriteFat s c value).2) ∧
      ∀ buffer, (fat32WriteCluster { s with clusterBuffer := buffer } c).1 = 0 ∧
        DataWritten s c buffer (fat32WriteCluster { s with clusterBuffer := buffer } c).2 := by
  intro c inRange
  have h := Stores.of_geometry geo ok
  exact ⟨addresses_exact h inRange, fat_written h inRange, data_written h inRange⟩

/-- A mounted volume of eight one-sector clusters with two FAT copies, all blank. -/
def smallFs : Fat32Fs where
  boot := { fatSize32 := 1 }
  fsinfo := { nextFree := 3 }
  fatBeginLba := 1
  clusterBeginLba := 3
  rootDirFirstCluster := 2
  sectorsPerCluster := 1
  bytesPerCluster := 512
  totalClusters := 8
  numFats := 2

theorem smallFs_geometry : Geometry smallFs where
  sectors_pos := by decide
  sectors_le := by decide
  bytes := by decide
  fats_pos := by decide
  fat_fits := by decide
  data_begin := by decide
  data_fits := by decide

/-- A driver mounted on a drive with the given sectors. -/
def mountedOn (g : Fat32Fs) (sector : Nat → Bytes) : Fat32State where
  ata := { sector := sector, outcome := fun _ => .ok, command := 0 }
  gFs := g
  sectorBuffer := fun _ => 0
  clusterBuffer := fun _ => 0
  gCurrentDirCluster := 2

/-- The sectors of a drive with the layout of `smallFs`, given by its FAT entries and the
contents of its clusters. -/
def smallDrive (fat : Nat → UInt32) (data : Nat → Bytes) : Nat → Bytes := fun n k =>
  if n = 1 ∨ n = 2 then (fat (k / 4) >>> UInt32.ofNat (8 * (k % 4))).toUInt8 else data (n - 1) k

/-- The drive after formatting: the root directory is one blank cluster. -/
def blankDrive : Nat → Bytes :=
  smallDrive (fun c => if c = 2 then fat32EocMax else fat32FreeCluster) fun _ _ => 0

/-- The bytes of an entry `letter` for a file of one cluster. -/
def letterEntry (letter first : UInt8) : Bytes := fun k =>
  if k = 0 then letter else if k < 11 then 0x20 else if k = 11 then fat32AttrArchive
  else if k = 26 then first else 0

/-- A root directory of one cluster whose first slots hold the given names. -/
def rootDrive (letters : List UInt8) : Nat → Bytes :=
  smallDrive (fun c => if c = 2 then fat32EocMax else fat32FreeCluster) fun c k =>
    if c = 2 ∧ k / 32 < letters.length then letterEntry (letters.getD (k / 32) 0) 0 (k % 32) else 0

theorem fat_and_data_independent_small :
    Geometry smallFs ∧ smallFs.InRange 9 ∧
      FatWritten (mountedOn smallFs fun _ _ => 0) 9 7
        (fat32WriteFat (mountedOn smallFs fun _ _ => 0) 9 7).2 :=
  ⟨smallFs_geometry, by decide,
    ((fat_and_data_independent (mountedOn smallFs fun _ _ => 0) smallFs_geometry (fun _ => rfl)
      9 (by decide)).2.1 7).2⟩

end QuantumKernel.Fat32
