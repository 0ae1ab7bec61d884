import QuantumKernel.Fat32.Fat

/-! # The volume behind the drive

`Volume.of` reads a sector device as a FAT and an array of cluster contents, and
`Stores` says that a state of the driver shows a given volume.  Each function of
`Fat.lean` then has one specification over volumes: what it returns, and which
volume the drive shows afterwards.  No later module looks at sectors again.
-/

namespace QuantumKernel.Fat32

open ByteStore

/-- The geometry `fat32_mount` leaves behind for a volume that lies on the drive: the
FAT has room for every cluster, and the data area follows the FAT copies. -/
structure Geometry (g : Fat32Fs) : Prop where
  sectors_pos : 1 ≤ g.sectorsPerCluster.toNat
  sectors_le : g.sectorsPerCluster.toNat ≤ 128
  bytes : g.bytesPerCluster = g.sectorsPerCluster * fat32SectorSize
  fats_pos : 1 ≤ g.numFats.toNat
  fat_fits : g.totalClusters.toNat + 2 ≤ g.boot.fatSize32.toNat * 128
  data_begin : g.clusterBeginLba.toNat =
    g.fatBeginLba.toNat + g.numFats.toNat * g.boot.fatSize32.toNat
  data_fits : g.clusterBeginLba.toNat + g.totalClusters.toNat * g.sectorsPerCluster.toNat ≤
    268435456

/-- What the FAT needs: its copies lie on the drive and have room for every cluster, and no cluster
number is one of the reserved FAT values. -/
structure FatGeometry (g : Fat32Fs) : Prop where
  fats_pos : 1 ≤ g.numFats.toNat
  fat_fits : g.totalClusters.toNat + 2 ≤ g.boot.fatSize32.toNat * 128
  fats_end : g.fatBeginLba.toNat + g.numFats.toNat * g.boot.fatSize32.toNat ≤ 268435456
  total_le : g.totalClusters.toNat ≤ 268435440

/-- The clusters of the data area. -/
def Fat32Fs.InRange (g : Fat32Fs) (cluster : UInt32) : Prop :=
  2 ≤ cluster.toNat ∧ cluster.toNat < g.totalClusters.toNat + 2

instance (g : Fat32Fs) (cluster : UInt32) : Decidable (g.InRange cluster) :=
  inferInstanceAs (Decidable (_ ∧ _))

/-- A volume without its layout on sectors. -/
@[ext] structure Volume where
  /-- The FAT entry of a cluster. -/
  fat : UInt32 → UInt32
  /-- The bytes of a cluster. -/
  data : UInt32 → Bytes

def Volume.setFat (v : Volume) (cluster value : UInt32) : Volume :=
  { v with fat := Function.update v.fat cluster value }

def Volume.setData (v : Volume) (cluster : UInt32) (bytes : Bytes) : Volume :=
  { v with data := Function.update v.data cluster bytes }

@[simp] theorem Volume.setFat_fat (v : Volume) (c x : UInt32) :
    (v.setFat c x).fat = Function.update v.fat c x := rfl
@[simp] theorem Volume.setFat_data (v : Volume) (c x : UInt32) : (v.setFat c x).data = v.data := rfl
@[simp] theorem Volume.setData_fat (v : Volume) (c : UInt32) (b : Bytes) :
    (v.setData c b).fat = v.fat := rfl
@[simp] theorem Volume.setData_data (v : Volume) (c : UInt32) (b : Bytes) :
    (v.setData c b).data = Function.update v.data c b := rfl

/-- A buffer as cluster contents: nothing is stored past the cluster. -/
def Fat32Fs.clip (g : Fat32Fs) (buffer : Bytes) : Bytes := fun i =>
  if i < g.bytesPerCluster.toNat then buffer i else 0

theorem Fat32Fs.clip_of_lt {g : Fat32Fs} {buffer : Bytes} {i : Nat}
    (bound : i < g.bytesPerCluster.toNat) : g.clip buffer i = buffer i := if_pos bound

/-- The sector of FAT copy `i` with the entry of `cluster`, in exact arithmetic. -/
def Fat32Fs.fatSector (g : Fat32Fs) (i : Nat) (cluster : UInt32) : Nat :=
  g.fatBeginLba.toNat + i * g.boot.fatSize32.toNat + cluster.toNat / 128

/-- The first sector of `cluster`, in exact arithmetic. -/
def Fat32Fs.dataSector (g : Fat32Fs) (cluster : UInt32) : Nat :=
  g.clusterBeginLba.toNat + (cluster.toNat - 2) * g.sectorsPerCluster.toNat

/-- The volume that a sector device holds: entries come from the first FAT copy. -/
def Volume.of (g : Fat32Fs) (sector : Nat → Bytes) : Volume where
  fat := fun c =>
    if g.InRange c then load32 (sector (g.fatSector 0 c)) (c.toNat % 128 * 4) &&& 0x0FFFFFFF
    else fat32BadCluster
  data := fun c i =>
    if g.InRange c ∧ i < g.bytesPerCluster.toNat then sector (g.dataSector c + i / 512) (i % 512)
    else 0

/-- The driver is mounted with geometry `g` (its allocation hint may have moved), its
current directory is `cwd`, its drive does not fail, and the drive holds `v`. -/
structure Stores (g : Fat32Fs) (cwd : UInt32) (v : Volume) (s : Fat32State) : Prop where
  geometry : Geometry g
  gFs : s.gFs = { g with fsinfo := s.gFs.fsinfo }
  current : s.gCurrentDirCluster = cwd
  outcome : ∀ n, s.ata.outcome n = .ok
  volume : Volume.of g s.ata.sector = v

variable {g : Fat32Fs} {cwd : UInt32} {v : Volume} {s : Fat32State}

/-! ## Arithmetic of the layout -/

theorem Geometry.bytes_toNat (geo : Geometry g) :
    g.bytesPerCluster.toNat = g.sectorsPerCluster.toNat * 512 := by
  have small := geo.sectors_le
  simp only [geo.bytes, fat32SectorSize, UInt32.toNat_mul, UInt32.reduceToNat]
  omega

theorem Geometry.total_le (geo : Geometry g) : g.totalClusters.toNat ≤ 268435456 := by
  have fits := geo.data_fits
  have step : g.totalClusters.toNat * 1 ≤ g.totalClusters.toNat * g.sectorsPerCluster.toNat :=
    Nat.mul_le_mul_left _ geo.sectors_pos
  omega

/-- Cluster numbers stay below the reserved FAT values: a FAT that large would leave no
room for the clusters. -/
theorem Geometry.fats (geo : Geometry g) : FatGeometry g := by
  have fits := geo.data_fits
  have begins := geo.data_begin
  have room := geo.fat_fits
  have step : g.totalClusters.toNat * 1 ≤ g.totalClusters.toNat * g.sectorsPerCluster.toNat :=
    Nat.mul_le_mul_left _ geo.sectors_pos
  have copies : 1 * g.boot.fatSize32.toNat ≤ g.numFats.toNat * g.boot.fatSize32.toNat :=
    Nat.mul_le_mul_right _ geo.fats_pos
  exact ⟨geo.fats_pos, room, by omega, by omega⟩

theorem Geometry.total_lt (geo : Geometry g) : g.totalClusters.toNat + 2 < 268435447 := by
  have small := geo.fats.total_le
  omega

theorem FatGeometry.total_add (geo : FatGeometry g) :
    (g.totalClusters + 2).toNat = g.totalClusters.toNat + 2 := by
  have small := geo.total_le
  simp only [UInt32.toNat_add, UInt32.reduceToNat]
  omega

theorem Geometry.total_add (geo : Geometry g) :
    (g.totalClusters + 2).toNat = g.totalClusters.toNat + 2 := geo.fats.total_add

theorem FatGeometry.not_inRange_iff (geo : FatGeometry g) (c : UInt32) :
    (c < 2 ∨ g.totalClusters + 2 ≤ c) ↔ ¬ g.InRange c := by
  simp only [UInt32.lt_iff_toNat_lt, UInt32.le_iff_toNat_le, geo.total_add, UInt32.reduceToNat,
    Fat32Fs.InRange]
  omega

theorem FatGeometry.inRange_lt (geo : FatGeometry g) {c : UInt32} (inRange : g.InRange c) :
    c.toNat < 268435442 := by
  have small := geo.total_le
  have upper := inRange.2
  omega

theorem Geometry.inRange_lt_bad (geo : Geometry g) {c : UInt32} (inRange : g.InRange c) :
    c.toNat < 268435447 := by
  have small := geo.fats.inRange_lt inRange
  omega

/-- A cluster number is never an end-of-chain mark. -/
theorem Geometry.inRange_not_eoc (geo : Geometry g) :
    ∀ c, g.InRange c → ¬ fat32EocMin ≤ c := by
  intro c inRange
  have small := geo.inRange_lt_bad inRange
  simp only [UInt32.le_iff_toNat_le, fat32EocMin, UInt32.reduceToNat]
  omega

theorem FatGeometry.fatSector_lt (geo : FatGeometry g) {i : Nat} {c : UInt32} (copy : i < g.numFats.toNat)
    (inRange : g.InRange c) :
    c.toNat / 128 < g.boot.fatSize32.toNat ∧
      g.fatSector i c < g.fatBeginLba.toNat + g.numFats.toNat * g.boot.fatSize32.toNat := by
  have room := geo.fat_fits
  have upper := inRange.2
  have row : c.toNat / 128 < g.boot.fatSize32.toNat := by omega
  have copies : (i + 1) * g.boot.fatSize32.toNat ≤ g.numFats.toNat * g.boot.fatSize32.toNat :=
    Nat.mul_le_mul_right _ copy
  rw [Nat.succ_mul] at copies
  refine ⟨row, ?_⟩
  simp only [Fat32Fs.fatSector]
  omega

theorem FatGeometry.fatSector_lt_drive (geo : FatGeometry g) {i : Nat} {c : UInt32}
    (copy : i < g.numFats.toNat) (inRange : g.InRange c) : g.fatSector i c < 268435456 :=
  Nat.lt_of_lt_of_le (geo.fatSector_lt copy inRange).2 geo.fats_end

theorem Geometry.fatSector_lt (geo : Geometry g) {i : Nat} {c : UInt32} (copy : i < g.numFats.toNat)
    (inRange : g.InRange c) :
    c.toNat / 128 < g.boot.fatSize32.toNat ∧ g.fatSector i c < g.clusterBeginLba.toNat := by
  rw [geo.data_begin]
  exact geo.fats.fatSector_lt copy inRange

/-- The FAT address computation does not wrap and stays in the FAT copies. -/
theorem FatGeometry.fat32FatSector_toNat (geo : FatGeometry g) {i : UInt8} {c : UInt32}
    (copy : i.toNat < g.numFats.toNat) (inRange : g.InRange c) :
    (fat32FatSector g i c).toNat = g.fatSector i.toNat c := by
  have below := geo.fatSector_lt_drive copy inRange
  have small := geo.inRange_lt inRange
  have offset : (c * 4 / fat32SectorSize).toNat = c.toNat / 128 := by
    simp only [fat32SectorSize, UInt32.toNat_div, UInt32.toNat_mul, UInt32.reduceToNat]
    omega
  simp only [Fat32Fs.fatSector] at below ⊢
  rw [fat32FatSector, UInt32.toNat_add, UInt32.toNat_add, UInt32.toNat_mul, offset,
    UInt8.toNat_toUInt32]
  rw [Nat.mod_eq_of_lt (a := i.toNat * g.boot.fatSize32.toNat) (by omega)]
  rw [Nat.mod_eq_of_lt (a := g.fatBeginLba.toNat + _) (by omega), Nat.mod_eq_of_lt (by omega)]

theorem Geometry.fat32FatSector_toNat (geo : Geometry g) {i : UInt8} {c : UInt32}
    (copy : i.toNat < g.numFats.toNat) (inRange : g.InRange c) :
    (fat32FatSector g i c).toNat = g.fatSector i.toNat c := geo.fats.fat32FatSector_toNat copy inRange

theorem FatGeometry.fat32EntryOffset_toNat (geo : FatGeometry g) {c : UInt32} (inRange : g.InRange c) :
    (fat32EntryOffset c).toNat = c.toNat % 128 * 4 := by
  have small := geo.inRange_lt inRange
  simp only [fat32EntryOffset, fat32SectorSize, UInt32.toNat_mod, UInt32.toNat_mul,
    UInt32.reduceToNat]
  omega

theorem Geometry.fat32EntryOffset_toNat (geo : Geometry g) {c : UInt32} (inRange : g.InRange c) :
    (fat32EntryOffset c).toNat = c.toNat % 128 * 4 := geo.fats.fat32EntryOffset_toNat inRange

theorem Fat32Fs.dataSector_le {c : UInt32} (inRange : g.InRange c) :
    g.dataSector c + g.sectorsPerCluster.toNat ≤
      g.clusterBeginLba.toNat + g.totalClusters.toNat * g.sectorsPerCluster.toNat := by
  obtain ⟨lower, upper⟩ := inRange
  have rows : (c.toNat - 2 + 1) * g.sectorsPerCluster.toNat ≤
      g.totalClusters.toNat * g.sectorsPerCluster.toNat := Nat.mul_le_mul_right _ (by omega)
  rw [Nat.succ_mul] at rows
  simp only [Fat32Fs.dataSector]
  omega

theorem Geometry.clusterBegin_pos (geo : Geometry g) : 0 < g.clusterBeginLba.toNat := by
  have room := geo.fat_fits
  have begins := geo.data_begin
  have copies : 1 * g.boot.fatSize32.toNat ≤ g.numFats.toNat * g.boot.fatSize32.toNat :=
    Nat.mul_le_mul_right _ geo.fats_pos
  omega

/-- Different clusters have different sectors. -/
theorem Fat32Fs.dataSector_apart {c d : UInt32} (rangeC : g.InRange c)
    (rangeD : g.InRange d) (ne : c ≠ d) {i j : Nat} (boundI : i < g.sectorsPerCluster.toNat)
    (boundJ : j < g.sectorsPerCluster.toNat) : g.dataSector c + i ≠ g.dataSector d + j := by
  have distinct : c.toNat - 2 ≠ d.toNat - 2 := by
    intro same
    have lowC := rangeC.1
    have lowD := rangeD.1
    exact ne (UInt32.toNat.inj (by omega))
  simp only [Fat32Fs.dataSector]
  rcases Nat.lt_or_gt_of_ne distinct with below | above
  · have rows : (c.toNat - 2 + 1) * g.sectorsPerCluster.toNat ≤
        (d.toNat - 2) * g.sectorsPerCluster.toNat := Nat.mul_le_mul_right _ below
    rw [Nat.succ_mul] at rows
    omega
  · have rows : (d.toNat - 2 + 1) * g.sectorsPerCluster.toNat ≤
        (c.toNat - 2) * g.sectorsPerCluster.toNat := Nat.mul_le_mul_right _ above
    rw [Nat.succ_mul] at rows
    omega

end QuantumKernel.Fat32
