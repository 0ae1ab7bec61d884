import QuantumKernel.Fat32.Types

/-! # The FAT and the data area

`fat32_read_fat` to `fat32_write_cluster`: the functions that turn cluster numbers
into sector addresses.  Everything above them sees the volume as a table of cluster
values and an array of cluster contents.
-/

namespace QuantumKernel.Fat32

open ByteStore

/-- The sector of copy `i` of the FAT that holds the entry of `cluster`. -/
def fat32FatSector (gFs : Fat32Fs) (i : UInt8) (cluster : UInt32) : UInt32 :=
  gFs.fatBeginLba + i.toUInt32 * gFs.boot.fatSize32 + cluster * 4 / fat32SectorSize

/-- The byte offset of the entry of `cluster` in its sector. -/
def fat32EntryOffset (cluster : UInt32) : UInt32 := cluster * 4 % fat32SectorSize

/-- `fat32_read_fat`. -/
def fat32ReadFat (s : Fat32State) (cluster : UInt32) : UInt32 × Fat32State :=
  if cluster < 2 ∨ s.gFs.totalClusters + 2 ≤ cluster then (fat32BadCluster, s)
  else
    match s.readSectorBuffer (s.gFs.fatBeginLba + cluster * 4 / fat32SectorSize) with
    | (.ok, s) => (load32 s.sectorBuffer (fat32EntryOffset cluster).toNat &&& 0x0FFFFFFF, s)
    | (_, s) => (fat32BadCluster, s)

/-- The loop of `fat32_write_fat` over the FAT copies `i`, `i + 1`, ... -/
def fat32WriteFatCopies (cluster value : UInt32) : Nat → UInt8 → Fat32State → Int32 × Fat32State
  | 0, _, s => (0, s)
  | remaining + 1, i, s =>
    match s.readSectorBuffer (fat32FatSector s.gFs i cluster) with
    | (.ok, s) =>
      let s := { s with
        sectorBuffer := store32 s.sectorBuffer (fat32EntryOffset cluster).toNat value }
      match s.writeSectorBuffer (fat32FatSector s.gFs i cluster) with
      | (.ok, s) => fat32WriteFatCopies cluster value remaining (i + 1) s
      | (_, s) => (-1, s)
    | (_, s) => (-1, s)

/-- `fat32_write_fat`. -/
def fat32WriteFat (s : Fat32State) (cluster value : UInt32) : Int32 × Fat32State :=
  if cluster < 2 ∨ s.gFs.totalClusters + 2 ≤ cluster then (-1, s)
  else fat32WriteFatCopies cluster (value &&& 0x0FFFFFFF) s.gFs.numFats.toNat 0 s

/-- The search loop of `fat32_alloc_cluster`, for `remaining` more clusters. -/
def fat32AllocLoop : Nat → UInt32 → Fat32State → UInt32 × Fat32State
  | 0, _, s => (0, s)
  | remaining + 1, cluster, s =>
    let cluster := if s.gFs.totalClusters + 2 ≤ cluster then 2 else cluster
    match fat32ReadFat s cluster with
    | (value, s) =>
      if value = fat32FreeCluster then
        match fat32WriteFat s cluster fat32EocMax with
        | (_, s) => (cluster, { s with gFs.fsinfo.nextFree := cluster + 1 })
      else fat32AllocLoop remaining (cluster + 1) s

/-- `fat32_alloc_cluster`: 0 when the volume is full. -/
def fat32AllocCluster (s : Fat32State) : UInt32 × Fat32State :=
  let cluster := s.gFs.fsinfo.nextFree
  fat32AllocLoop s.gFs.totalClusters.toNat (if cluster < 2 then 2 else cluster) s

/-- `fat32_free_cluster_chain`; `none` when the fuel runs out. -/
def fat32FreeClusterChain : Nat → Fat32State → UInt32 → Option Fat32State
  | 0, _, _ => none
  | fuel + 1, s, cluster =>
    if 2 ≤ cluster ∧ cluster < fat32EocMin ∧ cluster < s.gFs.totalClusters + 2 then
      match fat32ReadFat s cluster with
      | (next, s) =>
        match fat32WriteFat s cluster fat32FreeCluster with
        | (_, s) => fat32FreeClusterChain fuel s next
    else some s

/-- `fat32_cluster_to_lba`. -/
def fat32ClusterToLba (s : Fat32State) (cluster : UInt32) : UInt32 :=
  if cluster < 2 ∨ s.gFs.totalClusters + 2 ≤ cluster then 0
  else s.gFs.clusterBeginLba + (cluster - 2) * s.gFs.sectorsPerCluster

/-- The loop of `fat32_read_cluster` over the sectors `i`, `i + 1`, ... -/
def fat32ReadSectors (lba : UInt32) : Nat → UInt32 → Fat32State → Int32 × Fat32State
  | 0, _, s => (0, s)
  | remaining + 1, i, s =>
    -- the sector lands at `buffer + i * FAT32_SECTOR_SIZE`
    let base := (i * fat32SectorSize).toNat
    match ataReadSector s.ata (lba + i) (fun k => s.clusterBuffer (base + k)) with
    | (err, sector, ata) =>
      let s := { s with ata := ata, clusterBuffer := copy s.clusterBuffer base sector 512 }
      if err = .ok then fat32ReadSectors lba remaining (i + 1) s else (-1, s)

/-- `fat32_read_cluster(cluster, cluster_buffer)`: every call passes this buffer. -/
def fat32ReadCluster (s : Fat32State) (cluster : UInt32) : Int32 × Fat32State :=
  let lba := fat32ClusterToLba s cluster
  if lba = 0 then (-1, s)
  else fat32ReadSectors lba s.gFs.sectorsPerCluster.toNat 0 s

/-- The loop of `fat32_write_cluster`. -/
def fat32WriteSectors (lba : UInt32) : Nat → UInt32 → Fat32State → Int32 × Fat32State
  | 0, _, s => (0, s)
  | remaining + 1, i, s =>
    let base := (i * fat32SectorSize).toNat
    match ataWriteSector s.ata (lba + i) (fun k => s.clusterBuffer (base + k)) with
    | (err, ata) =>
      let s := { s with ata := ata }
      if err = .ok then fat32WriteSectors lba remaining (i + 1) s else (-1, s)

/-- `fat32_write_cluster(cluster, cluster_buffer)`. -/
def fat32WriteCluster (s : Fat32State) (cluster : UInt32) : Int32 × Fat32State :=
  let lba := fat32ClusterToLba s cluster
  if lba = 0 then (-1, s)
  else fat32WriteSectors lba s.gFs.sectorsPerCluster.toNat 0 s

end QuantumKernel.Fat32
