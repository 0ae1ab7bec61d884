import QuantumKernel.Fat32.Calls

/-! # What a call stores

The list of the commands with which a call changes the drive, along the functions of `Fat.lean`,
`Directory.lean` and `File.lean`.  A helper reports failure by its result; where its caller drops
the result, the commands of the helper are marked as dropped.
-/

namespace QuantumKernel.Fat32

open ByteStore

/-- A command with which a call changes the drive: a sector write, with the sector and its bytes, or
the read of the FAT sector that is to be changed. -/
structure Update where
  command : Nat
  store : Option (Nat × Bytes)
  /-- Nobody looks at the result. -/
  dropped : Bool

/-- The result of a helper is dropped. -/
def dropResult (log : List Update) : List Update := log.map fun u => { u with dropped := true }

/-! ## The FAT and the data area -/

def fatCopyUpdates (cluster value : UInt32) : Nat → UInt8 → Fat32State → List Update
  | 0, _, _ => []
  | remaining + 1, i, s =>
    let read := ⟨s.ata.command, none, false⟩
    match s.readSectorBuffer (fat32FatSector s.gFs i cluster) with
    | (.ok, s) =>
      let s := { s with sectorBuffer := store32 s.sectorBuffer (fat32EntryOffset cluster).toNat value }
      let write := ⟨s.ata.command, some ((ataProgram (fat32FatSector s.gFs i cluster)).sector, s.sectorBuffer), false⟩
      match s.writeSectorBuffer (fat32FatSector s.gFs i cluster) with
      | (.ok, s) => read :: write :: fatCopyUpdates cluster value remaining (i + 1) s
      | _ => [read, write]
    | _ => [read]

def writeFatUpdates (s : Fat32State) (cluster value : UInt32) : List Update :=
  if cluster < 2 ∨ s.gFs.totalClusters + 2 ≤ cluster then []
  else fatCopyUpdates cluster (value &&& 0x0FFFFFFF) s.gFs.numFats.toNat 0 s

def allocLoopUpdates : Nat → UInt32 → Fat32State → List Update
  | 0, _, _ => []
  | remaining + 1, cluster, s =>
    let cluster := if s.gFs.totalClusters + 2 ≤ cluster then 2 else cluster
    match fat32ReadFat s cluster with
    | (value, s) =>
      if value = fat32FreeCluster then dropResult (writeFatUpdates s cluster fat32EocMax)
      else allocLoopUpdates remaining (cluster + 1) s

def allocUpdates (s : Fat32State) : List Update :=
  let cluster := s.gFs.fsinfo.nextFree
  allocLoopUpdates s.gFs.totalClusters.toNat (if cluster < 2 then 2 else cluster) s

def freeChainUpdates : Nat → Fat32State → UInt32 → List Update
  | 0, _, _ => []
  | fuel + 1, s, cluster =>
    if 2 ≤ cluster ∧ cluster < fat32EocMin ∧ cluster < s.gFs.totalClusters + 2 then
      match fat32ReadFat s cluster with
      | (next, s) =>
        dropResult (writeFatUpdates s cluster fat32FreeCluster) ++
          match fat32WriteFat s cluster fat32FreeCluster with
          | (_, s) => freeChainUpdates fuel s next
    else []

def writeSectorsUpdates (lba : UInt32) : Nat → UInt32 → Fat32State → List Update
  | 0, _, _ => []
  | remaining + 1, i, s =>
    let base := (i * fat32SectorSize).toNat
    let bytes := fun k => s.clusterBuffer (base + k)
    let write := ⟨s.ata.command, some ((ataProgram (lba + i)).sector, bytes), false⟩
    match ataWriteSector s.ata (lba + i) bytes with
    | (err, ata) =>
      if err = .ok then write :: writeSectorsUpdates lba remaining (i + 1) { s with ata := ata } else [write]

def writeClusterUpdates (s : Fat32State) (cluster : UInt32) : List Update :=
  let lba := fat32ClusterToLba s cluster
  if lba = 0 then [] else writeSectorsUpdates lba s.gFs.sectorsPerCluster.toNat 0 s

/-! ## Directories -/

def createLoopUpdates (shortName : ShortName) (attr : UInt8) (firstCluster : UInt32) :
    Nat → Fat32State → UInt32 → List Update
  | 0, _, _ => []
  | fuel + 1, s, cluster =>
    if 2 ≤ cluster ∧ cluster < fat32EocMin then
      match fat32ReadCluster s cluster with
      | (status, s) =>
        if status ≠ 0 then []
        else
          match scanSlots (fun _ => false) reusable s.clusterBuffer (entriesPerCluster s.gFs) 0 with
          | .found i =>
            writeClusterUpdates { s with
              clusterBuffer := fillEntry s.clusterBuffer (32 * i) shortName attr firstCluster } cluster
          | _ =>
            match fat32ReadFat s cluster with
            | (next, s) =>
              if fat32EocMin ≤ next then
                allocUpdates s ++
                  match fat32AllocCluster s with
                  | (newCluster, s) =>
                    if newCluster = 0 then []
                    else
                      dropResult (writeFatUpdates s cluster newCluster) ++
                        match fat32WriteFat s cluster newCluster with
                        | (_, s) =>
                          let s := { s with
                            clusterBuffer := fill s.clusterBuffer 0 0 s.gFs.bytesPerCluster.toNat }
                          dropResult (writeClusterUpdates s newCluster) ++
                            match fat32WriteCluster s newCluster with
                            | (_, s) => createLoopUpdates shortName attr firstCluster fuel s newCluster
              else createLoopUpdates shortName attr firstCluster fuel s next
    else []

def createUpdates (fuel : Nat) (s : Fat32State) (dirCluster : UInt32) (name : CString) (attr : UInt8)
    (firstCluster : UInt32) : List Update :=
  createLoopUpdates (fat32ToShortName name) attr firstCluster fuel s dirCluster

/-! ## Files -/

def openUpdates (fuel : Nat) (s : Fat32State) (path : Option CString) (flags : UInt8) : List Update :=
  match path with
  | none => []
  | some path =>
    let dirCluster := s.gCurrentDirCluster
    match fat32FindEntry fuel s dirCluster path with
    | none => []
    | some (some found, s) =>
      if hasFlag flags fat32OTrunc ∧ 2 ≤ found.entry.firstCluster then
        freeChainUpdates fuel s found.entry.firstCluster
      else []
    | some (none, s) =>
      if ¬ hasFlag flags fat32OCreat then []
      else
        allocUpdates s ++
          match fat32AllocCluster s with
          | (newCluster, s) =>
            if newCluster = 0 then []
            else
              createUpdates fuel s dirCluster path fat32AttrArchive newCluster ++
                match fat32CreateEntry fuel s dirCluster path fat32AttrArchive newCluster with
                | none => []
                | some (status, s) =>
                  if status ≠ 0 then freeChainUpdates fuel s newCluster
                  else
                    match fat32FindEntry fuel s dirCluster path with
                    | some (none, s) => freeChainUpdates fuel s newCluster
                    | _ => []

def closeUpdates (s : Fat32State) (file : Fat32File) : List Update :=
  if ¬ file.isOpen then []
  else
    match fat32ReadCluster s file.dirCluster with
    | (status, s) =>
      if status ≠ 0 then []
      else
        dropResult (writeClusterUpdates { s with
          clusterBuffer := closeEntry s.clusterBuffer file.dirEntryOffset.toNat file } file.dirCluster)

def nextOrAppendUpdates (s : Fat32State) (cluster : UInt32) : List Update :=
  match fat32ReadFat s cluster with
  | (next, s) =>
    if fat32EocMin ≤ next then
      allocUpdates s ++
        match fat32AllocCluster s with
        | (next, s) => if next = 0 then [] else dropResult (writeFatUpdates s cluster next)
    else []

def writeSkipUpdates : Nat → Fat32State → UInt32 → List Update
  | 0, _, _ => []
  | skip + 1, s, cluster =>
    if 2 ≤ cluster then
      nextOrAppendUpdates s cluster ++
        match fat32NextOrAppend s cluster with
        | (none, _) => []
        | (some next, s) => writeSkipUpdates skip s next
    else []

def writeLoopUpdates (data : Bytes) :
    Nat → Fat32State → (bytesWritten size cluster offset : UInt32) → List Update
  | 0, _, _, _, _, _ => []
  | fuel + 1, s, bytesWritten, size, cluster, offset =>
    if 0 < size ∧ 2 ≤ cluster then
      match (if 0 < offset ∨ size < s.gFs.bytesPerCluster then fat32ReadCluster s cluster
        else (0, s)) with
      | (status, s) =>
        if status ≠ 0 then []
        else
          let toCopy := s.gFs.bytesPerCluster - offset
          let toCopy := if size < toCopy then size else toCopy
          let s := { s with
            clusterBuffer := copy s.clusterBuffer offset.toNat (fun k => data (bytesWritten.toNat + k))
              toCopy.toNat }
          writeClusterUpdates s cluster ++
            match fat32WriteCluster s cluster with
            | (status, s) =>
              if status ≠ 0 then []
              else if 0 < size - toCopy then
                nextOrAppendUpdates s cluster ++
                  match fat32NextOrAppend s cluster with
                  | (none, _) => []
                  | (some next, s) => writeLoopUpdates data fuel s (bytesWritten + toCopy) (size - toCopy) next 0
              else writeLoopUpdates data fuel s (bytesWritten + toCopy) (size - toCopy) cluster 0
    else []

def writeFromUpdates (fuel : Nat) (s : Fat32State) (file : Fat32File) (data : Bytes) (size : UInt32) :
    List Update :=
  let skip := file.position / s.gFs.bytesPerCluster
  writeSkipUpdates skip.toNat s file.firstCluster ++
    match fat32WriteSkip skip.toNat s file.firstCluster with
    | (none, _) => []
    | (some cluster, s) => writeLoopUpdates data fuel s 0 size cluster (file.position % s.gFs.bytesPerCluster)

def writeUpdates (fuel : Nat) (s : Fat32State) (file : Fat32File) (data : Option Bytes) (size : UInt32) :
    List Update :=
  match data with
  | none => []
  | some data =>
    if ¬ file.isOpen then []
    else if file.firstCluster = 0 then
      allocUpdates s ++
        match fat32AllocCluster s with
        | (newCluster, s) =>
          if newCluster = 0 then []
          else writeFromUpdates fuel s { file with firstCluster := newCluster, currentCluster := newCluster } data size
    else writeFromUpdates fuel s file data size

def mkdirUpdates (fuel : Nat) (s : Fat32State) (path : CString) : List Update :=
  allocUpdates s ++
    match fat32AllocCluster s with
    | (newCluster, s) =>
      if newCluster = 0 then []
      else
        createUpdates fuel s s.gCurrentDirCluster path fat32AttrDirectory newCluster ++
          match fat32CreateEntry fuel s s.gCurrentDirCluster path fat32AttrDirectory newCluster with
          | none => []
          | some (status, s) =>
            if status ≠ 0 then freeChainUpdates fuel s newCluster
            else
              dropResult (writeClusterUpdates { s with
                clusterBuffer := fill s.clusterBuffer 0 0 s.gFs.bytesPerCluster.toNat } newCluster)

def unlinkUpdates (fuel : Nat) (s : Fat32State) (path : CString) : List Update :=
  match fat32FindEntry fuel s s.gCurrentDirCluster path with
  | some (some found, s) =>
    let freed := if 2 ≤ found.entry.firstCluster then freeChainUpdates fuel s found.entry.firstCluster else []
    freed ++
      match (if 2 ≤ found.entry.firstCluster then fat32FreeClusterChain fuel s found.entry.firstCluster
        else some s) with
      | none => []
      | some s =>
        match fat32ReadCluster s found.entryCluster with
        | (status, s) =>
          if status ≠ 0 then []
          else
            writeClusterUpdates { s with
              clusterBuffer := fill s.clusterBuffer found.entryOffset.toNat 0xE5 1 } found.entryCluster
  | _ => []

/-- The commands with which a call changes the drive. -/
def FsCall.updates (fuel : Nat) (m : Machine) : FsCall → List Update
  | .open _ path flags => openUpdates fuel m.fs path flags
  | .write h data size => writeUpdates fuel m.fs (m.file h) data size
  | .close h => closeUpdates m.fs (m.file h)
  | .unlink path => unlinkUpdates fuel m.fs path
  | .mkdir path => mkdirUpdates fuel m.fs path
  | .read .. | .seek .. => []

/-- The result 0, or of `fat32_write` the full byte count. -/
def FsCall.Succeeds : FsCall → Int32 → Prop
  | .write _ _ size, status => status = size.toInt32
  | _, status => status = 0

end QuantumKernel.Fat32
