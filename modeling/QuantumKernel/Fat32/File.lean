import QuantumKernel.Fat32.Directory

/-! # Files

`fat32_open` to `fat32_unlink`.  A `fat32_file_t*` argument becomes the structure
itself, passed in and returned; `int` results are `Int32`.
-/

namespace QuantumKernel.Fat32

open ByteStore

/-- `flags & bit`. -/
def hasFlag (flags bit : UInt8) : Bool := flags &&& bit ≠ 0

/-- The common end of `fat32_open`. -/
def finishOpen (file : Fat32File) (flags : UInt8) : Fat32File :=
  { file with
    flags := flags
    isOpen := true
    position := if hasFlag flags fat32OAppend then file.fileSize else 0 }

/-- `fat32_open`: the result, the handle and the new state. -/
def fat32Open (fuel : Nat) (s : Fat32State) (file : Fat32File) (path : Option CString)
    (flags : UInt8) : Option (Int32 × Fat32File × Fat32State) :=
  match path with
  | none => some (-1, file, s)
  | some path => do
    let dirCluster := s.gCurrentDirCluster
    let (found, s) ← fat32FindEntry fuel s dirCluster path
    match found with
    | some ⟨entry, entryCluster, entryOffset⟩ =>
      let file := { Fat32File.zero with
        dirCluster := entryCluster
        dirEntryOffset := entryOffset
        firstCluster := entry.firstCluster
        currentCluster := entry.firstCluster
        fileSize := entry.fileSize
        attr := entry.attr }
      if hasFlag flags fat32OTrunc ∧ 2 ≤ file.firstCluster then
        let s ← fat32FreeClusterChain fuel s file.firstCluster
        let file := { file with firstCluster := 0, currentCluster := 0, fileSize := 0 }
        some (0, finishOpen file flags, s)
      else some (0, finishOpen file flags, s)
    | none =>
      if ¬ hasFlag flags fat32OCreat then some (-1, Fat32File.zero, s)
      else
        match fat32AllocCluster s with
        | (newCluster, s) =>
          if newCluster = 0 then some (-1, Fat32File.zero, s)
          else do
            let (status, s) ← fat32CreateEntry fuel s dirCluster path fat32AttrArchive newCluster
            if status ≠ 0 then
              let s ← fat32FreeClusterChain fuel s newCluster
              some (-1, Fat32File.zero, s)
            else
              let (found, s) ← fat32FindEntry fuel s dirCluster path
              match found with
              | none =>
                let s ← fat32FreeClusterChain fuel s newCluster
                some (-1, Fat32File.zero, s)
              | some ⟨_, entryCluster, entryOffset⟩ =>
                let file := { Fat32File.zero with
                  dirCluster := entryCluster
                  dirEntryOffset := entryOffset
                  firstCluster := newCluster
                  currentCluster := newCluster
                  fileSize := 0
                  attr := fat32AttrArchive }
                some (0, finishOpen file flags, s)

/-- The assignments of `fat32_close` to the directory entry. -/
def closeEntry (buffer : Bytes) (offset : Nat) (file : Fat32File) : Bytes :=
  let buffer := store32 buffer (offset + 28) file.fileSize
  let buffer := store16 buffer (offset + 26) (file.firstCluster &&& 0xFFFF).toUInt16
  store16 buffer (offset + 20) ((file.firstCluster >>> 16) &&& 0xFFFF).toUInt16

/-- `fat32_close`. -/
def fat32Close (s : Fat32State) (file : Fat32File) : Int32 × Fat32File × Fat32State :=
  if ¬ file.isOpen then (-1, file, s)
  else
    match fat32ReadCluster s file.dirCluster with
    | (status, s) =>
      if status ≠ 0 then (-1, file, s)
      else
        match fat32WriteCluster { s with
          clusterBuffer := closeEntry s.clusterBuffer file.dirEntryOffset.toNat file }
          file.dirCluster with
        | (_, s) => (0, { file with isOpen := false }, s)

/-- The copy loop of `fat32_read`. -/
def fat32ReadLoop : Nat → Fat32State → Fat32File → Bytes → (bytesRead size cluster offset : UInt32) →
    Option (UInt32 × Bytes × Fat32File × Fat32State)
  | 0, _, _, _, _, _, _, _ => none
  | fuel + 1, s, file, buffer, bytesRead, size, cluster, offset =>
    if 0 < size ∧ 2 ≤ cluster ∧ cluster < fat32EocMin then
      match fat32ReadCluster s cluster with
      | (status, s) =>
        if status ≠ 0 then some (bytesRead, buffer, file, s)
        else
          let toCopy := s.gFs.bytesPerCluster - offset
          let toCopy := if size < toCopy then size else toCopy
          let buffer := copy buffer bytesRead.toNat (fun k => s.clusterBuffer (offset.toNat + k))
            toCopy.toNat
          let bytesRead := bytesRead + toCopy
          let size := size - toCopy
          let file := { file with position := file.position + toCopy }
          if 0 < size then
            match fat32ReadFat s cluster with
            | (next, s) => fat32ReadLoop fuel s file buffer bytesRead size next 0
          else fat32ReadLoop fuel s file buffer bytesRead size cluster 0
    else some (bytesRead, buffer, file, s)

/-- `fat32_read`: the result, the caller's buffer, the handle and the new state. -/
def fat32Read (fuel : Nat) (s : Fat32State) (file : Fat32File) (buffer : Option Bytes)
    (size : UInt32) : Option (Int32 × Option Bytes × Fat32File × Fat32State) :=
  match buffer with
  | none => some (-1, none, file, s)
  | some buffer =>
    if ¬ file.isOpen then some (-1, some buffer, file, s)
    else if file.fileSize ≤ file.position then some (0, some buffer, file, s)
    else
      let size := if file.fileSize < file.position + size then file.fileSize - file.position else size
      let skip := file.position / s.gFs.bytesPerCluster
      match fat32SkipClusters skip.toNat s file.firstCluster with
      | (cluster, s) => do
        let file := { file with currentCluster := cluster }
        let (bytesRead, buffer, file, s) ← fat32ReadLoop fuel s file buffer 0 size cluster
          (file.position % s.gFs.bytesPerCluster)
        some (bytesRead.toInt32, some buffer, file, s)

/-- The block that both loops of `fat32_write` use to step to the next cluster: at the
end of the chain a new cluster is appended.  `none` when the volume is full. -/
def fat32NextOrAppend (s : Fat32State) (cluster : UInt32) : Option UInt32 × Fat32State :=
  match fat32ReadFat s cluster with
  | (next, s) =>
    if fat32EocMin ≤ next then
      match fat32AllocCluster s with
      | (next, s) =>
        if next = 0 then (none, s)
        else
          match fat32WriteFat s cluster next with
          | (_, s) => (some next, s)
    else (some next, s)

/-- The loop of `fat32_write` up to the cluster of the file position; `none` stands for
the early return on a full volume. -/
def fat32WriteSkip : Nat → Fat32State → UInt32 → Option UInt32 × Fat32State
  | 0, s, cluster => (some cluster, s)
  | skip + 1, s, cluster =>
    if 2 ≤ cluster then
      match fat32NextOrAppend s cluster with
      | (none, s) => (none, s)
      | (some next, s) => fat32WriteSkip skip s next
    else (some cluster, s)

/-- The copy loop of `fat32_write`. -/
def fat32WriteLoop (data : Bytes) :
    Nat → Fat32State → Fat32File → (bytesWritten size cluster offset : UInt32) →
    Option (UInt32 × Fat32File × Fat32State)
  | 0, _, _, _, _, _, _ => none
  | fuel + 1, s, file, bytesWritten, size, cluster, offset =>
    if 0 < size ∧ 2 ≤ cluster then
      -- a write that covers the whole cluster does not read it first
      match (if 0 < offset ∨ size < s.gFs.bytesPerCluster then fat32ReadCluster s cluster
        else (0, s)) with
      | (status, s) =>
        if status ≠ 0 then some (bytesWritten, file, s)
        else
          let toCopy := s.gFs.bytesPerCluster - offset
          let toCopy := if size < toCopy then size else toCopy
          match fat32WriteCluster { s with
            clusterBuffer := copy s.clusterBuffer offset.toNat
              (fun k => data (bytesWritten.toNat + k)) toCopy.toNat } cluster with
          | (status, s) =>
            if status ≠ 0 then some (bytesWritten, file, s)
            else
              let bytesWritten := bytesWritten + toCopy
              let size := size - toCopy
              let file := { file with position := file.position + toCopy }
              let file := if file.fileSize < file.position then { file with fileSize := file.position }
                else file
              if 0 < size then
                match fat32NextOrAppend s cluster with
                | (none, s) => some (bytesWritten, file, s)
                | (some next, s) => fat32WriteLoop data fuel s file bytesWritten size next 0
              else fat32WriteLoop data fuel s file bytesWritten size cluster 0
    else some (bytesWritten, file, s)

/-- `fat32_write` from the point where the file has a first cluster. -/
def fat32WriteFrom (fuel : Nat) (s : Fat32State) (file : Fat32File) (data : Bytes) (size : UInt32) :
    Option (Int32 × Fat32File × Fat32State) :=
  let skip := file.position / s.gFs.bytesPerCluster
  match fat32WriteSkip skip.toNat s file.firstCluster with
  | (none, s) => some (0, file, s)
  | (some cluster, s) => do
    let file := { file with currentCluster := cluster }
    let (bytesWritten, file, s) ← fat32WriteLoop data fuel s file 0 size cluster
      (file.position % s.gFs.bytesPerCluster)
    some (bytesWritten.toInt32, file, s)

/-- `fat32_write`. -/
def fat32Write (fuel : Nat) (s : Fat32State) (file : Fat32File) (data : Option Bytes)
    (size : UInt32) : Option (Int32 × Fat32File × Fat32State) :=
  match data with
  | none => some (-1, file, s)
  | some data =>
    if ¬ file.isOpen then some (-1, file, s)
    else if file.firstCluster = 0 then
      match fat32AllocCluster s with
      | (newCluster, s) =>
        let file := { file with firstCluster := newCluster }
        if newCluster = 0 then some (-1, file, s)
        else fat32WriteFrom fuel s { file with currentCluster := newCluster } data size
    else fat32WriteFrom fuel s file data size

/-- `fat32_seek`. -/
def fat32Seek (file : Fat32File) (offset : Int32) (whence : UInt8) : Int32 × Fat32File :=
  if ¬ file.isOpen then (-1, file)
  else if whence = fat32SeekSet then (0, { file with position := offset.toUInt32 })
  else if whence = fat32SeekCur then (0, { file with position := file.position + offset.toUInt32 })
  else if whence = fat32SeekEnd then (0, { file with position := file.fileSize + offset.toUInt32 })
  else (-1, file)

/-- `fat32_mkdir`. -/
def fat32Mkdir (fuel : Nat) (s : Fat32State) (path : CString) : Option (Int32 × Fat32State) :=
  match fat32AllocCluster s with
  | (newCluster, s) =>
    if newCluster = 0 then some (-1, s)
    else do
      let (status, s) ← fat32CreateEntry fuel s s.gCurrentDirCluster path fat32AttrDirectory
        newCluster
      if status ≠ 0 then
        let s ← fat32FreeClusterChain fuel s newCluster
        some (-1, s)
      else
        match fat32WriteCluster { s with
          clusterBuffer := fill s.clusterBuffer 0 0 s.gFs.bytesPerCluster.toNat } newCluster with
        | (_, s) => some (0, s)

/-- `fat32_unlink`. -/
def fat32Unlink (fuel : Nat) (s : Fat32State) (path : CString) : Option (Int32 × Fat32State) := do
  let (found, s) ← fat32FindEntry fuel s s.gCurrentDirCluster path
  match found with
  | none => some (-1, s)
  | some ⟨entry, cluster, offset⟩ =>
    let s ← if 2 ≤ entry.firstCluster then fat32FreeClusterChain fuel s entry.firstCluster else some s
    match fat32ReadCluster s cluster with
    | (status, s) =>
      if status ≠ 0 then some (-1, s)
      else
        some (fat32WriteCluster { s with
          clusterBuffer := fill s.clusterBuffer offset.toNat 0xE5 1 } cluster)

end QuantumKernel.Fat32
