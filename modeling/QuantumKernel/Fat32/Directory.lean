import QuantumKernel.Fat32.Fat

/-! # Directories

`fat32_to_short_name`, `fat32_find_entry`, `fat32_create_entry` and `fat32_readdir`.
The three directory loops walk a cluster chain and scan the slots of each cluster;
they differ in where they stop and what they look for, which is what `scanSlots`
takes as arguments.  The walks follow the FAT wherever it leads, so they take fuel;
`none` means that the fuel ran out.
-/

namespace QuantumKernel.Fat32

open ByteStore

/-! ## Short names -/

/-- The position of the last dot, as the loop of `fat32_to_short_name` finds it. -/
def lastDot : List UInt8 → Nat → Option Nat → Option Nat
  | [], _, dot => dot
  | c :: rest, p, dot => lastDot rest (p + 1) (if c = 0x2E then some p else dot)

/-- `if (c >= 'a' && c <= 'z') c -= 32`. -/
def toUpper (c : UInt8) : UInt8 := if 0x61 ≤ c ∧ c ≤ 0x7A then c - 32 else c

/-- `fat32_to_short_name`: up to eight characters before the last dot and up to three
after it, in upper case, padded with blanks. -/
def fat32ToShortName (name : CString) : ShortName :=
  let chars := name.val
  let dot := lastDot chars 0 none
  let nameLen := min 8 (dot.getD chars.length)
  let extLen := match dot with
    | some d => min 3 (chars.length - (d + 1))
    | none => 0
  fun j =>
    if j.val < nameLen then toUpper (chars.getD j.val 0)
    else if 8 ≤ j.val ∧ j.val < 8 + extLen then
      toUpper (chars.getD (dot.getD 0 + 1 + (j.val - 8)) 0)
    else 0x20

/-! ## Scanning the slots of a cluster -/

/-- How a scan ends: at an end mark, at a slot, or at the end of the cluster. -/
inductive Scan (β : Type)
  | stopped
  | found (slot : β)
  | exhausted
  deriving DecidableEq

/-- `for (i = 0; i < count; i++)` over the entries of a buffer: `stop` is the test that
ends the scan, `accept` the test that selects an entry. -/
def scanSlots (stop accept : Fat32Dirent → Bool) (buffer : Bytes) : Nat → Nat → Scan Nat
  | 0, _ => .exhausted
  | remaining + 1, i =>
    if stop (direntAt buffer (32 * i)) then .stopped
    else if accept (direntAt buffer (32 * i)) then .found i
    else scanSlots stop accept buffer remaining (i + 1)

/-- `g_fs.bytes_per_cluster / sizeof(fat32_dirent_t)`. -/
def entriesPerCluster (gFs : Fat32Fs) : Nat := (gFs.bytesPerCluster / sizeofDirent).toNat

/-- `entries[i].name[0] == 0x00`. -/
def atEnd (entry : Fat32Dirent) : Bool := entry.IsEnd

/-- Not skipped: neither `0xE5` nor a long-name entry. -/
def notSkipped (entry : Fat32Dirent) : Bool := ¬ entry.IsDeleted ∧ entry.attr ≠ fat32AttrLfn

/-- The entry `fat32_find_entry` looks for. -/
def named (shortName : ShortName) (entry : Fat32Dirent) : Bool :=
  notSkipped entry && decide (entry.name = shortName)

/-- The slot `fat32_create_entry` takes. -/
def reusable (entry : Fat32Dirent) : Bool := entry.IsEnd ∨ entry.IsDeleted

/-! ## `fat32_find_entry` -/

/-- The out-parameters of a successful `fat32_find_entry`. -/
structure FoundEntry where
  entry : Fat32Dirent
  entryCluster : UInt32
  entryOffset : UInt32

def fat32FindLoop (shortName : ShortName) :
    Nat → Fat32State → UInt32 → Option (Option FoundEntry × Fat32State)
  | 0, _, _ => none
  | fuel + 1, s, cluster =>
    if 2 ≤ cluster ∧ cluster < fat32EocMin ∧ cluster < s.gFs.totalClusters + 2 then
      match fat32ReadCluster s cluster with
      | (status, s) =>
        if status ≠ 0 then some (none, s)
        else
          match scanSlots atEnd (named shortName) s.clusterBuffer (entriesPerCluster s.gFs) 0 with
          | .stopped => some (none, s)
          | .found i =>
            some (some ⟨direntAt s.clusterBuffer (32 * i), cluster, UInt32.ofNat (32 * i)⟩, s)
          | .exhausted =>
            match fat32ReadFat s cluster with
            | (next, s) => fat32FindLoop shortName fuel s next
    else some (none, s)

/-- `fat32_find_entry`: no entry stands for the result -1. -/
def fat32FindEntry (fuel : Nat) (s : Fat32State) (dirCluster : UInt32) (name : CString) :
    Option (Option FoundEntry × Fat32State) :=
  fat32FindLoop (fat32ToShortName name) fuel s dirCluster

/-! ## `fat32_create_entry` -/

/-- `memset(&entries[i], 0, sizeof(fat32_dirent_t))` and the assignments after it. -/
def fillEntry (buffer : Bytes) (offset : Nat) (shortName : ShortName) (attr : UInt8)
    (firstCluster : UInt32) : Bytes :=
  let buffer := fill buffer offset 0 32
  let buffer := copy buffer offset (fun k => shortName (Fin.ofNat 11 k)) 11
  let buffer := fill buffer (offset + 11) attr 1
  let buffer := store16 buffer (offset + 26) (firstCluster &&& 0xFFFF).toUInt16
  store16 buffer (offset + 20) ((firstCluster >>> 16) &&& 0xFFFF).toUInt16

def fat32CreateLoop (shortName : ShortName) (attr : UInt8) (firstCluster : UInt32) :
    Nat → Fat32State → UInt32 → Option (Int32 × Fat32State)
  | 0, _, _ => none
  | fuel + 1, s, cluster =>
    if 2 ≤ cluster ∧ cluster < fat32EocMin then
      match fat32ReadCluster s cluster with
      | (status, s) =>
        if status ≠ 0 then some (-1, s)
        else
          match scanSlots (fun _ => false) reusable s.clusterBuffer (entriesPerCluster s.gFs) 0 with
          | .found i =>
            some (fat32WriteCluster { s with
              clusterBuffer := fillEntry s.clusterBuffer (32 * i) shortName attr firstCluster }
              cluster)
          | _ =>
            match fat32ReadFat s cluster with
            | (next, s) =>
              if fat32EocMin ≤ next then
                match fat32AllocCluster s with
                | (newCluster, s) =>
                  if newCluster = 0 then some (-1, s)
                  else
                    match fat32WriteFat s cluster newCluster with
                    | (_, s) =>
                      -- the new cluster is zeroed: all its slots are end marks
                      match fat32WriteCluster { s with
                        clusterBuffer := fill s.clusterBuffer 0 0 s.gFs.bytesPerCluster.toNat }
                        newCluster with
                      | (_, s) => fat32CreateLoop shortName attr firstCluster fuel s newCluster
              else fat32CreateLoop shortName attr firstCluster fuel s next
    else some (-1, s)

/-- `fat32_create_entry`. -/
def fat32CreateEntry (fuel : Nat) (s : Fat32State) (dirCluster : UInt32) (name : CString)
    (attr : UInt8) (firstCluster : UInt32) : Option (Int32 × Fat32State) :=
  fat32CreateLoop (fat32ToShortName name) attr firstCluster fuel s dirCluster

/-! ## `fat32_readdir` -/

/-- The characters `fat32_readdir` stores for a short name. -/
def readdirName (name : ShortName) : List UInt8 :=
  let chars := List.ofFn name
  let base := (chars.take 8).takeWhile (· ≠ 0x20)
  if name 8 ≠ 0x20 then base ++ 0x2E :: (chars.drop 8).takeWhile (· ≠ 0x20) else base

/-- The fields of `*info` assigned for an entry; the dates keep the caller's values. -/
def readdirInfo (entry : Fat32Dirent) (info : Fat32FileInfo) : Fat32FileInfo :=
  let chars := readdirName entry.name
  { info with
    name := chars ++ List.replicate (256 - chars.length) 0
    size := entry.fileSize
    attr := entry.attr
    firstCluster := entry.firstCluster }

/-- What a call of `fat32_readdir` leaves behind: its result, `*index` and `*info`. -/
structure ReaddirReply where
  status : Int32
  index : UInt32
  info : Fat32FileInfo
  deriving DecidableEq

/-- The loop that skips the clusters before `*index`. -/
def fat32SkipClusters : Nat → Fat32State → UInt32 → UInt32 × Fat32State
  | 0, s, cluster => (cluster, s)
  | skip + 1, s, cluster =>
    if 2 ≤ cluster then
      match fat32ReadFat s cluster with
      | (next, s) => fat32SkipClusters skip s next
    else (cluster, s)

def fat32ReaddirLoop (index : UInt32) (info : Fat32FileInfo) :
    Nat → Fat32State → UInt32 → Nat → Option (ReaddirReply × Fat32State)
  | 0, _, _, _ => none
  | fuel + 1, s, cluster, entryInCluster =>
    if 2 ≤ cluster ∧ cluster < fat32EocMin then
      match fat32ReadCluster s cluster with
      | (status, s) =>
        if status ≠ 0 then some (⟨-1, index, info⟩, s)
        else
          match scanSlots atEnd notSkipped s.clusterBuffer
            (entriesPerCluster s.gFs - entryInCluster) entryInCluster with
          | .stopped => some (⟨-1, index, info⟩, s)
          | .found i =>
            some (⟨0, index + 1, readdirInfo (direntAt s.clusterBuffer (32 * i)) info⟩, s)
          | .exhausted =>
            match fat32ReadFat s cluster with
            | (next, s) => fat32ReaddirLoop index info fuel s next 0
    else some (⟨-1, index, info⟩, s)

/-- `fat32_readdir` with pointers that are not null. -/
def fat32Readdir (fuel : Nat) (s : Fat32State) (cluster index : UInt32) (info : Fat32FileInfo) :
    Option (ReaddirReply × Fat32State) :=
  let perCluster := entriesPerCluster s.gFs
  match fat32SkipClusters (index.toNat / perCluster) s cluster with
  | (cluster, s) => fat32ReaddirLoop index info fuel s cluster (index.toNat % perCluster)

end QuantumKernel.Fat32
