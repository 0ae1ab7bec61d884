import QuantumKernel.Ata

/-! # Data types of the FAT32 driver

The structures of `fat32.h` and the static variables of `fat32.c`.  The C types keep
their widths; a `const char*` argument is a `CString`, and the eleven bytes of a
directory name are a `ShortName`.
-/

namespace QuantumKernel.Fat32

open ByteStore

def fat32SectorSize : UInt32 := 512

def fat32AttrDirectory : UInt8 := 0x10
def fat32AttrArchive : UInt8 := 0x20
def fat32AttrLfn : UInt8 := 0x0F

/-- `attr & FAT32_ATTR_DIRECTORY`. -/
def IsDirectoryAttr (attr : UInt8) : Prop := attr &&& fat32AttrDirectory ≠ 0

instance (attr : UInt8) : Decidable (IsDirectoryAttr attr) := inferInstanceAs (Decidable (_ ≠ _))

def fat32FreeCluster : UInt32 := 0x00000000
def fat32BadCluster : UInt32 := 0x0FFFFFF7
def fat32EocMin : UInt32 := 0x0FFFFFF8
def fat32EocMax : UInt32 := 0x0FFFFFFF

def fat32OCreat : UInt8 := 0x04
def fat32OTrunc : UInt8 := 0x08
def fat32OAppend : UInt8 := 0x10

def fat32SeekSet : UInt8 := 0
def fat32SeekCur : UInt8 := 1
def fat32SeekEnd : UInt8 := 2

/-- `sizeof(fat32_dirent_t)`. -/
def sizeofDirent : UInt32 := 32

/-- The characters of a NUL-terminated string, without the NUL. -/
def CString := { chars : List UInt8 // 0 ∉ chars }

/-- The eleven name bytes of a directory entry. -/
abbrev ShortName := Fin 11 → UInt8

-- One instance for the numerals that index a name.
instance ShortName.neZero : NeZero 11 := ⟨by decide⟩

/-- `fat32_dirent_t`. -/
@[ext] structure Fat32Dirent where
  name : ShortName
  attr : UInt8
  ntReserved : UInt8
  createTimeTenth : UInt8
  createTime : UInt16
  createDate : UInt16
  accessDate : UInt16
  firstClusterHigh : UInt16
  writeTime : UInt16
  writeDate : UInt16
  firstClusterLow : UInt16
  fileSize : UInt32

/-- `fat32_file_t`. -/
structure Fat32File where
  firstCluster : UInt32
  currentCluster : UInt32
  fileSize : UInt32
  position : UInt32
  dirCluster : UInt32
  dirEntryOffset : UInt32
  flags : UInt8
  isOpen : Bool
  attr : UInt8
  deriving DecidableEq

/-- A `fat32_file_t` after `memset(file, 0, sizeof(fat32_file_t))`. -/
def Fat32File.zero : Fat32File where
  firstCluster := 0
  currentCluster := 0
  fileSize := 0
  position := 0
  dirCluster := 0
  dirEntryOffset := 0
  flags := 0
  isOpen := false
  attr := 0

/-- `fat32_file_info_t`; `name` holds the 256 bytes of the character array. -/
@[ext] structure Fat32FileInfo where
  name : List UInt8
  size : UInt32
  attr : UInt8
  firstCluster : UInt32
  createDate : UInt16
  createTime : UInt16
  writeDate : UInt16
  writeTime : UInt16
  deriving DecidableEq

/-- The boot sector fields that the driver reads after mounting. -/
structure Fat32BootSector where
  fatSize32 : UInt32

/-- The FSInfo field that the driver uses. -/
structure Fat32Fsinfo where
  nextFree : UInt32

/-- `fat32_fs_t`. -/
structure Fat32Fs where
  boot : Fat32BootSector
  fsinfo : Fat32Fsinfo
  fatBeginLba : UInt32
  clusterBeginLba : UInt32
  rootDirFirstCluster : UInt32
  sectorsPerCluster : UInt32
  bytesPerCluster : UInt32
  totalClusters : UInt32
  numFats : UInt8

/-- The static variables of `fat32.c` and the drive behind them. -/
structure Fat32State where
  ata : AtaDrive
  gFs : Fat32Fs
  sectorBuffer : Bytes
  clusterBuffer : Bytes
  gCurrentDirCluster : UInt32

/-- `ata_read_sector(lba, sector_buffer)`. -/
def Fat32State.readSectorBuffer (s : Fat32State) (lba : UInt32) : AtaError × Fat32State :=
  match ataReadSector s.ata lba s.sectorBuffer with
  | (err, buffer, ata) => (err, { s with ata := ata, sectorBuffer := buffer })

/-- `ata_write_sector(lba, sector_buffer)`. -/
def Fat32State.writeSectorBuffer (s : Fat32State) (lba : UInt32) : AtaError × Fat32State :=
  match ataWriteSector s.ata lba s.sectorBuffer with
  | (err, ata) => (err, { s with ata := ata })

/-! ## Directory entries in a buffer -/

/-- The `fat32_dirent_t` stored at a byte offset. -/
def direntAt (buffer : Bytes) (offset : Nat) : Fat32Dirent where
  name := fun j => buffer (offset + j)
  attr := buffer (offset + 11)
  ntReserved := buffer (offset + 12)
  createTimeTenth := buffer (offset + 13)
  createTime := load16 buffer (offset + 14)
  createDate := load16 buffer (offset + 16)
  accessDate := load16 buffer (offset + 18)
  firstClusterHigh := load16 buffer (offset + 20)
  writeTime := load16 buffer (offset + 22)
  writeDate := load16 buffer (offset + 24)
  firstClusterLow := load16 buffer (offset + 26)
  fileSize := load32 buffer (offset + 28)

/-- `((uint32_t)entry.first_cluster_high << 16) | entry.first_cluster_low`. -/
def Fat32Dirent.firstCluster (entry : Fat32Dirent) : UInt32 :=
  (entry.firstClusterHigh.toUInt32 <<< 16) ||| entry.firstClusterLow.toUInt32

/-- The slot was never used: the directory ends here. -/
def Fat32Dirent.IsEnd (entry : Fat32Dirent) : Prop := entry.name 0 = 0x00

/-- The slot held an entry that was unlinked. -/
def Fat32Dirent.IsDeleted (entry : Fat32Dirent) : Prop := entry.name 0 = 0xE5

/-- A live entry: neither an end mark nor deleted nor part of a long name. -/
def Fat32Dirent.IsLive (entry : Fat32Dirent) : Prop :=
  entry.name 0 ≠ 0x00 ∧ entry.name 0 ≠ 0xE5 ∧ entry.attr ≠ fat32AttrLfn

instance (entry : Fat32Dirent) : Decidable entry.IsEnd := inferInstanceAs (Decidable (_ = _))
instance (entry : Fat32Dirent) : Decidable entry.IsDeleted := inferInstanceAs (Decidable (_ = _))
instance (entry : Fat32Dirent) : Decidable entry.IsLive := inferInstanceAs (Decidable (_ ∧ _ ∧ _))

/-- An entry is determined by the 32 bytes of its slot. -/
theorem direntAt_congr {buffer buffer' : Bytes} {offset offset' : Nat}
    (agree : ∀ k < 32, buffer (offset + k) = buffer' (offset' + k)) :
    direntAt buffer offset = direntAt buffer' offset' := by
  have half (k : Nat) (bound : k + 1 < 32) :
      load16 buffer (offset + k) = load16 buffer' (offset' + k) := by
    refine load16_congr fun j small => ?_
    rw [Nat.add_assoc, Nat.add_assoc]
    exact agree (k + j) (by omega)
  have word : load32 buffer (offset + 28) = load32 buffer' (offset' + 28) := by
    refine load32_congr fun j small => ?_
    rw [Nat.add_assoc, Nat.add_assoc]
    exact agree (28 + j) (by omega)
  have name : (direntAt buffer offset).name = (direntAt buffer' offset').name := by
    funext j
    exact agree j (by omega)
  simp only [direntAt] at name
  simp only [direntAt, name, word, agree 11 (by omega), agree 12 (by omega), agree 13 (by omega),
    half 14 (by omega), half 16 (by omega), half 18 (by omega), half 20 (by omega),
    half 22 (by omega), half 24 (by omega), half 26 (by omega)]

end QuantumKernel.Fat32
