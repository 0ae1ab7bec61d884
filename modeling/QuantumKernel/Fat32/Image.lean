import QuantumKernel.Fat32.CallSpec
import QuantumKernel.Fat32.FileSpec

/-! # Files as byte arrays

What a reader sees of a file that nobody writes: its recorded size, and the bytes of its
clusters.  `fat32_read` clips a read at the recorded size, but a count with which the end
of the range wraps is not clipped, and then the read goes on to the end of the clusters.
-/

namespace QuantumKernel.Fat32

open ByteStore LinkedTable

/-- The recorded size of a file, the bytes of its clusters, and how many these are. -/
structure FileImage where
  size : UInt32
  bytes : Bytes
  room : Nat
  size_le : size.toNat ≤ room

/-- How many bytes a read of `count` bytes at `position` delivers. -/
def FileImage.delivered (img : FileImage) (position count : UInt32) : Nat :=
  if img.size ≤ position then 0
  else
    min (if img.size < position + count then img.size - position else count).toNat
      (img.room - position.toNat)

/-- The clusters from `first` on hold the file. -/
def FileImage.HeldAt (img : FileImage) (g : Fat32Fs) (v : Volume) (first : UInt32) : Prop :=
  img.size = 0 ∨ ∃ l, FatChain g v first l ∧ img.room = l.length * g.bytesPerCluster.toNat ∧
    ∀ k, img.bytes k = v.byteAt g l k

/-- What the driver finds under a path in its current directory. -/
def Content (g : Fat32Fs) (cwd : UInt32) (v : Volume) (path : CString) (content : Option FileImage) : Prop :=
  ∃ l, FatChain g v cwd l ∧
    match content with
    | none => v.lookup (g.dirSlots l) (fat32ToShortName path) = none
    | some img => ∃ σ, v.lookup (g.dirSlots l) (fat32ToShortName path) = some σ ∧
        (v.dirent σ).fileSize = img.size ∧ img.HeldAt g v (v.dirent σ).firstCluster

/-- A handle through which the file is read. -/
structure Opened (g : Fat32Fs) (cwd : UInt32) (v : Volume) (img : FileImage) (s : Fat32State)
    (file : Fat32File) : Prop where
  stores : Stores g cwd v s
  isOpen : file.isOpen = true
  size : file.fileSize = img.size
  held : img.HeldAt g v file.firstCluster

variable {g : Fat32Fs} {cwd : UInt32} {v : Volume} {img : FileImage} {s : Fat32State} {file : Fat32File}
  {path : CString} {fuel : Nat} {position count size : UInt32} {buffer : Bytes}

theorem FileImage.delivered_le (img : FileImage) (position count : UInt32) :
    img.delivered position count ≤ count.toNat := by
  rw [FileImage.delivered]
  split
  · exact Nat.zero_le _
  · rename_i inside
    refine le_trans (Nat.min_le_left _ _) ?_
    split
    · rename_i clipped
      rw [UInt32.le_iff_toNat_le] at inside
      rw [UInt32.lt_iff_toNat_lt, UInt32.toNat_add] at clipped
      rw [UInt32.toNat_sub_of_le _ _ (UInt32.le_iff_toNat_le.mpr (by omega))]
      have bound := count.toNat_lt
      have sizes := img.size.toNat_lt
      omega
    · exact le_rfl

theorem FileImage.delivered_lt (img : FileImage) (position count : UInt32) :
    img.delivered position count < 4294967296 := lt_of_le_of_lt (img.delivered_le position count) count.toNat_lt

/-- Where the range does not wrap, a read stops at the recorded size. -/
theorem FileImage.delivered_eq (img : FileImage) (noWrap : position.toNat + count.toNat < 4294967296) :
    img.delivered position count = min count.toNat (img.size.toNat - position.toNat) := by
  have fits := img.size_le
  rw [FileImage.delivered]
  split
  · rename_i outside
    rw [UInt32.le_iff_toNat_le] at outside
    omega
  · rename_i inside
    rw [UInt32.le_iff_toNat_le] at inside
    have sum : (position + count).toNat = position.toNat + count.toNat := by
      rw [UInt32.toNat_add]
      omega
    have rest : (img.size - position).toNat = img.size.toNat - position.toNat :=
      UInt32.toNat_sub_of_le _ _ (UInt32.le_iff_toNat_le.mpr (by omega))
    split
    · rename_i clipped
      rw [UInt32.lt_iff_toNat_lt, sum] at clipped
      omega
    · rename_i whole
      rw [UInt32.lt_iff_toNat_lt, sum] at whole
      omega

/-- **`fat32_read` shows the image.** -/
theorem Opened.read (opened : Opened g cwd v img s file) (enough : 4294967296 ≤ fuel) (buffer : Bytes)
    (size : UInt32) :
    ∃ buffer' file' s', fat32Read fuel s file (some buffer) size =
        some ((UInt32.ofNat (img.delivered file.position size)).toInt32, some buffer', file', s') ∧
      Opened g cwd v img s' file' ∧
      ∀ k, buffer' k = if k < img.delivered file.position size then img.bytes (file.position.toNat + k)
        else buffer k := by
  obtain ⟨stores, isOpen, fileSize, held⟩ := opened
  by_cases atEnd : img.size ≤ file.position
  · -- at the end of the file nothing is read
    have none : img.delivered file.position size = 0 := if_pos atEnd
    refine ⟨buffer, file, s, ?_, ⟨stores, isOpen, fileSize, held⟩, fun k => ?_⟩
    · rw [fat32Read_end fuel isOpen (by rw [fileSize]; exact atEnd), none]
      simp
    · rw [none, if_neg (Nat.not_lt_zero k)]
  · cases held with
    | inl empty =>
      rw [empty] at atEnd
      exact absurd (UInt32.le_iff_toNat_le.mpr (Nat.zero_le _)) atEnd
    | inr held =>
      obtain ⟨l, chain, room, bytes⟩ := held
      have before : file.position < file.fileSize := by
        rw [fileSize]
        exact UInt32.not_le.mp atEnd
      -- the count of the loop, in the terms of the image
      have count : img.delivered file.position size =
          min (readCount file size).toNat (l.length * g.bytesPerCluster.toNat - file.position.toNat) := by
        rw [FileImage.delivered, if_neg atEnd, readCount, fileSize, room]
      obtain ⟨buffer', current, s', run, stores', copied⟩ := fat32Read_chain enough isOpen chain
        (by rw [fileSize, ← room]; exact img.size_le) before size count buffer stores
      refine ⟨buffer', _, s', run, ⟨stores', isOpen, fileSize, .inr ⟨l, chain, room, bytes⟩⟩, fun k => ?_⟩
      rw [copied k, bytes]

theorem Opened.seek (opened : Opened g cwd v img s file) (offset : UInt32) :
    fat32Seek file offset.toInt32 fat32SeekSet = (0, { file with position := offset }) ∧
      Opened g cwd v img s { file with position := offset } := by
  refine ⟨?_, opened.stores, opened.isOpen, opened.size, opened.held⟩
  rw [fat32Seek, if_neg (by simpa using opened.isOpen), if_pos rfl]
  rfl

/-- **`fat32_open` for reading finds the image.** -/
theorem Content.opened (content : Content g cwd v path (some img)) (enough : 4294967296 ≤ fuel)
    (file : Fat32File) (stores : Stores g cwd v s) :
    ∃ file' s', fat32Open fuel s file (some path) 0 = some (0, file', s') ∧
      file'.position = 0 ∧ Opened g cwd v img s' file' := by
  obtain ⟨l, chain, σ, found, size, held⟩ := content
  obtain ⟨s', run, stores'⟩ := fat32Open_found file enough chain found
    (Or.inl (show hasFlag 0 fat32OTrunc = false by decide)) stores
  exact ⟨_, s', run, rfl, stores', rfl, size, held⟩

theorem Content.missing (content : Content g cwd v path none) (enough : 4294967296 ≤ fuel)
    (file : Fat32File) (stores : Stores g cwd v s) :
    ∃ s', fat32Open fuel s file (some path) 0 = some (-1, Fat32File.zero, s') := by
  obtain ⟨l, chain, missing⟩ := content
  obtain ⟨s', run, -⟩ := fat32Open_missing file enough chain missing
    (show hasFlag 0 fat32OCreat = false by decide) stores
  exact ⟨s', run⟩

end QuantumKernel.Fat32
