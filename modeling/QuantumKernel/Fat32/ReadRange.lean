import QuantumKernel.Fat32.ByteRuns
import QuantumKernel.Fat32.Layout

/-! # Where `fat32_read` stops

`fat32_read` is asked for a range and delivers the part of it that lies in the file.  The sum of
the position and the size is a 32-bit one, and when it wraps the size is not cut off at the end of
the file: the loop then copies until the chain ends.
-/

namespace QuantumKernel.Fat32

open ByteStore LinkedTable

variable {g : Fat32Fs} {cwd : UInt32} {v : Volume} {s : Fat32State} {l : List UInt32} {file : Fat32File}
  {size : UInt32} {fuel : Nat}

/-- The bytes of the range that lie in the file, in exact arithmetic. -/
def rangeCount (file : Fat32File) (size : UInt32) : Nat :=
  min size.toNat (file.fileSize.toNat - file.position.toNat)

/-- The result is the exact count, the position moves by it, and the buffer beyond it is left
alone. -/
def ReadsRange (fuel : Nat) (s : Fat32State) (file : Fat32File) (size : UInt32) : Prop :=
  ∀ buffer : Bytes, ∃ status buffer' file' s', fat32Read fuel s file (some buffer) size =
      some (status, some buffer', file', s') ∧
    status.toInt = rangeCount file size ∧
    file'.position.toNat = file.position.toNat + rangeCount file size ∧
    ∀ k, rangeCount file size ≤ k → buffer' k = buffer k

/-- The sum that `fat32_read` compares with the size of the file does not wrap, or its outcome does
not matter. -/
def RangeInside (g : Fat32Fs) (l : List UInt32) (file : Fat32File) (size : UInt32) : Prop :=
  rangeCount file size < 2147483648 ∧
    (file.fileSize ≤ file.position ∨ file.position.toNat + size.toNat < 4294967296 ∨
      file.fileSize.toNat = l.length * g.bytesPerCluster.toNat)

instance (file : Fat32File) (size : UInt32) : Decidable (RangeInside g l file size) :=
  inferInstanceAs (Decidable (_ ∧ _))

/-- A byte count as an `int`. -/
theorem toInt_count_iff {n m : Nat} (small : n < 4294967296) :
    (UInt32.ofNat n).toInt32.toInt = m ↔ n = m ∧ m < 2147483648 := by
  constructor
  · intro same
    have value : (UInt32.ofNat n).toInt32.toInt = (BitVec.ofNat 32 n).toInt := rfl
    rw [value, BitVec.toInt_eq_toNat_cond, BitVec.toNat_ofNat, Nat.mod_eq_of_lt small] at same
    split at same
    · omega
    · omega
  · rintro ⟨rfl, bound⟩
    exact toInt_count bound

/-- When the sum wraps, nothing is cut off. -/
theorem readCount_wrap (wraps : 4294967296 ≤ file.position.toNat + size.toNat)
    (before : file.position < file.fileSize) : readCount file size = size := by
  have position := file.position.toNat_lt
  have asked := size.toNat_lt
  rw [UInt32.lt_iff_toNat_lt] at before
  rw [readCount, if_neg]
  rw [UInt32.lt_iff_toNat_lt, UInt32.toNat_add]
  omega

/-- **Reads do not pass the end of the file exactly when the range does not wrap.** -/
theorem readsRange_iff (enough : 4294967296 ≤ fuel) (stores : Stores g cwd v s) (opened : file.isOpen = true)
    (starts : file.firstCluster = 0 ∧ l = [] ∨ FatChain g v file.firstCluster l)
    (room : file.fileSize.toNat ≤ l.length * g.bytesPerCluster.toNat) :
    ReadsRange fuel s file size ↔ RangeInside g l file size := by
  have sizeLt := size.toNat_lt
  have fileLt := file.fileSize.toNat_lt
  by_cases atEnd : file.fileSize ≤ file.position
  · have nothing : rangeCount file size = 0 := by
      rw [UInt32.le_iff_toNat_le] at atEnd
      rw [rangeCount]
      omega
    refine ⟨fun _ => ⟨by omega, Or.inl atEnd⟩, fun _ buffer => ?_⟩
    refine ⟨0, buffer, file, s, fat32Read_end fuel opened atEnd buffer size, ?_, ?_, fun k _ => rfl⟩
    · rw [nothing]
      rfl
    · rw [nothing, Nat.add_zero]
  · have before := UInt32.not_le.mp atEnd
    have lt := UInt32.lt_iff_toNat_lt.mp before
    have chain : FatChain g v file.firstCluster l := by
      rcases starts with ⟨-, rfl⟩ | chain
      · simp only [List.length_nil, Nat.zero_mul] at room
        omega
      · exact chain
    -- what the code delivers
    obtain ⟨n, count⟩ : ∃ n, n = min (readCount file size).toNat
        (l.length * g.bytesPerCluster.toNat - file.position.toNat) := ⟨_, rfl⟩
    have delivered (buffer : Bytes) := fat32Read_chain (n := n) enough opened chain room before size count
      buffer stores
    have exact_ : n = rangeCount file size ↔ file.position.toNat + size.toNat < 4294967296 ∨
        file.fileSize.toNat = l.length * g.bytesPerCluster.toNat := by
      rw [rangeCount]
      by_cases wraps : file.position.toNat + size.toNat < 4294967296
      · have cut := readCount_toNat before wraps
        omega
      · rw [readCount_wrap (Nat.not_lt.mp wraps) before] at count
        omega
    have bound : rangeCount file size < 4294967296 := lt_of_le_of_lt (Nat.min_le_left _ _) sizeLt
    constructor
    · intro reads
      obtain ⟨status, buffer', file', s', run, result, -⟩ := reads fun _ => 0
      obtain ⟨buffer₁, current, s₁, run₁, -⟩ := delivered fun _ => 0
      rw [run₁] at run
      cases run
      have nBound : n < 4294967296 := by
        have upper := (readCount file size).toNat_lt
        omega
      obtain ⟨same, small⟩ := (toInt_count_iff nBound).mp result
      exact ⟨small, Or.inr (exact_.mp same)⟩
    · rintro ⟨small, inside⟩ buffer
      have same := exact_.mpr (inside.resolve_left atEnd)
      obtain ⟨buffer', current, s', run, -, bytes⟩ := delivered buffer
      rw [same] at run bytes
      refine ⟨_, buffer', _, s', run, toInt_count small, ?_, fun k beyond => ?_⟩
      · rw [UInt32.toNat_add, UInt32.toNat_ofNat']
        rw [rangeCount] at bound ⊢
        omega
      · rw [bytes k, if_neg (by omega)]

/-- Files of one cluster. -/
def oneClusterState : Fat32State :=
  mountedOn smallFs (smallDrive (fun c => if c = 2 ∨ c = 3 then fat32EocMax else 0) fun _ _ => 0)

/-- An open file of five bytes, after a seek to position 1. -/
def fiveBytes : Fat32File := { Fat32File.zero with firstCluster := 3, fileSize := 5, position := 1, isOpen := true }

theorem fiveBytes_chain : FatChain smallFs oneClusterState.volume 3 [3] :=
  .last (by decide) (by decide +kernel)

theorem readsRange_fiveBytes : ReadsRange 4294967296 oneClusterState fiveBytes 100 := by
  have inside : RangeInside smallFs [3] fiveBytes 100 := by decide
  have stores : Stores smallFs 2 oneClusterState.volume oneClusterState :=
    Stores.of_geometry (s := oneClusterState) smallFs_geometry fun _ => rfl
  exact (readsRange_iff (le_refl _) stores rfl (Or.inr fiveBytes_chain) (by decide)).mpr inside

/-- A read of 2^32 - 1 bytes from position 1 delivers the 511 bytes up to the end of the cluster. -/
theorem reads_past_end :
    rangeCount fiveBytes 0xFFFFFFFF = 4 ∧
    (fat32Read 4294967296 oneClusterState fiveBytes (some fun _ => 0x41) 0xFFFFFFFF).map
      (fun result => (result.1, result.2.1.map fun buffer => (buffer 3, buffer 4, buffer 510))) =
      some (511, some (0, 0, 0)) ∧
    ¬ ReadsRange 4294967296 oneClusterState fiveBytes 0xFFFFFFFF := by
  refine ⟨by decide, by decide +kernel, fun reads => ?_⟩
  obtain ⟨status, buffer', file', s', run, result, -⟩ := reads fun _ => 0x41
  have delivered : (fat32Read 4294967296 oneClusterState fiveBytes (some fun _ => 0x41) 0xFFFFFFFF).map
      (fun result => result.1) = some 511 := by decide +kernel
  rw [run] at delivered
  cases delivered
  exact absurd result (by decide)

end QuantumKernel.Fat32
