import QuantumKernel.Library.BlockStore
import QuantumKernel.Fat32.Slots

/-! # Reading and writing the bytes of a chain

The clusters of a chain, one after the other, are a byte array (`Volume.byteAt`).
`fat32_read` copies a range of it, and `fat32_write` overwrites a range of it, growing
the chain where the range passes its end.
-/

namespace QuantumKernel.Fat32

open ByteStore LinkedTable BlockStore

/-- Byte `k` of the chain `l`. -/
def Volume.byteAt (g : Fat32Fs) (v : Volume) (l : List UInt32) (k : Nat) : UInt8 :=
  BlockStore.byteAt v.data g.bytesPerCluster.toNat l k

variable {g : Fat32Fs} {cwd : UInt32} {v v' : Volume} {s : Fat32State} {a c n : UInt32}
  {l l' : List UInt32} {file : Fat32File} {buffer data : Bytes} {i : Nat} {offset size : UInt32}

theorem Geometry.bytes_pos (geo : Geometry g) : 0 < g.bytesPerCluster.toNat := by
  have size := geo.bytes_toNat
  have positive := geo.sectors_pos
  omega

/-! ## One chunk -/

/-- The bytes moved in one round: up to the end of the cluster, and no more than asked. -/
def chunk (g : Fat32Fs) (offset size : UInt32) : UInt32 :=
  if size < g.bytesPerCluster - offset then size else g.bytesPerCluster - offset

theorem chunk_toNat (size : UInt32) (inside : offset.toNat < g.bytesPerCluster.toNat) :
    (chunk g offset size).toNat = min size.toNat (g.bytesPerCluster.toNat - offset.toNat) := by
  have rest : (g.bytesPerCluster - offset).toNat = g.bytesPerCluster.toNat - offset.toNat :=
    UInt32.toNat_sub_of_le _ _ (UInt32.le_iff_toNat_le.mpr (Nat.le_of_lt inside))
  rw [chunk]
  split
  · rename_i fewer
    rw [UInt32.lt_iff_toNat_lt, rest] at fewer
    omega
  · rename_i more
    rw [UInt32.lt_iff_toNat_lt, rest] at more
    omega

theorem sub_chunk_toNat (size : UInt32) (inside : offset.toNat < g.bytesPerCluster.toNat) :
    (size - chunk g offset size).toNat =
      size.toNat - min size.toNat (g.bytesPerCluster.toNat - offset.toNat) := by
  have count := chunk_toNat size inside
  rw [UInt32.toNat_sub_of_le, count]
  rw [UInt32.le_iff_toNat_le, count]
  omega

theorem Stores.chunk_eq (h : Stores g cwd v s) :
    (if size < s.gFs.bytesPerCluster - offset then size else s.gFs.bytesPerCluster - offset) =
      chunk g offset size := by
  rw [h.field_bytes, chunk]

/-! ## `fat32_read` -/

theorem fat32SkipClusters_frame (skip : Nat) (c : UInt32) (h : Stores g cwd v s) :
    ∃ c' s', fat32SkipClusters skip s c = (c', s') ∧ Stores g cwd v s' := by
  induction skip generalizing c s with
  | zero => exact ⟨c, s, rfl, h⟩
  | succ skip ih =>
    rw [fat32SkipClusters]
    split
    · obtain ⟨s₁, read, stores₁, -⟩ := fat32ReadFat_spec h c
      obtain ⟨c', s', run, stores⟩ := ih (v.fat c) stores₁
      exact ⟨c', s', by rw [read]; exact run, stores⟩
    · exact ⟨c, s, rfl, h⟩

/-- Skipping clusters inside a chain. -/
theorem fat32SkipClusters_spec (chain : FatChain g v a l) (skip : Nat) (bound : i + skip < l.length)
    (h : Stores g cwd v s) :
    ∃ s', fat32SkipClusters skip s l[i] = (l[i + skip], s') ∧ Stores g cwd v s' := by
  induction skip generalizing i s with
  | zero => exact ⟨s, rfl, h⟩
  | succ skip ih =>
    have inRange := chain.cell_of_mem _ (List.getElem_mem (by omega : i < l.length))
    obtain ⟨s₁, read, stores₁, -⟩ := fat32ReadFat_spec h l[i]
    rw [chain.next_getElem i (by omega)] at read
    obtain ⟨s', run, stores⟩ := ih (i := i + 1) (by omega) stores₁
    refine ⟨s', ?_, stores⟩
    rw [fat32SkipClusters, if_pos inRange.two_le, read]
    simp only [run, Nat.add_right_comm i 1 skip, Nat.add_assoc i skip 1]

/-- Reading changes nothing but the position of the handle, whatever chain it follows. -/
theorem fat32ReadLoop_frame {fuel : Nat} (file : Fat32File) (buffer : Bytes)
    (bytesRead size c offset : UInt32) (enough : size.toNat < fuel)
    (inside : offset.toNat < g.bytesPerCluster.toNat) (h : Stores g cwd v s) :
    ∃ bytesRead' buffer' position s',
      fat32ReadLoop fuel s file buffer bytesRead size c offset =
        some (bytesRead', buffer', { file with position := position }, s') ∧
      Stores g cwd v s' := by
  induction fuel generalizing s file buffer bytesRead size c offset with
  | zero => omega
  | succ fuel ih =>
    rw [fat32ReadLoop]
    split
    · rename_i go
      have positive : 0 < size.toNat := by simpa [UInt32.lt_iff_toNat_lt] using go.1
      have rest := sub_chunk_toNat size inside
      have blockPos := h.geometry.bytes_pos
      by_cases inRange : g.InRange c
      · obtain ⟨s₁, read, stores₁, -⟩ := fat32ReadCluster_spec h inRange
        rw [read]
        simp only [ne_eq, not_true_eq_false, if_false, stores₁.chunk_eq]
        split
        · obtain ⟨s₂, next, stores₂, -⟩ := fat32ReadFat_spec stores₁ c
          rw [next]
          obtain ⟨count, buffer', position, s', run, stores⟩ :=
            ih _ _ _ (size - chunk g offset size) _ 0 (by omega) blockPos stores₂
          exact ⟨count, buffer', position, s', run, stores⟩
        · obtain ⟨count, buffer', position, s', run, stores⟩ :=
            ih _ _ _ (size - chunk g offset size) _ 0 (by omega) blockPos stores₁
          exact ⟨count, buffer', position, s', run, stores⟩
      · rw [fat32ReadCluster_outside h inRange]
        exact ⟨bytesRead, buffer, file.position, s, rfl, h⟩
    · exact ⟨bytesRead, buffer, file.position, s, rfl, h⟩

/-- Reading along the chain, as far as it goes. -/
theorem fat32ReadLoop_chain {fuel : Nat} (file : Fat32File) (buffer : Bytes)
    (bytesRead size offset : UInt32) (chain : FatChain g v a l) (bound : i < l.length)
    (enough : size.toNat < fuel) (inside : offset.toNat < g.bytesPerCluster.toNat) {n : Nat}
    (count : n = min size.toNat
      (l.length * g.bytesPerCluster.toNat - (i * g.bytesPerCluster.toNat + offset.toNat)))
    (counts : bytesRead.toNat + size.toNat < 4294967296) (h : Stores g cwd v s) :
    ∃ buffer' s', fat32ReadLoop fuel s file buffer bytesRead size l[i] offset =
        some (bytesRead + UInt32.ofNat n, buffer',
          { file with position := file.position + UInt32.ofNat n }, s') ∧
      Stores g cwd v s' ∧
      ∀ k, buffer' k = if bytesRead.toNat ≤ k ∧ k < bytesRead.toNat + n then
          v.byteAt g l (i * g.bytesPerCluster.toNat + offset.toNat + (k - bytesRead.toNat))
        else buffer k := by
  induction fuel generalizing s file buffer bytesRead size i offset n with
  | zero => omega
  | succ fuel ih =>
    have blockPos := h.geometry.bytes_pos
    have clusters : (i + 1) * g.bytesPerCluster.toNat ≤ l.length * g.bytesPerCluster.toNat :=
      Nat.mul_le_mul_right _ bound
    rw [Nat.succ_mul] at clusters
    rw [fat32ReadLoop]
    by_cases empty : size = 0
    · subst empty
      obtain rfl : n = 0 := count.trans (Nat.zero_min _)
      refine ⟨buffer, s, ?_, h, fun k => ?_⟩
      · rw [if_neg fun go => absurd go.1 (by decide)]
        simp
      · rw [if_neg (by simp)]
    · have positive : 0 < size.toNat :=
        Nat.pos_of_ne_zero fun zero => empty (UInt32.toNat.inj zero)
      have inRange := chain.cell_of_mem _ (List.getElem_mem bound)
      have go : 0 < size ∧ 2 ≤ l[i] ∧ l[i] < fat32EocMin :=
        ⟨UInt32.lt_iff_toNat_lt.mpr positive, inRange.two_le, h.geometry.lt_eoc inRange⟩
      have part := chunk_toNat size inside
      have rest := sub_chunk_toNat size inside
      obtain ⟨s₁, read, stores₁, loaded⟩ := fat32ReadCluster_spec h inRange
      rw [if_pos go, read]
      simp only [ne_eq, not_true_eq_false, if_false, stores₁.chunk_eq]
      -- this round copies the first bytes of what is asked for
      have copied : copy buffer bytesRead.toNat (fun k => s₁.clusterBuffer (offset.toNat + k)) (chunk g offset size).toNat =
          copy buffer bytesRead.toNat (fun k => v.byteAt g l (i * g.bytesPerCluster.toNat + offset.toNat + k))
            (chunk g offset size).toNat := by
        refine copy_congr fun k small => ?_
        rw [Volume.byteAt, Nat.add_assoc, byteAt_block bound (by omega)]
        exact loaded _ (by omega)
      have zero : (0 : UInt32).toNat = 0 := rfl
      have total : (bytesRead + chunk g offset size).toNat =
          bytesRead.toNat + (chunk g offset size).toNat := by
        rw [UInt32.toNat_add]
        omega
      have sum {m : Nat} (split : n = (chunk g offset size).toNat + m) (x : UInt32) :
          x + chunk g offset size + UInt32.ofNat m = x + UInt32.ofNat n := by
        rw [split, UInt32.ofNat_add, UInt32.ofNat_toNat, UInt32.add_assoc]
      split
      · rename_i more
        rw [UInt32.lt_iff_toNat_lt, rest, zero] at more
        obtain ⟨s₂, next, stores₂, -⟩ := fat32ReadFat_spec stores₁ l[i]
        rw [next]
        cases FatChain.fat_getElem chain bound with
        | inl inside =>
          obtain ⟨later, cell⟩ := inside
          -- the number of bytes that the rest of the loop delivers
          obtain ⟨m, left⟩ : ∃ m, m = min (size - chunk g offset size).toNat
              (l.length * g.bytesPerCluster.toNat - ((i + 1) * g.bytesPerCluster.toNat + (0 : UInt32).toNat)) := ⟨_, rfl⟩
          obtain ⟨buffer', s', run, stores, bytes⟩ := ih
            { file with position := file.position + chunk g offset size }
            (copy buffer bytesRead.toNat
              (fun k => s₁.clusterBuffer (offset.toNat + k)) (chunk g offset size).toNat)
            (bytesRead + chunk g offset size) (size - chunk g offset size) 0 later (by omega) blockPos
            left (by rw [total, rest]; omega) stores₂
          have split : n = (chunk g offset size).toNat + m := by
            rw [left, rest, zero, Nat.succ_mul]
            omega
          refine ⟨buffer', s', ?_, stores, fun k => ?_⟩
          · rw [cell]
            simp only [run, sum split]
          · -- the rest of the loop copies the rest of the bytes
            have behind (j : Nat) : (i + 1) * g.bytesPerCluster.toNat + (0 : UInt32).toNat + j =
                i * g.bytesPerCluster.toNat + offset.toNat + ((chunk g offset size).toNat + j) := by
              rw [zero, Nat.succ_mul]
              omega
            have parts := congrFun (copy_copy buffer
              (fun j => v.byteAt g l (i * g.bytesPerCluster.toNat + offset.toNat + j)) bytesRead.toNat
              (chunk g offset size).toNat m) k
            rw [← copied] at parts
            rw [split]
            refine Eq.trans ?_ parts
            rw [bytes k, total]
            simp only [behind]
            rfl
        | inr ended =>
          obtain ⟨atEnd, stop⟩ := ended
          have last : n = (chunk g offset size).toNat := by
            rw [← atEnd, Nat.succ_mul] at count
            omega
          have stopped : ¬ (0 < size - chunk g offset size ∧ 2 ≤ v.fat l[i] ∧ v.fat l[i] < fat32EocMin) := by
            rintro ⟨-, -, below⟩
            exact absurd below (UInt32.not_lt.mpr stop)
          obtain ⟨fuel, rfl⟩ := Nat.exists_eq_succ_of_ne_zero (show fuel ≠ 0 by omega)
          refine ⟨copy buffer bytesRead.toNat (fun k => s₁.clusterBuffer (offset.toNat + k))
            (chunk g offset size).toNat, s₂, ?_, stores₂, fun k => ?_⟩
          · rw [fat32ReadLoop, if_neg stopped, last, UInt32.ofNat_toNat]
          · rw [copied, last]
            rfl
      · rename_i done
        rw [UInt32.lt_iff_toNat_lt, rest, zero] at done
        have last : n = (chunk g offset size).toNat := by omega
        obtain ⟨buffer', s', run, stores, bytes⟩ := ih
          { file with position := file.position + chunk g offset size }
          (copy buffer bytesRead.toNat
            (fun k => s₁.clusterBuffer (offset.toNat + k)) (chunk g offset size).toNat)
          (bytesRead + chunk g offset size) (size - chunk g offset size) 0 bound (by omega) blockPos
          (n := 0) (by omega) (by rw [total, rest]; omega) stores₁
        refine ⟨buffer', s', ?_, stores, fun k => ?_⟩
        · simp only [run, sum (m := 0) last]
        · rw [bytes k, total, if_neg (by omega), copied, last]
          rfl

/-- The number of bytes `fat32_read` delivers. -/
def readCount (file : Fat32File) (size : UInt32) : UInt32 :=
  if file.fileSize < file.position + size then file.fileSize - file.position else size

theorem readCount_toNat (before : file.position < file.fileSize)
    (noWrap : file.position.toNat + size.toNat < 4294967296) :
    (readCount file size).toNat =
      min (file.position.toNat + size.toNat) file.fileSize.toNat - file.position.toNat := by
  rw [UInt32.lt_iff_toNat_lt] at before
  have rest : (file.fileSize - file.position).toNat = file.fileSize.toNat - file.position.toNat :=
    UInt32.toNat_sub_of_le _ _ (UInt32.le_iff_toNat_le.mpr (Nat.le_of_lt before))
  have sum : (file.position + size).toNat = file.position.toNat + size.toNat := by
    rw [UInt32.toNat_add]
    omega
  rw [readCount]
  split
  · rename_i clipped
    rw [UInt32.lt_iff_toNat_lt, sum] at clipped
    omega
  · rename_i whole
    rw [UInt32.lt_iff_toNat_lt, sum] at whole
    omega

theorem Stores.position_split (h : Stores g cwd v s) (position : UInt32) :
    (position / s.gFs.bytesPerCluster).toNat = position.toNat / g.bytesPerCluster.toNat ∧
      (position % s.gFs.bytesPerCluster).toNat = position.toNat % g.bytesPerCluster.toNat ∧
      position.toNat / g.bytesPerCluster.toNat * g.bytesPerCluster.toNat +
        position.toNat % g.bytesPerCluster.toNat = position.toNat := by
  rw [h.field_bytes]
  refine ⟨UInt32.toNat_div _ _, UInt32.toNat_mod _ _, ?_⟩
  rw [Nat.mul_comm]
  exact Nat.div_add_mod _ _

/-- `fat32_read` changes nothing but the position and the cached cluster of its handle. -/
theorem fat32Read_frame {fuel : Nat} (file : Fat32File) (enough : 4294967296 ≤ fuel) (buffer : Option Bytes)
    (size : UInt32) (h : Stores g cwd v s) :
    ∃ count buffer' current position s', fat32Read fuel s file buffer size =
        some (count, buffer', { file with currentCluster := current, position := position }, s') ∧
      Stores g cwd v s' := by
  have small := fun x : UInt32 => x.toNat_lt
  cases buffer with
  | none => exact ⟨-1, none, _, _, s, rfl, h⟩
  | some buffer =>
    rw [fat32Read]
    split
    · exact ⟨-1, some buffer, _, _, s, rfl, h⟩
    · split
      · exact ⟨0, some buffer, _, _, s, rfl, h⟩
      · obtain ⟨cluster, s₁, skip, stores₁⟩ := fat32SkipClusters_frame
          (file.position / s.gFs.bytesPerCluster).toNat file.firstCluster h
        have inside := (h.position_split file.position).2.1
        have below := Nat.mod_lt file.position.toNat h.geometry.bytes_pos
        obtain ⟨count, buffer', position, s', run, stores⟩ := fat32ReadLoop_frame
          { file with currentCluster := cluster } buffer 0 (readCount file size) cluster
          (file.position % s.gFs.bytesPerCluster)
          (Nat.lt_of_lt_of_le (small _) enough) (by omega) stores₁
        have geoEq : s₁.gFs.bytesPerCluster = s.gFs.bytesPerCluster := by
          rw [stores₁.field_bytes, h.field_bytes]
        rw [readCount] at run
        simp only [skip, geoEq, run]
        exact ⟨count.toInt32, some buffer', cluster, position, s', rfl, stores⟩

/-- Reading inside a file whose chain is long enough for its size delivers the bytes that were
asked for, as far as the chain goes. -/
theorem fat32Read_chain {fuel : Nat} (enough : 4294967296 ≤ fuel) (opened : file.isOpen = true)
    (chain : FatChain g v file.firstCluster l)
    (room : file.fileSize.toNat ≤ l.length * g.bytesPerCluster.toNat)
    (before : file.position < file.fileSize) (size : UInt32) {n : Nat}
    (count : n = min (readCount file size).toNat
      (l.length * g.bytesPerCluster.toNat - file.position.toNat)) (buffer : Bytes)
    (h : Stores g cwd v s) :
    ∃ buffer' current s', fat32Read fuel s file (some buffer) size =
        some ((UInt32.ofNat n).toInt32, some buffer', { file with
          currentCluster := current
          position := file.position + UInt32.ofNat n }, s') ∧
      Stores g cwd v s' ∧
      ∀ k, buffer' k = if k < n then v.byteAt g l (file.position.toNat + k) else buffer k := by
  have small := fun x : UInt32 => x.toNat_lt
  obtain ⟨skipEq, offsetEq, place⟩ := h.position_split file.position
  have below := Nat.mod_lt file.position.toNat h.geometry.bytes_pos
  rw [UInt32.lt_iff_toNat_lt] at before
  -- the position lies in the clusters of the file
  have bound : 0 + file.position.toNat / g.bytesPerCluster.toNat < l.length := by
    rw [Nat.zero_add]
    refine Nat.div_lt_of_lt_mul ?_
    rw [Nat.mul_comm]
    omega
  obtain ⟨s₁, skip, stores₁⟩ := fat32SkipClusters_spec (i := 0) chain
    (file.position.toNat / g.bytesPerCluster.toNat) bound h
  have nonempty : 0 < l.length := by omega
  have head : l[0] = file.firstCluster := by
    obtain ⟨t, shape⟩ := chain.eq_cons
    simp only [shape, List.getElem_cons_zero]
  simp only [head, Nat.zero_add] at skip bound
  obtain ⟨buffer', s', run, stores, bytes⟩ := fat32ReadLoop_chain (n := n)
    { file with currentCluster := l[file.position.toNat / g.bytesPerCluster.toNat] } buffer 0
    (readCount file size) (file.position % s.gFs.bytesPerCluster) chain bound
    (Nat.lt_of_lt_of_le (small _) enough) (by omega) (by rw [offsetEq, place]; exact count)
    (by rw [show (0 : UInt32).toNat = 0 from rfl, Nat.zero_add]; exact small _) stores₁
  refine ⟨buffer', l[file.position.toNat / g.bytesPerCluster.toNat], s', ?_, stores, fun k => ?_⟩
  · have unread : ¬ file.fileSize ≤ file.position := by
      rw [UInt32.le_iff_toNat_le]
      omega
    have geoEq : s₁.gFs.bytesPerCluster = s.gFs.bytesPerCluster := by
      rw [stores₁.field_bytes, h.field_bytes]
    rw [fat32Read, if_neg (by simpa using opened), if_neg unread]
    simp only [skipEq, skip, geoEq]
    rw [← readCount]
    simp only [run, UInt32.zero_add]
    rfl
  · rw [bytes k, show (0 : UInt32).toNat = 0 from rfl, offsetEq, place]
    simp only [Nat.zero_le, true_and, Nat.zero_add, Nat.sub_zero]

/-- Reading a range that does not wrap. -/
theorem fat32Read_spec {fuel : Nat} (enough : 4294967296 ≤ fuel) (opened : file.isOpen = true)
    (chain : FatChain g v file.firstCluster l)
    (room : file.fileSize.toNat ≤ l.length * g.bytesPerCluster.toNat)
    (before : file.position < file.fileSize)
    (noWrap : file.position.toNat + size.toNat < 4294967296) (buffer : Bytes)
    (h : Stores g cwd v s) :
    ∃ buffer' current s', fat32Read fuel s file (some buffer) size =
        some ((readCount file size).toInt32, some buffer', { file with
          currentCluster := current
          position := file.position + readCount file size }, s') ∧
      Stores g cwd v s' ∧
      ∀ k, buffer' k = if k < (readCount file size).toNat then
          v.byteAt g l (file.position.toNat + k) else buffer k := by
  have count := readCount_toNat before noWrap
  have inside := UInt32.lt_iff_toNat_lt.mp before
  have whole := fat32Read_chain (n := (readCount file size).toNat) enough opened chain room before
    size (by omega) buffer h
  rwa [UInt32.ofNat_toNat] at whole

/-- At or past the end of the file nothing is read. -/
theorem fat32Read_end (fuel : Nat) (opened : file.isOpen = true)
    (atEnd : file.fileSize ≤ file.position) (buffer : Bytes) (size : UInt32) :
    fat32Read fuel s file (some buffer) size = some (0, some buffer, file, s) := by
  rw [fat32Read, if_neg (by simpa using opened), if_pos atEnd]

end QuantumKernel.Fat32
