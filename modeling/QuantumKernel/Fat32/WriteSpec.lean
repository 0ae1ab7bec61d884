import QuantumKernel.Fat32.FileSpec

/-! # Writing the bytes of a chain

The specification of `fat32_write`.  One round overwrites a range inside a cluster,
whether or not the cluster was read first; between rounds the chain may grow.  Rounds
compose by `WroteRange.trans`, so that the loop as a whole overwrites one range.
-/

namespace QuantumKernel.Fat32

open ByteStore LinkedTable BlockStore

/-- The chain of `a` grew from `l` to `l'`, and its bytes from `start` on were replaced
by the first `n` bytes of `source`. -/
structure WroteRange (g : Fat32Fs) (v v' : Volume) (a : UInt32) (l l' : List UInt32) (start : Nat)
    (source : Bytes) (n : Nat) : Prop where
  grown : Grown g v v' a l l'
  room : n ≠ 0 → start + n ≤ l'.length * g.bytesPerCluster.toNat
  bytes : ∀ k < l'.length * g.bytesPerCluster.toNat, v'.byteAt g l' k =
    if start ≤ k ∧ k < start + n then source (k - start) else v.byteAt g l' k

/-- The handle moved by `n` bytes, and its file size covers them; the cached cluster may
have changed. -/
structure Advanced (file file' : Fat32File) (n : Nat) : Prop where
  position : file'.position = file.position + UInt32.ofNat n
  rest : file' = { file with
    position := file'.position, fileSize := file'.fileSize, currentCluster := file'.currentCluster }
  grows : file.fileSize ≤ file'.fileSize
  size : file.position.toNat + n < 4294967296 → file'.fileSize.toNat =
    if n = 0 then file.fileSize.toNat else max file.fileSize.toNat (file.position.toNat + n)

variable {g : Fat32Fs} {cwd : UInt32} {v v' w : Volume} {s : Fat32State} {a c : UInt32}
  {l l' l'' : List UInt32} {file file' file'' : Fat32File} {source data : Bytes} {i n m start : Nat}
  {offset size : UInt32}

/-! ## Ranges compose -/

theorem WroteRange.of_grown (start : Nat) (source : Bytes) (grown : Grown g v v' a l l') (same : v'.data = v.data) :
    WroteRange g v v' a l l' start source 0 where
  grown := grown
  room := fun nonzero => absurd rfl nonzero
  bytes := by
    intro k _
    rw [if_neg (by omega), Volume.byteAt, Volume.byteAt, same]

theorem Grown.trans_byteAt (geo : Geometry g) (first : Grown g v v' a l l') (extension : l' <+: l'')
    (nodup : l''.Nodup) {k : Nat} (past : l'.length * g.bytesPerCluster.toNat ≤ k) :
    v'.byteAt g l'' k = v.byteAt g l'' k := by
  refine byteAt_congr fun c found => first.data c fun member => ?_
  -- the cluster of a byte past `l'` lies behind `l'`
  obtain ⟨t, rfl⟩ := extension
  have index : l'.length ≤ k / g.bytesPerCluster.toNat :=
    (Nat.le_div_iff_mul_le geo.bytes_pos).mpr past
  rw [List.getElem?_append_right index] at found
  exact (List.nodup_append.mp nodup).2.2 c member c (List.mem_of_getElem? found) rfl

theorem WroteRange.trans (geo : Geometry g) (first : WroteRange g v v' a l l' start source n)
    (second : WroteRange g v' w a l' l'' (start + n) (fun k => source (n + k)) m) :
    WroteRange g v w a l l'' start source (n + m) where
  grown := first.grown.trans second.grown
  room := by
    intro _
    have longer := Nat.mul_le_mul_right g.bytesPerCluster.toNat second.grown.extends_.length_le
    have room₁ := first.room
    have room₂ := second.room
    omega
  bytes := by
    intro k bound
    have nodup := second.grown.chain.nodup geo.excl
    rw [second.bytes k bound]
    by_cases later : start + n ≤ k ∧ k < start + n + m
    · rw [if_pos later, if_pos (by omega)]
      congr 1
      omega
    · rw [if_neg later]
      by_cases old : k < l'.length * g.bytesPerCluster.toNat
      · have before := first.bytes k old
        rw [Volume.byteAt, byteAt_prefix second.grown.extends_ old, ← Volume.byteAt, before]
        by_cases written : start ≤ k ∧ k < start + n
        · rw [if_pos written, if_pos (by omega)]
        · rw [if_neg written, if_neg (by omega), Volume.byteAt, Volume.byteAt,
            byteAt_prefix second.grown.extends_ old]
      · have room := first.room
        rw [if_neg (by omega)]
        exact first.grown.trans_byteAt geo second.grown.extends_ nodup (by omega)

theorem Advanced.refl (file : Fat32File) : Advanced file file 0 where
  position := by simp
  rest := rfl
  grows := UInt32.le_refl _
  size := fun _ => rfl

theorem Advanced.trans (first : Advanced file file' n) (second : Advanced file' file'' m) :
    Advanced file file'' (n + m) where
  position := by
    rw [second.position, first.position, UInt32.ofNat_add, UInt32.add_assoc]
  rest := by
    rw [second.rest, first.rest]
  grows := UInt32.le_trans first.grows second.grows
  size := by
    intro noWrap
    have position : file'.position.toNat = file.position.toNat + n := by
      rw [first.position, UInt32.toNat_add, UInt32.toNat_ofNat']
      omega
    have size₁ := first.size (by omega)
    have size₂ := second.size (by omega)
    rw [position, size₁] at size₂
    rw [size₂]
    by_cases zeroN : n = 0
    · by_cases zeroM : m = 0
      · simp [zeroN, zeroM]
      · simp [zeroN, zeroM]
    · by_cases zeroM : m = 0
      · simp [zeroN, zeroM]
      · simp only [zeroN, zeroM, if_false]
        rw [if_neg (by omega)]
        omega

/-- The assignments to the handle in one round of the loop. -/
def Fat32File.advance (file : Fat32File) (count : UInt32) : Fat32File :=
  let file := { file with position := file.position + count }
  if file.fileSize < file.position then { file with fileSize := file.position } else file

theorem Fat32File.advance_advanced (file : Fat32File) (count : UInt32) (positive : 0 < count.toNat) :
    Advanced file (file.advance count) count.toNat := by
  have ofNat : UInt32.ofNat count.toNat = count := UInt32.ofNat_toNat
  simp only [Fat32File.advance]
  split
  · rename_i below
    refine ⟨by rw [ofNat], rfl, UInt32.le_of_lt below, fun noWrap => ?_⟩
    have sum : (file.position + count).toNat = file.position.toNat + count.toNat := by
      rw [UInt32.toNat_add]
      omega
    rw [UInt32.lt_iff_toNat_lt, sum] at below
    rw [if_neg (by omega)]
    simp only [sum]
    omega
  · rename_i above
    refine ⟨by rw [ofNat], rfl, UInt32.le_refl _, fun noWrap => ?_⟩
    have sum : (file.position + count).toNat = file.position.toNat + count.toNat := by
      rw [UInt32.toNat_add]
      omega
    have covered : ¬ file.fileSize < file.position + count := above
    rw [UInt32.lt_iff_toNat_lt, sum] at covered
    rw [if_neg (by omega)]
    change file.fileSize.toNat = max file.fileSize.toNat _
    omega

/-! ## One round -/

/-- A round stores its bytes in the cluster; a round that does not read the cluster
first overwrites all of it. -/
theorem writeRound_spec (size : UInt32) (h : Stores g cwd v s) (inRange : g.InRange c)
    (inside : offset.toNat < g.bytesPerCluster.toNat) (source : Bytes) :
    ∃ s₁ s₂, (if 0 < offset ∨ size < s.gFs.bytesPerCluster then fat32ReadCluster s c else (0, s)) =
        (0, s₁) ∧
      Stores g cwd v s₁ ∧
      fat32WriteCluster { s₁ with
        clusterBuffer := copy s₁.clusterBuffer offset.toNat source (chunk g offset size).toNat } c =
          (0, s₂) ∧
      Stores g cwd
        (v.setData c (copy (v.data c) offset.toNat source (chunk g offset size).toNat)) s₂ := by
  have count := chunk_toNat size inside
  -- a round that fills the whole cluster does not read it first
  by_cases partly : 0 < offset ∨ size < s.gFs.bytesPerCluster
  · obtain ⟨s₁, read, stores₁, loaded⟩ := fat32ReadCluster_spec h inRange
    obtain ⟨s₂, write, stores₂, -⟩ := fat32WriteCluster_spec (stores₁.withBuffer
      (copy s₁.clusterBuffer offset.toNat source (chunk g offset size).toNat)) inRange
    refine ⟨s₁, s₂, by rw [if_pos partly, read], stores₁, write, ?_⟩
    have isLocal : LocalEdit (fun b => copy b offset.toNat source (chunk g offset size).toNat)
        offset.toNat (offset.toNat + (chunk g offset size).toNat) :=
      LocalEdit.copy (Nat.le_refl _) (Nat.le_refl _)
    have clipped := h.clip_edit isLocal (by omega) loaded
    simp only at clipped stores₂
    rw [clipped] at stores₂
    exact stores₂
  · obtain ⟨s₂, write, stores₂, -⟩ := fat32WriteCluster_spec (h.withBuffer
      (copy s.clusterBuffer offset.toNat source (chunk g offset size).toNat)) inRange
    refine ⟨s, s₂, by rw [if_neg partly], h, write, ?_⟩
    rw [h.field_bytes, not_or, UInt32.lt_iff_toNat_lt, UInt32.lt_iff_toNat_lt] at partly
    have start : offset.toNat = 0 := Nat.eq_zero_of_not_pos partly.1
    have whole : (chunk g offset size).toNat = g.bytesPerCluster.toNat := by omega
    have clipped : g.clip (copy s.clusterBuffer offset.toNat source (chunk g offset size).toNat) =
        copy (v.data c) offset.toNat source (chunk g offset size).toNat := by
      rw [start, whole, ← h.clip_data c]
      funext k
      by_cases bound : k < g.bytesPerCluster.toNat
      · rw [Fat32Fs.clip_of_lt bound, copy_inside (by omega) (by omega),
          copy_inside (by omega) (by omega)]
      · rw [copy_outside (by omega)]
        simp only [Fat32Fs.clip, if_neg bound]
    simp only at stores₂
    rw [clipped] at stores₂
    exact stores₂

theorem WroteRange.round (size : UInt32) (geo : Geometry g) (chain : FatChain g v a l) (bound : i < l.length)
    (inside : offset.toNat < g.bytesPerCluster.toNat) (source : Bytes) :
    WroteRange g v
      (v.setData l[i] (copy (v.data l[i]) offset.toNat source (chunk g offset size).toNat)) a l l
      (i * g.bytesPerCluster.toNat + offset.toNat) source (chunk g offset size).toNat := by
  have count := chunk_toNat size inside
  refine ⟨Grown.setData chain (List.getElem_mem bound) _, ?_, fun k _ => ?_⟩
  · intro _
    have rows : (i + 1) * g.bytesPerCluster.toNat ≤ l.length * g.bytesPerCluster.toNat :=
      Nat.mul_le_mul_right _ bound
    rw [Nat.succ_mul] at rows
    omega
  · exact byteAt_write (chain.nodup geo.excl) bound (by omega) source

/-! ## The loops of `fat32_write` -/

theorem fat32WriteLoop_done {fuel : Nat} (enough : 0 < fuel) (file : Fat32File)
    (bytesWritten cluster offset : UInt32) :
    fat32WriteLoop data fuel s file bytesWritten 0 cluster offset = some (bytesWritten, file, s) := by
  obtain ⟨fuel, rfl⟩ : ∃ k, fuel = k + 1 := ⟨fuel - 1, by omega⟩
  rw [fat32WriteLoop, if_neg fun go => absurd go.1 (by decide)]

theorem fat32WriteSkip_spec (skip : Nat) (chain : FatChain g v a l) (bound : i < l.length)
    (h : Stores g cwd v s) :
    ∃ r s' v' l', fat32WriteSkip skip s l[i] = (r, s') ∧ Stores g cwd v' s' ∧
      Grown g v v' a l l' ∧ v'.data = v.data ∧ l'.length ≤ max l.length (i + skip + 1) ∧
      (r = none ∧ l'.length ≤ i + skip ∧ v'.Full g ∨
        ∃ inside : i + skip < l'.length, r = some l'[i + skip]) := by
  induction skip generalizing i v l s with
  | zero =>
    exact ⟨some l[i], s, v, l, rfl, h, Grown.refl chain, rfl, le_max_left _ _, Or.inr ⟨bound, rfl⟩⟩
  | succ skip ih =>
    have inRange := chain.cell_of_mem _ (List.getElem_mem bound)
    obtain ⟨r, s₁, v₁, l₁, next, stores₁, grown₁, data₁, tight₁, result⟩ := fat32NextOrAppend_spec chain bound h
    rw [fat32WriteSkip, if_pos inRange.two_le, next]
    rcases result with ⟨rfl, atEnd, full⟩ | ⟨later, rfl⟩
    · exact ⟨none, s₁, v₁, l₁, rfl, stores₁, grown₁, data₁, by omega, Or.inl ⟨rfl, by omega, full⟩⟩
    · obtain ⟨r, s', v', l', run, stores, grown, data, tight, result⟩ := ih grown₁.chain later stores₁
      refine ⟨r, s', v', l', run, stores, grown₁.trans grown, data.trans data₁, by omega, ?_⟩
      rw [Nat.add_right_comm, Nat.add_assoc i skip 1] at result
      exact result

/-- How far a write of `size` bytes at `start` gets, and what it takes: it stops early only when the
chain is used up and no cluster is free, and it appends no cluster that it does not write to. -/
structure Extent (g : Fat32Fs) (v : Volume) (l l' : List UInt32) (start n size : Nat) : Prop where
  stuck : n < size → l'.length * g.bytesPerCluster.toNat ≤ start + n ∧ v.Full g
  tight : 0 < size → l.length < l'.length → (l'.length - 1) * g.bytesPerCluster.toNat < start + size

/-- The positions at which a write of `n` bytes at `start` compares the file size, modulo 2^32, are
at most `x`. -/
def Reaches (block start n x : Nat) : Prop :=
  ∀ e, start < e → e ≤ start + n → (block ∣ e ∨ e = start + n) → e % 4294967296 ≤ x

theorem reaches_zero (block start x : Nat) : Reaches block start 0 x := fun _ after upTo _ => by omega

/-- One round ends at most at the end of its cluster. -/
theorem reaches_round {block count x : Nat} (positive : 0 < count)
    (low : i * block ≤ start) (few : start + count ≤ i * block + block) :
    Reaches block start count x ↔ (start + count) % 4294967296 ≤ x := by
  constructor
  · intro reaches
    exact reaches (start + count) (by omega) (Nat.le_refl _) (Or.inr rfl)
  · intro bound e after upTo atEnd
    rcases atEnd with ⟨k, rfl⟩ | rfl
    · -- the only multiple is the end of the cluster
      have next : i < k := by
        by_contra below
        have rows := Nat.mul_le_mul_left block (Nat.not_lt.mp below)
        rw [Nat.mul_comm block i] at rows
        omega
      have rows := Nat.mul_le_mul_left block next
      rw [Nat.mul_succ, Nat.mul_comm block i] at rows
      rwa [show block * k = start + count by omega]
    · exact bound

/-- A round to the end of its cluster, and the rounds after it. -/
theorem reaches_trans {block count x : Nat} (positive : 0 < count) (low : i * block ≤ start)
    (full : start + count = i * block + block) :
    Reaches block start (count + n) x ↔
      (start + count) % 4294967296 ≤ x ∧ Reaches block (start + count) n x := by
  constructor
  · intro reaches
    refine ⟨reaches (start + count) (by omega) (by omega) (Or.inl ⟨i + 1, ?_⟩), fun e after upTo atEnd => ?_⟩
    · rw [full, Nat.mul_succ, Nat.mul_comm]
    · exact reaches e (by omega) (by omega) (by rwa [← Nat.add_assoc])
  · rintro ⟨first, rest⟩ e after upTo atEnd
    by_cases here : e ≤ start + count
    · have round := (reaches_round (x := x) positive low (by omega)).mpr first
      rcases atEnd with multiple | last
      · exact round e after here (Or.inl multiple)
      · exact round e after here (Or.inr (by omega))
    · exact rest e (by omega) (by omega) (by rwa [Nat.add_assoc])

/-- The file size after a write is the largest of the old one and the positions it was compared
with. -/
def Sized (g : Fat32Fs) (start : Nat) (file file' : Fat32File) (n : Nat) : Prop :=
  file.position.toNat = start % 4294967296 → ∀ x, file'.fileSize.toNat ≤ x ↔
    file.fileSize.toNat ≤ x ∧ Reaches g.bytesPerCluster.toNat start n x

theorem Fat32File.advance_position (file : Fat32File) (count : UInt32) :
    (file.advance count).position = file.position + count := by
  rw [Fat32File.advance]
  split <;> rfl

theorem Fat32File.advance_fileSize_le (file : Fat32File) (count : UInt32) (x : Nat) :
    (file.advance count).fileSize.toNat ≤ x ↔ file.fileSize.toNat ≤ x ∧ (file.position + count).toNat ≤ x := by
  rw [Fat32File.advance]
  split
  · rename_i below
    have less := UInt32.lt_iff_toNat_lt.mp below
    simp only at less ⊢
    omega
  · rename_i above
    have most := UInt32.le_iff_toNat_le.mp (UInt32.not_lt.mp above)
    simp only at most ⊢
    omega

theorem fat32WriteLoop_spec {fuel : Nat} (data : Bytes) (file : Fat32File)
    (bytesWritten size offset : UInt32) (enough : size.toNat < fuel)
    (chain : FatChain g v a l) (bound : i < l.length)
    (inside : offset.toNat < g.bytesPerCluster.toNat)
    (counts : bytesWritten.toNat + size.toNat < 4294967296) (h : Stores g cwd v s) :
    ∃ n file' s' v' l', fat32WriteLoop data fuel s file bytesWritten size l[i] offset =
        some (bytesWritten + UInt32.ofNat n, file', s') ∧
      n ≤ size.toNat ∧ Stores g cwd v' s' ∧ Advanced file file' n ∧
      WroteRange g v v' a l l' (i * g.bytesPerCluster.toNat + offset.toNat)
        (fun k => data (bytesWritten.toNat + k)) n ∧
      Extent g v' l l' (i * g.bytesPerCluster.toNat + offset.toNat) n size.toNat ∧
      Sized g (i * g.bytesPerCluster.toNat + offset.toNat) file file' n := by
  induction fuel generalizing v l s file bytesWritten size i offset with
  | zero => omega
  | succ fuel ih =>
    have blockPos := h.geometry.bytes_pos
    rw [fat32WriteLoop]
    by_cases empty : size = 0
    · subst empty
      refine ⟨0, file, s, v, l, ?_, Nat.le_refl _, h, Advanced.refl file,
        WroteRange.of_grown _ _ (Grown.refl chain) rfl, ⟨fun fewer => absurd fewer (Nat.lt_irrefl 0),
          fun positive => absurd positive (Nat.lt_irrefl 0)⟩, fun _ x => ?_⟩
      · rw [if_neg fun go => absurd go.1 (by decide)]
        simp
      · exact (and_iff_left (reaches_zero _ _ x)).symm
    · have positive : 0 < size.toNat :=
        Nat.pos_of_ne_zero fun zero => empty (UInt32.toNat.inj zero)
      have inRange := chain.cell_of_mem _ (List.getElem_mem bound)
      have go : 0 < size ∧ 2 ≤ l[i] := ⟨UInt32.lt_iff_toNat_lt.mpr positive, inRange.two_le⟩
      have count := chunk_toNat size inside
      have rest := sub_chunk_toNat size inside
      have zero : (0 : UInt32).toNat = 0 := rfl
      have total : (bytesWritten + chunk g offset size).toNat =
          bytesWritten.toNat + (chunk g offset size).toNat := by
        rw [UInt32.toNat_add]
        omega
      obtain ⟨s₁, s₂, load, stores₁, write, stores₂⟩ := writeRound_spec size h inRange
        inside (fun k => data (bytesWritten.toNat + k))
      have wrote := WroteRange.round size h.geometry chain bound inside
        (fun k => data (bytesWritten.toNat + k))
      have moved := file.advance_advanced (chunk g offset size) (by omega)
      -- the position behind the round, and the file size there
      have position (at_ : file.position.toNat = (i * g.bytesPerCluster.toNat + offset.toNat) % 4294967296) :
          (file.position + chunk g offset size).toNat =
            (i * g.bytesPerCluster.toNat + offset.toNat + (chunk g offset size).toNat) % 4294967296 := by
        rw [UInt32.toNat_add, at_]
        exact Nat.mod_add_mod _ _ _
      have sized : Sized g (i * g.bytesPerCluster.toNat + offset.toNat) file
          (file.advance (chunk g offset size)) (chunk g offset size).toNat := by
        intro at_ x
        rw [Fat32File.advance_fileSize_le, position at_,
          reaches_round (i := i) (by omega) (by omega) (by omega)]
      rw [if_pos go]
      simp only [load, ne_eq, not_true_eq_false, if_false, stores₁.chunk_eq, write]
      rw [← Fat32File.advance]
      have ofChunk : UInt32.ofNat (chunk g offset size).toNat = chunk g offset size :=
        UInt32.ofNat_toNat
      split
      · rename_i more
        rw [UInt32.lt_iff_toNat_lt, rest, zero] at more
        have nextStart : (i + 1) * g.bytesPerCluster.toNat + (0 : UInt32).toNat =
            i * g.bytesPerCluster.toNat + offset.toNat + ((chunk g offset size).toNat + 0) := by
          rw [Nat.succ_mul, zero]
          omega
        obtain ⟨r, s₃, v₃, l₃, next, stores₃, grown₃, data₃, tight₃, result⟩ :=
          fat32NextOrAppend_spec wrote.grown.chain bound stores₂
        have sofar := wrote.trans h.geometry (WroteRange.of_grown _ _ grown₃ data₃)
        rw [next]
        rcases result with ⟨rfl, atEnd, full⟩ | ⟨later, rfl⟩
        · -- the disk is full: what was written so far stays
          refine ⟨_, _, s₃, v₃, l₃, by simp only [ofChunk], by omega, stores₃, moved, sofar,
            ⟨fun _ => ⟨?_, full⟩, fun _ longer => by omega⟩, sized⟩
          rw [atEnd]
          omega
        · obtain ⟨n, file', s', v', l', run, few, stores, advanced, wrote', extent, sized'⟩ := ih
            (file.advance (chunk g offset size)) (bytesWritten + chunk g offset size)
            (size - chunk g offset size) 0 (by omega) grown₃.chain later blockPos
            (by omega) stores₃
          rw [nextStart, total] at wrote'
          rw [nextStart, Nat.add_zero] at extent sized'
          simp only [Nat.add_assoc bytesWritten.toNat] at wrote'
          refine ⟨(chunk g offset size).toNat + n, file', s', v', l', ?_, by omega, stores,
            moved.trans advanced, sofar.trans h.geometry wrote', ⟨fun fewer => ?_, fun _ longer => ?_⟩,
            fun at_ x => ?_⟩
          · simp only [run, UInt32.ofNat_add, ofChunk, UInt32.add_assoc]
          · obtain ⟨atEnd, full⟩ := extent.stuck (by omega)
            exact ⟨by omega, full⟩
          · by_cases grew : l₃.length < l'.length
            · have short := extent.tight (by omega) grew
              omega
            · have rows : (l'.length - 1) * g.bytesPerCluster.toNat ≤ (i + 1) * g.bytesPerCluster.toNat :=
                Nat.mul_le_mul_right _ (by omega)
              omega
          · have at₁ : (file.advance (chunk g offset size)).position.toNat =
                (i * g.bytesPerCluster.toNat + offset.toNat + (chunk g offset size).toNat) % 4294967296 := by
              rw [Fat32File.advance_position, position at_]
            rw [sized' at₁ x, Fat32File.advance_fileSize_le, position at_, and_assoc,
              reaches_trans (i := i) (by omega) (by omega) (by omega)]
      · rename_i done
        rw [UInt32.lt_iff_toNat_lt, rest, zero] at done
        have nothing : size - chunk g offset size = 0 :=
          UInt32.toNat.inj (by rw [rest, zero]; omega)
        refine ⟨(chunk g offset size).toNat, _, s₂, _, l, ?_, by omega, stores₂, moved, wrote,
          ⟨fun _ => by omega, fun _ longer => absurd longer (Nat.lt_irrefl _)⟩, sized⟩
        rw [nothing, fat32WriteLoop_done (by omega), ofChunk]

/-! ## `fat32_write` -/

/-- Writing to a file that has a first cluster. -/
theorem fat32WriteFrom_spec {fuel : Nat} (file : Fat32File) (enough : 4294967296 ≤ fuel)
    (chain : FatChain g v file.firstCluster l) (data : Bytes) (size : UInt32)
    (h : Stores g cwd v s) :
    ∃ n file' s' v' l', fat32WriteFrom fuel s file data size =
        some ((UInt32.ofNat n).toInt32, file', s') ∧
      n ≤ size.toNat ∧ Stores g cwd v' s' ∧ Advanced file file' n ∧
      WroteRange g v v' file.firstCluster l l' file.position.toNat data n ∧
      Extent g v' l l' file.position.toNat n size.toNat ∧ Sized g file.position.toNat file file' n := by
  have small := fun x : UInt32 => x.toNat_lt
  obtain ⟨skipEq, offsetEq, place⟩ := h.position_split file.position
  have below := Nat.mod_lt file.position.toNat h.geometry.bytes_pos
  have nonempty : 0 < l.length := List.length_pos_iff.mpr chain.ne_nil
  have head : l[0] = file.firstCluster := by
    obtain ⟨t, shape⟩ := chain.eq_cons
    simp only [shape, List.getElem_cons_zero]
  obtain ⟨r, s₁, v₁, l₁, skip, stores₁, grown₁, data₁, tight₁, result⟩ :=
    fat32WriteSkip_spec (file.position.toNat / g.bytesPerCluster.toNat) chain nonempty h
  -- the clusters that are appended on the way end before the position
  have onTheWay {m : Nat} (short : m ≤ file.position.toNat / g.bytesPerCluster.toNat + 1) :
      (m - 1) * g.bytesPerCluster.toNat ≤ file.position.toNat := by
    have rows : (m - 1) * g.bytesPerCluster.toNat ≤
        file.position.toNat / g.bytesPerCluster.toNat * g.bytesPerCluster.toNat :=
      Nat.mul_le_mul_right _ (by omega)
    omega
  rw [head] at skip
  rw [fat32WriteFrom]
  simp only [skipEq, skip]
  rcases result with ⟨rfl, atEnd, full⟩ | ⟨inside, rfl⟩
  · refine ⟨0, file, s₁, v₁, l₁, rfl, Nat.zero_le _, stores₁, Advanced.refl file,
      WroteRange.of_grown _ _ grown₁ data₁, ⟨fun _ => ⟨?_, full⟩, fun positive longer => ?_⟩, fun _ x => ?_⟩
    · have rows := Nat.mul_le_mul_right g.bytesPerCluster.toNat atEnd
      rw [Nat.zero_add] at rows
      omega
    · have short := onTheWay (m := l₁.length) (by omega)
      omega
    · exact (and_iff_left (reaches_zero _ _ x)).symm
  · simp only [Nat.zero_add] at inside ⊢
    have geoEq : s₁.gFs.bytesPerCluster = s.gFs.bytesPerCluster := by
      rw [stores₁.field_bytes, h.field_bytes]
    obtain ⟨n, file', s', v', l', run, few, stores, advanced, wrote, extent, sized⟩ := fat32WriteLoop_spec data
      { file with currentCluster := l₁[file.position.toNat / g.bytesPerCluster.toNat] }
      0 size (file.position % s.gFs.bytesPerCluster)
      (Nat.lt_of_lt_of_le (small size) enough) grown₁.chain inside (by omega)
      (by rw [show (0 : UInt32).toNat = 0 from rfl, Nat.zero_add]; exact small size) stores₁
    rw [offsetEq, place] at wrote extent sized
    simp only [show (0 : UInt32).toNat = 0 from rfl, Nat.zero_add] at wrote
    have all := (WroteRange.of_grown file.position.toNat data grown₁
      data₁).trans h.geometry (by simpa only [Nat.add_zero, Nat.zero_add] using wrote)
    rw [Nat.zero_add] at all
    refine ⟨n, file', s', v', l', ?_, few, stores, ⟨advanced.position, ?_, advanced.grows,
      advanced.size⟩, all, ⟨extent.stuck, fun positive longer => ?_⟩, sized⟩
    · simp only [geoEq, run, UInt32.zero_add]
      rfl
    · exact advanced.rest
    · by_cases grew : l₁.length < l'.length
      · exact extent.tight positive grew
      · have short := onTheWay (m := l'.length) (by omega)
        omega

/-- `fat32_write` either finds the disk full before the file has a cluster, or it writes
`n` bytes at the position of the handle; a file without clusters gets a fresh chain. -/
theorem fat32Write_spec {fuel : Nat} (enough : 4294967296 ≤ fuel) (opened : file.isOpen = true)
    (first : file.firstCluster = 0 ∧ l = [] ∨ FatChain g v file.firstCluster l) (data : Bytes)
    (size : UInt32) (h : Stores g cwd v s) :
    (∃ s', fat32Write fuel s file (some data) size = some (-1, file, s') ∧ Stores g cwd v s' ∧
      file.firstCluster = 0 ∧ v.Full g) ∨
    ∃ n a file' s' v' l', fat32Write fuel s file (some data) size =
        some ((UInt32.ofNat n).toInt32, file', s') ∧
      n ≤ size.toNat ∧ Stores g cwd v' s' ∧ file'.firstCluster = a ∧ g.InRange a ∧
      (file.firstCluster = 0 ∨ file.firstCluster = a) ∧
      Advanced { file with firstCluster := a } file' n ∧
      WroteRange g v v' a l l' file.position.toNat data n ∧
      Extent g v' l l' file.position.toNat n size.toNat ∧ Sized g file.position.toNat file file' n := by
  have notClosed : ¬ (¬ file.isOpen = true) := not_not.mpr opened
  rcases first with ⟨zero, rfl⟩ | chain
  · rw [fat32Write, if_neg notClosed, if_pos zero]
    rcases fat32AllocCluster_spec h with ⟨s₁, alloc, stores₁, full⟩ | ⟨a, s₁, alloc, inRange, free, stores₁⟩
    · refine Or.inl ⟨s₁, ?_, stores₁, zero, full⟩
      rw [alloc]
      simp only [if_true, ← zero]
    · obtain ⟨n, file', s', v', l', run, few, stores, advanced, wrote, extent, sized⟩ := fat32WriteFrom_spec
        { file with firstCluster := a, currentCluster := a } enough (fresh_chain inRange)
        data size stores₁
      -- the new first cluster and what the loop appends to it
      have all := (WroteRange.of_grown file.position.toNat data
        (Grown.start inRange free) rfl).trans h.geometry (by simpa only [Nat.add_zero, Nat.zero_add] using wrote)
      rw [Nat.zero_add] at all
      refine Or.inr ⟨n, a, file', s', v', l', ?_, few, stores, ?_, inRange, Or.inl zero,
        ⟨advanced.position, advanced.rest, advanced.grows, advanced.size⟩, all,
        ⟨extent.stuck, fun positive longer => ?_⟩, sized⟩
      · rw [alloc]
        simp only [if_neg inRange.ne_zero, run]
      · rw [advanced.rest]
      · by_cases grew : 1 < l'.length
        · exact extent.tight positive grew
        · rw [show l'.length - 1 = 0 by omega, Nat.zero_mul]
          omega
  · have inRange := chain.cell_of_mem _ chain.head_mem
    rw [fat32Write, if_neg notClosed, if_neg inRange.ne_zero]
    obtain ⟨n, file', s', v', l', run, few, stores, advanced, wrote, extent⟩ :=
      fat32WriteFrom_spec file enough chain data size h
    exact Or.inr ⟨n, file.firstCluster, file', s', v', l', run, few, stores, by rw [advanced.rest],
      inRange, Or.inr rfl, advanced, wrote, extent⟩

end QuantumKernel.Fat32
