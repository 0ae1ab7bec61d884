import QuantumKernel.Fat32.Chains

/-! # Directory slots

A directory is the list of the 32-byte slots of its cluster chain.  A slot is named
the way a handle remembers it: by its cluster and its byte offset there.  The driver
changes a slot by reading its cluster, editing the bytes of the slot in the buffer and
writing the cluster back; `LocalEdit` says that such an edit stays inside the slot.
-/

namespace QuantumKernel.Fat32

open ByteStore LinkedTable

/-- A directory slot: `(dir_cluster, dir_entry_offset)`. -/
abbrev Slot := UInt32 × UInt32

-- Quantifiers over listed slots and clusters are decided along the list.  The words and their
-- pairs are finite types as well, and far too many to search.
instance Slot.decidableBAll (slots : List Slot) (p : Slot → Prop) [DecidablePred p] :
    Decidable (∀ σ ∈ slots, p σ) :=
  List.decidableBAll p slots

instance Cluster.decidableBAll (clusters : List UInt32) (p : UInt32 → Prop) [DecidablePred p] :
    Decidable (∀ c ∈ clusters, p c) :=
  List.decidableBAll p clusters

/-- The slots of one cluster. -/
def Fat32Fs.slotsOf (g : Fat32Fs) (cluster : UInt32) : List Slot :=
  (List.range (entriesPerCluster g)).map fun i => (cluster, UInt32.ofNat (32 * i))

/-- The slots of a directory with the given cluster chain. -/
def Fat32Fs.dirSlots (g : Fat32Fs) (chain : List UInt32) : List Slot := chain.flatMap g.slotsOf

/-- The entry in a slot. -/
def Volume.dirent (v : Volume) (slot : Slot) : Fat32Dirent :=
  direntAt (v.data slot.1) slot.2.toNat

variable {g : Fat32Fs} {cwd : UInt32} {v v' : Volume} {s : Fat32State} {a c d : UInt32}
  {l : List UInt32} {slot other : Slot}

/-! ## The list of slots -/

theorem Geometry.entries_eq (geo : Geometry g) :
    entriesPerCluster g * 32 = g.bytesPerCluster.toNat ∧ g.bytesPerCluster.toNat ≤ 65536 := by
  have size := geo.bytes_toNat
  have small := geo.sectors_le
  simp only [entriesPerCluster, sizeofDirent, UInt32.toNat_div, UInt32.reduceToNat]
  omega

theorem Geometry.entries_pos (geo : Geometry g) : 0 < entriesPerCluster g := by
  have size := geo.bytes_toNat
  have positive := geo.sectors_pos
  have entries := geo.entries_eq
  omega

theorem Geometry.offset_toNat (geo : Geometry g) {i : Nat} (bound : i < entriesPerCluster g) :
    (UInt32.ofNat (32 * i)).toNat = 32 * i := by
  have entries := geo.entries_eq
  rw [UInt32.toNat_ofNat']
  omega

theorem mem_slotsOf : slot ∈ g.slotsOf c ↔
    slot.1 = c ∧ ∃ i < entriesPerCluster g, slot.2 = UInt32.ofNat (32 * i) := by
  simp only [Fat32Fs.slotsOf, List.mem_map, List.mem_range]
  constructor
  · rintro ⟨i, bound, rfl⟩
    exact ⟨rfl, i, bound, rfl⟩
  · rintro ⟨rfl, i, bound, offset⟩
    exact ⟨i, bound, by rw [← offset]⟩

theorem mem_dirSlots : slot ∈ g.dirSlots l ↔ slot.1 ∈ l ∧ slot ∈ g.slotsOf slot.1 := by
  simp only [Fat32Fs.dirSlots, List.mem_flatMap]
  constructor
  · rintro ⟨c, inChain, inCluster⟩
    rw [(mem_slotsOf.mp inCluster).1]
    exact ⟨inChain, inCluster⟩
  · rintro ⟨inChain, inCluster⟩
    exact ⟨slot.1, inChain, inCluster⟩

theorem dirSlots_append (l m : List UInt32) : g.dirSlots (l ++ m) = g.dirSlots l ++ g.dirSlots m :=
  List.flatMap_append

theorem dirSlots_singleton (c : UInt32) : g.dirSlots [c] = g.slotsOf c := by
  simp [Fat32Fs.dirSlots]

/-- A slot lies inside its cluster, on a 32-byte boundary. -/
theorem Geometry.slot_inside (geo : Geometry g) (member : slot ∈ g.dirSlots l) :
    slot.2.toNat + 32 ≤ g.bytesPerCluster.toNat ∧ slot.2.toNat % 32 = 0 := by
  obtain ⟨-, i, bound, offset⟩ := mem_slotsOf.mp (mem_dirSlots.mp member).2
  have entries := geo.entries_eq
  rw [offset, geo.offset_toNat bound]
  omega

theorem Geometry.slotsOf_nodup (geo : Geometry g) (c : UInt32) : (g.slotsOf c).Nodup := by
  refine List.Nodup.map_on ?_ List.nodup_range
  intro i boundI j boundJ same
  have offsets := congrArg (fun slot : Slot => slot.2.toNat) same
  simp only [geo.offset_toNat (List.mem_range.mp boundI),
    geo.offset_toNat (List.mem_range.mp boundJ)] at offsets
  omega

theorem Geometry.dirSlots_nodup (geo : Geometry g) (nodup : l.Nodup) : (g.dirSlots l).Nodup := by
  refine List.nodup_flatMap.mpr ⟨fun c _ => geo.slotsOf_nodup c, ?_⟩
  refine nodup.imp ?_
  intro c d ne slot inC inD
  exact ne ((mem_slotsOf.mp inC).1.symm.trans (mem_slotsOf.mp inD).1)

/-! ## Local edits -/

/-- `edit` changes bytes in `[lo, hi)` only, and what it stores there depends on these
bytes only. -/
structure LocalEdit (edit : Bytes → Bytes) (lo hi : Nat) : Prop where
  outside : ∀ b i, i < lo ∨ hi ≤ i → edit b i = b i
  inside : ∀ b b', (∀ i, lo ≤ i → i < hi → b i = b' i) →
    ∀ i, lo ≤ i → i < hi → edit b i = edit b' i

theorem LocalEdit.comp {e f : Bytes → Bytes} {lo hi : Nat} (first : LocalEdit e lo hi)
    (second : LocalEdit f lo hi) : LocalEdit (fun b => f (e b)) lo hi where
  outside := by
    intro b i out
    rw [second.outside _ i out, first.outside b i out]
  inside := by
    intro b b' agree
    exact second.inside (e b) (e b') (first.inside b b' agree)

theorem LocalEdit.copy {source : Bytes} {offset count lo hi : Nat} (low : lo ≤ offset)
    (high : offset + count ≤ hi) : LocalEdit (fun b => copy b offset source count) lo hi where
  outside := fun b i out => copy_outside (by omega)
  inside := by
    intro b b' agree i inLow inHigh
    by_cases written : offset ≤ i ∧ i < offset + count
    · rw [copy_inside written.1 written.2, copy_inside written.1 written.2]
    · rw [copy_outside (by omega), copy_outside (by omega)]
      exact agree i inLow inHigh

/-- The cluster contents after an edit of the buffer. -/
def Volume.editCluster (v : Volume) (c : UInt32) (edit : Bytes → Bytes) : Volume :=
  v.setData c (edit (v.data c))

theorem Stores.clip_data (h : Stores g cwd v s) (c : UInt32) : g.clip (v.data c) = v.data c := by
  rw [← h.volume]
  funext i
  simp only [Fat32Fs.clip, Volume.of]
  split
  · rfl
  · rename_i past
    rw [if_neg (fun both => past both.2)]

/-- An edit of a buffer that holds a cluster is an edit of the cluster. -/
theorem Stores.clip_edit (h : Stores g cwd v s) {edit : Bytes → Bytes} {lo hi : Nat}
    (isLocal : LocalEdit edit lo hi) (fits : hi ≤ g.bytesPerCluster.toNat) {buffer : Bytes}
    (loaded : ∀ k < g.bytesPerCluster.toNat, buffer k = v.data c k) :
    g.clip (edit buffer) = edit (v.data c) := by
  funext i
  by_cases bound : i < g.bytesPerCluster.toNat
  · rw [Fat32Fs.clip_of_lt bound]
    by_cases written : lo ≤ i ∧ i < hi
    · exact isLocal.inside _ _ (fun k _ high => loaded k (by omega)) i written.1 written.2
    · rw [isLocal.outside _ i (by omega), isLocal.outside _ i (by omega), loaded i bound]
  · rw [isLocal.outside _ i (by omega), ← h.clip_data c]
    simp only [Fat32Fs.clip, if_neg bound]

/-- `fat32_read_cluster`, an edit of `cluster_buffer`, `fat32_write_cluster`. -/
theorem editCluster_spec (h : Stores g cwd v s) (inRange : g.InRange c) {edit : Bytes → Bytes}
    {lo hi : Nat} (isLocal : LocalEdit edit lo hi) (fits : hi ≤ g.bytesPerCluster.toNat) :
    ∃ s₁ s₂, fat32ReadCluster s c = (0, s₁) ∧
      fat32WriteCluster { s₁ with clusterBuffer := edit s₁.clusterBuffer } c = (0, s₂) ∧
      Stores g cwd (v.editCluster c edit) s₂ := by
  obtain ⟨s₁, read, stores₁, loaded⟩ := fat32ReadCluster_spec h inRange
  obtain ⟨s₂, write, stores₂, -⟩ :=
    fat32WriteCluster_spec (stores₁.withBuffer (edit s₁.clusterBuffer)) inRange
  refine ⟨s₁, s₂, read, write, ?_⟩
  rw [Volume.editCluster, ← h.clip_edit isLocal fits loaded]
  exact stores₂

@[simp] theorem Volume.editCluster_fat (v : Volume) (c : UInt32) (edit : Bytes → Bytes) :
    (v.editCluster c edit).fat = v.fat := rfl

theorem Volume.editCluster_data_of_ne (v : Volume) (edit : Bytes → Bytes) (ne : d ≠ c) :
    (v.editCluster c edit).data d = v.data d := by
  rw [Volume.editCluster, Volume.setData_data, Function.update_of_ne ne]

/-! ## Editing one slot -/

/-- Editing a slot changes the entry in that slot only. -/
theorem Volume.dirent_editCluster (geo : Geometry g) {edit : Bytes → Bytes}
    (member : slot ∈ g.dirSlots l) (isLocal : LocalEdit edit slot.2.toNat (slot.2.toNat + 32))
    {m : List UInt32} (otherMember : other ∈ g.dirSlots m) :
    (v.editCluster slot.1 edit).dirent other =
      if other = slot then direntAt (edit (v.data slot.1)) slot.2.toNat else v.dirent other := by
  split
  · rename_i same
    rw [same, Volume.dirent, Volume.editCluster, Volume.setData_data, Function.update_self]
  · rename_i ne
    by_cases sameCluster : other.1 = slot.1
    · have offsets : other.2.toNat ≠ slot.2.toNat := by
        intro equal
        exact ne (Prod.ext sameCluster (UInt32.toNat.inj equal))
      obtain ⟨-, aligned⟩ := geo.slot_inside member
      obtain ⟨-, otherAligned⟩ := geo.slot_inside otherMember
      refine direntAt_congr fun k bound => ?_
      rw [Volume.editCluster, Volume.setData_data, sameCluster, Function.update_self,
        isLocal.outside _ _ (by omega)]
    · rw [Volume.dirent, Volume.dirent, Volume.editCluster_data_of_ne _ _ sameCluster]

/-- A slot edited by `memset`, `memcpy` and field stores inside it. -/
theorem LocalEdit.store16 {offset lo hi : Nat} {value : UInt16} (low : lo ≤ offset)
    (high : offset + 2 ≤ hi) : LocalEdit (fun b => store16 b offset value) lo hi :=
  LocalEdit.copy low high

theorem LocalEdit.store32 {offset lo hi : Nat} {value : UInt32} (low : lo ≤ offset)
    (high : offset + 4 ≤ hi) : LocalEdit (fun b => store32 b offset value) lo hi :=
  LocalEdit.copy low high

theorem LocalEdit.fill {offset count lo hi : Nat} {value : UInt8} (low : lo ≤ offset)
    (high : offset + count ≤ hi) : LocalEdit (fun b => fill b offset value count) lo hi :=
  LocalEdit.copy low high

theorem fillEntry_local (offset : Nat) (shortName : ShortName) (attr : UInt8) (first : UInt32) :
    LocalEdit (fun b => fillEntry b offset shortName attr first) offset (offset + 32) :=
  ((((LocalEdit.fill (by omega) (by omega)).comp (LocalEdit.copy (by omega) (by omega))).comp
    (LocalEdit.fill (by omega) (by omega))).comp (LocalEdit.store16 (by omega) (by omega))).comp
    (LocalEdit.store16 (by omega) (by omega))

theorem closeEntry_local (offset : Nat) (file : Fat32File) :
    LocalEdit (fun b => closeEntry b offset file) offset (offset + 32) :=
  ((LocalEdit.store32 (by omega) (by omega)).comp (LocalEdit.store16 (by omega) (by omega))).comp
    (LocalEdit.store16 (by omega) (by omega))

theorem unlinkEntry_local (offset : Nat) :
    LocalEdit (fun b => fill b offset 0xE5 1) offset (offset + 32) :=
  LocalEdit.fill (by omega) (by omega)

end QuantumKernel.Fat32
