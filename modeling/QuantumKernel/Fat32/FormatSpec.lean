import Mathlib
import QuantumKernel.Fat32.Format
import QuantumKernel.Fat32.WriteSpace

/-! # What a formatted volume is

The areas of a volume (its reserved sectors, the copies of the FAT, the clusters) share no sector,
whatever the geometry.  After `fat32_format` the FAT is empty apart from the reserved entries and
the root directory, and every other cluster can be allocated, once.
-/

namespace QuantumKernel.Fat32

open ByteStore LinkedTable

/-! ## Areas -/

inductive Area
  | reserved
  | fat (copy : Nat)
  | cluster (c : UInt32)
  deriving DecidableEq

/-- The areas that a volume has. -/
def Area.Valid (g : Fat32Fs) : Area → Prop
  | reserved => True
  | fat copy => copy < g.numFats.toNat
  | cluster c => g.InRange c

def Area.sectors (g : Fat32Fs) : Area → Set Nat
  | reserved => Set.Iio g.fatBeginLba.toNat
  | fat copy => Set.Ico (g.fatBeginLba.toNat + copy * g.boot.fatSize32.toNat)
      (g.fatBeginLba.toNat + (copy + 1) * g.boot.fatSize32.toNat)
  | cluster c => Set.Ico (g.dataSector c) (g.dataSector c + g.sectorsPerCluster.toNat)

/-- The area of a sector. -/
def Fat32Fs.areaOf (g : Fat32Fs) (n : Nat) : Area :=
  if n < g.fatBeginLba.toNat then .reserved
  else if n < g.clusterBeginLba.toNat then .fat ((n - g.fatBeginLba.toNat) / g.boot.fatSize32.toNat)
  else .cluster (UInt32.ofNat ((n - g.clusterBeginLba.toNat) / g.sectorsPerCluster.toNat + 2))

variable {g : Fat32Fs} {cwd c : UInt32} {v : Volume} {s : Fat32State} {a b : Area} {n : Nat}

/-- A sector belongs to one area only. -/
theorem Geometry.areaOf_eq (geo : Geometry g) (valid : a.Valid g) (member : n ∈ a.sectors g) : g.areaOf n = a := by
  have begins := geo.data_begin
  cases a with
  | reserved => exact if_pos member
  | fat copy =>
    obtain ⟨low, high⟩ := member
    have rows : (copy + 1) * g.boot.fatSize32.toNat ≤ g.numFats.toNat * g.boot.fatSize32.toNat :=
      Nat.mul_le_mul_right _ valid
    have row : (n - g.fatBeginLba.toNat) / g.boot.fatSize32.toNat = copy :=
      Nat.div_eq_of_lt_le (by omega) (by omega)
    rw [Fat32Fs.areaOf, if_neg (by omega), if_pos (by omega), row]
  | cluster c =>
    obtain ⟨low, high⟩ := member
    have first : 2 ≤ c.toNat := valid.1
    simp only [Fat32Fs.dataSector] at low high
    have rows : (n - g.clusterBeginLba.toNat) / g.sectorsPerCluster.toNat = c.toNat - 2 :=
      Nat.div_eq_of_lt_le (by omega) (by rw [Nat.succ_mul]; omega)
    rw [Fat32Fs.areaOf, if_neg (by omega), if_neg (by omega), rows, Nat.sub_add_cancel first, UInt32.ofNat_toNat]

theorem Geometry.areas_disjoint (geo : Geometry g) (validA : a.Valid g) (validB : b.Valid g) (ne : a ≠ b) :
    Disjoint (a.sectors g) (b.sectors g) := by
  rw [Set.disjoint_left]
  intro n inA inB
  exact ne ((geo.areaOf_eq validA inA).symm.trans (geo.areaOf_eq validB inB))

theorem Geometry.areas_inside (geo : Geometry g) (valid : a.Valid g) :
    a.sectors g ⊆ Set.Iio (g.clusterBeginLba.toNat + g.totalClusters.toNat * g.sectorsPerCluster.toNat) := by
  have begins := geo.data_begin
  intro n member
  rw [Set.mem_Iio]
  cases a with
  | reserved =>
    have below : n < g.fatBeginLba.toNat := member
    omega
  | fat copy =>
    have below := member.2
    have rows : (copy + 1) * g.boot.fatSize32.toNat ≤ g.numFats.toNat * g.boot.fatSize32.toNat :=
      Nat.mul_le_mul_right _ valid
    omega
  | cluster c => exact Nat.lt_of_lt_of_le member.2 (Fat32Fs.dataSector_le valid)

/-! ## Repeated allocation -/

/-- `n` calls of `fat32_alloc_cluster`. -/
def allocate : Nat → Fat32State → List UInt32 × Fat32State
  | 0, s => ([], s)
  | n + 1, s =>
    ((fat32AllocCluster s).1 :: (allocate n (fat32AllocCluster s).2).1, (allocate n (fat32AllocCluster s).2).2)

theorem FatGeometry.card_clusters (geo : FatGeometry g) : g.clusters.card = g.totalClusters.toNat := by
  have small := geo.total_le
  rw [Fat32Fs.clusters, Finset.card_image_of_injOn, Finset.card_range]
  intro i below j below' same
  have boundI := Finset.mem_range.mp below
  have boundJ := Finset.mem_range.mp below'
  have value := congrArg UInt32.toNat same
  simp only [UInt32.toNat_ofNat'] at value
  omega

theorem freeClusters_taken (geo : FatGeometry g) (v : Volume) (c : UInt32) :
    (v.setFat c fat32EocMax).freeClusters g = (v.freeClusters g).erase c := by
  ext d
  rw [Finset.mem_erase, geo.mem_freeClusters, geo.mem_freeClusters, Volume.setFat_fat]
  by_cases same : d = c
  · rw [same, Function.update_self]
    have taken : fat32EocMax ≠ fat32FreeCluster := by decide
    simp [taken]
  · simp [same]

/-- As many calls as there are free clusters return each of them once, and fill the volume. -/
theorem allocate_free (h : Stores g cwd v s) (count : (v.freeClusters g).card = n) :
    ∃ l s' v', allocate n s = (l, s') ∧ l.Nodup ∧ (∀ c, c ∈ l ↔ c ∈ v.freeClusters g) ∧
      Stores g cwd v' s' ∧ v'.Full g := by
  have geo := h.geometry.fats
  induction n generalizing v s with
  | zero =>
    have none := Finset.card_eq_zero.mp count
    refine ⟨[], s, v, rfl, List.nodup_nil, fun c => by simp [none], h, fun c inRange free => ?_⟩
    have member := geo.mem_freeClusters.mpr ⟨inRange, free⟩
    rw [none] at member
    cases member
  | succ n ih =>
    rcases fat32AllocCluster_spec h with ⟨s₁, -, -, full⟩ | ⟨c, s₁, alloc, inRange, free, stores⟩
    · rw [full.freeClusters geo, Finset.card_empty] at count
      cases count
    · have member := geo.mem_freeClusters.mpr ⟨inRange, free⟩
      obtain ⟨l, s', v', run, nodup, cover, stores', full⟩ := ih stores (by
        rw [freeClusters_taken geo, Finset.card_erase_of_mem member, count]
        rfl)
      rw [freeClusters_taken geo] at cover
      refine ⟨c :: l, s', v', ?_, List.nodup_cons.mpr ⟨?_, nodup⟩, fun d => ?_, stores', full⟩
      · rw [allocate, alloc, run]
      · exact fun again => (Finset.mem_erase.mp ((cover c).mp again)).1 rfl
      · rw [List.mem_cons, cover, Finset.mem_erase]
        constructor
        · rintro (same | ⟨-, later⟩)
          · rw [same]
            exact member
          · exact later
        · intro old
          by_cases same : d = c
          · exact Or.inl same
          · exact Or.inr ⟨same, old⟩

/-- A full volume has nothing to give. -/
theorem allocate_full (h : Stores g cwd v s) (full : v.Full g) (m : Nat) :
    (allocate m s).1 = List.replicate m 0 := by
  induction m generalizing s with
  | zero => rfl
  | succ m ih =>
    rcases fat32AllocCluster_spec h with ⟨s₁, alloc, stores, -⟩ | ⟨c, s₁, -, inRange, free, -⟩
    · rw [allocate, alloc, ih stores]
      rfl
    · exact absurd free (full c inRange)

/-! ## The FAT of a formatted drive -/

/-- The entries 0, 1 and 2 are the media type, a reserved value and the end of the root directory. -/
def formattedEntry (e : Nat) : UInt32 := if e = 0 then 0x0FFFFFF8 else if e ≤ 2 then 0x0FFFFFFF else 0

variable {totalSectors fatSize hint : UInt32} {sector : Nat → Bytes}

theorem fatRow_entry (e : Nat) : load32 (fatRow (e / 128)) (e % 128 * 4) = formattedEntry e := by
  by_cases first : e / 128 = 0
  · rw [first]
    by_cases reserved : e ≤ 2
    · obtain rfl | rfl | rfl : e = 0 ∨ e = 1 ∨ e = 2 := by omega
      · rfl
      · rfl
      · rfl
    · rw [formattedEntry, if_neg (by omega), if_neg reserved, fatRow, if_pos rfl]
      exact load32_zero fun k low _ => copy_outside (Or.inr (by omega))
  · rw [formattedEntry, if_neg (by omega), if_neg (by omega), fatRow, if_neg first]
    exact load32_zero fun _ _ _ => rfl

theorem Formatted.entry (formatted : Formatted totalSectors fatSize sector) {f e : Nat} (copy : f < 2)
    (bound : e < 128 * fatSize.toNat) :
    load32 (sector (32 + f * fatSize.toNat + e / 128)) (e % 128 * 4) = formattedEntry e := by
  rw [← fatRow_entry]
  exact load32_congr fun k small => formatted.fats f copy _ (by omega) _ (by omega)

/-! ## `fat32_format` -/

/-- An empty volume on `total` sectors. -/
structure EmptyVolume (total : Nat) (s : Fat32State) : Prop where
  mounted : Mounted s
  clusters_pos : 1 ≤ s.gFs.totalClusters.toNat
  disjoint : ∀ a b : Area, a.Valid s.gFs → b.Valid s.gFs → a ≠ b → Disjoint (a.sectors s.gFs) (b.sectors s.gFs)
  inside : ∀ a : Area, a.Valid s.gFs → a.sectors s.gFs ⊆ Set.Iio total
  numFats : s.gFs.numFats = 2
  room : s.gFs.totalClusters.toNat + 2 ≤ 128 * s.gFs.boot.fatSize32.toNat
  entries : ∀ f < 2, ∀ e < 128 * s.gFs.boot.fatSize32.toNat,
    load32 (s.ata.sector (s.gFs.fatBeginLba.toNat + f * s.gFs.boot.fatSize32.toNat + e / 128)) (e % 128 * 4) =
      formattedEntry e
  root : FatChain s.gFs s.volume s.gFs.rootDirFirstCluster [s.gFs.rootDirFirstCluster] ∧
    ∀ σ ∈ s.gFs.dirSlots [s.gFs.rootDirFirstCluster], (s.volume.dirent σ).IsEnd
  allocations : ∃ l t, allocate (s.gFs.totalClusters.toNat - 1) s = (l, t) ∧ l.Nodup ∧
    l.length = s.gFs.totalClusters.toNat - 1 ∧
    (∀ c ∈ l, 3 ≤ c.toNat ∧ c.toNat < s.gFs.totalClusters.toNat + 2) ∧
    ∀ m, (allocate m t).1 = List.replicate m 0

theorem formatFatSize_toNat (low : 32 ≤ totalSectors.toNat) :
    (formatFatSize totalSectors).toNat = (totalSectors.toNat - 32) / 264 + 1 := by
  have width := totalSectors.toNat_lt
  have below : (32 : UInt32) ≤ totalSectors := UInt32.le_iff_toNat_le.mpr low
  have divisor : (8 + 2 * 128 : UInt32).toNat = 264 := by decide
  rw [formatFatSize, UInt32.toNat_add, UInt32.toNat_div, UInt32.toNat_sub_of_le _ _ below, divisor]
  simp only [UInt32.reduceToNat]
  omega

/-- Whatever the size, the FATs have room for all clusters and leave one for the root directory. -/
theorem formatRecord_consistent (low : 42 ≤ totalSectors.toNat) :
    (formatRecord totalSectors (formatFatSize totalSectors)).Consistent ∧
      1 ≤ (formatRecord totalSectors (formatFatSize totalSectors)).clusters := by
  have size := formatFatSize_toNat (by omega : 32 ≤ totalSectors.toNat)
  have begins : (formatRecord totalSectors (formatFatSize totalSectors)).dataBegin =
      32 + 2 * (formatFatSize totalSectors).toNat := rfl
  have clusters : (formatRecord totalSectors (formatFatSize totalSectors)).clusters =
      (totalSectors.toNat - (32 + 2 * (formatFatSize totalSectors).toNat)) / 8 := rfl
  refine ⟨⟨(by decide : 1 ≤ (8 : UInt8).toNat), (by decide : (8 : UInt8).toNat ≤ 128),
    (by decide : 1 ≤ (2 : UInt8).toNat), ?_, ?_, ?_⟩, ?_⟩
  · rw [begins]
    change _ ≤ totalSectors.toNat
    omega
  · rw [clusters]
    change 2 < _
    omega
  · rw [clusters]
    change _ ≤ 128 * (formatFatSize totalSectors).toNat
    omega
  · rw [clusters]
    omega

/-- The volume on a formatted drive. -/
theorem Formatted.fat (formatted : Formatted totalSectors fatSize sector) {g : Fat32Fs}
    (layout : g = (formatRecord totalSectors fatSize).layout hint) (geo : Geometry g) (inRange : g.InRange c) :
    (Volume.of g sector).fat c = if c = 2 then 0x0FFFFFFF else 0 := by
  have row := (geo.fatSector_lt (i := 0) geo.fats_pos inRange).1
  have size : g.boot.fatSize32 = fatSize := by rw [layout]; rfl
  have place : g.fatSector 0 c = 32 + 0 * fatSize.toNat + c.toNat / 128 := by rw [Fat32Fs.fatSector, size, layout]; rfl
  have entry := formatted.entry (f := 0) (e := c.toNat) (by decide) (by rw [size] at row; omega)
  have low := inRange.1
  simp only [Volume.of, if_pos inRange, place, entry, formattedEntry]
  by_cases two : c = 2
  · subst two
    rfl
  · have large : ¬ c.toNat ≤ 2 := fun small => two (UInt32.toNat.inj (by simp only [UInt32.reduceToNat]; omega))
    rw [if_neg (by omega), if_neg large, if_neg two]
    rfl

theorem Formatted.root_blank (formatted : Formatted totalSectors fatSize sector) {g : Fat32Fs}
    (layout : g = (formatRecord totalSectors fatSize).layout hint) (geo : Geometry g) (k : Nat) :
    (Volume.of g sector).data 2 k = 0 := by
  have begins := geo.data_begin
  have first : g.dataSector 2 = 32 + 2 * fatSize.toNat := by
    have same : g.dataSector 2 = g.clusterBeginLba.toNat + 0 * g.sectorsPerCluster.toNat := rfl
    rw [same, begins, layout]
    simp only [Nat.zero_mul, Nat.add_zero]
    rfl
  have size : g.bytesPerCluster.toNat = 4096 := by
    rw [layout]
    exact (by decide : ((8 : UInt8).toUInt32 * fat32SectorSize).toNat = 4096)
  simp only [Volume.of, first, size]
  split
  · exact formatted.root _ (by omega) _ (Nat.mod_lt _ (by decide))
  · rfl

/-- A driver that has mounted a formatted drive. -/
theorem Formatted.emptyVolume (formatted : Formatted totalSectors (formatFatSize totalSectors) s.ata.sector)
    (layout : s.gFs = (formatRecord totalSectors (formatFatSize totalSectors)).layout hint)
    (ok : ∀ n, s.ata.outcome n = .ok) (low : 42 ≤ totalSectors.toNat) (high : totalSectors.toNat ≤ 268435456) :
    EmptyVolume totalSectors.toNat s := by
  obtain ⟨consistent, positive⟩ := formatRecord_consistent low
  obtain ⟨begins, total⟩ := BootRecord.layout_clusters consistent.areas hint
  have geo : Geometry s.gFs := layout ▸ consistent.geometry high hint
  rw [← layout] at begins total
  have size : s.gFs.boot.fatSize32 = formatFatSize totalSectors := by rw [layout]; rfl
  have root : s.gFs.rootDirFirstCluster = 2 := by rw [layout]; rfl
  have fats : s.gFs.numFats = 2 := by rw [layout]; rfl
  have fatBegin : s.gFs.fatBeginLba.toNat = 32 := by rw [layout]; rfl
  have perCluster : s.gFs.sectorsPerCluster.toNat = 8 := by rw [layout]; rfl
  have count : 1 ≤ s.gFs.totalClusters.toNat := by rw [total]; exact positive
  have rootRange : s.gFs.InRange 2 := ⟨le_rfl, by simp only [UInt32.reduceToNat]; omega⟩
  have fat {c : UInt32} (inRange : s.gFs.InRange c) : s.volume.fat c = if c = 2 then 0x0FFFFFFF else 0 :=
    formatted.fat layout geo inRange
  have stores : Stores s.gFs s.gCurrentDirCluster s.volume s := Stores.of_geometry geo ok
  -- the free clusters are all but the root directory
  have free : s.volume.freeClusters s.gFs = s.gFs.clusters.erase 2 := by
    ext c
    rw [geo.fats.mem_freeClusters, Finset.mem_erase, geo.fats.mem_clusters_iff, and_comm]
    refine and_congr_left fun inRange => ?_
    rw [fat inRange]
    by_cases two : c = 2
    · simp only [two, if_true, ne_eq, not_true_eq_false, iff_false]
      decide
    · simp only [two, if_false, ne_eq, not_false_eq_true, iff_true]
      rfl
  have freeCount : (s.volume.freeClusters s.gFs).card = s.gFs.totalClusters.toNat - 1 := by
    rw [free, Finset.card_erase_of_mem (Fat32Fs.mem_clusters rootRange), geo.fats.card_clusters]
  obtain ⟨l, t, v', run, nodup, cover, stores', full⟩ := allocate_free stores freeCount
  refine ⟨⟨geo, ok⟩, count, fun a b => geo.areas_disjoint, fun a valid => ?_, fats, ?_, ?_, ⟨?_, ?_⟩,
    l, t, run, nodup, ?_, ?_, allocate_full stores' full⟩
  · refine (geo.areas_inside valid).trans (Set.Iio_subset_Iio ?_)
    rw [begins, total, perCluster]
    exact consistent.data_fits
  · rw [total, size]
    exact consistent.room
  · intro f copy e bound
    rw [size] at bound ⊢
    rw [fatBegin]
    exact formatted.entry copy bound
  · rw [root]
    refine .last rootRange ?_
    rw [fat rootRange]
    decide
  · intro σ member
    rw [root] at member
    have inRoot : σ.1 = 2 := List.mem_singleton.mp (mem_dirSlots.mp member).1
    rw [Volume.dirent, inRoot]
    exact direntAt_blank (formatted.root_blank layout geo)
  · have all : l.toFinset = s.volume.freeClusters s.gFs := Finset.ext fun c => List.mem_toFinset.trans (cover c)
    rw [← freeCount, ← all, List.toFinset_card_of_nodup nodup]
  · intro c member
    have isFree := (cover c).mp member
    rw [free, Finset.mem_erase, geo.fats.mem_clusters_iff] at isFree
    obtain ⟨notRoot, lower, upper⟩ := isFree
    have ne : c.toNat ≠ 2 := fun same => notRoot (UInt32.toNat.inj same)
    omega

/-- **Formatting produces an empty volume.**  On a drive that accepts every command, for every size
from 42 sectors to what the drive can address. -/
theorem format_empty_volume (s : Fat32State) (ok : ∀ n, s.ata.outcome n = .ok) (totalSectors : UInt32)
    (low : 42 ≤ totalSectors.toNat) (high : totalSectors.toNat ≤ 268435456) :
    ∃ s', fat32Format s totalSectors = some (0, s') ∧ EmptyVolume totalSectors.toNat s' := by
  have size := formatFatSize_toNat (by omega : 32 ≤ totalSectors.toNat)
  obtain ⟨s₀, run, formatted, ok₀⟩ := fat32Format_formatted totalSectors (by omega) ok
  have accepts : s₀.MountAccepts := by
    refine ⟨ok₀ _, ok₀ _, ?_⟩
    rw [formatted.header]
    exact ⟨rfl, UInt32.le_refl 2⟩
  have mount := fat32Mount_accepts accepts
  have sectors : (bootRecordAt (s₀.ata.sector 0)).sectorsPerCluster ≠ 0 := by
    rw [formatted.header]
    exact (by decide : (8 : UInt8) ≠ 0)
  rw [if_neg sectors, formatted.header] at mount
  exact ⟨_, run.trans mount, Formatted.emptyVolume formatted rfl ok₀ low high⟩

/-- With a FAT of 19 sectors for 616 clusters. -/
theorem format_empty_volume_several :
    ∃ s', fat32Format (mountedOn smallFs fun _ _ => 0) 5000 = some (0, s') ∧ EmptyVolume 5000 s' ∧
      s'.gFs.boot.fatSize32 = 19 ∧ s'.gFs.totalClusters = 616 := by
  obtain ⟨s', done, empty⟩ :=
    format_empty_volume (mountedOn smallFs fun _ _ => 0) (fun _ => rfl) 5000 (by decide) (by decide)
  have sizes : (fat32Format (mountedOn smallFs fun _ _ => 0) 5000).all
      (fun r => r.2.gFs.boot.fatSize32 = 19 ∧ r.2.gFs.totalClusters = 616) := by decide +kernel
  rw [done, Option.all_some, decide_eq_true_eq] at sizes
  exact ⟨s', done, empty, sizes⟩

end QuantumKernel.Fat32
