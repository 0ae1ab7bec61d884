import QuantumKernel.Fat32.FreeSpace
import QuantumKernel.Fat32.ReadRange
import QuantumKernel.Fat32.WriteSpec

/-! # The space a write takes

`fat32_write` links clusters to the chain until it reaches the position of the handle, and it gives
none of them back when the disk turns out to be full.  What a call takes is counted here: the free
clusters and the clusters of the chain are as many before as after it.
-/

namespace QuantumKernel.Fat32

open ByteStore LinkedTable

variable {g : Fat32Fs} {cwd : UInt32} {v v' : Volume} {s : Fat32State} {a c : UInt32} {l l' : List UInt32}
  {file file' : Fat32File} {size : UInt32} {fuel n : Nat}

/-- The bytes that the chain has room for when it gets every free cluster. -/
def Volume.capacity (g : Fat32Fs) (v : Volume) (l : List UInt32) : Nat :=
  (l.length + (v.freeClusters g).card) * g.bytesPerCluster.toNat

/-! ## One write -/

/-- A file without clusters, or with the chain `l`. -/
def Fat32File.Holds (g : Fat32Fs) (v : Volume) (file : Fat32File) (l : List UInt32) : Prop :=
  file.firstCluster = 0 ∧ l = [] ∨ FatChain g v file.firstCluster l

/-- When the result is 0 or -1, the call has left the free clusters, the chain and the size of the
file as they were. -/
def SpaceKept (g : Fat32Fs) (cwd : UInt32) (v : Volume) (fuel : Nat) (s : Fat32State) (file : Fat32File)
    (l : List UInt32) (size : UInt32) : Prop :=
  ∀ data : Option Bytes, ∃ status file' s' v', fat32Write fuel s file data size = some (status, file', s') ∧
    Stores g cwd v' s' ∧ (status = 0 ∨ status = -1 →
      v'.freeClusters g = v.freeClusters g ∧ file'.firstCluster = file.firstCluster ∧ file'.Holds g v' l ∧
        file'.fileSize = file.fileSize)

/-- Writing `size` bytes stays in the chain and does not change the size of the file. -/
def Rewrites (g : Fat32Fs) (l : List UInt32) (file : Fat32File) (size : UInt32) : Prop :=
  file.position.toNat + size.toNat ≤ l.length * g.bytesPerCluster.toNat ∧
    Reaches g.bytesPerCluster.toNat file.position.toNat size.toNat file.fileSize.toNat

/-- The disk is full anyway, or there is room up to the position and behind it.  2^32 - 1 bytes,
the count that is returned as -1, do not fit or change nothing but bytes. -/
def SpaceSuffices (g : Fat32Fs) (v : Volume) (l : List UInt32) (file : Fat32File) (size : UInt32) : Prop :=
  ((v.freeClusters g).card = 0 ∨ file.position.toNat < v.capacity g l) ∧
    (size.toNat = 4294967295 → file.position.toNat + size.toNat ≤ v.capacity g l → Rewrites g l file size)

theorem toInt32_eq_zero (small : n < 4294967296) : (UInt32.ofNat n).toInt32 = 0 ↔ n = 0 := by
  constructor
  · intro zero
    have value := (toInt_count_iff (m := 0) small).mp (by rw [zero]; rfl)
    exact value.1
  · rintro rfl
    rfl

theorem toInt32_eq_neg_one (small : n < 4294967296) : (UInt32.ofNat n).toInt32 = -1 ↔ n = 4294967295 := by
  constructor
  · intro same
    have bits : (UInt32.ofNat n) = 4294967295 := by
      rw [← UInt32.toUInt32_toInt32 (UInt32.ofNat n), same]
      rfl
    have value := congrArg UInt32.toNat bits
    rw [UInt32.toNat_ofNat', Nat.mod_eq_of_lt small] at value
    exact value
  · rintro rfl
    rfl

theorem Fat32File.Holds.used (geo : Geometry g) (holds : file.Holds g v l) :
    ∀ c ∈ l, v.fat c ≠ fat32FreeCluster := by
  rcases holds with ⟨-, rfl⟩ | chain
  · exact fun c member => absurd member List.not_mem_nil
  · exact FatChain.ne_free geo chain

/-- What `fat32_write` does to a file that has or gets a first cluster. -/
structure Wrote (g : Fat32Fs) (v v' : Volume) (file file' : Fat32File) (l l' : List UInt32) (data : Bytes)
    (size : UInt32) (n : Nat) : Prop where
  few : n ≤ size.toNat
  inRange : g.InRange file'.firstCluster
  first : file.firstCluster = 0 ∨ file.firstCluster = file'.firstCluster
  wrote : WroteRange g v v' file'.firstCluster l l' file.position.toNat data n
  extent : Extent g v' l l' file.position.toNat n size.toNat
  sized : Sized g file.position.toNat file file' n

namespace Wrote

variable {data : Bytes}

theorem length_le (wrote : Wrote g v v' file file' l l' data size n) (geo : Geometry g)
    (holds : file.Holds g v l) : l'.length * g.bytesPerCluster.toNat ≤ v.capacity g l := by
  have count := wrote.wrote.grown.freeClusters geo (holds.used geo)
  exact Nat.mul_le_mul_right _ (by omega)

/-- A write that stops early has taken every cluster. -/
theorem stuck (wrote : Wrote g v v' file file' l l' data size n) (geo : Geometry g)
    (holds : file.Holds g v l) (early : n < size.toNat) :
    v'.freeClusters g = ∅ ∧ v.capacity g l ≤ file.position.toNat + n := by
  obtain ⟨atEnd, full⟩ := wrote.extent.stuck early
  have none := full.freeClusters geo.fats
  have count := wrote.wrote.grown.freeClusters geo (holds.used geo)
  rw [none, Finset.card_empty, Nat.zero_add] at count
  refine ⟨none, ?_⟩
  rw [Volume.capacity, Nat.add_comm l.length, ← count]
  exact atEnd

/-- Nothing is stored exactly when there is no room for the first byte. -/
theorem zero_iff (wrote : Wrote g v v' file file' l l' data size n) (geo : Geometry g)
    (holds : file.Holds g v l) (positive : 0 < size.toNat) : n = 0 ↔ v.capacity g l ≤ file.position.toNat := by
  constructor
  · rintro rfl
    exact (wrote.stuck geo holds positive).2
  · intro noRoom
    by_contra some
    have room := wrote.wrote.room some
    have most := wrote.length_le geo holds
    omega

theorem all_iff (wrote : Wrote g v v' file file' l l' data size n) (geo : Geometry g)
    (holds : file.Holds g v l) (positive : 0 < size.toNat) :
    n = size.toNat ↔ file.position.toNat + size.toNat ≤ v.capacity g l := by
  constructor
  · rintro rfl
    exact Nat.le_trans (wrote.wrote.room (by omega)) (wrote.length_le geo holds)
  · intro room
    by_contra some
    have few := wrote.few
    have noRoom := (wrote.stuck geo holds (by omega)).2
    omega

/-- The file size is the old one if no position of the write is larger. -/
theorem fileSize_iff (wrote : Wrote g v v' file file' l l' data size n) :
    file'.fileSize = file.fileSize ↔
      Reaches g.bytesPerCluster.toNat file.position.toNat n file.fileSize.toNat := by
  have sized := wrote.sized (Nat.mod_eq_of_lt file.position.toNat_lt).symm
  constructor
  · intro same
    exact ((sized _).mp (by rw [same])).2
  · intro reaches
    have upper := (sized _).mpr ⟨Nat.le_refl _, reaches⟩
    have lower := ((sized _).mp (Nat.le_refl _)).1
    exact UInt32.toNat.inj (Nat.le_antisymm upper lower)

/-- A write into the chain as it is takes no cluster. -/
theorem kept (wrote : Wrote g v v' file file' l l' data size n) (geo : Geometry g) (holds : file.Holds g v l)
    (same : l' = l) : v'.freeClusters g = v.freeClusters g ∧ file'.firstCluster = file.firstCluster ∧
      file'.Holds g v' l := by
  subst same
  refine ⟨wrote.wrote.grown.freeClusters_same geo (holds.used geo), ?_, Or.inr wrote.wrote.grown.chain⟩
  rcases holds with ⟨-, empty⟩ | chain
  · exact absurd empty wrote.wrote.grown.chain.ne_nil
  · exact (wrote.first.resolve_left (chain.cell_of_mem _ chain.head_mem).ne_zero).symm

theorem unchanged_iff (wrote : Wrote g v v' file file' l l' data size n) (geo : Geometry g)
    (holds : file.Holds g v l) (positive : 0 < size.toNat) :
    ((UInt32.ofNat n).toInt32 = 0 ∨ (UInt32.ofNat n).toInt32 = -1 →
      v'.freeClusters g = v.freeClusters g ∧ file'.firstCluster = file.firstCluster ∧ file'.Holds g v' l ∧
        file'.fileSize = file.fileSize) ↔ SpaceSuffices g v l file size := by
  have few := wrote.few
  have sizeLt := size.toNat_lt
  have bound : n < 4294967296 := by omega
  have count := wrote.wrote.grown.freeClusters geo (holds.used geo)
  have prefix_ := wrote.wrote.grown.extends_
  rw [toInt32_eq_zero bound, toInt32_eq_neg_one bound, SpaceSuffices]
  constructor
  · intro unchanged
    refine ⟨?_, fun largest room => ?_⟩
    · by_contra lacking
      rw [not_or, Nat.not_lt] at lacking
      have nothing := (wrote.zero_iff geo holds positive).mpr lacking.2
      have taken := (wrote.stuck geo holds (by omega)).1
      rw [(unchanged (Or.inl nothing)).1] at taken
      exact lacking.1 (Finset.card_eq_zero.mpr taken)
    · have all := (wrote.all_iff geo holds positive).mpr room
      obtain ⟨-, first, holds', fileSize⟩ := unchanged (Or.inr (by omega))
      have same : l' = l := by
        rcases holds' with ⟨zero, -⟩ | chain
        · exact absurd zero wrote.inRange.ne_zero
        · exact Chain.unique geo.excl wrote.wrote.grown.chain chain
      have stored := wrote.wrote.room (by omega)
      rw [same, all] at stored
      exact ⟨stored, all ▸ wrote.fileSize_iff.mp fileSize⟩
  · rintro ⟨room, largest⟩ (nothing | all)
    · -- no room for the first byte: the disk was full before
      have noRoom := (wrote.zero_iff geo holds positive).mp nothing
      have full := room.resolve_right (Nat.not_lt.mpr noRoom)
      have same : l' = l := (prefix_.eq_of_length_le (by omega)).symm
      obtain ⟨free, first, holds'⟩ := wrote.kept geo holds same
      exact ⟨free, first, holds', wrote.fileSize_iff.mpr (nothing ▸ reaches_zero _ _ _)⟩
    · -- 2^32 - 1 bytes were stored
      have whole : n = size.toNat := by omega
      obtain ⟨inside, reaches⟩ := largest (by omega) ((wrote.all_iff geo holds positive).mp whole)
      have same : l' = l := by
        by_contra grew
        have longer : l.length < l'.length :=
          Nat.lt_of_le_of_ne prefix_.length_le fun equal => grew (prefix_.eq_of_length equal).symm
        have tight := wrote.extent.tight positive longer
        have rows := Nat.mul_le_mul_right g.bytesPerCluster.toNat (show l.length ≤ l'.length - 1 by omega)
        omega
      obtain ⟨free, first, holds'⟩ := wrote.kept geo holds same
      exact ⟨free, first, holds', wrote.fileSize_iff.mpr (whole ▸ reaches)⟩

end Wrote

/-- **A write that stores nothing takes no space exactly when the space suffices.** -/
theorem spaceKept_iff (enough : 4294967296 ≤ fuel) (stores : Stores g cwd v s) (opened : file.isOpen = true)
    (holds : file.Holds g v l) (positive : 0 < size.toNat) :
    SpaceKept g cwd v fuel s file l size ↔ SpaceSuffices g v l file size := by
  have geo := stores.geometry
  have outcome (data : Bytes) := fat32Write_spec enough opened holds data size stores
  constructor
  · intro kept
    obtain ⟨status, file', s', v', run, stores', unchanged⟩ := kept (some fun _ => 0)
    rcases outcome fun _ => 0 with
      ⟨s₁, run₁, -, zero, full⟩ | ⟨n, a, file₁, s₁, v₁, l₁, run₁, few, stores₁, rfl, inRange, first, advanced, wrote,
        extent, sized⟩
    · have empty : l = [] := by
        rcases holds with ⟨-, empty⟩ | chain
        · exact empty
        · exact absurd zero (chain.cell_of_mem _ chain.head_mem).ne_zero
      have none := full.freeClusters geo.fats
      have capacity : v.capacity g l = 0 := by rw [Volume.capacity, none, empty]; simp
      exact ⟨Or.inl (by rw [none]; rfl), fun _ room => by omega⟩
    · rw [run₁] at run
      cases run
      obtain rfl : v' = v₁ := stores'.volume.symm.trans stores₁.volume
      have wroteAll : Wrote g v v' file file' l l₁ (fun _ => 0) size n := ⟨few, inRange, first, wrote, extent, sized⟩
      exact (wroteAll.unchanged_iff geo holds positive).mp unchanged
  · intro suffices_ data
    cases data with
    | none => exact ⟨-1, file, s, v, rfl, stores, fun _ => ⟨rfl, rfl, holds, rfl⟩⟩
    | some data =>
      rcases outcome data with
        ⟨s₁, run₁, stores₁, zero, full⟩ | ⟨n, a, file₁, s₁, v₁, l₁, run₁, few, stores₁, rfl, inRange, first, advanced,
          wrote, extent, sized⟩
      · exact ⟨-1, file, s₁, v, run₁, stores₁, fun _ => ⟨rfl, rfl, holds, rfl⟩⟩
      · have wroteAll : Wrote g v v₁ file file₁ l l₁ data size n := ⟨few, inRange, first, wrote, extent, sized⟩
        exact ⟨_, file₁, s₁, v₁, run₁, stores₁, (wroteAll.unchanged_iff geo holds positive).mpr suffices_⟩

theorem oneClusterState_stores : Stores smallFs 2 oneClusterState.volume oneClusterState :=
  Stores.of_geometry (s := oneClusterState) smallFs_geometry fun _ => rfl

/-- Five bytes are written at position 1000. -/
theorem spaceKept_fiveBytes :
    SpaceKept smallFs 2 oneClusterState.volume 4294967296 oneClusterState { fiveBytes with position := 1000 } [3] 5 :=
  (spaceKept_iff (le_refl _) oneClusterState_stores rfl (Or.inr fiveBytes_chain) (by decide)).mpr
    ⟨Or.inr (by decide +kernel), fun largest => absurd largest (by decide)⟩

/-- A write at position 10000 returns 0, and every cluster of the volume is in use afterwards. -/
theorem space_taken :
    oneClusterState.volume.fat 9 = fat32FreeCluster ∧
    (fat32Write 4294967296 oneClusterState { fiveBytes with position := 10000 } (some fun _ => 0x41) 5).map
      (fun result => (result.1, (Volume.of smallFs result.2.2.ata.sector).fat 9)) = some (0, fat32EocMax) ∧
    ¬ SpaceKept smallFs 2 oneClusterState.volume 4294967296 oneClusterState
      { fiveBytes with position := 10000 } [3] 5 := by
  have free : oneClusterState.volume.fat 9 = fat32FreeCluster := by decide +kernel
  have taken : (fat32Write 4294967296 oneClusterState { fiveBytes with position := 10000 }
      (some fun _ => 0x41) 5).map (fun result => (result.1, (Volume.of smallFs result.2.2.ata.sector).fat 9)) =
      some (0, fat32EocMax) := by decide +kernel
  refine ⟨free, taken, fun kept => ?_⟩
  obtain ⟨status, file', s', v', run, stores, unchanged⟩ := kept (some fun _ => 0x41)
  rw [run, Option.map_some, stores.volume, Option.some.injEq, Prod.mk.injEq] at taken
  have same := (unchanged (Or.inl taken.1)).1
  have was := (smallFs_geometry.fats.mem_freeClusters (c := 9)).mpr ⟨by decide, free⟩
  rw [← same] at was
  have now := (smallFs_geometry.fats.mem_freeClusters.mp was).2
  rw [taken.2] at now
  exact absurd now (by decide)

end QuantumKernel.Fat32
