import QuantumKernel.Fat32.Chains

/-! # Free clusters

The clusters that the FAT marks free, as a finite set.  A chain that grows takes as many of them as it
appends; when an allocation fails there is none, and when a creation fails there is at most one.
-/

namespace QuantumKernel.Fat32

open ByteStore LinkedTable

variable {g : Fat32Fs} {v v' : Volume} {a c n : UInt32} {l l' : List UInt32}

def Volume.freeClusters (g : Fat32Fs) (v : Volume) : Finset UInt32 :=
  g.clusters.filter fun c => v.fat c = fat32FreeCluster

theorem FatGeometry.mem_clusters_iff (geo : FatGeometry g) : c ∈ g.clusters ↔ g.InRange c := by
  refine ⟨fun member => ?_, Fat32Fs.mem_clusters⟩
  obtain ⟨i, below, rfl⟩ := Finset.mem_image.mp member
  have small := geo.total_le
  have bound := Finset.mem_range.mp below
  have value : (UInt32.ofNat (i + 2)).toNat = i + 2 := by
    rw [UInt32.toNat_ofNat', Nat.mod_eq_of_lt (by omega)]
  exact ⟨by omega, by omega⟩

theorem FatGeometry.mem_freeClusters (geo : FatGeometry g) :
    c ∈ v.freeClusters g ↔ g.InRange c ∧ v.fat c = fat32FreeCluster := by
  rw [Volume.freeClusters, Finset.mem_filter, geo.mem_clusters_iff]

theorem Volume.Full.freeClusters (geo : FatGeometry g) (full : v.Full g) : v.freeClusters g = ∅ := by
  refine Finset.eq_empty_of_forall_notMem fun c member => ?_
  obtain ⟨inRange, free⟩ := geo.mem_freeClusters.mp member
  exact full c inRange free

theorem Volume.Full.card_freeClusters (geo : FatGeometry g) (full : v.Full g) : (v.freeClusters g).card = 0 := by
  rw [full.freeClusters geo]
  exact Finset.card_empty

/-- Taking a cluster. -/
theorem Volume.freeClusters_setFat (v : Volume) (n : UInt32) {x : UInt32} (used : x ≠ fat32FreeCluster) :
    (v.setFat n x).freeClusters g = (v.freeClusters g).erase n := by
  ext c
  rw [Finset.mem_erase, Volume.freeClusters, Volume.freeClusters, Finset.mem_filter, Finset.mem_filter,
    Volume.setFat_fat]
  by_cases same : c = n
  · subst same
    rw [Function.update_self]
    exact ⟨fun both => absurd both.2 used, fun both => absurd rfl both.1⟩
  · rw [Function.update_of_ne same]
    exact (and_iff_right same).symm

/-- When taking a cluster makes the volume full, no other one was free. -/
theorem Volume.Full.card_le_one (geo : FatGeometry g) {x : UInt32} (full : (v.setFat n x).Full g)
    (used : x ≠ fat32FreeCluster) : (v.freeClusters g).card ≤ 1 := by
  have none := full.freeClusters geo
  rw [v.freeClusters_setFat n used] at none
  have count := Finset.pred_card_le_card_erase (s := v.freeClusters g) (a := n)
  rw [none, Finset.card_empty] at count
  omega

/-- The clusters that a growing chain takes are no longer free. -/
theorem Grown.freeClusters (geo : Geometry g) (grown : Grown g v v' a l l')
    (used : ∀ c ∈ l, v.fat c ≠ fat32FreeCluster) :
    (v'.freeClusters g).card + l'.length = (v.freeClusters g).card + l.length := by
  obtain ⟨new, rfl⟩ := grown.extends_
  have apart := List.nodup_append.mp (grown.chain.nodup geo.excl)
  have fresh : ∀ c ∈ new, v.fat c = fat32FreeCluster := fun c member =>
    grown.fresh c (List.mem_append_right l member) fun old => apart.2.2 c old c member rfl
  have split : v.freeClusters g = v'.freeClusters g ∪ new.toFinset := by
    ext c
    simp only [Finset.mem_union, List.mem_toFinset, geo.fats.mem_freeClusters]
    by_cases member : c ∈ l ++ new
    · have kept := FatChain.ne_free geo grown.chain c member
      have inRange := grown.chain.cell_of_mem c member
      rcases List.mem_append.mp member with old | isNew
      · have notNew : c ∉ new := fun isNew => apart.2.2 c old c isNew rfl
        simp [kept, used c old, notNew]
      · simp [isNew, fresh c isNew, inRange]
    · have notNew : c ∉ new := fun isNew => member (List.mem_append_right l isNew)
      simp [grown.fat c member, notNew]
  have disjoint : Disjoint (v'.freeClusters g) new.toFinset := by
    rw [Finset.disjoint_left]
    intro c free isNew
    rw [List.mem_toFinset] at isNew
    exact FatChain.ne_free geo grown.chain c (List.mem_append_right l isNew)
      (geo.fats.mem_freeClusters.mp free).2
  rw [split, Finset.card_union_of_disjoint disjoint, List.toFinset_card_of_nodup apart.2.1, List.length_append]
  omega

theorem Grown.freeClusters_le (geo : Geometry g) (grown : Grown g v v' a l l')
    (used : ∀ c ∈ l, v.fat c ≠ fat32FreeCluster) : (v'.freeClusters g).card ≤ (v.freeClusters g).card := by
  have count := grown.freeClusters geo used
  have longer := grown.extends_.length_le
  omega

/-- A chain that takes no cluster leaves the free ones alone. -/
theorem Grown.freeClusters_same (geo : Geometry g) (grown : Grown g v v' a l l)
    (used : ∀ c ∈ l, v.fat c ≠ fat32FreeCluster) : v'.freeClusters g = v.freeClusters g := by
  ext c
  simp only [geo.fats.mem_freeClusters]
  by_cases member : c ∈ l
  · simp [used c member, FatChain.ne_free geo grown.chain c member]
  · rw [grown.fat c member]

end QuantumKernel.Fat32
