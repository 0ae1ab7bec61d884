import QuantumKernel.Library.LinkedTable
import QuantumKernel.Fat32.FatTable
import QuantumKernel.Fat32.File

/-! # Cluster chains

The FAT is a successor table in the sense of `LinkedTable`: its cells are the clusters
of the data area, and the end marks are the values from `FAT32_EOC_MIN` on.  This
module gives the specifications of the functions that allocate, link and free
clusters, in terms of the chains of a volume.
-/

namespace QuantumKernel.Fat32

open ByteStore LinkedTable

/-- The value ends a chain. -/
def IsEoc (value : UInt32) : Prop := fat32EocMin ≤ value

instance (value : UInt32) : Decidable (IsEoc value) := inferInstanceAs (Decidable (_ ≤ _))

/-- `l` is the cluster chain that starts at `a`. -/
abbrev FatChain (g : Fat32Fs) (v : Volume) (a : UInt32) (l : List UInt32) : Prop :=
  Chain v.fat g.InRange IsEoc a l

/-- Every cluster of `heads` starts a chain, and these chains are disjoint. -/
abbrev Volume.Separate (g : Fat32Fs) (v : Volume) (heads : Set UInt32) : Prop :=
  LinkedTable.Separate v.fat g.InRange IsEoc heads

/-- Every allocated cluster is on the chain of a cluster of `heads`. -/
abbrev Volume.Covered (g : Fat32Fs) (v : Volume) (heads : Set UInt32) : Prop :=
  LinkedTable.Covered v.fat g.InRange IsEoc fat32FreeCluster heads

/-- All clusters of a list marked free. -/
def Volume.freeAll (v : Volume) (l : List UInt32) : Volume :=
  { v with fat := fun c => if c ∈ l then fat32FreeCluster else v.fat c }

variable {g : Fat32Fs} {cwd : UInt32} {v v' : Volume} {s : Fat32State} {a c n : UInt32}
  {l l' : List UInt32}

theorem Volume.freeAll_cons (v : Volume) (c : UInt32) (l : List UInt32) :
    (v.setFat c fat32FreeCluster).freeAll l = v.freeAll (c :: l) := by
  refine Volume.ext (funext fun d => ?_) rfl
  simp only [Volume.freeAll, Volume.setFat, List.mem_cons]
  by_cases same : d = c
  · simp [same]
  · simp [same]

/-! ## Clusters, free marks and end marks -/

theorem Geometry.free_not_inRange (_geo : Geometry g) : ¬ g.InRange fat32FreeCluster := by
  rintro ⟨lower, -⟩
  simp [fat32FreeCluster] at lower

theorem free_not_eoc : ¬ IsEoc fat32FreeCluster := by decide

theorem Geometry.excl (geo : Geometry g) : ∀ c, g.InRange c → ¬ IsEoc c := geo.inRange_not_eoc

theorem Fat32Fs.InRange.two_le (inRange : g.InRange c) : 2 ≤ c := by
  have lower := inRange.1
  simpa [UInt32.le_iff_toNat_le] using lower

theorem Fat32Fs.InRange.ne_zero (inRange : g.InRange c) : c ≠ 0 := by
  rintro rfl
  have lower := inRange.1
  simp at lower

theorem Geometry.lt_eoc (geo : Geometry g) (inRange : g.InRange c) : c < fat32EocMin := by
  have notEoc := geo.excl c inRange
  simp only [IsEoc, UInt32.le_iff_toNat_le, UInt32.lt_iff_toNat_lt] at notEoc ⊢
  omega

/-- The mask of `fat32_write_fat` does not change a cluster number. -/
theorem Geometry.mask_inRange (geo : Geometry g) (inRange : g.InRange c) : c &&& 0x0FFFFFFF = c := by
  have small := geo.inRange_lt_bad inRange
  apply UInt32.toNat.inj
  rw [UInt32.toNat_and]
  refine (Nat.and_two_pow_sub_one_eq_mod c.toNat 28).trans (Nat.mod_eq_of_lt ?_)
  simp only [Nat.reducePow]
  omega

theorem FatChain.ne_free (geo : Geometry g) (chain : FatChain g v a l) :
    ∀ c ∈ l, v.fat c ≠ fat32FreeCluster :=
  chain.next_ne_free geo.free_not_inRange free_not_eoc

/-- A chain has at most as many clusters as the volume. -/
theorem FatChain.length_le (geo : Geometry g) (chain : FatChain g v a l) :
    l.length ≤ g.totalClusters.toNat := by
  have nodup : (l.map UInt32.toNat).Nodup :=
    (List.nodup_map_iff (fun _ _ => UInt32.toNat.inj)).mpr (chain.nodup geo.excl)
  have subset : l.map UInt32.toNat ⊆ List.range' 2 g.totalClusters.toNat := by
    intro x member
    obtain ⟨c, inChain, rfl⟩ := List.mem_map.mp member
    obtain ⟨lower, upper⟩ := chain.cell_of_mem c inChain
    exact List.mem_range'_1.mpr ⟨lower, by omega⟩
  simpa using (nodup.subperm subset).length_le

theorem FatChain.length_lt (geo : Geometry g) (chain : FatChain g v a l) :
    l.length < 268435447 := by
  have count := FatChain.length_le geo chain
  have small := geo.total_lt
  omega

/-! ## `fat32_alloc_cluster` -/

/-- What `fat32_alloc_cluster` does: nothing on a full volume, or one free cluster becomes the end
of a chain of its own. -/
theorem fat32AllocCluster_spec (h : Stores g cwd v s) :
    (∃ s', fat32AllocCluster s = (0, s') ∧ Stores g cwd v s' ∧ v.Full g) ∨
    ∃ n s', fat32AllocCluster s = (n, s') ∧ g.InRange n ∧ v.fat n = fat32FreeCluster ∧
      Stores g cwd (v.setFat n fat32EocMax) s' := by
  rcases h.fatMounted.allocCluster with
    ⟨s', run, moved, full⟩ | ⟨n, s', run, inRange, free, mounted, current, sector⟩
  · rw [h.volume] at full
    exact Or.inl ⟨s', run, h.scratch (by rw [moved.gFs]) moved.current moved.outcome moved.sector, full⟩
  · rw [h.volume] at free
    refine Or.inr ⟨n, s', run, inRange, free, h.geometry, mounted.gFs, current.trans h.current, mounted.outcome, ?_⟩
    rw [sector, Volume.of_storeCopies h.geometry inRange, h.volume]
    rfl

/-- A freshly allocated cluster is a chain by itself. -/
theorem fresh_chain (inRange : g.InRange n) :
    FatChain g (v.setFat n fat32EocMax) n [n] :=
  .last inRange (by rw [Volume.setFat_fat, Function.update_self]; decide)

/-! ## `fat32_free_cluster_chain` -/

theorem Stores.walk_iff (h : Stores g cwd v s) (c : UInt32) :
    (2 ≤ c ∧ c < fat32EocMin ∧ c < s.gFs.totalClusters + 2) ↔ g.InRange c := by
  have small := h.geometry.total_lt
  simp only [h.field_total, UInt32.le_iff_toNat_le, UInt32.lt_iff_toNat_lt, h.geometry.total_add,
    fat32EocMin, UInt32.reduceToNat, Fat32Fs.InRange]
  omega

theorem fat32FreeClusterChain_spec {fuel : Nat} (enough : l.length < fuel) (chain : FatChain g v a l)
    (h : Stores g cwd v s) :
    ∃ s', fat32FreeClusterChain fuel s a = some s' ∧ Stores g cwd (v.freeAll l) s' := by
  induction l generalizing a v s fuel with
  | nil => exact absurd rfl chain.ne_nil
  | cons b rest ih =>
    obtain ⟨t, shape⟩ := chain.eq_cons
    obtain ⟨rfl, -⟩ := List.cons.inj shape
    have inRange := chain.cell_of_mem b chain.head_mem
    have nodup := List.nodup_cons.mp (chain.nodup h.geometry.excl)
    obtain ⟨fuel, rfl⟩ : ∃ k, fuel = k + 1 := ⟨fuel - 1, by omega⟩
    obtain ⟨s₁, read, stores₁, -⟩ := fat32ReadFat_spec h b
    obtain ⟨s₂, write, stores₂, -⟩ := fat32WriteFat_spec stores₁ inRange fat32FreeCluster
    have zero : fat32FreeCluster &&& 0x0FFFFFFF = fat32FreeCluster := by decide
    rw [zero] at stores₂
    rw [fat32FreeClusterChain, if_pos ((h.walk_iff b).mpr inRange), read]
    simp only [write]
    cases chain with
    | last _ ends =>
      obtain ⟨fuel, rfl⟩ : ∃ k, fuel = k + 1 := ⟨fuel - 1, by simp at enough; omega⟩
      have stop : ¬ g.InRange (v.fat b) := fun valid => h.geometry.excl _ valid ends
      refine ⟨s₂, ?_, ?_⟩
      · rw [fat32FreeClusterChain, if_neg (fun go => stop ((stores₂.walk_iff _).mp go))]
      · rw [← Volume.freeAll_cons]
        have nothing : (v.setFat b fat32FreeCluster).freeAll [] = v.setFat b fat32FreeCluster := by
          refine Volume.ext (funext fun d => ?_) rfl
          simp [Volume.freeAll]
        rw [nothing]
        exact stores₂
    | link _ tail =>
      have kept : FatChain g (v.setFat b fat32FreeCluster) (v.fat b) rest := by
        refine tail.congr fun x member => ?_
        rw [Volume.setFat_fat, Function.update_of_ne]
        exact fun same => nodup.1 (same ▸ member)
      rw [← Volume.freeAll_cons]
      exact ih (by simpa using enough) kept stores₂

/-- Freeing a cluster that was just allocated restores the volume. -/
theorem freeAll_fresh (free : v.fat n = fat32FreeCluster) :
    (v.setFat n fat32EocMax).freeAll [n] = v := by
  refine Volume.ext (funext fun d => ?_) rfl
  simp only [Volume.freeAll, Volume.setFat_fat, List.mem_singleton]
  by_cases same : d = n
  · rw [if_pos same, same, free]
  · rw [if_neg same, Function.update_of_ne same]

/-! ## Growing one chain -/

/-- The chain of `a` grew from `l` to `l'` by clusters that were free, and only the FAT
entries and contents of `l'` were touched. -/
structure Grown (g : Fat32Fs) (v v' : Volume) (a : UInt32) (l l' : List UInt32) : Prop where
  extends_ : l <+: l'
  chain : FatChain g v' a l'
  fresh : ∀ c ∈ l', c ∉ l → v.fat c = fat32FreeCluster
  fat : ∀ c, c ∉ l' → v'.fat c = v.fat c
  data : ∀ c, c ∉ l' → v'.data c = v.data c

theorem Grown.refl (chain : FatChain g v a l) : Grown g v v a l l :=
  ⟨List.prefix_refl l, chain, fun _ member out => absurd member out, fun _ _ => rfl, fun _ _ => rfl⟩

theorem Grown.trans {w : Volume} {l'' : List UInt32} (first : Grown g v v' a l l')
    (second : Grown g v' w a l' l'') : Grown g v w a l l'' where
  extends_ := first.extends_.trans second.extends_
  chain := second.chain
  fresh := by
    intro c inNew notOld
    by_cases middle : c ∈ l'
    · exact first.fresh c middle notOld
    · rw [← first.fat c middle]
      exact second.fresh c inNew middle
  fat := by
    intro c out
    have out' : c ∉ l' := fun member => out (second.extends_.subset member)
    rw [second.fat c out, first.fat c out']
  data := by
    intro c out
    have out' : c ∉ l' := fun member => out (second.extends_.subset member)
    rw [second.data c out, first.data c out']

/-- Storing contents in a cluster of the chain. -/
theorem Grown.setData (chain : FatChain g v a l) (member : c ∈ l) (bytes : Bytes) :
    Grown g v (v.setData c bytes) a l l where
  extends_ := List.prefix_refl l
  chain := chain
  fresh := fun _ member out => absurd member out
  fat := fun _ _ => rfl
  data := by
    intro d out
    rw [Volume.setData_data, Function.update_of_ne]
    exact fun same => out (same ▸ member)

/-- Allocating a cluster and linking it to the end of a chain. -/
theorem Grown.append (geo : Geometry g) (chain : FatChain g v a l) (inRange : g.InRange n)
    (free : v.fat n = fat32FreeCluster) :
    Grown g v ((v.setFat n fat32EocMax).setFat (l.getLast chain.ne_nil) n) a l (l ++ [n]) := by
  have notIn : n ∉ l := fun member => FatChain.ne_free geo chain n member free
  have lastIn : l.getLast chain.ne_nil ∈ l := List.getLast_mem chain.ne_nil
  have lastNe : n ≠ l.getLast chain.ne_nil := fun same => notIn (same ▸ lastIn)
  have other : ∀ c, c ∉ l ++ [n] →
      ((v.setFat n fat32EocMax).setFat (l.getLast chain.ne_nil) n).fat c = v.fat c := by
    intro c out
    simp only [List.mem_append, List.mem_singleton, not_or] at out
    have notLast : c ≠ l.getLast chain.ne_nil := by
      rintro rfl
      exact out.1 lastIn
    rw [Volume.setFat_fat, Function.update_of_ne notLast, Volume.setFat_fat,
      Function.update_of_ne out.2]
  refine ⟨List.prefix_append l [n], ?_, ?_, other, fun _ _ => rfl⟩
  · refine Chain.append chain (by rw [Volume.setFat_fat, Function.update_self]) ?_ geo.excl ?_
    · intro x member notLast
      have notNew : x ≠ n := by
        rintro rfl
        exact notIn member
      rw [Volume.setFat_fat, Function.update_of_ne notLast, Volume.setFat_fat,
        Function.update_of_ne notNew]
    · refine .last inRange ?_
      rw [Volume.setFat_fat, Function.update_of_ne lastNe, Volume.setFat_fat, Function.update_self]
      decide
  · intro c member out
    rcases List.mem_append.mp member with inOld | isNew
    · exact absurd inOld out
    · rw [List.mem_singleton.mp isNew]; exact free

/-- A chain that starts with a free cluster. -/
theorem Grown.start (inRange : g.InRange n) (free : v.fat n = fat32FreeCluster) :
    Grown g v (v.setFat n fat32EocMax) n [] [n] where
  extends_ := List.nil_prefix
  chain := fresh_chain inRange
  fresh := by
    intro c member _
    rw [List.mem_singleton.mp member]
    exact free
  fat := by
    intro c out
    rw [Volume.setFat_fat, Function.update_of_ne]
    exact fun same => out (by simp [same])
  data := fun _ _ => rfl

/-- The clusters of a growing chain are its old ones and free ones. -/
theorem Grown.source {heads : Set UInt32} (grown : Grown g v v' a l l')
    (old : a ∈ heads ∧ FatChain g v a l ∨ l = []) :
    ∀ x ∈ l', v.fat x = fat32FreeCluster ∨ (a ∈ heads ∧ ∃ l, FatChain g v a l ∧ x ∈ l) := by
  intro x member
  by_cases inOld : x ∈ l
  · rcases old with ⟨inHeads, chain⟩ | empty
    · exact Or.inr ⟨inHeads, l, chain, inOld⟩
    · rw [empty] at inOld
      exact absurd inOld List.not_mem_nil
  · exact Or.inl (grown.fresh x member inOld)

/-- Growing one chain keeps the family of chains apart. -/
theorem Grown.separate {heads : Set UInt32} (geo : Geometry g) (sep : v.Separate g heads)
    (old : a ∈ heads ∧ FatChain g v a l ∨ l = []) (grown : Grown g v v' a l l') :
    v'.Separate g (insert a heads) :=
  LinkedTable.Separate.rebuild sep geo.free_not_inRange free_not_eoc geo.excl grown.chain
    (grown.source old) fun x _ out => grown.fat x out

/-- Growing one chain loses no cluster. -/
theorem Grown.covered {heads : Set UInt32} (geo : Geometry g) (covered : v.Covered g heads)
    (sep : v.Separate g heads) (old : a ∈ heads ∧ FatChain g v a l ∨ a ∉ heads ∧ l = [])
    (grown : Grown g v v' a l l') : v'.Covered g (insert a heads) := by
  refine LinkedTable.Covered.rebuild covered sep geo.free_not_inRange free_not_eoc grown.chain
    (grown.source (old.imp_right And.right)) (fun inHeads m chain => ?_) fun x out => grown.fat x out
  rcases old with ⟨-, chain'⟩ | ⟨notHead, -⟩
  · obtain rfl := Chain.unique geo.excl chain chain'
    exact grown.extends_.subset
  · exact absurd inHeads notHead

/-- A chain that shares no cluster with a growing one is untouched. -/
theorem Grown.other_chain {b : UInt32} {m : List UInt32} (geo : Geometry g)
    (grown : Grown g v v' a l l') (chain : FatChain g v b m) (apart : m.Disjoint l) :
    FatChain g v' b m ∧ m.Disjoint l' ∧ ∀ c ∈ m, v'.data c = v.data c := by
  have disjoint : m.Disjoint l' := by
    intro c inM inNew
    exact FatChain.ne_free geo chain c inM (grown.fresh c inNew fun inOld => apart inM inOld)
  exact ⟨chain.congr fun c member => grown.fat c fun inNew => disjoint member inNew, disjoint,
    fun c member => grown.data c fun inNew => disjoint member inNew⟩

/-! ## Walking a chain -/

theorem FatChain.fat_getElem (chain : FatChain g v a l) {i : Nat} (bound : i < l.length) :
    (∃ later : i + 1 < l.length, v.fat l[i] = l[i + 1]) ∨
    (i + 1 = l.length ∧ IsEoc (v.fat l[i])) := by
  by_cases later : i + 1 < l.length
  · exact Or.inl ⟨later, chain.next_getElem i later⟩
  · right
    have last : i = l.length - 1 := by omega
    refine ⟨by omega, ?_⟩
    have ends := chain.stop_getLast
    rw [List.getLast_eq_getElem] at ends
    subst last
    exact ends

/-- Stepping from the `i`-th cluster of a chain, the way `fat32_write` does it. -/
theorem fat32NextOrAppend_spec (chain : FatChain g v a l) {i : Nat} (bound : i < l.length)
    (h : Stores g cwd v s) :
    ∃ r s' v' l', fat32NextOrAppend s l[i] = (r, s') ∧ Stores g cwd v' s' ∧ Grown g v v' a l l' ∧
      v'.data = v.data ∧ l'.length ≤ max l.length (i + 2) ∧
      (r = none ∧ l'.length = i + 1 ∧ v'.Full g ∨ ∃ later : i + 1 < l'.length, r = some l'[i + 1]) := by
  obtain ⟨s₁, read, stores₁, -⟩ := fat32ReadFat_spec h l[i]
  rcases FatChain.fat_getElem chain bound with ⟨later, next⟩ | ⟨atLast, ends⟩
  · have notEoc : ¬ fat32EocMin ≤ l[i + 1] :=
      h.geometry.excl _ (chain.cell_of_mem _ (List.getElem_mem later))
    refine ⟨some l[i + 1], s₁, v, l, ?_, stores₁, Grown.refl chain, rfl, le_max_left _ _, Or.inr ⟨later, rfl⟩⟩
    simp only [fat32NextOrAppend, read, next, if_neg notEoc]
  · have isEoc : fat32EocMin ≤ v.fat l[i] := ends
    rcases fat32AllocCluster_spec stores₁ with ⟨s₂, alloc, stores₂, full⟩ | ⟨n, s₂, alloc, inRange, free, stores₂⟩
    · refine ⟨none, s₂, v, l, ?_, stores₂, Grown.refl chain, rfl, le_max_left _ _, Or.inl ⟨rfl, atLast.symm, full⟩⟩
      simp only [fat32NextOrAppend, read, if_pos isEoc, alloc, if_true]
    · have lastIs : l[i] = l.getLast chain.ne_nil := by
        rw [List.getLast_eq_getElem]
        congr 1
        omega
      have lastRange : g.InRange l[i] := chain.cell_of_mem _ (List.getElem_mem bound)
      obtain ⟨s₃, link, stores₃, -⟩ := fat32WriteFat_spec stores₂ lastRange n
      rw [h.geometry.mask_inRange inRange, lastIs] at stores₃
      refine ⟨some n, s₃, _, l ++ [n], ?_, stores₃, Grown.append h.geometry chain inRange free, rfl,
        by simp; omega, Or.inr ⟨by simp; omega, ?_⟩⟩
      · simp only [fat32NextOrAppend, read, if_pos isEoc, alloc, if_neg inRange.ne_zero, link]
      · rw [List.getElem_append_right (by omega)]
        simp

end QuantumKernel.Fat32
