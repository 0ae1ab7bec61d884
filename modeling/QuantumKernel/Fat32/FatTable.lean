import QuantumKernel.Library.TableWalk
import QuantumKernel.Fat32.Layout

/-! # Freeing and allocating on any FAT

`fat32_free_cluster_chain` and `fat32_alloc_cluster` on a FAT with arbitrary content: no chain has
to be in order, and the allocation hint may be any number.  Only the place of the FAT copies is
assumed, so that the entries are where the driver looks for them.
-/

namespace QuantumKernel.Fat32

open ByteStore TableWalk

variable {g : Fat32Fs} {s s' : Fat32State} {c d : UInt32} {i : Nat} {sector sector' : Nat → Bytes}
  {l : List UInt32}

/-! ## Entries in every copy -/

/-- The entry of `cluster` in FAT copy `i`, in exact arithmetic. -/
def Fat32Fs.copyEntry (g : Fat32Fs) (sector : Nat → Bytes) (i : Nat) (cluster : UInt32) : UInt32 :=
  load32 (sector (g.fatSector i cluster)) (cluster.toNat % 128 * 4)

theorem FatMounted.fatCopyEntry_eq (h : FatMounted g s) {i : UInt8} (copy : i.toNat < g.numFats.toNat)
    (inRange : g.InRange d) : fatCopyEntry s i d = g.copyEntry s.ata.sector i.toNat d := by
  rw [fatCopyEntry, ataProgram_sector, h.fatSector_eq, h.geometry.fat32FatSector_toNat copy inRange,
    h.geometry.fat32EntryOffset_toNat inRange, Nat.mod_eq_of_lt (h.geometry.fatSector_lt_drive copy inRange)]
  rfl

theorem FatMounted.readFat_eq (h : FatMounted g s) (d : UInt32) :
    (fat32ReadFat s d).1 = (Volume.of g s.ata.sector).fat d := by
  obtain ⟨s', read, -⟩ := h.readFat d
  rw [read]

theorem fat_eq_copyEntry (inRange : g.InRange d) :
    (Volume.of g sector).fat d = g.copyEntry sector 0 d &&& 0x0FFFFFFF := if_pos inRange

theorem copyEntry_storeCopies (geo : FatGeometry g) (rangeC : g.InRange c) (rangeD : g.InRange d)
    (copy : i < g.numFats.toNat) (value : UInt32) :
    g.copyEntry (g.storeCopies c value 0 sector) i d = if d = c then value else g.copyEntry sector i d := by
  have rowC := (geo.fatSector_lt copy rangeC).1
  have rowD := (geo.fatSector_lt copy rangeD).1
  by_cases same : d = c
  · subst same
    rw [if_pos rfl, Fat32Fs.copyEntry, Fat32Fs.storeCopies, if_pos ⟨i, copy, Nat.zero_le i, rfl⟩,
      load32_store32]
  · rw [if_neg same, Fat32Fs.copyEntry, Fat32Fs.copyEntry]
    refine load32_congr fun k bound => ?_
    rw [Fat32Fs.storeCopies]
    by_cases hit : ∃ j < g.numFats.toNat, 0 ≤ j ∧ g.fatSector i d = g.fatSector j c
    · rw [if_pos hit]
      obtain ⟨j, -, -, equal⟩ := hit
      obtain ⟨-, row⟩ := Fat32Fs.fatSector_inj rowD rowC equal
      have distinct : d.toNat ≠ c.toNat := fun eq => same (UInt32.toNat.inj eq)
      exact store32_outside (by omega)
    · rw [if_neg hit]

/-- The sectors when the entries of a list were freed, one after another. -/
def Fat32Fs.freeCopies (g : Fat32Fs) (l : List UInt32) (sector : Nat → Bytes) : Nat → Bytes :=
  l.foldl (fun sector c => g.storeCopies c fat32FreeCluster 0 sector) sector

theorem copyEntry_freeCopies (geo : FatGeometry g) (inRange : ∀ c ∈ l, g.InRange c) (rangeD : g.InRange d)
    (copy : i < g.numFats.toNat) (sector : Nat → Bytes) :
    g.copyEntry (g.freeCopies l sector) i d = if d ∈ l then fat32FreeCluster else g.copyEntry sector i d := by
  induction l generalizing sector with
  | nil => rfl
  | cons c l ih =>
    have later := ih (fun x member => inRange x (List.mem_cons_of_mem c member))
      (g.storeCopies c fat32FreeCluster 0 sector)
    rw [copyEntry_storeCopies geo (inRange c List.mem_cons_self) rangeD copy] at later
    refine later.trans ?_
    by_cases member : d ∈ l
    · rw [if_pos member, if_pos (List.mem_cons_of_mem c member)]
    · by_cases same : d = c
      · rw [if_neg member, if_pos same, if_pos (List.mem_cons.mpr (Or.inl same))]
      · rw [if_neg member, if_neg same, if_neg (by simp [same, member])]

/-! ## `fat32_free_cluster_chain` -/

theorem FatMounted.walk_iff (h : FatMounted g s) (c : UInt32) :
    (2 ≤ c ∧ c < fat32EocMin ∧ c < s.gFs.totalClusters + 2) ↔ g.InRange c := by
  have small := h.geometry.total_le
  have total : s.gFs.totalClusters = g.totalClusters := by rw [h.gFs]
  simp only [total, UInt32.le_iff_toNat_le, UInt32.lt_iff_toNat_lt, h.geometry.total_add,
    fat32EocMin, UInt32.reduceToNat, Fat32Fs.InRange]
  omega

theorem Moved.trans {t : Fat32State} (first : Moved s s' sector) (second : Moved s' t sector') :
    Moved s t sector' :=
  ⟨second.gFs.trans first.gFs, second.current.trans first.current, second.outcome.trans first.outcome,
    second.buffer.trans first.buffer, second.sector⟩

/-- The function follows the links of the first copy and frees every entry it leaves, in all copies. -/
theorem FatMounted.freeChain (h : FatMounted g s) {fuel : Nat}
    (walked : clear g.InRange fat32FreeCluster fuel (Volume.of g s.ata.sector).fat c = some l) :
    ∃ s', fat32FreeClusterChain fuel s c = some s' ∧ Moved s s' (g.freeCopies l s.ata.sector) := by
  induction fuel generalizing s c l with
  | zero => cases walked
  | succ fuel ih =>
    by_cases inRange : g.InRange c
    · obtain ⟨s₁, read, moved₁⟩ := h.readFat c
      have h₁ := h.moved moved₁
      obtain ⟨s₂, write, moved₂⟩ := h₁.writeFat inRange fat32FreeCluster
      have zero : fat32FreeCluster &&& 0x0FFFFFFF = fat32FreeCluster := by decide
      rw [zero, moved₁.sector] at moved₂
      have fat₂ : (Volume.of g s₂.ata.sector).fat =
          Function.update (Volume.of g s.ata.sector).fat c fat32FreeCluster := by
        rw [moved₂.sector, fat_of_storeCopies h.geometry inRange, zero]
      rw [clear, if_pos inRange, ← fat₂] at walked
      obtain ⟨rest, later, rfl⟩ := Option.map_eq_some_iff.mp walked
      obtain ⟨s', run, moved⟩ := ih (h₁.moved moved₂) later
      rw [moved₂.sector] at moved
      refine ⟨s', ?_, (moved₁.trans moved₂).trans moved⟩
      rw [fat32FreeClusterChain, if_pos ((h.walk_iff c).mpr inRange), read]
      simp only [write]
      exact run
    · rw [clear_stop fuel inRange] at walked
      cases walked
      refine ⟨s, ?_, ⟨rfl, rfl, rfl, rfl, rfl⟩⟩
      rw [fat32FreeClusterChain, if_neg (fun go => inRange ((h.walk_iff c).mp go))]

/-- The clusters of a volume as a finite set. -/
def Fat32Fs.clusters (g : Fat32Fs) : Finset UInt32 :=
  (Finset.range g.totalClusters.toNat).image fun i => UInt32.ofNat (i + 2)

theorem Fat32Fs.mem_clusters (inRange : g.InRange c) : c ∈ g.clusters := by
  obtain ⟨lower, upper⟩ := inRange
  refine Finset.mem_image.mpr ⟨c.toNat - 2, Finset.mem_range.mpr (by omega), ?_⟩
  rw [Nat.sub_add_cancel lower, UInt32.ofNat_toNat]

theorem Fat32Fs.card_clusters_le (g : Fat32Fs) : g.clusters.card ≤ g.totalClusters.toNat :=
  Finset.card_image_le.trans (le_of_eq (Finset.card_range _))

/-- The cluster is visited by following the links that `fat32_read_fat` reads. -/
def Fat32State.Visits (s : Fat32State) (start : UInt32) : UInt32 → Prop :=
  Reach (fun c => (fat32ReadFat s c).1) s.gFs.InRange start

/-- The entry reads as `value`, and is `value` in every copy of the FAT. -/
def Fat32State.EntryIs (s : Fat32State) (c value : UInt32) : Prop :=
  (fat32ReadFat s c).1 = value ∧ ∀ i : UInt8, i < s.gFs.numFats → fatCopyEntry s i c = value

/-- The entry is what it was, in every copy of the FAT. -/
def Fat32State.EntryKept (s s' : Fat32State) (c : UInt32) : Prop :=
  (fat32ReadFat s' c).1 = (fat32ReadFat s c).1 ∧
    ∀ i : UInt8, i < s.gFs.numFats → fatCopyEntry s' i c = fatCopyEntry s i c

theorem FatMounted.entryIs (h : FatMounted g s) (inRange : g.InRange c) {value : UInt32}
    (small : value &&& 0x0FFFFFFF = value)
    (stored : ∀ i < g.numFats.toNat, g.copyEntry s.ata.sector i c = value) : s.EntryIs c value := by
  have numFats : s.gFs.numFats = g.numFats := by rw [h.gFs]
  refine ⟨?_, fun i copy => ?_⟩
  · rw [h.readFat_eq, fat_eq_copyEntry inRange, stored 0 h.geometry.fats_pos, small]
  · rw [numFats] at copy
    have bound := UInt8.lt_iff_toNat_lt.mp copy
    rw [h.fatCopyEntry_eq bound inRange, stored _ bound]

theorem FatMounted.entryKept (h : FatMounted g s) (h' : FatMounted g s') (inRange : g.InRange c)
    (kept : ∀ i < g.numFats.toNat, g.copyEntry s'.ata.sector i c = g.copyEntry s.ata.sector i c) :
    s.EntryKept s' c := by
  have numFats : s.gFs.numFats = g.numFats := by rw [h.gFs]
  refine ⟨?_, fun i copy => ?_⟩
  · rw [h.readFat_eq, h'.readFat_eq, fat_eq_copyEntry inRange, fat_eq_copyEntry inRange,
      kept 0 h.geometry.fats_pos]
  · rw [numFats] at copy
    have bound := UInt8.lt_iff_toNat_lt.mp copy
    rw [h.fatCopyEntry_eq bound inRange, h'.fatCopyEntry_eq bound inRange, kept _ bound]

/-- **Freeing a chain is total and exact.**  Whatever the FAT contains and wherever the function
starts, it is done after at most as many rounds as there are clusters, and one more; it has freed
the clusters that the links lead to, in every copy, and no other entry has changed. -/
theorem free_chain_exact (s : Fat32State) (geo : FatGeometry s.gFs) (ok : ∀ n, s.ata.outcome n = .ok)
    (start : UInt32) (fuel : Nat) (enough : s.gFs.totalClusters.toNat + 1 < fuel) :
    ∃ s', fat32FreeClusterChain fuel s start = some s' ∧ ∀ c, s.gFs.InRange c →
      (s.Visits start c → s'.EntryIs c fat32FreeCluster) ∧ (¬ s.Visits start c → s.EntryKept s' c) := by
  have h := FatMounted.of_geometry geo ok
  have count : (s.gFs.clusters.filter ((Volume.of s.gFs s.ata.sector).fat · ≠ fat32FreeCluster)).card ≤
      s.gFs.totalClusters.toNat := (Finset.card_filter_le _ _).trans s.gFs.card_clusters_le
  have stop : ¬ s.gFs.InRange fat32FreeCluster := fun inRange => absurd inRange.1 (by decide)
  obtain ⟨l, walked, visited⟩ := clear_spec (Volume.of s.gFs s.ata.sector).fat start stop s.gFs.clusters
    (fun _ => Fat32Fs.mem_clusters) fuel (by omega)
  obtain ⟨s', run, moved⟩ := h.freeChain walked
  have h' := h.moved moved
  have links : (fun c => (fat32ReadFat s c).1) = (Volume.of s.gFs s.ata.sector).fat := funext h.readFat_eq
  have inRange : ∀ c ∈ l, s.gFs.InRange c := fun c member => ((visited c).mp member).isCell
  refine ⟨s', run, fun c rangeC => ⟨fun visits => ?_, fun misses => ?_⟩⟩
  · rw [Fat32State.Visits, links] at visits
    refine h'.entryIs rangeC (by decide) fun i copy => ?_
    rw [moved.sector, copyEntry_freeCopies geo inRange rangeC copy, if_pos ((visited c).mpr visits)]
  · rw [Fat32State.Visits, links] at misses
    refine h.entryKept h' rangeC fun i copy => ?_
    rw [moved.sector, copyEntry_freeCopies geo inRange rangeC copy,
      if_neg (fun member => misses ((visited c).mp member))]

/-- The entries 3 and 4 point at each other. -/
def cycleDrive : Nat → Bytes :=
  smallDrive (fun c => if c = 2 then fat32EocMax else if c = 3 then 4 else if c = 4 then 3 else 0) fun _ _ => 0

/-- A cycle is freed. -/
theorem free_chain_exact_cycle :
    ∃ s', fat32FreeClusterChain 10 (mountedOn smallFs cycleDrive) 3 = some s' ∧
      s'.EntryIs 4 fat32FreeCluster := by
  obtain ⟨s', run, exact_⟩ := free_chain_exact (mountedOn smallFs cycleDrive) smallFs_geometry.fats
    (fun _ => rfl) 3 10 (by decide)
  have first : (mountedOn smallFs cycleDrive).Visits 3 3 := .here (by decide)
  have link : (fat32ReadFat (mountedOn smallFs cycleDrive) 3).1 = 4 := by decide +kernel
  have second : (mountedOn smallFs cycleDrive).Visits 3 4 := by
    rw [← link]
    exact .step first (by rw [link]; decide)
  exact ⟨s', run, (exact_ 4 (by decide)).1 second⟩

/-! ## `fat32_alloc_cluster` -/

/-- The place of the cluster that the search looks at first. -/
def Fat32Fs.place (g : Fat32Fs) (c : UInt32) : Nat := if g.totalClusters + 2 ≤ c then 0 else c.toNat - 2

theorem FatGeometry.place_lt (geo : FatGeometry g) (room : 0 < g.totalClusters.toNat) (lower : 2 ≤ c.toNat) :
    g.place c < g.totalClusters.toNat := by
  have end_ := geo.total_add
  rw [Fat32Fs.place]
  by_cases past : g.totalClusters + 2 ≤ c
  · rw [if_pos past]
    exact room
  · rw [if_neg past]
    rw [UInt32.le_iff_toNat_le, end_] at past
    omega

theorem place_bound (inRange : g.InRange d) : d.toNat - 2 < g.totalClusters.toNat := by
  obtain ⟨lower, upper⟩ := inRange
  omega

/-- Every place comes up within one turn. -/
theorem exists_turn {n p q : Nat} (start : p < n) (goal : q < n) : ∃ k < n, (p + k) % n = q := by
  refine ⟨(q + n - p) % n, Nat.mod_lt _ (by omega), ?_⟩
  rw [Nat.add_mod_mod, show p + (q + n - p) = q + n by omega, Nat.add_mod_right, Nat.mod_eq_of_lt goal]

/-- The search looks at one cluster after the other, and behind the last one at the first. -/
theorem FatMounted.allocLoop (h : FatMounted g s) (remaining : Nat) (bound : remaining ≤ g.totalClusters.toNat)
    (lower : 2 ≤ c.toNat) :
    (∃ s', fat32AllocLoop remaining c s = (0, s') ∧ Moved s s' s.ata.sector ∧ ∀ k < remaining,
      (Volume.of g s.ata.sector).fat (UInt32.ofNat (2 + (g.place c + k) % g.totalClusters.toNat)) ≠
        fat32FreeCluster) ∨
    ∃ n s', fat32AllocLoop remaining c s = (n, s') ∧ g.InRange n ∧
      (Volume.of g s.ata.sector).fat n = fat32FreeCluster ∧ FatMounted g s' ∧
      s'.gCurrentDirCluster = s.gCurrentDirCluster ∧
      s'.ata.sector = g.storeCopies n fat32EocMax 0 s.ata.sector := by
  induction remaining generalizing c s with
  | zero => exact Or.inl ⟨s, rfl, ⟨rfl, rfl, rfl, rfl, rfl⟩, fun k small => absurd small (Nat.not_lt_zero k)⟩
  | succ remaining ih =>
    have total : s.gFs.totalClusters = g.totalClusters := by rw [h.gFs]
    have end_ := h.geometry.total_add
    have small := h.geometry.total_le
    -- the cluster of this round: behind the last one the search goes on at 2
    obtain ⟨d, wrapped, here, inRange⟩ : ∃ d, (if s.gFs.totalClusters + 2 ≤ c then 2 else c) = d ∧
        d.toNat = 2 + g.place c ∧ g.InRange d := by
      refine ⟨_, rfl, ?_⟩
      rw [total, Fat32Fs.place]
      by_cases past : g.totalClusters + 2 ≤ c
      · rw [if_pos past, if_pos past]
        exact ⟨rfl, le_refl 2, by simp only [UInt32.reduceToNat]; omega⟩
      · rw [if_neg past, if_neg past]
        rw [UInt32.le_iff_toNat_le, end_] at past
        exact ⟨by omega, lower, by omega⟩
    have place := h.geometry.place_lt (c := c) (by omega) lower
    obtain ⟨s₁, read, moved₁⟩ := h.readFat d
    have h₁ := h.moved moved₁
    by_cases free : (Volume.of g s.ata.sector).fat d = fat32FreeCluster
    · obtain ⟨s₂, write, moved₂⟩ := h₁.writeFat inRange fat32EocMax
      have h₂ := h₁.moved moved₂
      have mask : fat32EocMax &&& 0x0FFFFFFF = fat32EocMax := by decide
      rw [mask, moved₁.sector] at moved₂
      refine Or.inr ⟨d, { s₂ with gFs.fsinfo.nextFree := d + 1 }, ?_, inRange, free, ⟨h₂.geometry, ?_, h₂.outcome⟩,
        moved₂.current.trans moved₁.current, moved₂.sector⟩
      · simp only [fat32AllocLoop, wrapped, read, write, if_pos free]
      · rw [h₂.gFs]
    · have next : (d + 1).toNat = d.toNat + 1 := by
        have upper := inRange.2
        simp only [UInt32.toNat_add, UInt32.reduceToNat]
        omega
      -- one place further on the circle of clusters
      have turned : g.place (d + 1) = (g.place c + 1) % g.totalClusters.toNat := by
        rw [Fat32Fs.place]
        by_cases past : g.totalClusters + 2 ≤ d + 1
        · rw [if_pos past]
          rw [UInt32.le_iff_toNat_le, end_, next, here] at past
          have last : g.place c + 1 = g.totalClusters.toNat := by omega
          rw [last, Nat.mod_self]
        · rw [if_neg past, next, here]
          rw [UInt32.le_iff_toNat_le, end_, next, here] at past
          rw [Nat.mod_eq_of_lt (by omega)]
          omega
      have step : fat32AllocLoop (remaining + 1) c s = fat32AllocLoop remaining (d + 1) s₁ := by
        simp only [fat32AllocLoop, wrapped, read, if_neg free]
      rw [step]
      have rest := ih h₁ (c := d + 1) (by omega) (by omega)
      rw [moved₁.sector] at rest
      rw [moved₁.current] at rest
      rcases rest with ⟨s', run, moved, others⟩ | found
      · refine Or.inl ⟨s', run, moved₁.trans moved, fun k below => ?_⟩
        cases k with
        | zero =>
          rw [Nat.add_zero, Nat.mod_eq_of_lt place, ← here, UInt32.ofNat_toNat]
          exact free
        | succ k =>
          have other := others k (by omega)
          rwa [turned, Nat.mod_add_mod, Nat.add_assoc, Nat.add_comm 1 k] at other
      · exact Or.inr found

/-- No cluster is free. -/
def Volume.Full (g : Fat32Fs) (v : Volume) : Prop := ∀ c, g.InRange c → v.fat c ≠ fat32FreeCluster

theorem FatMounted.allocCluster (h : FatMounted g s) :
    (∃ s', fat32AllocCluster s = (0, s') ∧ Moved s s' s.ata.sector ∧ (Volume.of g s.ata.sector).Full g) ∨
    ∃ n s', fat32AllocCluster s = (n, s') ∧ g.InRange n ∧
      (Volume.of g s.ata.sector).fat n = fat32FreeCluster ∧ FatMounted g s' ∧
      s'.gCurrentDirCluster = s.gCurrentDirCluster ∧
      s'.ata.sector = g.storeCopies n fat32EocMax 0 s.ata.sector := by
  have total : s.gFs.totalClusters = g.totalClusters := by rw [h.gFs]
  have lower : 2 ≤ (if s.gFs.fsinfo.nextFree < 2 then 2 else s.gFs.fsinfo.nextFree).toNat := by
    by_cases low : s.gFs.fsinfo.nextFree < 2
    · rw [if_pos low]
      decide
    · rw [if_neg low]
      exact Nat.not_lt.mp fun below => low (UInt32.lt_iff_toNat_lt.mpr below)
  rw [fat32AllocCluster, total]
  rcases h.allocLoop g.totalClusters.toNat (le_refl _) lower with ⟨s', run, moved, others⟩ | found
  · refine Or.inl ⟨s', run, moved, fun d rangeD => ?_⟩
    obtain ⟨k, below, turned⟩ := exists_turn
      (h.geometry.place_lt (Nat.lt_of_le_of_lt (Nat.zero_le _) (place_bound rangeD)) lower) (place_bound rangeD)
    have other := others k below
    rwa [turned, Nat.add_sub_cancel' rangeD.1, UInt32.ofNat_toNat] at other
  · exact Or.inr found

/-- **Allocation is complete and fresh.**  For every content of the FAT and every hint,
`fat32_alloc_cluster` returns 0 exactly when no cluster is free, and has stored nothing then;
otherwise it returns a cluster that was free and is now the end of a chain in every copy, and no
other entry has changed. -/
theorem alloc_complete (s : Fat32State) (geo : FatGeometry s.gFs) (ok : ∀ n, s.ata.outcome n = .ok) :
    ∃ c s', fat32AllocCluster s = (c, s') ∧
      (c = 0 ↔ ∀ d, s.gFs.InRange d → (fat32ReadFat s d).1 ≠ fat32FreeCluster) ∧
      (c = 0 → s'.ata.sector = s.ata.sector) ∧
      (c ≠ 0 → s.gFs.InRange c ∧ (fat32ReadFat s c).1 = fat32FreeCluster ∧ s'.EntryIs c fat32EocMax ∧
        ∀ d, s.gFs.InRange d → d ≠ c → s.EntryKept s' d) := by
  have h := FatMounted.of_geometry geo ok
  rcases h.allocCluster with ⟨s', run, moved, full⟩ | ⟨n, s', run, inRange, free, h', -, sector⟩
  · refine ⟨0, s', run, ⟨fun _ d rangeD => ?_, fun _ => rfl⟩, fun _ => moved.sector, fun ne => absurd rfl ne⟩
    rw [h.readFat_eq]
    exact full d rangeD
  · refine ⟨n, s', run, ⟨fun zero => ?_, fun none => ?_⟩, fun zero => ?_, fun _ => ⟨inRange, ?_, ?_, ?_⟩⟩
    · exact absurd (zero ▸ inRange.1) (by decide)
    · exact absurd ((h.readFat_eq n).trans free) (none n inRange)
    · exact absurd (zero ▸ inRange.1) (by decide)
    · exact (h.readFat_eq n).trans free
    · refine h'.entryIs inRange (by decide) fun i copy => ?_
      rw [sector, copyEntry_storeCopies geo inRange inRange copy, if_pos rfl]
    · intro d rangeD other
      refine h.entryKept h' rangeD fun i copy => ?_
      rw [sector, copyEntry_storeCopies geo inRange rangeD copy, if_neg other]

/-- A full volume, and a hint behind its end. -/
def fullState : Fat32State :=
  { mountedOn smallFs (smallDrive (fun _ => fat32EocMax) fun _ _ => 0) with gFs.fsinfo.nextFree := 0xFFFFFFFF }

theorem alloc_complete_full : (fat32AllocCluster fullState).1 = 0 := by
  obtain ⟨c, s', run, zero, -⟩ := alloc_complete fullState
    ⟨by decide, by decide, by decide, by decide⟩ (fun _ => rfl)
  rw [run]
  refine zero.mpr fun d inRange => ?_
  have lower : 2 ≤ d.toNat := inRange.1
  have upper : d.toNat < 10 := inRange.2
  have used : ∀ i ∈ List.range 8, (fat32ReadFat fullState (UInt32.ofNat (i + 2))).1 ≠ fat32FreeCluster := by
    decide +kernel
  have this := used (d.toNat - 2) (List.mem_range.mpr (by omega))
  rwa [Nat.sub_add_cancel lower, UInt32.ofNat_toNat] at this

end QuantumKernel.Fat32
