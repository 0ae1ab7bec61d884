import QuantumKernel.Exec.PageTables

/-! # The loops of `paging_init`

Two loops put page tables in place, and after each of them a loop over addresses fills entries.
The first pair covers the lower half of the address space.  The second pair does not match: it
fills the entries from `0xC0000000` on, but has tables only from `0xF0000000` on.
-/

namespace QuantumKernel.Exec

open Pages

def pageFlags : UInt32 := pagePresent ||| pageWrite ||| pageUser

/-- `paging_init`; `pageTables` is the address of `page_tables_physical`.  An address that wraps
around to 0 ends the last loop. -/
def PageMemory.pagingInit (fuel : Nat) (pageTables : UInt32) (m : PageMemory) : Option PageMemory := do
  let m := { m with
    heapPtr := (kmalloc (kmalloc m.heapPtr 12).2 4096).2
    directory := fun _ => 0
    tables := fun _ => 0 }
  let m ← forLoop (fun i => i < 512) 1 (fun m i => m.attachTable i (pageTables + i * 4096)) fuel m 0
  let m ← forLoop (fun i => i < 0x80000000) 4096
    (fun m i => if directoryIndex i < 512 then m.storeEntry i (i ||| pageFlags) else m) fuel m 0
  let m ← forLoop (fun i => i < 1024) 1
    (fun m i => m.attachTable i (pageTables + (512 + (i - 960)) * 4096)) fuel m 960
  forLoop (fun i => i ≠ 0) 4096 (fun m i => m.storeEntry i (i ||| pageFlags)) fuel m 0xC0000000

/-- Where the array `page_tables_physical` may be. -/
structure ArrayAt (pageTables : UInt32) : Prop where
  nonnull : pageTables ≠ 0
  aligned : baseOf pageTables = pageTables
  fits : pageTables.toNat + 768 * 4096 ≤ 4294967296

/-- The indices of the directory that get a table. -/
def HasTable (i : UInt32) : Prop := i < 512 ∨ 960 ≤ i ∧ i < 1024

instance (i : UInt32) : Decidable (HasTable i) := inferInstanceAs (Decidable (_ ∨ _))

/-- The table for an index of the directory. -/
def tableAddress (pageTables i : UInt32) : UInt32 :=
  if i < 512 then pageTables + i * 4096 else pageTables + (512 + (i - 960)) * 4096

variable {m m' : PageMemory} {pageTables i j v : UInt32} {fuel : Nat} {l : List UInt32} {placed : UInt32 → Prop}

/-! ## The loops over tables -/

theorem tableAddress_toNat (array : ArrayAt pageTables) (hasTable : HasTable i) :
    (tableAddress pageTables i).toNat =
      pageTables.toNat + 4096 * (if i.toNat < 512 then i.toNat else i.toNat - 448) := by
  have fits := array.fits
  have range : i.toNat < 512 ∨ 960 ≤ i.toNat ∧ i.toNat < 1024 := hasTable
  rw [tableAddress]
  by_cases low : i < 512
  · have low' : i.toNat < 512 := low
    rw [if_pos low, if_pos low', UInt32.toNat_add, UInt32.toNat_mul, show (4096 : UInt32).toNat = 4096 from rfl]
    omega
  · have high : ¬ i.toNat < 512 := low
    have le : (960 : UInt32) ≤ i := (range.resolve_left high).1
    have sub : (i - 960).toNat = i.toNat - 960 := UInt32.toNat_sub_of_le _ _ le
    rw [if_neg low, if_neg high, UInt32.toNat_add, UInt32.toNat_mul, UInt32.toNat_add, sub,
      show (4096 : UInt32).toNat = 4096 from rfl, show (512 : UInt32).toNat = 512 from rfl]
    omega

theorem tableAddress_inj (array : ArrayAt pageTables) (hasI : HasTable i) (hasJ : HasTable j)
    (same : tableAddress pageTables i = tableAddress pageTables j) : i = j := by
  have same := congrArg UInt32.toNat same
  rw [tableAddress_toNat array hasI, tableAddress_toNat array hasJ] at same
  have rangeI : i.toNat < 512 ∨ 960 ≤ i.toNat ∧ i.toNat < 1024 := hasI
  have rangeJ : j.toNat < 512 ∨ 960 ≤ j.toNat ∧ j.toNat < 1024 := hasJ
  apply UInt32.toNat.inj
  split at same <;> split at same <;> omega

/-- The tables that are in place so far. -/
structure TablesPlaced (pageTables : UInt32) (placed : UInt32 → Prop) (m : PageMemory) : Prop where
  coherent : m.Coherent
  hasTable : ∀ i, placed i → HasTable i
  present : ∀ i, placed i →
    m.tables i = tableAddress pageTables i ∧ m.directory i = tableAddress pageTables i ||| pageFlags
  missing : ∀ i, ¬ placed i → m.tables i = 0 ∧ m.directory i = 0

/-- What the loops over tables leave alone. -/
structure Untouched (m m' : PageMemory) : Prop where
  entry : ∀ v, m'.entry v = m.entry v
  nullStores : m'.nullStores = m.nullStores
  heapPtr : m'.heapPtr = m.heapPtr

theorem tableAddress_nonnull (array : ArrayAt pageTables) (hasTable : HasTable i) : tableAddress pageTables i ≠ 0 := by
  intro null
  have address := tableAddress_toNat array hasTable
  have positive : pageTables.toNat ≠ 0 := fun zero => array.nonnull (UInt32.toNat.inj zero)
  rw [null, show (0 : UInt32).toNat = 0 from rfl] at address
  omega

/-- The null pointers are those of the tables that are not in place. -/
theorem TablesPlaced.null_iff (array : ArrayAt pageTables) (h : TablesPlaced pageTables placed m) :
    m.tables i = 0 ↔ ¬ placed i := by
  constructor
  · intro null there
    rw [(h.present i there).1] at null
    exact tableAddress_nonnull array (h.hasTable i there) null
  · intro absent
    exact (h.missing i absent).1

theorem TablesPlaced.fresh (array : ArrayAt pageTables) (h : TablesPlaced pageTables placed m) (hasTable : HasTable i)
    (new : ¬ placed i) : m.Fresh (tableAddress pageTables i) := by
  have address := tableAddress_toNat array hasTable
  have nonnull := tableAddress_nonnull array hasTable
  refine ⟨nonnull, ?_, fun k _ => ?_⟩
  · have aligned := aligned_iff.mp array.aligned
    rw [aligned_iff, address]
    omega
  · by_cases there : placed k
    · rw [(h.present k there).1]
      intro same
      exact new (tableAddress_inj array (h.hasTable k there) hasTable same ▸ there)
    · rw [(h.missing k there).1]
      exact nonnull.symm

/-- One table is put in place. -/
theorem TablesPlaced.attach (array : ArrayAt pageTables) (h : TablesPlaced pageTables placed m) (hasTable : HasTable i)
    (new : ¬ placed i) :
    TablesPlaced pageTables (fun k => k = i ∨ placed k) (m.attachTable i (tableAddress pageTables i)) ∧
      Untouched m (m.attachTable i (tableAddress pageTables i)) := by
  have fresh := h.fresh array hasTable new
  refine ⟨⟨h.coherent.attachTable fresh i, ?_, ?_, ?_⟩,
    m.attachTable_entry h.coherent fresh (h.missing i new).1, rfl, rfl⟩
  · rintro k (rfl | there)
    · exact hasTable
    · exact h.hasTable k there
  · intro k there
    simp only [PageMemory.attachTable, Function.update_apply]
    split
    · rename_i here
      rw [here, UInt32.or_assoc, UInt32.or_assoc, pageFlags, UInt32.or_assoc]
      exact ⟨rfl, rfl⟩
    · rename_i other
      exact h.present k (there.resolve_left other)
  · intro k absent
    rw [not_or] at absent
    simp only [PageMemory.attachTable, Function.update_of_ne absent.1]
    exact h.missing k absent.2

theorem TablesPlaced.attachAll (array : ArrayAt pageTables) (h : TablesPlaced pageTables placed m)
    (hasTable : ∀ i ∈ l, HasTable i) (new : ∀ i ∈ l, ¬ placed i) (nodup : l.Nodup) :
    let m' := l.foldl (fun m i => m.attachTable i (tableAddress pageTables i)) m
    TablesPlaced pageTables (fun k => k ∈ l ∨ placed k) m' ∧ Untouched m m' := by
  induction l generalizing m placed with
  | nil => simpa using And.intro h (Untouched.mk (fun _ => rfl) rfl rfl)
  | cons i l ih =>
    rw [List.nodup_cons] at nodup
    obtain ⟨first, kept⟩ := h.attach array (hasTable i List.mem_cons_self) (new i List.mem_cons_self)
    have later : ∀ k ∈ l, ¬ (k = i ∨ placed k) := by
      rintro k inList (rfl | there)
      · exact nodup.1 inList
      · exact new k (List.mem_cons_of_mem _ inList) there
    obtain ⟨all, kept'⟩ := ih first (fun k inList => hasTable k (List.mem_cons_of_mem _ inList)) later nodup.2
    have same : (fun k => k ∈ i :: l ∨ placed k) = fun k => k ∈ l ∨ k = i ∨ placed k := by
      funext k
      simp only [List.mem_cons, eq_iff_iff]
      tauto
    rw [same]
    exact ⟨all, fun v => (kept'.entry v).trans (kept.entry v), kept'.nullStores.trans kept.nullStores,
      kept'.heapPtr.trans kept.heapPtr⟩

/-! ## The loops over addresses -/

/-- The entries of some pages are stored. -/
structure Filled (l : List UInt32) (m m' : PageMemory) : Prop where
  coherent : m'.Coherent
  tables : m'.tables = m.tables
  directory : m'.directory = m.directory
  heapPtr : m'.heapPtr = m.heapPtr
  entry : ∀ v, m'.entry v = if baseOf v ∈ l then
    (if m.tables (directoryIndex v) = 0 then 0 else baseOf v ||| pageFlags) else m.entry v
  nullStores : ∀ a, a ∈ m'.nullStores ↔ a ∈ m.nullStores ∨ a ∈ l ∧ m.tables (directoryIndex a) = 0

theorem same_page_iff (aligned : baseOf i = i) : pageOf v = pageOf i ↔ baseOf v = i := by
  rw [aligned_iff] at aligned
  rw [← UInt32.toNat_inj, ← UInt32.toNat_inj, pageOf_toNat, pageOf_toNat, baseOf_toNat]
  omega

theorem Filled.all (coherent : m.Coherent) (aligned : ∀ i ∈ l, baseOf i = i) :
    Filled l m (l.foldl (fun m i => m.storeEntry i (i ||| pageFlags)) m) := by
  induction l generalizing m with
  | nil => exact ⟨coherent, rfl, rfl, rfl, fun v => by simp, fun a => by simp⟩
  | cons i l ih =>
    have here := aligned i List.mem_cons_self
    have rest := ih (coherent.storeEntry i (i ||| pageFlags)) fun k inList => aligned k (List.mem_cons_of_mem _ inList)
    -- the store of this round
    have first (v : UInt32) : (m.storeEntry i (i ||| pageFlags)).entry v =
        if baseOf v = i then (if m.tables (directoryIndex v) = 0 then 0 else baseOf v ||| pageFlags)
        else m.entry v := by
      rw [PageMemory.storeEntry_entry coherent]
      simp only [same_page_iff here]
      split
      · rename_i page
        have directory := (same_entry_iff.mpr ((same_page_iff here).mpr page)).1
        rw [directory, page]
      · rfl
    have tables : (m.storeEntry i (i ||| pageFlags)).tables = m.tables := rfl
    refine ⟨rest.coherent, rest.tables, rest.directory, rest.heapPtr, fun v => ?_, fun a => ?_⟩
    · rw [List.foldl_cons, rest.entry, tables, first]
      by_cases later : baseOf v ∈ l
      · rw [if_pos later, if_pos (List.mem_cons_of_mem _ later)]
      · rw [if_neg later]
        by_cases now : baseOf v = i
        · rw [if_pos now, if_pos (List.mem_cons.mpr (Or.inl now))]
        · rw [if_neg now, if_neg fun there => (List.mem_cons.mp there).elim now later]
    · -- a store through a missing table goes to address 0
      rw [List.foldl_cons, rest.nullStores, tables, List.mem_cons]
      simp only [PageMemory.storeEntry]
      split
      · rename_i null
        rw [List.mem_cons]
        constructor
        · rintro ((rfl | old) | ⟨inList, missing⟩)
          · exact .inr ⟨.inl rfl, null⟩
          · exact .inl old
          · exact .inr ⟨.inr inList, missing⟩
        · rintro (old | ⟨rfl | inList, missing⟩)
          · exact .inl (.inr old)
          · exact .inl (.inl rfl)
          · exact .inr ⟨inList, missing⟩
      · rename_i present
        constructor
        · rintro (old | ⟨inList, missing⟩)
          · exact .inl old
          · exact .inr ⟨.inr inList, missing⟩
        · rintro (old | ⟨rfl | inList, missing⟩)
          · exact .inl old
          · exact absurd missing present
          · exact .inr ⟨inList, missing⟩

theorem Filled.keeps (filled : Filled l m m') (h : TablesPlaced pageTables placed m) :
    TablesPlaced pageTables placed m' where
  coherent := filled.coherent
  hasTable := h.hasTable
  present := by
    rw [filled.tables, filled.directory]
    exact h.present
  missing := by
    rw [filled.tables, filled.directory]
    exact h.missing

/-! ## The whole function -/

/-- What `paging_init` leaves: its tables, the entries, and the record of the stores through null
pointers. -/
structure Initialised (pageTables : UInt32) (m m' : PageMemory) : Prop where
  tables : TablesPlaced pageTables HasTable m'
  entry : ∀ v, m'.entry v = if Identity v then baseOf v ||| pageFlags else 0
  nullStores : ∀ a, a ∈ m'.nullStores ↔
    a ∈ m.nullStores ∨ baseOf a = a ∧ 0xC0000000 ≤ a ∧ ¬ HasTable (directoryIndex a)
  heapPtr : m'.heapPtr = (kmalloc (kmalloc m.heapPtr 12).2 4096).2

/-- The rounds of the loops over tables. -/
theorem mem_indices {first a : UInt32} {n : Nat} (fits : first.toNat + n ≤ 4294967296) :
    a ∈ strided 1 n first ↔ first.toNat ≤ a.toNat ∧ a.toNat < first.toNat + n := by
  have one : (1 : UInt32).toNat = 1 := rfl
  rw [mem_strided (by decide) (by rwa [one, Nat.one_mul]), one]
  constructor
  · rintro ⟨k, below, value⟩
    omega
  · rintro ⟨above, below⟩
    exact ⟨a.toNat - first.toNat, by omega, by omega⟩

/-- The rounds of the loops over addresses. -/
theorem mem_pages {n : Nat} {a : UInt32} (fits : i.toNat + 4096 * n ≤ 4294967296) (aligned : i.toNat % 4096 = 0) :
    a ∈ strided 4096 n i ↔ baseOf a = a ∧ i.toNat ≤ a.toNat ∧ a.toNat < i.toNat + 4096 * n := by
  have page : (4096 : UInt32).toNat = 4096 := rfl
  rw [mem_strided (by decide) fits, aligned_iff, page]
  constructor
  · rintro ⟨k, below, value⟩
    omega
  · rintro ⟨onPage, above, below⟩
    exact ⟨(a.toNat - i.toNat) / 4096, by omega, by omega⟩

/-- A loop over tables. -/
theorem TablesPlaced.loop (array : ArrayAt pageTables) (h : TablesPlaced pageTables placed m) (first bound : UInt32)
    (address : UInt32 → UInt32) {n : Nat} (rounds : bound.toNat = first.toNat + n) (enough : n < fuel)
    (here : ∀ k, first.toNat ≤ k.toNat → k.toNat < bound.toNat →
      HasTable k ∧ ¬ placed k ∧ address k = tableAddress pageTables k) :
    ∃ m', forLoop (fun i => i < bound) 1 (fun m i => m.attachTable i (address i)) fuel m first = some m' ∧
      TablesPlaced pageTables (fun k => (first.toNat ≤ k.toNat ∧ k.toNat < bound.toNat) ∨ placed k) m' ∧
      Untouched m m' := by
  have fits : first.toNat + n ≤ 4294967296 := by
    have size := bound.toNat_lt
    omega
  have member (a : UInt32) : a ∈ strided 1 n first ↔ first.toNat ≤ a.toNat ∧ a.toNat < bound.toNat := by
    rw [mem_indices fits, rounds]
  have nodup : (strided 1 n first).Nodup := strided_nodup (by decide) (by simpa using fits)
  have run : forLoop (fun i => i < bound) 1 (fun m i => m.attachTable i (address i)) fuel m first =
      some ((strided 1 n first).foldl (fun m i => m.attachTable i (address i)) m) := forLoop_eq ?_ ?_ enough
  · refine ⟨_, run, ?_⟩
    have same : (strided 1 n first).foldl (fun m i => m.attachTable i (address i)) m =
        (strided 1 n first).foldl (fun m i => m.attachTable i (tableAddress pageTables i)) m := by
      refine List.foldl_ext _ _ _ fun m k inList => ?_
      obtain ⟨above, below⟩ := (member k).mp inList
      rw [(here k above below).2.2]
    have all := h.attachAll array (l := strided 1 n first)
      (fun k inList => (here k ((member k).mp inList).1 ((member k).mp inList).2).1)
      (fun k inList => (here k ((member k).mp inList).1 ((member k).mp inList).2).2.1) nodup
    rw [same]
    simpa only [member] using all
  · intro a inList
    exact decide_eq_true (show a.toNat < bound.toNat from ((member a).mp inList).2)
  · have stop : first + UInt32.ofNat n * 1 = bound := by
      apply UInt32.toNat.inj
      rw [UInt32.mul_one, UInt32.toNat_add, UInt32.toNat_ofNat']
      have size := bound.toNat_lt
      omega
    rw [stop]
    exact decide_eq_false (UInt32.lt_irrefl _)

/-- A loop over addresses, up to the address `stop`. -/
theorem Filled.loop (coherent : m.Coherent) (first stop : UInt32) (n : Nat) (goes : UInt32 → Bool)
    (body : PageMemory → UInt32 → PageMemory) (aligned : first.toNat % 4096 = 0)
    (fits : first.toNat + 4096 * n ≤ 4294967296) (enough : n < fuel)
    (last : first + UInt32.ofNat n * 4096 = stop) (stops : goes stop = false)
    (runs : ∀ a, first.toNat ≤ a.toNat → a.toNat < first.toNat + 4096 * n → goes a = true)
    (stores : ∀ m a, a.toNat < first.toNat + 4096 * n → body m a = m.storeEntry a (a ||| pageFlags)) :
    ∃ m', forLoop goes 4096 body fuel m first = some m' ∧ Filled (strided 4096 n first) m m' := by
  have member (a : UInt32) := mem_pages (a := a) fits aligned
  have run : forLoop goes 4096 body fuel m first = some ((strided 4096 n first).foldl body m) := forLoop_eq
    (fun a inList => runs a ((member a).mp inList).2.1 ((member a).mp inList).2.2) (last ▸ stops) enough
  refine ⟨_, run, ?_⟩
  have same : (strided 4096 n first).foldl body m =
      (strided 4096 n first).foldl (fun m i => m.storeEntry i (i ||| pageFlags)) m :=
    List.foldl_ext _ _ _ fun m a inList => stores m a ((member a).mp inList).2.2
  rw [same]
  exact Filled.all coherent fun i inList => ((member i).mp inList).1

/-- The addresses below 2 GiB have the first half of the directory. -/
theorem lower_index (lower : v < 0x80000000) : directoryIndex v < 512 := by
  have lower : v.toNat < 2147483648 := lower
  show (directoryIndex v).toNat < 512
  rw [directoryIndex_toNat]
  omega

/-- The pages below 2 GiB. -/
theorem base_lower (v : UInt32) : baseOf v ∈ strided 4096 524288 0 ↔ v < 0x80000000 := by
  rw [mem_pages (by decide) rfl, baseOf_toNat, show (0 : UInt32).toNat = 0 from rfl]
  show _ ↔ v.toNat < 2147483648
  constructor
  · rintro ⟨-, -, below⟩
    omega
  · intro below
    exact ⟨baseOf_aligned v, Nat.zero_le _, by omega⟩

/-- The pages from 3 GiB on. -/
theorem base_upper (v : UInt32) : baseOf v ∈ strided 4096 262144 0xC0000000 ↔ 0xC0000000 ≤ v := by
  have bound := v.toNat_lt
  rw [mem_pages (by decide) rfl, baseOf_toNat, show (0xC0000000 : UInt32).toNat = 3221225472 from rfl]
  show _ ↔ 3221225472 ≤ v.toNat
  constructor
  · rintro ⟨-, above, -⟩
    omega
  · intro above
    exact ⟨baseOf_aligned v, by omega, by omega⟩

/-- **`paging_init` returns**, after its loops. -/
theorem PageMemory.pagingInit_eq (array : ArrayAt pageTables) (enough : 524288 < fuel) (m : PageMemory) :
    ∃ m', m.pagingInit fuel pageTables = some m' ∧ Initialised pageTables m m' := by
  let m₀ : PageMemory := { m with
    heapPtr := (kmalloc (kmalloc m.heapPtr 12).2 4096).2
    directory := fun _ => 0
    tables := fun _ => 0 }
  have start : TablesPlaced pageTables (fun _ => False) m₀ :=
    ⟨⟨fun _ _ => iff_of_false (fun h => h rfl) fun h => h (show (0 : UInt32) &&& pagePresent = 0 by decide),
      fun _ _ h => absurd rfl h, fun _ _ _ _ h => absurd rfl h⟩,
      fun _ h => h.elim, fun _ h => h.elim, fun _ _ => ⟨rfl, rfl⟩⟩
  have empty (v : UInt32) : m₀.entry v = 0 := if_pos rfl
  -- the tables of the lower half
  obtain ⟨m₁, run₁, placed₁, kept₁⟩ := start.loop array 0 512 (fun i => pageTables + i * 4096)
    (n := 512) rfl (show 512 < fuel by omega) fun k _ below =>
      ⟨.inl below, not_false, (if_pos (show k < 512 from below)).symm⟩
  -- the entries of the lower half
  obtain ⟨m₂, run₂, filled₂⟩ := Filled.loop placed₁.coherent 0 0x80000000 524288 (fun i => i < 0x80000000)
    (fun m i => if directoryIndex i < 512 then m.storeEntry i (i ||| pageFlags) else m)
    rfl (by decide) enough (by decide) (by decide) (fun a _ below => decide_eq_true below) fun m a below =>
      if_pos (lower_index below)
  have placed₂ := filled₂.keeps placed₁
  -- the tables of the upper end
  obtain ⟨m₃, run₃, placed₃, kept₃⟩ := placed₂.loop array 960 1024
    (fun i => pageTables + (512 + (i - 960)) * 4096) (n := 64) rfl (show 64 < fuel by omega) fun k above below => by
      have notLow : ¬ k.toNat < 512 := fun low => absurd (lt_of_le_of_lt above low) (by decide)
      refine ⟨.inr ⟨above, below⟩, ?_, (if_neg (show ¬ k < 512 from notLow)).symm⟩
      rintro (⟨-, low⟩ | h)
      · exact notLow low
      · exact h
  -- the entries of the upper quarter
  obtain ⟨m₄, run₄, filled₄⟩ := Filled.loop placed₃.coherent 0xC0000000 0 262144 (fun i => i ≠ 0)
    (fun m i => m.storeEntry i (i ||| pageFlags)) rfl (by decide) (show 262144 < fuel by omega) (by decide) (by decide)
    (fun a above _ => decide_eq_true fun zero => absurd (zero ▸ above) (by decide)) fun _ _ _ => rfl
  have placed₄ := filled₄.keeps placed₃
  have domain : (fun k : UInt32 => ((960 : UInt32).toNat ≤ k.toNat ∧ k.toNat < (1024 : UInt32).toNat) ∨
      ((0 : UInt32).toNat ≤ k.toNat ∧ k.toNat < (512 : UInt32).toNat) ∨ False) = HasTable := by
    funext k
    rw [eq_iff_iff]
    constructor
    · rintro (high | ⟨-, low⟩ | h)
      · exact .inr high
      · exact .inl low
      · exact h.elim
    · rintro (low | high)
      · exact .inr (.inl ⟨Nat.zero_le _, low⟩)
      · exact .inl high
  rw [domain] at placed₃ placed₄
  refine ⟨m₄, ?_, placed₄, fun v => ?_, fun a => ?_, ?_⟩
  · simp only [pagingInit, Option.bind_eq_bind]
    rw [run₁, Option.bind_some, run₂, Option.bind_some, run₃, Option.bind_some, run₄]
  · rw [filled₄.entry, kept₃.entry, filled₂.entry, kept₁.entry, empty]
    simp only [base_upper, base_lower, placed₃.null_iff array, placed₁.null_iff array, identity_iff]
    by_cases upper : 0xC0000000 ≤ v
    · rw [if_pos upper]
      exact ite_not _ _ _
    · rw [if_neg upper]
      by_cases lower : v < 0x80000000
      · have identity := (identity_iff v).mp (.inl lower)
        have low : directoryIndex v < 512 := by
          show (directoryIndex v).toNat < 512
          rw [directoryIndex_toNat]
          have lower : v.toNat < 2147483648 := lower
          omega
        rw [if_pos lower, if_neg (not_not.mpr (.inl ⟨Nat.zero_le _, low⟩)), if_pos identity]
      · have outside : ¬ Identity v := fun h => h.elim lower fun high => upper (UInt32.le_trans (by decide) high)
        rw [if_neg lower, if_neg (mt (identity_iff v).mpr outside)]
  · rw [filled₄.nullStores, kept₃.nullStores, filled₂.nullStores, kept₁.nullStores]
    rw [mem_pages (by decide) rfl, mem_pages (by decide) rfl, placed₃.null_iff array, placed₁.null_iff array]
    constructor
    · rintro ((old | ⟨⟨-, -, below⟩, null⟩) | ⟨⟨onPage, above, -⟩, null⟩)
      · exact .inl old
      · exact absurd (.inl ⟨Nat.zero_le _, lower_index below⟩) null
      · exact .inr ⟨onPage, above, null⟩
    · rintro (old | ⟨onPage, above, null⟩)
      · exact .inl (.inl old)
      · exact .inr ⟨⟨onPage, above, a.toNat_lt⟩, null⟩
  · rw [filled₄.heapPtr, kept₃.heapPtr, filled₂.heapPtr, kept₁.heapPtr]

/-- The values that `PageContext` has for the context are what the loops leave. -/
theorem Initialised.represents (array : ArrayAt pageTables) (init : Initialised pageTables m m') {p : Paging}
    (heap : p.heapPtr = m.heapPtr) (directory : UInt32) :
    Represents (QuantumKernel.Exec.pagingInit p directory pageTables).2
      (QuantumKernel.Exec.pagingInit p directory pageTables).1 m' := by
  have context := Paging.modify_context { p with heapPtr := p.heapPtr + 12 + 4096 } p.heapPtr
  constructor
  case heapPtr =>
    rw [init.heapPtr, ← heap]
    rfl
  case missing =>
    intro i _
    rw [init.tables.null_iff array]
    simp only [QuantumKernel.Exec.pagingInit, kmalloc, context, HasTable, Option.map_eq_none_iff]
    by_cases low : i < 512
    · simp [low]
    · by_cases high : 960 ≤ i ∧ i < 1024
      · rw [if_neg low, if_pos high]
        exact iff_of_false (Option.some_ne_none _) (not_not.mpr (.inr high))
      · rw [if_neg low, if_neg high]
        exact iff_of_true rfl (not_or.mpr ⟨low, high⟩)
  case directory =>
    intro i _
    simp only [QuantumKernel.Exec.pagingInit, kmalloc, context]
    by_cases low : i < 512
    · rw [(init.tables.present i (.inl low)).2, tableAddress, if_pos low, if_pos low]
      rfl
    · by_cases high : 960 ≤ i ∧ i < 1024
      · rw [(init.tables.present i (.inr high)).2, tableAddress, if_neg low, if_neg low, if_pos high]
        rfl
      · rw [(init.tables.missing i (not_or.mpr ⟨low, high⟩)).2, if_neg low, if_neg high]
  case entry =>
    intro v
    rw [pagingInit_entry, init.entry, pageFlags]

/-! ## The identity map -/

theorem Initialised.physical (init : Initialised pageTables m m') (v : UInt32) :
    m'.pagingGetPhysical v = if Identity v then v else 0 := by
  rw [PageMemory.pagingGetPhysical_eq, init.entry]
  split
  · rw [pageFlags, physicalOf_present, base_or_offset]
  · exact if_pos (show (0 : UInt32) &&& pagePresent = 0 by decide)

/-- **`paging_init` maps to itself what has a page table.**  For an address below 2 GiB or from
3 GiB on, the translation is the address and its entry was not stored through a null pointer,
exactly if it is below 2 GiB or in the last 256 MiB. -/
theorem pagingInit_identity_iff (array : ArrayAt pageTables) (enough : 524288 < fuel) (m : PageMemory)
    (fresh : m.nullStores = []) :
    ∃ m', m.pagingInit fuel pageTables = some m' ∧ ∀ v, v < 0x80000000 ∨ 0xC0000000 ≤ v →
      (m'.pagingGetPhysical v = v ∧ baseOf v ∉ m'.nullStores ↔ v < 0x80000000 ∨ 0xF0000000 ≤ v) := by
  obtain ⟨m', run, init⟩ := m.pagingInit_eq array enough
  refine ⟨m', run, fun v inRange => ?_⟩
  rw [init.physical, init.nullStores, fresh]
  have index : directoryIndex (baseOf v) = directoryIndex v := by
    apply UInt32.toNat.inj
    rw [directoryIndex_toNat, directoryIndex_toNat, baseOf_toNat]
    omega
  by_cases identity : Identity v
  · rw [if_pos identity]
    refine iff_of_true ⟨rfl, ?_⟩ identity
    rintro (old | ⟨-, -, null⟩)
    · cases old
    · rw [index] at null
      exact null ((identity_iff v).mp identity)
  · rw [if_neg identity]
    refine iff_of_false (fun both => ?_) identity
    obtain ⟨zero, -⟩ := both
    exact identity (.inl (zero ▸ by decide))

/-- The kernel's arrays, as they may be linked. -/
theorem arrayAt_linked : ArrayAt 0x227000 := ⟨by decide, by decide, by decide⟩

theorem pagingInit_identity_iff_linked :
    ∃ m', (PageMemory.empty 0x01000000).pagingInit 524289 0x227000 = some m' ∧
      ∀ v, v < 0x80000000 ∨ 0xC0000000 ≤ v →
        (m'.pagingGetPhysical v = v ∧ baseOf v ∉ m'.nullStores ↔ v < 0x80000000 ∨ 0xF0000000 ≤ v) :=
  pagingInit_identity_iff arrayAt_linked (by decide) _ rfl

/-- The first page of the upper quarter is not mapped, and its entry is stored through a null
pointer. -/
theorem upper_quarter_unmapped :
    ∃ m', (PageMemory.empty 0x01000000).pagingInit 524289 0x227000 = some m' ∧
      m'.pagingGetPhysical 0xC0000000 ≠ 0xC0000000 ∧ 0xC0000000 ∈ m'.nullStores := by
  have enough : 524288 < 524289 := by decide
  obtain ⟨m', run, init⟩ := PageMemory.pagingInit_eq arrayAt_linked enough (PageMemory.empty 0x01000000)
  refine ⟨m', run, ?_, ?_⟩
  · rw [init.physical]
    decide
  · rw [init.nullStores]
    exact .inr (by decide)

end QuantumKernel.Exec
