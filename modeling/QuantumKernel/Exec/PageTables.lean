import QuantumKernel.Exec.AddressSpaces

/-! # The page tables in memory

The functions of `paging.c` once more, with the pointers that the code has: `tables` holds the
addresses of the page tables, `directory` what the processor reads, and an entry is a word of
memory.  As long as the two arrays agree, the tables behave as the values of `PageContext` do.
-/

namespace QuantumKernel.Exec

open Pages Transition

/-- A `page_context_t` and what it points to.  `nullStores` is no variable of the program: it
records the addresses whose entry was stored through a null pointer. -/
structure PageMemory where
  directory : UInt32 → UInt32
  /-- The pointers to the tables, 0 for a null pointer. -/
  tables : UInt32 → UInt32
  /-- The word at an address. -/
  word : UInt32 → UInt32
  heapPtr : UInt32
  nullStores : List UInt32

/-- The address of the page table entry for `virt`. -/
def PageMemory.entryOf (m : PageMemory) (virt : UInt32) : UInt32 :=
  entryAddress (m.tables (directoryIndex virt)) (tableIndex virt)

/-- The assignment to `(*ctx->tables[pd_index])[pt_index]`. -/
def PageMemory.storeEntry (m : PageMemory) (virt value : UInt32) : PageMemory :=
  { m with
    word := Function.update m.word (m.entryOf virt) value
    nullStores := if m.tables (directoryIndex virt) = 0 then virt :: m.nullStores else m.nullStores }

/-- A page table is put in place: its pointer, `memset`, and the entry of the directory. -/
def PageMemory.attachTable (m : PageMemory) (pdIndex table : UInt32) : PageMemory :=
  { m with
    tables := Function.update m.tables pdIndex table
    word := clearPage m.word table
    directory := Function.update m.directory pdIndex (table ||| pagePresent ||| pageWrite ||| pageUser) }

/-- The block that `kmalloc_aligned` returns next for a page table. -/
def PageMemory.nextTable (m : PageMemory) : UInt32 := (kmallocAligned m.heapPtr 4096 4096).1

/-- The page table that `paging_map_page` creates. -/
def PageMemory.createTable (m : PageMemory) (pdIndex : UInt32) : PageMemory :=
  { m with heapPtr := (kmallocAligned m.heapPtr 4096 4096).2 }.attachTable pdIndex m.nextTable

/-- `paging_map_page`. -/
def PageMemory.pagingMapPage (m : PageMemory) (virt phys flags : UInt32) : PageMemory :=
  let m := if m.tables (directoryIndex virt) = 0 then m.createTable (directoryIndex virt) else m
  m.storeEntry virt ((phys &&& 0xFFFFF000) ||| flags)

/-- `paging_unmap_page`. -/
def PageMemory.pagingUnmapPage (m : PageMemory) (virt : UInt32) : PageMemory :=
  if m.tables (directoryIndex virt) ≠ 0 then m.storeEntry virt 0 else m

/-- `paging_get_physical`. -/
def PageMemory.pagingGetPhysical (m : PageMemory) (virt : UInt32) : UInt32 :=
  if m.tables (directoryIndex virt) = 0 then 0
  else
    let page := m.word (m.entryOf virt)
    if page &&& pagePresent = 0 then 0 else (page &&& 0xFFFFF000) ||| (virt &&& 0xFFF)

/-- A call of one of the two functions that change page tables. -/
def PageMemory.step (m : PageMemory) : PageCall → Option (Unit × PageMemory)
  | .map virt phys flags => some ((), m.pagingMapPage virt phys flags)
  | .unmap virt => some ((), m.pagingUnmapPage virt)

/-! ## Coherence -/

/-- The pointers and the directory agree: the same tables are present, at the same addresses,
and different indices have different tables. -/
structure PageMemory.Coherent (m : PageMemory) : Prop where
  present : ∀ i < 1024, m.tables i ≠ 0 ↔ m.directory i &&& pagePresent ≠ 0
  base : ∀ i < 1024, m.tables i ≠ 0 → baseOf (m.directory i) = m.tables i
  distinct : ∀ i < 1024, ∀ j < 1024, m.tables i ≠ 0 → m.tables i = m.tables j → i = j

/-- A block for a page table: no null pointer, on a page boundary, and not in use. -/
structure PageMemory.Fresh (m : PageMemory) (table : UInt32) : Prop where
  nonnull : table ≠ 0
  aligned : baseOf table = table
  unused : ∀ i < 1024, m.tables i ≠ table

/-- What is asked of `kmalloc_aligned`: a call that creates a table gets a block, and not one
that is a page table already. -/
def PageMemory.Allocates (m : PageMemory) : PageCall → Prop
  | .map virt _ _ => m.tables (directoryIndex virt) = 0 → m.nextTable ≠ 0 ∧ ∀ i < 1024, m.tables i ≠ m.nextTable
  | .unmap _ => True

/-- The page table entry for an address, 0 without a table. -/
def PageMemory.entry (m : PageMemory) (virt : UInt32) : UInt32 :=
  if m.tables (directoryIndex virt) = 0 then 0 else m.word (m.entryOf virt)

variable {m m' : PageMemory} {virt phys flags value v w table pdIndex i : UInt32} {calls : List (PageCall × Unit)}
  {call : PageCall} {p : Paging} {ctx : UInt32}

theorem directoryIndex_bound (virt : UInt32) : directoryIndex virt < 1024 := by
  have bound := virt.toNat_lt
  show (directoryIndex virt).toNat < 1024
  rw [directoryIndex_toNat]
  omega

theorem tableIndex_bound (virt : UInt32) : tableIndex virt < 1024 := by
  show (tableIndex virt).toNat < 1024
  rw [tableIndex_toNat]
  exact Nat.mod_lt _ (by decide)

theorem PageMemory.pagingGetPhysical_eq (m : PageMemory) (virt : UInt32) :
    m.pagingGetPhysical virt = physicalOf (m.entry virt) virt := by
  rw [pagingGetPhysical, entry]
  split
  · exact (if_pos (show (0 : UInt32) &&& pagePresent = 0 by decide)).symm
  · rfl

theorem PageMemory.nextTable_aligned (m : PageMemory) : baseOf m.nextTable = m.nextTable := by
  rw [nextTable, kmallocAligned]
  simp only
  split
  · exact show baseOf 0 = 0 by decide
  · rw [aligned_iff, roundUp_toNat]
    omega

/-- The pointers of a coherent context lie on page boundaries. -/
theorem PageMemory.Coherent.aligned (coherent : m.Coherent) (bound : i < 1024) : baseOf (m.tables i) = m.tables i := by
  by_cases missing : m.tables i = 0
  · rw [missing]
    decide
  · rw [← coherent.base i bound missing, baseOf_aligned]

/-! ## One entry -/

/-- A store changes the entry of its page only, and none through a null pointer. -/
theorem PageMemory.storeEntry_entry (coherent : m.Coherent) (virt value v : UInt32) :
    (m.storeEntry virt value).entry v =
      if pageOf v = pageOf virt then (if m.tables (directoryIndex virt) = 0 then 0 else value) else m.entry v := by
  have bound := directoryIndex_bound v
  have bound' := directoryIndex_bound virt
  have same : (m.storeEntry virt value).entry v =
      if m.tables (directoryIndex v) = 0 then 0
      else if m.entryOf v = m.entryOf virt then value else m.word (m.entryOf v) := by
    rw [entry]
    simp only [storeEntry, Function.update_apply]
    rfl
  have address : m.entryOf v = m.entryOf virt ↔
      m.tables (directoryIndex v) = m.tables (directoryIndex virt) ∧ tableIndex v = tableIndex virt :=
    entryAddress_inj (coherent.aligned bound) (coherent.aligned bound') (tableIndex_bound v) (tableIndex_bound virt)
  rw [same]
  by_cases page : pageOf v = pageOf virt
  · obtain ⟨directory, entry⟩ := same_entry_iff.mpr page
    rw [if_pos page, directory, if_pos (address.mpr ⟨congrArg m.tables directory, entry⟩)]
  · rw [if_neg page, PageMemory.entry]
    by_cases missing : m.tables (directoryIndex v) = 0
    · rw [if_pos missing, if_pos missing]
    · rw [if_neg missing, if_neg missing, if_neg]
      rintro here
      obtain ⟨table, entry⟩ := address.mp here
      exact page (same_entry_iff.mp ⟨coherent.distinct _ bound _ bound' missing table, entry⟩)

/-- A table that is put in place is empty, and the entries of the others stay. -/
theorem PageMemory.attachTable_entry (coherent : m.Coherent) (fresh : m.Fresh table)
    (missing : m.tables pdIndex = 0) (v : UInt32) : (m.attachTable pdIndex table).entry v = m.entry v := by
  have bound := directoryIndex_bound v
  have pointer : (m.attachTable pdIndex table).tables (directoryIndex v) =
      if directoryIndex v = pdIndex then table else m.tables (directoryIndex v) := Function.update_apply _ _ _ _
  by_cases here : directoryIndex v = pdIndex
  · rw [if_pos here] at pointer
    have cleared : clearPage m.word table (entryAddress table (tableIndex v)) = 0 := by
      rw [clearPage_entry m.word fresh.aligned fresh.aligned (tableIndex_bound v), if_pos rfl]
    rw [entry, entry, pointer, if_neg fresh.nonnull, here, if_pos missing, entryOf, pointer]
    exact cleared
  · rw [if_neg here] at pointer
    have aligned : baseOf (m.tables (directoryIndex v)) = m.tables (directoryIndex v) := coherent.aligned bound
    have kept : (m.attachTable pdIndex table).word (m.entryOf v) = m.word (m.entryOf v) := by
      show clearPage m.word table (m.entryOf v) = _
      rw [entryOf, clearPage_entry m.word fresh.aligned aligned (tableIndex_bound v), if_neg (fresh.unused _ bound)]
    rw [entry, entry, pointer, entryOf, pointer, ← entryOf, kept]

theorem PageMemory.Coherent.storeEntry (coherent : m.Coherent) (virt value : UInt32) :
    (m.storeEntry virt value).Coherent :=
  ⟨coherent.present, coherent.base, coherent.distinct⟩

/-- The entry of the directory for a table. -/
theorem directoryEntry (aligned : baseOf table = table) :
    baseOf (table ||| pagePresent ||| pageWrite ||| pageUser) = table ∧
      (table ||| pagePresent ||| pageWrite ||| pageUser) &&& pagePresent ≠ 0 := by
  constructor
  · have masked : baseOf (table ||| pagePresent ||| pageWrite ||| pageUser) = baseOf table := by
      apply UInt32.toBitVec_inj.mp
      ext i bound
      simp [baseOf, pagePresent, pageWrite, pageUser]
      interval_cases i <;> simp
    rw [masked, aligned]
  · have one : (table ||| pagePresent ||| pageWrite ||| pageUser) &&& pagePresent = 1 := by
      apply UInt32.toBitVec_inj.mp
      ext i bound
      simp [pagePresent, pageWrite, pageUser]
      interval_cases i <;> simp
    rw [one]
    decide

theorem PageMemory.Coherent.attachTable (coherent : m.Coherent) (fresh : m.Fresh table) (pdIndex : UInt32) :
    (m.attachTable pdIndex table).Coherent := by
  obtain ⟨base, present⟩ := directoryEntry fresh.aligned
  constructor
  case present =>
    intro i bound
    simp only [PageMemory.attachTable]
    by_cases here : i = pdIndex
    · rw [here, Function.update_self, Function.update_self]
      exact iff_of_true fresh.nonnull present
    · rw [Function.update_of_ne here, Function.update_of_ne here]
      exact coherent.present i bound
  case base =>
    intro i bound
    simp only [PageMemory.attachTable]
    by_cases here : i = pdIndex
    · rw [here, Function.update_self, Function.update_self]
      exact fun _ => base
    · rw [Function.update_of_ne here, Function.update_of_ne here]
      exact coherent.base i bound
  case distinct =>
    intro i bound j bound'
    simp only [PageMemory.attachTable]
    by_cases here : i = pdIndex
    · by_cases there : j = pdIndex
      · intro _ _
        rw [here, there]
      · rw [here, Function.update_self, Function.update_of_ne there]
        exact fun _ same => absurd same.symm (fresh.unused j bound')
    · rw [Function.update_of_ne here]
      by_cases there : j = pdIndex
      · rw [there, Function.update_self]
        exact fun _ same => absurd same (fresh.unused i bound)
      · rw [Function.update_of_ne there]
        exact coherent.distinct i bound j bound'

/-! ## The two calls -/

/-- The heap pointer has no part in the tables, so a table is created as it is put in place. -/
theorem PageMemory.createTable_coherent (coherent : m.Coherent) (nonnull : m.nextTable ≠ 0)
    (unused : ∀ i < 1024, m.tables i ≠ m.nextTable) (pdIndex : UInt32) : (m.createTable pdIndex).Coherent := by
  let m₁ : PageMemory := { m with heapPtr := (kmallocAligned m.heapPtr 4096 4096).2 }
  have coherent₁ : m₁.Coherent := ⟨coherent.present, coherent.base, coherent.distinct⟩
  exact coherent₁.attachTable ⟨nonnull, m.nextTable_aligned, unused⟩ pdIndex

theorem PageMemory.createTable_entry (coherent : m.Coherent) (nonnull : m.nextTable ≠ 0)
    (unused : ∀ i < 1024, m.tables i ≠ m.nextTable) (missing : m.tables pdIndex = 0) (v : UInt32) :
    (m.createTable pdIndex).entry v = m.entry v := by
  let m₁ : PageMemory := { m with heapPtr := (kmallocAligned m.heapPtr 4096 4096).2 }
  have coherent₁ : m₁.Coherent := ⟨coherent.present, coherent.base, coherent.distinct⟩
  exact m₁.attachTable_entry coherent₁ ⟨nonnull, m.nextTable_aligned, unused⟩ missing v

/-- The context in which `paging_map_page` stores the entry. -/
structure Prepared (m m' : PageMemory) (virt : UInt32) : Prop where
  coherent : m'.Coherent
  entry : ∀ v, m'.entry v = m.entry v
  table : m'.tables (directoryIndex virt) ≠ 0

theorem PageMemory.pagingMapPage_prepared (coherent : m.Coherent) (allocates : m.Allocates (.map virt phys flags)) :
    ∃ m', Prepared m m' virt ∧ m.pagingMapPage virt phys flags = m'.storeEntry virt (baseOf phys ||| flags) := by
  by_cases missing : m.tables (directoryIndex virt) = 0
  · obtain ⟨nonnull, unused⟩ := allocates missing
    refine ⟨m.createTable (directoryIndex virt), ⟨?_, ?_, ?_⟩, ?_⟩
    · exact m.createTable_coherent coherent nonnull unused _
    · exact m.createTable_entry coherent nonnull unused missing
    · simp only [createTable, attachTable, Function.update_self]
      exact nonnull
    · rw [pagingMapPage, if_pos missing]
      rfl
  · refine ⟨m, ⟨coherent, fun _ => rfl, missing⟩, ?_⟩
    rw [pagingMapPage, if_neg missing]
    rfl

/-- **`paging_map_page` changes the entry of its page only**, also when it creates the table. -/
theorem PageMemory.pagingMapPage_entry (coherent : m.Coherent) (allocates : m.Allocates (.map virt phys flags))
    (v : UInt32) : (m.pagingMapPage virt phys flags).entry v =
      if pageOf v = pageOf virt then baseOf phys ||| flags else m.entry v := by
  obtain ⟨m', prepared, same⟩ := m.pagingMapPage_prepared coherent allocates
  rw [same, storeEntry_entry prepared.coherent, if_neg prepared.table, prepared.entry]

theorem PageMemory.pagingUnmapPage_entry (coherent : m.Coherent) (virt v : UInt32) :
    (m.pagingUnmapPage virt).entry v = if pageOf v = pageOf virt then 0 else m.entry v := by
  rw [pagingUnmapPage]
  split
  · rw [storeEntry_entry coherent, ite_self]
  · rename_i missing
    split
    · rename_i page
      rw [entry, (same_entry_iff.mpr page).1, if_pos (not_not.mp missing)]
    · rfl

theorem PageMemory.Coherent.step {r : Unit} (coherent : m.Coherent) (allocates : m.Allocates call)
    (done : m.step call = some (r, m')) : m'.Coherent := by
  cases call with
  | map virt phys flags =>
    cases done
    obtain ⟨m', prepared, same⟩ := m.pagingMapPage_prepared coherent allocates
    rw [same]
    exact prepared.coherent.storeEntry _ _
  | unmap virt =>
    cases done
    rw [pagingUnmapPage]
    split
    · exact coherent.storeEntry _ _
    · exact coherent

/-! ## Translations -/

/-- The translation that `paging_map_page` sets up. -/
theorem physicalOf_mapped (small : flags < 0x1000) (present : flags &&& pagePresent ≠ 0) (phys w : UInt32) :
    physicalOf (baseOf phys ||| flags) w = (phys &&& 0xFFFFF000) ||| (w &&& 0xFFF) := by
  have masked : flags = offsetOf flags := by
    apply UInt32.toNat.inj
    rw [offsetOf_toNat]
    exact (Nat.mod_eq_of_lt small).symm
  have isPresent : (baseOf phys ||| flags) &&& pagePresent = flags &&& pagePresent := by
    apply UInt32.toBitVec_inj.mp
    ext i bound
    simp [baseOf, pagePresent]
    interval_cases i <;> simp
  have base : baseOf (baseOf phys ||| flags) = baseOf phys := by
    rw [masked]
    apply UInt32.toBitVec_inj.mp
    ext i bound
    simp [baseOf, offsetOf]
    interval_cases i <;> simp
  rw [physicalOf, isPresent, if_neg present, base]
  rfl

/-- What holds of the two calls in a coherent context. -/
structure PageMemory.MapLaws (m : PageMemory) : Prop where
  mapped : ∀ v p flags, m.Allocates (.map v p flags) → flags < 0x1000 → flags &&& pagePresent ≠ 0 → ∀ w,
    (m.pagingMapPage v p flags).pagingGetPhysical w =
      if pageOf w = pageOf v then (p &&& 0xFFFFF000) ||| (w &&& 0xFFF) else m.pagingGetPhysical w
  unmapped : ∀ v w, (m.pagingUnmapPage v).pagingGetPhysical w =
    if pageOf w = pageOf v then 0 else m.pagingGetPhysical w

theorem PageMemory.Coherent.mapLaws (coherent : m.Coherent) : m.MapLaws := by
  constructor
  case mapped =>
    intro v p flags allocates small present w
    rw [PageMemory.pagingGetPhysical_eq, PageMemory.pagingMapPage_entry coherent allocates]
    split
    · exact physicalOf_mapped small present p w
    · exact (PageMemory.pagingGetPhysical_eq m w).symm
  case unmapped =>
    intro v w
    rw [PageMemory.pagingGetPhysical_eq, PageMemory.pagingUnmapPage_entry coherent]
    split
    · exact if_pos (show (0 : UInt32) &&& pagePresent = 0 by decide)
    · exact (PageMemory.pagingGetPhysical_eq m w).symm

/-- **Page tables behave as a map.**  From a coherent context, every sequence of
`paging_map_page` and `paging_unmap_page` leads to a coherent context, in which the next call
changes the translations of its own page and no others. -/
theorem page_tables_are_a_map (coherent : m.Coherent)
    (run : Run PageMemory.step PageMemory.Allocates m calls m') : m'.Coherent ∧ m'.MapLaws := by
  have coherent' : m'.Coherent :=
    run.invariant PageMemory.Coherent (fun _ _ _ _ inv allocates done => inv.step allocates done) coherent
  exact ⟨coherent', coherent'.mapLaws⟩

/-- A context without page tables. -/
def PageMemory.empty (heapPtr : UInt32) : PageMemory := ⟨fun _ => 0, fun _ => 0, fun _ => 0, heapPtr, []⟩

theorem PageMemory.empty_coherent (heapPtr : UInt32) : (PageMemory.empty heapPtr).Coherent where
  present := fun _ _ => iff_of_false (fun h => h rfl)
    fun h => h (show (0 : UInt32) &&& pagePresent = 0 by decide)
  base := fun _ _ h => absurd rfl h
  distinct := fun _ _ _ _ h => absurd rfl h

theorem page_tables_are_a_map_two_calls :
    ∃ m', Run PageMemory.step PageMemory.Allocates (PageMemory.empty 0x01000000)
      [(.map 0x400123 0x5000 7, ()), (.unmap 0x400000, ())] m' ∧ m'.Coherent ∧ m'.MapLaws := by
  have first : (PageMemory.empty 0x01000000).Allocates (.map 0x400123 0x5000 7) := by
    intro _
    have block : (PageMemory.empty 0x01000000).nextTable = 0x01000000 := by decide
    rw [block]
    exact ⟨by decide, fun _ _ => show (0 : UInt32) ≠ 0x01000000 by decide⟩
  have run : Run PageMemory.step PageMemory.Allocates (PageMemory.empty 0x01000000)
      [(.map 0x400123 0x5000 7, ()), (.unmap 0x400000, ())] _ :=
    .call first rfl (.call trivial rfl (.refl _))
  exact ⟨_, run, page_tables_are_a_map (PageMemory.empty_coherent _) run⟩

/-! ## The tables as values -/

/-- A page context as a value, for the pointers: the same entries, the same tables present, and
the same directory. -/
structure Represents (p : Paging) (ctx : UInt32) (m : PageMemory) : Prop where
  heapPtr : p.heapPtr = m.heapPtr
  missing : ∀ i < 1024, (p.context ctx).tables i = none ↔ m.tables i = 0
  directory : ∀ i < 1024, (p.context ctx).directory i = m.directory i
  entry : ∀ v, (p.context ctx).entry v = m.entry v

/-- The translations agree. -/
theorem Represents.physical (rep : Represents p ctx m) (virt : UInt32) :
    QuantumKernel.Exec.pagingGetPhysical p ctx virt = m.pagingGetPhysical virt := by
  rw [pagingGetPhysical_eq, PageMemory.pagingGetPhysical_eq, rep.entry]

theorem PageContext.setEntry_missing (c : PageContext) (virt value i : UInt32) :
    (c.setEntry virt value).tables i = none ↔ c.tables i = none := by
  simp only [setEntry, Function.update_apply]
  split
  · rename_i here
    rw [here, Option.map_eq_none_iff]
  · rfl

theorem Represents.store (rep : Represents p ctx m) (coherent : m.Coherent) (virt value : UInt32) :
    Represents (p.modify ctx fun c => c.setEntry virt value) ctx (m.storeEntry virt value) where
  heapPtr := rep.heapPtr
  missing := fun i bound => by
    rw [Paging.modify_context, PageContext.setEntry_missing]
    exact rep.missing i bound
  directory := fun i bound => by
    rw [Paging.modify_context]
    exact rep.directory i bound
  entry := fun v => by
    rw [Paging.modify_context, PageContext.setEntry_entry, PageMemory.storeEntry_entry coherent, rep.entry]
    simp only [rep.missing _ (directoryIndex_bound virt)]

/-- The table that `paging_map_page` creates. -/
theorem Represents.attach (rep : Represents p ctx m) (coherent : m.Coherent)
    (missing : m.tables (directoryIndex virt) = 0) (nonnull : m.nextTable ≠ 0)
    (unused : ∀ i < 1024, m.tables i ≠ m.nextTable) :
    Represents (createTable p ctx (directoryIndex virt)) ctx (m.createTable (directoryIndex virt)) := by
  have bound := directoryIndex_bound virt
  have block : (kmallocAligned p.heapPtr 4096 4096).1 = m.nextTable := by rw [rep.heapPtr, PageMemory.nextTable]
  constructor
  case heapPtr =>
    rw [createTable, rep.heapPtr]
    rfl
  case missing =>
    intro i small
    rw [createTable_tables, block, if_neg nonnull]
    simp only [PageMemory.createTable, PageMemory.attachTable, Function.update_apply]
    split
    · exact iff_of_false (Option.some_ne_none _) nonnull
    · exact rep.missing i small
  case directory =>
    intro i small
    rw [createTable, Paging.modify_context]
    simp only [PageMemory.createTable, PageMemory.attachTable, Function.update_apply]
    split
    · rw [block]
    · exact rep.directory i small
  case entry =>
    intro v
    rw [createTable_entry ((rep.missing _ bound).mpr missing), rep.entry]
    exact (m.createTable_entry coherent nonnull unused missing v).symm

/-- **The pointers refine the values.**  Each call does the same to a context in memory and to
the value that represents it. -/
theorem Represents.step {r : Unit} (rep : Represents p ctx m) (coherent : m.Coherent)
    (allocates : m.Allocates call) (done : m.step call = some (r, m')) : Represents (call.run p ctx) ctx m' := by
  cases call with
  | map virt phys flags =>
    cases done
    have same := rep.missing _ (directoryIndex_bound virt)
    rw [PageCall.run, QuantumKernel.Exec.pagingMapPage, PageMemory.pagingMapPage]
    by_cases missing : m.tables (directoryIndex virt) = 0
    · obtain ⟨nonnull, unused⟩ := allocates missing
      have attached := rep.attach coherent missing nonnull unused
      rw [if_pos (same.mpr missing), if_pos missing]
      exact attached.store (m.createTable_coherent coherent nonnull unused _) _ _
    · rw [if_neg (mt same.mp missing), if_neg missing]
      exact rep.store coherent _ _
  | unmap virt =>
    cases done
    rw [PageCall.run, QuantumKernel.Exec.pagingUnmapPage, PageMemory.pagingUnmapPage]
    split
    · exact rep.store coherent _ _
    · rename_i missing
      rw [not_not] at missing
      have stored := rep.store coherent virt 0
      refine ⟨stored.heapPtr, stored.missing, stored.directory, fun v => ?_⟩
      rw [stored.entry, PageMemory.storeEntry_entry coherent, ite_self]
      split
      · rename_i page
        rw [PageMemory.entry, (same_entry_iff.mpr page).1, if_pos missing]
      · rfl

end QuantumKernel.Exec
