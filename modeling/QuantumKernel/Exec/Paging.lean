import QuantumKernel.Library.Pages
import Mathlib.Logic.Function.Basic

/-! # The heap and the page tables

`kmalloc` and `kmalloc_aligned`, and the functions of `paging.c`.  A page table is a
value behind its pointer in `tables`: a table that is created is a new, empty one.
-/

namespace QuantumKernel.Exec

open Pages

def pagePresent : UInt32 := 0x1
def pageWrite : UInt32 := 0x2
def pageUser : UInt32 := 0x4

/-- `kmalloc`: the address, and `heap_ptr` afterwards. -/
def kmalloc (heapPtr size : UInt32) : UInt32 × UInt32 := (heapPtr, heapPtr + size)

def kmallocAligned (heapPtr size align : UInt32) : UInt32 × UInt32 :=
  match kmalloc heapPtr (size + align) with
  | (addr, heapPtr) =>
    if addr = 0 then (0, heapPtr) else ((addr + align - 1) &&& ~~~(align - 1), heapPtr)

/-- `page_context_t`; `tables` has `none` for a null pointer. -/
structure PageContext where
  directory : UInt32 → UInt32
  tables : UInt32 → Option (UInt32 → UInt32)
  physicalAddr : UInt32

structure Paging where
  /-- The structure at an address. -/
  context : UInt32 → PageContext
  heapPtr : UInt32

/-- Stores to one structure. -/
def Paging.modify (p : Paging) (ctx : UInt32) (f : PageContext → PageContext) : Paging :=
  { p with context := Function.update p.context ctx (f (p.context ctx)) }

/-- A store to the page table entry for `virt`.  Through a null pointer it goes to address
0, which is no table. -/
def PageContext.setEntry (c : PageContext) (virt value : UInt32) : PageContext :=
  { c with
    tables := Function.update c.tables (directoryIndex virt)
      ((c.tables (directoryIndex virt)).map fun table => Function.update table (tableIndex virt) value) }

/-- The page table that `paging_map_page` creates; `virt_to_phys` is the identity. -/
def createTable (p : Paging) (ctx pdIndex : UInt32) : Paging :=
  match kmallocAligned p.heapPtr 4096 4096 with
  | (table, heapPtr) => { p with heapPtr := heapPtr }.modify ctx fun c =>
    { c with
      tables := Function.update c.tables pdIndex (if table = 0 then none else some fun _ => 0)
      directory := Function.update c.directory pdIndex
        (table ||| pagePresent ||| pageWrite ||| pageUser) }

/-- `paging_map_page`. -/
def pagingMapPage (p : Paging) (ctx virt phys flags : UInt32) : Paging :=
  let p := if (p.context ctx).tables (directoryIndex virt) = none then
    createTable p ctx (directoryIndex virt) else p
  p.modify ctx fun c => c.setEntry virt ((phys &&& 0xFFFFF000) ||| flags)

/-- `paging_unmap_page`. -/
def pagingUnmapPage (p : Paging) (ctx virt : UInt32) : Paging := p.modify ctx fun c => c.setEntry virt 0

/-- `paging_get_physical`. -/
def pagingGetPhysical (p : Paging) (ctx virt : UInt32) : UInt32 :=
  match (p.context ctx).tables (directoryIndex virt) with
  | none => 0
  | some table =>
    let page := table (tableIndex virt)
    if page &&& pagePresent = 0 then 0 else (page &&& 0xFFFFF000) ||| (virt &&& 0xFFF)

/-- The address of a page, from its two indices. -/
def pageAddress (pdIndex ptIndex : UInt32) : UInt32 := (pdIndex <<< 22) ||| (ptIndex <<< 12)

/-- `paging_init`: the kernel context, and the state.  The loops over `i` fill the tables
0 to 511 and 960 to 1023, and every entry of them holds the address of its own page.  The
last loop also stores through the null pointers of the tables 768 to 959, which hits no
table. -/
def pagingInit (p : Paging) (pageDirectoryPhysical pageTablesPhysical : UInt32) : UInt32 × Paging :=
  let flags := pagePresent ||| pageWrite ||| pageUser
  match kmalloc p.heapPtr 12 with
  | (kernelPageContext, heapPtr) =>
    match kmalloc heapPtr 4096 with
    | (_, heapPtr) =>
      let tableOf (i : UInt32) := if i < 512 then some i else
        if 960 ≤ i ∧ i < 1024 then some (512 + (i - 960)) else none
      (kernelPageContext, { p with heapPtr := heapPtr }.modify kernelPageContext fun _ =>
        { directory := fun i => match tableOf i with
            | some j => (pageTablesPhysical + j * 4096) ||| flags
            | none => 0
          tables := fun i => (tableOf i).map fun _ j => pageAddress i j ||| flags
          physicalAddr := pageDirectoryPhysical })

/-! ## Entries -/

/-- The page table entry for an address. -/
def PageContext.entry (c : PageContext) (virt : UInt32) : UInt32 :=
  match c.tables (directoryIndex virt) with
  | none => 0
  | some table => table (tableIndex virt)

/-- What a page table entry says about an address of its page. -/
def physicalOf (page virt : UInt32) : UInt32 :=
  if page &&& pagePresent = 0 then 0 else baseOf page ||| offsetOf virt

/-- The address has a page table, or `paging_map_page` gets one for it. -/
def Backed (p : Paging) (ctx virt : UInt32) : Prop :=
  (p.context ctx).tables (directoryIndex virt) ≠ none ∨ (kmallocAligned p.heapPtr 4096 4096).1 ≠ 0

instance (p : Paging) (ctx virt : UInt32) : Decidable (Backed p ctx virt) := inferInstanceAs (Decidable (_ ∨ _))

variable {p q : Paging} {c : PageContext} {ctx other virt phys flags v w : UInt32}

theorem pagingGetPhysical_eq (p : Paging) (ctx virt : UInt32) :
    pagingGetPhysical p ctx virt = physicalOf ((p.context ctx).entry virt) virt := by
  rw [pagingGetPhysical, PageContext.entry]
  cases (p.context ctx).tables (directoryIndex virt) with
  | none => exact (if_pos (show (0 : UInt32) &&& pagePresent = 0 by decide)).symm
  | some table => rfl

theorem Paging.modify_context (p : Paging) (ctx : UInt32) (f : PageContext → PageContext) :
    (p.modify ctx f).context ctx = f (p.context ctx) := Function.update_self _ _ _

theorem Paging.modify_other (ne : other ≠ ctx) (f : PageContext → PageContext) :
    (p.modify ctx f).context other = p.context other := Function.update_of_ne ne _ _

theorem PageContext.setEntry_entry (c : PageContext) (virt value v : UInt32) :
    (c.setEntry virt value).entry v =
      if pageOf v = pageOf virt then (if c.tables (directoryIndex virt) = none then 0 else value)
      else c.entry v := by
  rw [PageContext.setEntry, PageContext.entry, PageContext.entry]
  by_cases samePage : pageOf v = pageOf virt
  · obtain ⟨directory, table⟩ := same_entry_iff.mpr samePage
    simp only [if_pos samePage, directory, table, Function.update_self]
    cases c.tables (directoryIndex virt) with
    | none => rfl
    | some entries => simp
  · rw [if_neg samePage]
    by_cases directory : directoryIndex v = directoryIndex virt
    · have table : tableIndex v ≠ tableIndex virt :=
        fun table => samePage (same_entry_iff.mp ⟨directory, table⟩)
      simp only [directory, Function.update_self]
      cases c.tables (directoryIndex virt) with
      | none => rfl
      | some entries => simp [table]
    · simp only [Function.update_of_ne directory]

theorem pagingUnmapPage_entry (p : Paging) (ctx virt v : UInt32) :
    ((pagingUnmapPage p ctx virt).context ctx).entry v =
      if pageOf v = pageOf virt then 0 else (p.context ctx).entry v := by
  rw [pagingUnmapPage, Paging.modify_context, PageContext.setEntry_entry, ite_self]

theorem createTable_tables (p : Paging) (ctx pdIndex : UInt32) :
    ((createTable p ctx pdIndex).context ctx).tables = Function.update (p.context ctx).tables pdIndex
      (if (kmallocAligned p.heapPtr 4096 4096).1 = 0 then none else some fun _ => 0) := by
  rw [createTable, Paging.modify_context]

/-- A new table has no entry yet. -/
theorem createTable_entry (missing : (p.context ctx).tables (directoryIndex virt) = none) (v : UInt32) :
    ((createTable p ctx (directoryIndex virt)).context ctx).entry v = (p.context ctx).entry v := by
  rw [PageContext.entry, PageContext.entry, createTable_tables]
  by_cases directory : directoryIndex v = directoryIndex virt
  · rw [directory, Function.update_self, missing]
    by_cases failed : (kmallocAligned p.heapPtr 4096 4096).1 = 0
    · rw [if_pos failed]
    · rw [if_neg failed]
  · rw [Function.update_of_ne directory]

/-- **`paging_map_page` changes the entry of its page only.** -/
theorem pagingMapPage_entry (p : Paging) (ctx virt phys flags v : UInt32) :
    ((pagingMapPage p ctx virt phys flags).context ctx).entry v =
      if pageOf v = pageOf virt then (if Backed p ctx virt then baseOf phys ||| flags else 0)
      else (p.context ctx).entry v := by
  rw [pagingMapPage, Paging.modify_context, PageContext.setEntry_entry]
  by_cases missing : (p.context ctx).tables (directoryIndex virt) = none
  · rw [if_pos missing, createTable_entry missing, createTable_tables, Function.update_self]
    by_cases failed : (kmallocAligned p.heapPtr 4096 4096).1 = 0
    · have notBacked : ¬ Backed p ctx virt := not_or.mpr ⟨not_not.mpr missing, not_not.mpr failed⟩
      rw [if_pos failed, if_pos rfl, if_neg notBacked]
    · have backed : Backed p ctx virt := Or.inr failed
      rw [if_neg failed, if_neg (Option.some_ne_none _), if_pos backed, baseOf]
  · have backed : Backed p ctx virt := Or.inl missing
    rw [if_neg missing, if_neg missing, if_pos backed, baseOf]

/-! ## The other fields -/

/-- `paging_map_page` leaves the other contexts alone. -/
theorem pagingMapPage_other (ne : other ≠ ctx) (virt phys flags : UInt32) :
    (pagingMapPage p ctx virt phys flags).context other = p.context other := by
  rw [pagingMapPage, Paging.modify_other ne]
  split
  · rw [createTable, Paging.modify_other ne]
  · rfl

/-- Every page table is entered in the directory, present and for user programs. -/
def DirectoryOk (c : PageContext) : Prop :=
  ∀ i, c.tables i ≠ none → c.directory i &&& (pagePresent ||| pageUser) = pagePresent ||| pageUser

theorem flags_kept (x : UInt32) :
    (x ||| (pagePresent ||| pageWrite ||| pageUser)) &&& (pagePresent ||| pageUser) =
      pagePresent ||| pageUser := by
  show (x ||| 7) &&& 5 = 5
  apply UInt32.toBitVec_inj.mp
  simp only [UInt32.toBitVec_and, UInt32.toBitVec_or]
  ext i bound
  simp
  interval_cases i <;> simp

theorem pagingMapPage_directoryOk (ok : DirectoryOk (p.context ctx)) (virt phys flags : UInt32) :
    DirectoryOk ((pagingMapPage p ctx virt phys flags).context ctx) := by
  rw [pagingMapPage, Paging.modify_context]
  have setEntry {c : PageContext} (ok : DirectoryOk c) (value : UInt32) :
      DirectoryOk (c.setEntry virt value) := by
    intro i present
    apply ok i
    rw [PageContext.setEntry] at present
    by_cases here : i = directoryIndex virt
    · subst here
      intro missing
      simp [missing] at present
    · simpa [Function.update_of_ne here] using present
  apply setEntry
  split
  · intro i present
    rw [createTable, Paging.modify_context] at present ⊢
    by_cases here : i = directoryIndex virt
    · subst here
      simp only [Function.update_self, UInt32.or_assoc]
      exact flags_kept _
    · simp only [Function.update_of_ne here] at present ⊢
      exact ok i present
  · exact ok

/-! ## `paging_init` -/

theorem pageAddress_eq (virt : UInt32) :
    pageAddress (directoryIndex virt) (tableIndex virt) = baseOf virt := by
  apply UInt32.toBitVec_inj.mp
  simp only [pageAddress, directoryIndex, tableIndex, baseOf]
  ext i bound
  simp
  interval_cases i <;> simp

/-- The addresses below 2 GiB and the last 256 MiB. -/
def Identity (virt : UInt32) : Prop := virt < 0x80000000 ∨ 0xF0000000 ≤ virt

instance (virt : UInt32) : Decidable (Identity virt) := inferInstanceAs (Decidable (_ ∨ _))

theorem identity_iff (virt : UInt32) : Identity virt ↔
    directoryIndex virt < 512 ∨ 960 ≤ directoryIndex virt ∧ directoryIndex virt < 1024 := by
  have bound := virt.toNat_lt
  show virt.toNat < 2147483648 ∨ 4026531840 ≤ virt.toNat ↔ (directoryIndex virt).toNat < 512 ∨
    960 ≤ (directoryIndex virt).toNat ∧ (directoryIndex virt).toNat < 1024
  rw [directoryIndex_toNat]
  omega

/-- The entry of a page that is present. -/
theorem physicalOf_present (page virt : UInt32) :
    physicalOf (baseOf page ||| (pagePresent ||| pageWrite ||| pageUser)) virt =
      baseOf page ||| offsetOf virt := by
  have present : (baseOf page ||| 7) &&& 1 ≠ 0 := by
    have one : (baseOf page ||| 7) &&& 1 = 1 := by
      apply UInt32.toBitVec_inj.mp
      ext i bound
      simp
      interval_cases i <;> simp
    rw [one]
    decide
  have base : baseOf (baseOf page ||| 7) = baseOf page := by
    apply UInt32.toBitVec_inj.mp
    simp only [baseOf]
    ext i bound
    simp
    interval_cases i <;> simp
  show physicalOf (baseOf page ||| 7) virt = _
  rw [physicalOf, if_neg (show ¬ _ &&& pagePresent = 0 from present), base]

theorem base_or_offset (virt : UInt32) : baseOf virt ||| offsetOf virt = virt := by
  apply UInt32.toNat.inj
  rw [base_or_offset_toNat]
  omega

/-- The table `paging_init` uses for an entry of the directory. -/
theorem pagingInit_entry (p : Paging) (directory tables virt : UInt32) :
    ((pagingInit p directory tables).2.context (pagingInit p directory tables).1).entry virt =
      if Identity virt then baseOf virt ||| (pagePresent ||| pageWrite ||| pageUser) else 0 := by
  have context := Paging.modify_context { p with heapPtr := p.heapPtr + 12 + 4096 } p.heapPtr
  simp only [pagingInit, kmalloc, context, PageContext.entry]
  by_cases low : directoryIndex virt < 512
  · rw [if_pos ((identity_iff virt).mpr (Or.inl low)), if_pos low]
    simp only [Option.map_some, pageAddress_eq]
  · rw [if_neg low]
    by_cases high : 960 ≤ directoryIndex virt ∧ directoryIndex virt < 1024
    · rw [if_pos ((identity_iff virt).mpr (Or.inr high)), if_pos high]
      simp only [Option.map_some, pageAddress_eq]
    · rw [if_neg fun identity => ((identity_iff virt).mp identity).elim low high, if_neg high]
      rfl

/-- **After `paging_init`** an address is mapped to itself or not at all. -/
theorem pagingInit_physical (p : Paging) (directory tables virt : UInt32) :
    pagingGetPhysical (pagingInit p directory tables).2 (pagingInit p directory tables).1 virt =
      if Identity virt then virt else 0 := by
  rw [pagingGetPhysical_eq, pagingInit_entry]
  split
  · rw [physicalOf_present, base_or_offset]
  · exact if_pos (show (0 : UInt32) &&& pagePresent = 0 by decide)

theorem pagingInit_directoryOk (p : Paging) (directory tables : UInt32) :
    DirectoryOk ((pagingInit p directory tables).2.context (pagingInit p directory tables).1) := by
  intro i present
  have context := Paging.modify_context { p with heapPtr := p.heapPtr + 12 + 4096 } p.heapPtr
  simp only [pagingInit, kmalloc, context] at present ⊢
  split
  · exact flags_kept _
  · rename_i missing
    rw [missing] at present
    exact absurd rfl present

end QuantumKernel.Exec
