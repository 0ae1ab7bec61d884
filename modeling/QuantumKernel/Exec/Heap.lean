import QuantumKernel.Exec.Mappings

/-! # A heap with room

`kmalloc` only ever moves its pointer up, and `kmalloc_aligned` takes one alignment more
than it was asked for.  `demand` is the heap in use together with what the page tables that
are still missing would take: mapping a page leaves it as it is, so a bound on it lasts.
-/

namespace QuantumKernel.Exec

open Pages

/-- The page tables that a context lacks. -/
def missing (c : PageContext) : Nat :=
  ((Finset.range 1024).filter fun i => c.tables (UInt32.ofNat i) = none).card

/-- The heap in use, and the page tables that may be created yet. -/
def demand (p : Paging) (ctx : UInt32) : Nat := p.heapPtr.toNat + 8192 * missing (p.context ctx)

/-- The heap does not reach its last page, even with all page tables and `more` bytes. -/
structure Room (p : Paging) (ctx : UInt32) (more : Nat) : Prop where
  positive : p.heapPtr ≠ 0
  bound : demand p ctx + more ≤ 0xFFFFF000

variable {p : Paging} {c : PageContext} {ctx virt phys size heapPtr : UInt32} {more more' : Nat}
  {calls : List (UInt32 × UInt32)}

theorem missing_le (c : PageContext) : missing c ≤ 1024 :=
  (Finset.card_filter_le _ _).trans (Finset.card_range 1024).le

theorem kmallocAligned_eq (positive : heapPtr ≠ 0) (size align : UInt32) :
    kmallocAligned heapPtr size align =
      ((heapPtr + align - 1) &&& ~~~(align - 1), heapPtr + (size + align)) := if_neg positive

/-- An aligned block lies between the old and the new heap pointer. -/
theorem kmallocAligned_toNat (positive : heapPtr ≠ 0)
    (room : heapPtr.toNat + size.toNat + 4096 ≤ 0xFFFFF000) :
    (kmallocAligned heapPtr size 0x1000).1.toNat = (heapPtr.toNat + 4095) / 4096 * 4096 ∧
      (kmallocAligned heapPtr size 0x1000).2.toNat = heapPtr.toNat + size.toNat + 4096 := by
  rw [kmallocAligned_eq positive]
  constructor
  · refine (roundUp_toNat heapPtr).trans ?_
    rw [Nat.mod_eq_of_lt (by omega)]
  · rw [UInt32.toNat_add, UInt32.toNat_add, show (0x1000 : UInt32).toNat = 4096 from rfl]
    omega

theorem kmallocAligned_ne_zero (positive : heapPtr ≠ 0)
    (room : heapPtr.toNat + size.toNat + 4096 ≤ 0xFFFFF000) : (kmallocAligned heapPtr size 0x1000).1 ≠ 0 := by
  intro zero
  have base := (kmallocAligned_toNat positive room).1
  have nonzero : heapPtr.toNat ≠ 0 := fun same => positive (UInt32.toNat.inj same)
  rw [zero, UInt32.toNat_zero] at base
  omega

/-- Allocating a block. -/
theorem Room.alloc (room : Room p ctx (size.toNat + 4096 + more)) :
    Room { p with heapPtr := (kmallocAligned p.heapPtr size 0x1000).2 } ctx more := by
  obtain ⟨positive, bound⟩ := room
  rw [demand] at bound
  have enough : p.heapPtr.toNat + size.toNat + 4096 ≤ 0xFFFFF000 := by omega
  have pointer := (kmallocAligned_toNat positive enough).2
  refine ⟨fun zero => ?_, ?_⟩
  · have same : (kmallocAligned p.heapPtr size 0x1000).2 = 0 := zero
    rw [same, UInt32.toNat_zero] at pointer
    omega
  · rw [demand]
    show (kmallocAligned p.heapPtr size 0x1000).2.toNat + 8192 * missing (p.context ctx) + more ≤ _
    omega

theorem Room.weaken (room : Room p ctx more) (less : more' ≤ more) : Room p ctx more' :=
  ⟨room.positive, by have bound := room.bound; omega⟩

/-- Storing an entry creates no table. -/
theorem missing_setEntry (c : PageContext) (virt value : UInt32) : missing (c.setEntry virt value) = missing c := by
  have same (i : UInt32) : (c.setEntry virt value).tables i = none ↔ c.tables i = none := by
    simp only [PageContext.setEntry]
    by_cases here : i = directoryIndex virt
    · rw [here, Function.update_self, Option.map_eq_none_iff]
    · rw [Function.update_of_ne here]
  simp only [missing, same]

/-- A created table is not missing any more. -/
theorem missing_createTable (absent : (p.context ctx).tables (directoryIndex virt) = none)
    (table : (kmallocAligned p.heapPtr 4096 4096).1 ≠ 0) :
    missing ((createTable p ctx (directoryIndex virt)).context ctx) + 1 = missing (p.context ctx) := by
  have index := directoryIndex_toNat virt
  have bound := virt.toNat_lt
  have member : (directoryIndex virt).toNat ∈
      (Finset.range 1024).filter fun i => (p.context ctx).tables (UInt32.ofNat i) = none := by
    rw [Finset.mem_filter, Finset.mem_range, UInt32.ofNat_toNat]
    exact ⟨by omega, absent⟩
  have erased : ((Finset.range 1024).filter fun i =>
      ((createTable p ctx (directoryIndex virt)).context ctx).tables (UInt32.ofNat i) = none) =
        ((Finset.range 1024).filter fun i =>
          (p.context ctx).tables (UInt32.ofNat i) = none).erase (directoryIndex virt).toNat := by
    ext i
    rw [Finset.mem_erase, Finset.mem_filter, Finset.mem_filter, createTable_tables, if_neg table]
    by_cases here : i = (directoryIndex virt).toNat
    · subst here
      simp
    · by_cases inside : i ∈ Finset.range 1024
      · have other : UInt32.ofNat i ≠ directoryIndex virt := by
          intro same
          have values := congrArg UInt32.toNat same
          rw [UInt32.toNat_ofNat', Nat.mod_eq_of_lt (by rw [Finset.mem_range] at inside; omega)] at values
          exact here values
        rw [Function.update_of_ne other]
        simp [here]
      · simp [inside]
  rw [missing, erased, Finset.card_erase_of_mem member, missing]
  have positive := Finset.card_pos.mpr ⟨_, member⟩
  omega

/-- Mapping a page finds or creates a table, and keeps the room. -/
theorem Room.map (room : Room p ctx more) (virt phys flags : UInt32) :
    Backed p ctx virt ∧ Room (pagingMapPage p ctx virt phys flags) ctx more ∧
      p.heapPtr.toNat ≤ (pagingMapPage p ctx virt phys flags).heapPtr.toNat := by
  obtain ⟨positive, bound⟩ := room
  have tables (q : Paging) (value : UInt32) :
      missing ((q.modify ctx fun c => c.setEntry virt value).context ctx) = missing (q.context ctx) := by
    rw [Paging.modify_context, missing_setEntry]
  rw [pagingMapPage]
  by_cases absent : (p.context ctx).tables (directoryIndex virt) = none
  · -- one of the tables that the bound counts is made now
    have lacking : 0 < missing (p.context ctx) := by
      refine Finset.card_pos.mpr ⟨(directoryIndex virt).toNat, ?_⟩
      have index := directoryIndex_toNat virt
      have small := virt.toNat_lt
      rw [Finset.mem_filter, Finset.mem_range, UInt32.ofNat_toNat]
      exact ⟨by omega, absent⟩
    rw [demand] at bound
    have size : (4096 : UInt32).toNat = 4096 := rfl
    have table : (kmallocAligned p.heapPtr 4096 4096).1 ≠ 0 := kmallocAligned_ne_zero positive (by omega)
    have pointer : (kmallocAligned p.heapPtr 4096 4096).2.toNat = p.heapPtr.toNat + 4096 + 4096 :=
      (kmallocAligned_toNat positive (by omega)).2
    have created := missing_createTable absent table
    have heap : (createTable p ctx (directoryIndex virt)).heapPtr = (kmallocAligned p.heapPtr 4096 4096).2 := rfl
    rw [if_pos absent]
    refine ⟨Or.inr table, ⟨fun zero => ?_, ?_⟩, ?_⟩
    · have same : (kmallocAligned p.heapPtr 4096 4096).2 = 0 := zero
      rw [same, UInt32.toNat_zero] at pointer
      omega
    · rw [demand, tables]
      show (kmallocAligned p.heapPtr 4096 4096).2.toNat + _ + more ≤ _
      omega
    · show p.heapPtr.toNat ≤ (kmallocAligned p.heapPtr 4096 4096).2.toNat
      omega
  · rw [if_neg absent]
    refine ⟨Or.inl absent, ⟨positive, ?_⟩, le_rfl⟩
    rw [demand] at bound ⊢
    rw [tables]
    exact bound

/-- With room, every call maps its page. -/
theorem Room.mapAll (room : Room p ctx more) (calls : List (UInt32 × UInt32)) :
    mapped ctx p calls = calls ∧ Room (mapAll p ctx calls) ctx more ∧
      p.heapPtr.toNat ≤ (mapAll p ctx calls).heapPtr.toNat := by
  induction calls generalizing p with
  | nil => exact ⟨rfl, room, le_rfl⟩
  | cons call rest ih =>
    obtain ⟨backed, room₁, up₁⟩ := room.map call.1 call.2 userFlags
    obtain ⟨all, room₂, up₂⟩ := ih room₁
    refine ⟨?_, room₂, up₁.trans up₂⟩
    rw [mapped, if_pos backed, all]
    rfl

end QuantumKernel.Exec
