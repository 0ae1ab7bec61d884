import QuantumKernel.Exec.Paging
import QuantumKernel.Library.Transition

/-! # Histories of the bump allocator

`kmalloc_a` of `kmalloc.c`, next to `kmalloc` and `kmalloc_aligned`, and what a sequence of
allocations hands out.  No call looks at the end of the memory.  As long as `heap_ptr` has not
passed it, every block lies between `HEAP` and `heap_ptr`, so a new block meets none of the
earlier ones; the blocks are sound up to the first one that reaches past the last address.
-/

namespace QuantumKernel.Mm

open Exec Pages Transition

def pageSize : UInt32 := 4096

/-- The first value of `heap_ptr`. -/
def heapBase : UInt32 := 0x01000000

def alignUp (addr align : UInt32) : UInt32 := (addr + align - 1) &&& ~~~(align - 1)

/-- `kmalloc_a`: the address, and `heap_ptr` afterwards. -/
def kmallocA (heapPtr size : UInt32) : UInt32 × UInt32 :=
  let heapPtr := alignUp heapPtr pageSize
  (heapPtr, heapPtr + size)

/-- The calls that allocate. -/
inductive AllocCall
  | kmalloc (size : UInt32)
  | kmallocA (size : UInt32)
  | kmallocAligned (size align : UInt32)

namespace AllocCall

/-- The size that the caller may use. -/
def size : AllocCall → UInt32
  | .kmalloc size => size
  | .kmallocA size => size
  | .kmallocAligned size _ => size

/-- The address, and `heap_ptr` afterwards. -/
def run (heapPtr : UInt32) : AllocCall → UInt32 × UInt32
  | .kmalloc size => Exec.kmalloc heapPtr size
  | .kmallocA size => Mm.kmallocA heapPtr size
  | .kmallocAligned size align => Exec.kmallocAligned heapPtr size align

/-- The call asks for the start of a page. -/
def wantsPage : AllocCall → Prop
  | .kmalloc _ => False
  | _ => True

/-- `kmalloc_aligned` is called for pages only. -/
def forPages : AllocCall → Prop
  | .kmallocAligned _ align => align = 4096
  | _ => True

end AllocCall

/-- A block that was handed out. -/
structure Block where
  ptr : UInt32
  size : UInt32
  deriving DecidableEq

/-- The block has the address; blocks wrap as addresses do. -/
def Block.Covers (b : Block) (x : UInt32) : Prop := (x - b.ptr).toNat < b.size.toNat

instance (b : Block) (x : UInt32) : Decidable (b.Covers x) := inferInstanceAs (Decidable (_ < _))

/-- The allocator, and the blocks that it has returned. -/
structure History where
  heapPtr : UInt32
  returned : List Block

/-- Nothing has been allocated. -/
def History.start : History := ⟨heapBase, []⟩

/-- A call, with its result. -/
def History.step (s : History) (call : AllocCall) : Option (UInt32 × History) :=
  let ptr := (call.run s.heapPtr).1
  some (ptr, {
    heapPtr := (call.run s.heapPtr).2
    returned := if ptr = 0 then s.returned else ⟨ptr, call.size⟩ :: s.returned })

/-- The call fails with a null pointer, or returns a block that ends before the memory does,
starts a page if it should, and meets no block returned before. -/
def Sound (s : History) (call : AllocCall) : Prop :=
  (call.run s.heapPtr).1 = 0 ∨
    (call.run s.heapPtr).1.toNat + call.size.toNat ≤ 4294967296 ∧
      (call.wantsPage → (call.run s.heapPtr).1.toNat % 4096 = 0) ∧
      ∀ b ∈ s.returned, ∀ x, b.Covers x → ¬ (⟨(call.run s.heapPtr).1, call.size⟩ : Block).Covers x

/-- `heap_ptr` rounded up to a page, without a bound. -/
def pageAbove (heapPtr : UInt32) : Nat := (heapPtr.toNat + 4095) / 4096 * 4096

/-- The address of the block, in exact arithmetic. -/
def AllocCall.place (heapPtr : UInt32) : AllocCall → Nat
  | .kmalloc _ => heapPtr.toNat
  | _ => pageAbove heapPtr

/-- The new `heap_ptr`, in exact arithmetic. -/
def AllocCall.reach (heapPtr : UInt32) : AllocCall → Nat
  | .kmalloc size => heapPtr.toNat + size.toNat
  | .kmallocA size => pageAbove heapPtr + size.toNat
  | .kmallocAligned size align => heapPtr.toNat + size.toNat + align.toNat

/-- The additions on `heap_ptr` do not wrap. -/
def NoWrap (s : History) (call : AllocCall) : Prop := call.forPages ∧ call.reach s.heapPtr < 4294967296

/-- The block ends before the memory does, or its page is the one after the last. -/
def Fits (heapPtr : UInt32) (call : AllocCall) : Prop :=
  call.place heapPtr = 4294967296 ∨ call.place heapPtr + call.size.toNat ≤ 4294967296

variable {s s' : History} {call : AllocCall} {calls : List (AllocCall × UInt32)} {heapPtr x : UInt32}
  {b : Block}

/-! ## The blocks so far -/

/-- All blocks lie between the start of the heap and `heap_ptr`. -/
structure Bounded (s : History) : Prop where
  base : heapBase.toNat ≤ s.heapPtr.toNat
  below : ∀ b ∈ s.returned, b.ptr.toNat + b.size.toNat ≤ s.heapPtr.toNat

theorem Bounded.start : Bounded History.start :=
  ⟨le_rfl, fun _ member => absurd member List.not_mem_nil⟩

theorem pageAbove_le (heapPtr : UInt32) :
    heapPtr.toNat ≤ pageAbove heapPtr ∧ pageAbove heapPtr ≤ heapPtr.toNat + 4095 ∧
      pageAbove heapPtr ≤ 4294967296 := by
  have bound := heapPtr.toNat_lt
  rw [pageAbove]
  omega

theorem alignUp_page_toNat (heapPtr : UInt32) :
    (alignUp heapPtr pageSize).toNat = pageAbove heapPtr % 4294967296 := by
  have bound := heapPtr.toNat_lt
  refine (roundUp_toNat heapPtr).trans ?_
  rw [pageAbove]
  omega

theorem place_le (heapPtr : UInt32) (call : AllocCall) :
    heapPtr.toNat ≤ call.place heapPtr ∧ call.place heapPtr ≤ 4294967296 := by
  have above := pageAbove_le heapPtr
  cases call with
  | kmalloc size => exact ⟨le_rfl, heapPtr.toNat_lt.le⟩
  | kmallocA size => exact ⟨above.1, above.2.2⟩
  | kmallocAligned size align => exact ⟨above.1, above.2.2⟩

/-- Where a call puts its block. -/
theorem run_ptr (positive : heapPtr ≠ 0) (pages : call.forPages) :
    (call.run heapPtr).1.toNat = call.place heapPtr % 4294967296 := by
  cases call with
  | kmalloc size => exact (Nat.mod_eq_of_lt heapPtr.toNat_lt).symm
  | kmallocA size => exact alignUp_page_toNat heapPtr
  | kmallocAligned size align =>
    obtain rfl : align = 4096 := pages
    rw [AllocCall.run, Exec.kmallocAligned, Exec.kmalloc]
    simp only [if_neg positive]
    exact alignUp_page_toNat heapPtr

/-- Where a call leaves `heap_ptr`. -/
theorem run_heapPtr (positive : heapPtr ≠ 0) :
    (call.run heapPtr).2.toNat = call.reach heapPtr % 4294967296 := by
  cases call with
  | kmalloc size => exact UInt32.toNat_add heapPtr size
  | kmallocA size =>
    show (alignUp heapPtr pageSize + size).toNat = (pageAbove heapPtr + size.toNat) % 4294967296
    rw [UInt32.toNat_add, alignUp_page_toNat]
    omega
  | kmallocAligned size align =>
    rw [AllocCall.run, Exec.kmallocAligned, Exec.kmalloc]
    simp only [if_neg positive]
    rw [UInt32.toNat_add, UInt32.toNat_add]
    simp only [AllocCall.reach]
    omega

theorem Bounded.positive (bounded : Bounded s) : s.heapPtr ≠ 0 := by
  intro zero
  have base := bounded.base
  rw [zero] at base
  exact absurd base (by decide)

/-- Without a wrap the new block lies between the old and the new `heap_ptr`. -/
theorem NoWrap.between (positive : s.heapPtr ≠ 0) (noWrap : NoWrap s call) :
    s.heapPtr.toNat ≤ (call.run s.heapPtr).1.toNat ∧
      (call.run s.heapPtr).1.toNat + call.size.toNat ≤ (call.run s.heapPtr).2.toNat := by
  obtain ⟨pages, small⟩ := noWrap
  have above := pageAbove_le s.heapPtr
  have inside : s.heapPtr.toNat ≤ call.place s.heapPtr ∧
      call.place s.heapPtr + call.size.toNat ≤ call.reach s.heapPtr := by
    cases call with
    | kmalloc size => exact ⟨le_rfl, le_rfl⟩
    | kmallocA size => exact ⟨above.1, le_rfl⟩
    | kmallocAligned size align =>
      obtain rfl : align = 4096 := pages
      have page : (4096 : UInt32).toNat = 4096 := rfl
      simp only [AllocCall.place, AllocCall.reach, AllocCall.size]
      omega
  rw [run_ptr positive pages, run_heapPtr positive]
  omega

/-- `heap_ptr` only moves up. -/
theorem NoWrap.grows (positive : s.heapPtr ≠ 0) (noWrap : NoWrap s call) {ptr : UInt32}
    (done : s.step call = some (ptr, s')) : s.heapPtr.toNat ≤ s'.heapPtr.toNat := by
  obtain ⟨above, below⟩ := noWrap.between positive
  rw [History.step, Option.some.injEq, Prod.mk.injEq] at done
  obtain ⟨-, rfl⟩ := done
  show _ ≤ (call.run s.heapPtr).2.toNat
  omega

/-- A call that does not wrap keeps the blocks below `heap_ptr`. -/
theorem Bounded.step (bounded : Bounded s) (noWrap : NoWrap s call) {ptr : UInt32}
    (done : s.step call = some (ptr, s')) : Bounded s' := by
  obtain ⟨above, below⟩ := noWrap.between bounded.positive
  have old (b : Block) (earlier : b ∈ s.returned) :
      b.ptr.toNat + b.size.toNat ≤ (call.run s.heapPtr).2.toNat := by
    have bound := bounded.below b earlier
    omega
  have base := bounded.base.trans (noWrap.grows bounded.positive done)
  rw [History.step, Option.some.injEq, Prod.mk.injEq] at done
  obtain ⟨-, rfl⟩ := done
  constructor
  · exact base
  · intro b member
    simp only at member
    split at member
    · exact old b member
    · cases member with
      | head => exact below
      | tail _ earlier => exact old b earlier

theorem Bounded.run (run : Run History.step NoWrap s calls s') (bounded : Bounded s) : Bounded s' :=
  run.invariant Bounded (fun _ _ _ _ bounded noWrap done => bounded.step noWrap done) bounded

/-! ## The next block -/

/-- A block that ends at or below `heap_ptr` and one that starts there have no address in common. -/
theorem Block.apart {c : Block} (below : b.ptr.toNat + b.size.toNat ≤ c.ptr.toNat)
    (ends : c.ptr.toNat + c.size.toNat ≤ 4294967296) (covers : b.Covers x) : ¬ c.Covers x := by
  have boundX := x.toNat_lt
  have boundB := b.ptr.toNat_lt
  have boundC := c.ptr.toNat_lt
  rw [Covers, UInt32.toNat_sub] at covers ⊢
  omega

/-- The block starts at its place, unless that is the end of the memory. -/
theorem run_ptr_cases (positive : heapPtr ≠ 0) (pages : call.forPages) :
    call.place heapPtr = 4294967296 ∧ (call.run heapPtr).1 = 0 ∨
      (call.run heapPtr).1 ≠ 0 ∧ (call.run heapPtr).1.toNat = call.place heapPtr := by
  have nonzero : heapPtr.toNat ≠ 0 := fun zero => positive (UInt32.toNat.inj zero)
  obtain ⟨above, atMost⟩ := place_le heapPtr call
  have ptr := run_ptr positive pages
  by_cases last : call.place heapPtr = 4294967296
  · refine Or.inl ⟨last, UInt32.toNat.inj ?_⟩
    rw [ptr, last]
    rfl
  · refine Or.inr ⟨fun null => ?_, by omega⟩
    rw [null, UInt32.toNat_zero] at ptr
    omega

/-- A page comes out page-aligned. -/
theorem run_aligned (positive : heapPtr ≠ 0) (pages : call.forPages) (wants : call.wantsPage) :
    (call.run heapPtr).1.toNat % 4096 = 0 := by
  rw [run_ptr positive pages]
  cases call with
  | kmalloc size => exact wants.elim
  | kmallocA size =>
    simp only [AllocCall.place, pageAbove]
    omega
  | kmallocAligned size align =>
    simp only [AllocCall.place, pageAbove]
    omega

/-- Up to the first call for which `heap_ptr` wraps, a call is sound exactly if its block ends
before the memory does. -/
theorem allocation_sound_iff (run : Run History.step NoWrap History.start calls s) (pages : call.forPages) :
    Sound s call ↔ Fits s.heapPtr call := by
  have bounded := Bounded.run run .start
  have above := (place_le s.heapPtr call).1
  have aligned := run_aligned bounded.positive pages
  rw [Sound, Fits]
  cases run_ptr_cases bounded.positive pages with
  | inl null => exact ⟨fun _ => Or.inl null.1, fun _ => Or.inl null.2⟩
  | inr inside =>
    obtain ⟨notNull, ptr⟩ := inside
    have before : call.place s.heapPtr < 4294967296 := ptr ▸ (call.run s.heapPtr).1.toNat_lt
    constructor
    · intro sound
      obtain ⟨ends, -, -⟩ := sound.resolve_left notNull
      exact Or.inr (ptr ▸ ends)
    · intro fits
      have ends := fits.resolve_left before.ne
      rw [← ptr] at ends above
      refine Or.inr ⟨ends, aligned, fun b member x covers => ?_⟩
      exact Block.apart ((bounded.below b member).trans above) ends covers

/-- One block of each kind, and a fourth one behind them. -/
theorem allocation_sound_fourth :
    ∃ calls s, Run History.step NoWrap History.start calls s ∧
      calls.map Prod.fst = [.kmalloc 12, .kmallocA 9708, .kmallocAligned 8192 4096] ∧
      s.returned = [⟨0x01004000, 8192⟩, ⟨0x01001000, 9708⟩, ⟨0x01000000, 12⟩] ∧
      Sound s (.kmallocAligned 100 4096) := by
  have run : Run History.step NoWrap History.start
      [(.kmalloc 12, 0x01000000), (.kmallocA 9708, 0x01001000), (.kmallocAligned 8192 4096, 0x01004000)]
      ⟨0x010065EC, [⟨0x01004000, 8192⟩, ⟨0x01001000, 9708⟩, ⟨0x01000000, 12⟩]⟩ :=
    .call ⟨trivial, by decide⟩ rfl (.call ⟨trivial, by decide⟩ rfl (.call ⟨rfl, by decide⟩ rfl (.refl _)))
  have pages : (AllocCall.kmallocAligned 100 4096).forPages := rfl
  exact ⟨_, _, run, rfl, rfl, (allocation_sound_iff run pages).mpr (Or.inr (by decide))⟩

/-- A segment with `p_memsz` `0xFFFFF000`: with one more page the size is zero, so the block
after it starts at the same address. -/
theorem allocation_overlaps :
    ∃ calls s, Run History.step (fun _ call => call.forPages) History.start calls s ∧
      calls.map Prod.fst = [.kmalloc 4096, .kmallocAligned 0xFFFFF000 4096] ∧
      ¬ Sound s (.kmalloc 16) := by
  have first : (AllocCall.kmalloc 4096).forPages := trivial
  have second : (AllocCall.kmallocAligned 0xFFFFF000 4096).forPages := rfl
  refine ⟨_, _, .call first rfl (.call second rfl (.refl _)), rfl, ?_⟩
  rintro (null | ⟨-, -, apart⟩)
  · exact absurd null (by decide)
  · exact apart ⟨0x01001000, 0xFFFFF000⟩ (by decide) 0x01001000 (by decide) (by decide)

end QuantumKernel.Mm
