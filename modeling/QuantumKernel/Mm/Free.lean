import QuantumKernel.Library.Memory32
import QuantumKernel.Mm.Allocation

/-! # `kfree`

`memory_init` and `kfree` of `memory.c`.  `kfree` takes the twelve bytes before a block for
its header, but `kmalloc` puts no header there: the bytes belong to whatever was allocated
before.  The list that it then merges is the one that `memory_init` set up.  It has a single
element, so the loop does nothing as long as nobody overwrites the `next` of that element,
and what a call changes is the word that it takes for `block->free`.
-/

namespace QuantumKernel.Mm

open ByteStore Memory32 Transition

def heapStart : UInt32 := 0x20000000
def heapSize : UInt32 := 0x10000000

/-- `sizeof(mem_block_t)`, and the offsets of `free` and `next`. -/
def sizeofMemBlock : UInt32 := 12
def offsetofFree : UInt32 := 4
def offsetofNext : UInt32 := 8

/-- `heap_list` after `memory_init`, which nothing assigns again. -/
def heapList : UInt32 := heapStart

def blockSize (mem : Memory) (block : UInt32) : UInt32 := loadWord mem block
def blockFree (mem : Memory) (block : UInt32) : UInt32 := loadWord mem (block + offsetofFree)
def blockNext (mem : Memory) (block : UInt32) : UInt32 := loadWord mem (block + offsetofNext)

/-- `memory_init`. -/
def memoryInit (mem : Memory) : Memory :=
  let mem := storeWord mem heapList (heapSize - sizeofMemBlock)
  let mem := storeWord mem (heapList + offsetofFree) 1
  storeWord mem (heapList + offsetofNext) 0

/-- The loop of `kfree` over the list. -/
def mergeLoop : Nat → Memory → UInt32 → Option Memory
  | 0, _, _ => none
  | fuel + 1, mem, current =>
    if current ≠ 0 ∧ blockNext mem current ≠ 0 then
      if blockFree mem current ≠ 0 ∧ blockFree mem (blockNext mem current) ≠ 0 then
        let mem := storeWord mem current
          (blockSize mem current + (sizeofMemBlock + blockSize mem (blockNext mem current)))
        let mem := storeWord mem (current + offsetofNext) (blockNext mem (blockNext mem current))
        mergeLoop fuel mem current
      else mergeLoop fuel mem (blockNext mem current)
    else some mem

/-- The address of `block->free`. -/
def freeField (ptr : UInt32) : UInt32 := ptr - sizeofMemBlock + offsetofFree

/-- `kfree`. -/
def kfree (fuel : Nat) (mem : Memory) (ptr : UInt32) : Option Memory :=
  if ptr = 0 then some mem else mergeLoop fuel (storeWord mem (freeField ptr) 1) heapList

/-- A block that is still allocated. -/
structure LiveBlock extends Block where
  /-- It came from `kmalloc`, so that it may be passed to `kfree`. -/
  byKmalloc : Bool
  deriving DecidableEq

/-- The heap, and what has been allocated and not freed. -/
structure Heap where
  heapPtr : UInt32
  mem : Memory
  live : List LiveBlock

/-- After `memory_init`. -/
def Heap.booted (mem : Memory) : Heap := ⟨heapBase, memoryInit mem, []⟩

inductive HeapCall
  | alloc (call : AllocCall)
  /-- The owner of a block stores into it. -/
  | write (b : LiveBlock) (bytes : Bytes)
  | kfree (b : LiveBlock)

def AllocCall.isKmalloc : AllocCall → Bool
  | .kmalloc _ => true
  | _ => false

def Heap.step (fuel : Nat) (s : Heap) : HeapCall → Option (Unit × Heap)
  | .alloc call =>
    let ptr := (call.run s.heapPtr).1
    some ((), { s with
      heapPtr := (call.run s.heapPtr).2
      live := if ptr = 0 then s.live else ⟨⟨ptr, call.size⟩, call.isKmalloc⟩ :: s.live })
  | .write b bytes => some ((), { s with mem := put s.mem b.ptr bytes b.size.toNat })
  | .kfree b => do
    let mem ← Mm.kfree fuel s.mem b.ptr
    some ((), { s with mem := mem, live := s.live.erase b })

/-- The bytes of `heap_list->next`. -/
def InNext (x : UInt32) : Prop := (x - (heapList + offsetofNext)).toNat < 4

instance (x : UInt32) : Decidable (InNext x) := inferInstanceAs (Decidable (_ < _))

/-- Only allocated blocks are written, and only those that `kmalloc` returned are freed; and
neither a new block nor the word before a freed one is on `heap_list->next`. -/
def OffTheList (s : Heap) : HeapCall → Prop
  | .alloc call => ∀ x, InNext x → ¬ (⟨(call.run s.heapPtr).1, call.size⟩ : Block).Covers x
  | .write b _ => b ∈ s.live
  | .kfree b => b ∈ s.live ∧ b.byKmalloc = true ∧ ∀ k < 4, ¬ InNext (freeField b.ptr + UInt32.ofNat k)

/-- The word that `kfree` takes for the `free` of the block is no live memory, or is 1 already. -/
def HeaderSpare (s : Heap) (b : LiveBlock) : Prop :=
  ∀ c ∈ s.live.erase b, ∀ k < 4, c.Covers (freeField b.ptr + UInt32.ofNat k) →
    s.mem (freeField b.ptr + UInt32.ofNat k) = bytes32 1 k

/-- The call returns and changes no byte of a block that is allocated afterwards. -/
def Harmless (fuel : Nat) (s : Heap) (call : HeapCall) : Prop :=
  ∃ s', s.step fuel call = some ((), s') ∧ ∀ c ∈ s'.live, ∀ x, c.Covers x → s'.mem x = s.mem x

variable {fuel : Nat} {s s' : Heap} {call : HeapCall} {calls : List (HeapCall × Unit)} {mem : Memory}
  {b c : LiveBlock} {x ptr : UInt32}

/-! ## The list -/

/-- The list still ends after its first element, and no block is on its `next`. -/
structure ListIntact (s : Heap) : Prop where
  last : blockNext s.mem heapList = 0
  spared : ∀ c ∈ s.live, ∀ x, InNext x → ¬ c.Covers x

theorem inNext_at {k : Nat} (bound : k < 4) : InNext (heapList + offsetofNext + UInt32.ofNat k) := by
  rw [InNext, offset_toNat _ (by omega)]
  exact bound

/-- `next` depends on its own bytes only. -/
theorem blockNext_congr {mem' : Memory} (agree : ∀ x, InNext x → mem' x = mem x) :
    blockNext mem' heapList = blockNext mem heapList := by
  rw [blockNext, loadWord_eq_iff]
  intro k bound
  rw [agree _ (inNext_at bound)]
  exact loadWord_eq_iff.mp rfl k bound

/-- A word that is not on `next` is stored beside it. -/
theorem storeWord_inNext {address value : UInt32}
    (beside : ∀ k < 4, ¬ InNext (address + UInt32.ofNat k)) (inside : InNext x) :
    storeWord mem address value x = mem x := by
  refine put_outside (Nat.le_of_not_lt fun low => beside (x - address).toNat low ?_)
  rw [UInt32.ofNat_toNat, UInt32.add_comm, UInt32.sub_add_cancel]
  exact inside

/-- The loop finds a list of one element. -/
theorem mergeLoop_last (enough : 0 < fuel) (last : blockNext mem heapList = 0) :
    mergeLoop fuel mem heapList = some mem := by
  cases fuel with
  | zero => exact absurd enough (Nat.lt_irrefl 0)
  | succ fuel => rw [mergeLoop, if_neg (fun both => both.2 last)]

/-- With the list intact, `kfree` stores one word. -/
theorem kfree_eq (enough : 0 < fuel) (intact : ListIntact s) (nonzero : b.ptr ≠ 0)
    (allowed : OffTheList s (.kfree b)) :
    Mm.kfree fuel s.mem b.ptr = some (storeWord s.mem (freeField b.ptr) 1) := by
  obtain ⟨-, -, beside⟩ := allowed
  rw [Mm.kfree, if_neg nonzero]
  refine mergeLoop_last enough ?_
  rw [blockNext_congr fun x inside => storeWord_inNext beside inside]
  exact intact.last

theorem Heap.step_kfree (enough : 0 < fuel) (intact : ListIntact s) (nonzero : b.ptr ≠ 0)
    (allowed : OffTheList s (.kfree b)) :
    s.step fuel (.kfree b) =
      some ((), { s with mem := storeWord s.mem (freeField b.ptr) 1, live := s.live.erase b }) := by
  rw [Heap.step, kfree_eq enough intact nonzero allowed]
  rfl

theorem ListIntact.booted (mem : Memory) : ListIntact (Heap.booted mem) :=
  ⟨loadWord_storeWord _ _ _, fun _ member => absurd member List.not_mem_nil⟩

/-- Every call leaves the list alone. -/
theorem ListIntact.step (enough : 0 < fuel) (intact : ListIntact s) (allowed : OffTheList s call)
    (done : s.step fuel call = some ((), s')) : ListIntact s' := by
  cases call with
  | alloc call =>
    cases done
    refine ⟨intact.last, fun c member => ?_⟩
    simp only at member
    split at member
    · exact intact.spared c member
    · cases member with
      | head => exact allowed
      | tail _ earlier => exact intact.spared c earlier
  | write b bytes =>
    cases done
    refine ⟨?_, intact.spared⟩
    refine (blockNext_congr fun x inside => ?_).trans intact.last
    exact put_outside (Nat.le_of_not_lt (intact.spared b allowed x inside))
  | kfree b =>
    simp only [Heap.step, Option.bind_eq_bind, Option.bind_eq_some_iff] at done
    obtain ⟨mem, freed, same⟩ := done
    cases same
    have spared (c : LiveBlock) (member : c ∈ s.live.erase b) := intact.spared c (List.mem_of_mem_erase member)
    by_cases null : b.ptr = 0
    · rw [Mm.kfree, if_pos null] at freed
      cases freed
      exact ⟨intact.last, spared⟩
    · rw [kfree_eq enough intact null allowed] at freed
      cases freed
      refine ⟨?_, spared⟩
      exact (blockNext_congr fun x inside => storeWord_inNext allowed.2.2 inside).trans intact.last

theorem ListIntact.run (enough : 0 < fuel) (run : Run (Heap.step fuel) OffTheList s calls s')
    (intact : ListIntact s) : ListIntact s' :=
  run.invariant ListIntact (fun _ _ _ _ intact allowed done => intact.step enough allowed done) intact

/-! ## What a call changes -/

/-- A stored word changes no byte of a set exactly if its bytes in the set are there already. -/
theorem storeWord_keeps_iff {P : UInt32 → Prop} {address value : UInt32} :
    (∀ x, P x → storeWord mem address value x = mem x) ↔
      ∀ k < 4, P (address + UInt32.ofNat k) → mem (address + UInt32.ofNat k) = bytes32 value k := by
  constructor
  · intro keeps k bound inside
    rw [← keeps _ inside]
    exact put_at bound (by decide)
  · intro there x inside
    by_cases low : (x - address).toNat < 4
    · have place : address + UInt32.ofNat (x - address).toNat = x := by
        rw [UInt32.ofNat_toNat, UInt32.add_comm, UInt32.sub_add_cancel]
      have byte := there _ low (place.symm ▸ inside)
      rw [place] at byte
      rw [byte, storeWord, put, if_pos low]
    · exact put_outside (Nat.le_of_not_lt low)

/-- In a run that stays off the list, freeing a block is harmless exactly if the word before it
that `kfree` sets to 1 is spare. -/
theorem kfree_harmless_iff (enough : 0 < fuel)
    (run : Run (Heap.step fuel) OffTheList (Heap.booted mem) calls s)
    (allowed : OffTheList s (.kfree b)) :
    Harmless fuel s (.kfree b) ↔ b.ptr = 0 ∨ HeaderSpare s b := by
  have intact := ListIntact.run enough run (.booted mem)
  by_cases null : b.ptr = 0
  · have same : s.step fuel (.kfree b) = some ((), { s with live := s.live.erase b }) := by
      rw [Heap.step, Mm.kfree, if_pos null]
      rfl
    exact ⟨fun _ => Or.inl null, fun _ => ⟨_, same, fun _ _ _ _ => rfl⟩⟩
  · rw [Harmless, Heap.step_kfree enough intact null allowed]
    constructor
    · rintro ⟨s', same, keeps⟩
      cases same
      exact Or.inr fun c member => storeWord_keeps_iff.mp (keeps c member)
    · intro spare
      refine ⟨_, rfl, fun c member => storeWord_keeps_iff.mpr ?_⟩
      exact (spare.resolve_left null) c member

/-- The two blocks of sixteen bytes that a new heap hands out first. -/
def firstBlock : LiveBlock := ⟨⟨0x01000000, 16⟩, true⟩
def secondBlock : LiveBlock := ⟨⟨0x01000010, 16⟩, true⟩

/-- The heap with both of them. -/
def twoBlocks (mem : Memory) : Heap := ⟨0x01000020, memoryInit mem, [secondBlock, firstBlock]⟩

/-- A block that ends below the list is off the list. -/
theorem offTheList_below {call : AllocCall}
    (below : (call.run s.heapPtr).1.toNat + call.size.toNat ≤ heapStart.toNat) :
    OffTheList s (.alloc call) := by
  intro x inside covers
  have next : (⟨heapList + offsetofNext, 4⟩ : Block).Covers x := inside
  exact Block.apart (below.trans (by decide)) (by decide) covers next

theorem twoBlocks_run (fuel : Nat) (mem : Memory) :
    Run (Heap.step fuel) OffTheList (Heap.booted mem) [(.alloc (.kmalloc 16), ()), (.alloc (.kmalloc 16), ())]
      (twoBlocks mem) := by
  have first : (0x01000000 : UInt32).toNat + (16 : UInt32).toNat ≤ heapStart.toNat := by decide
  have second : (0x01000010 : UInt32).toNat + (16 : UInt32).toNat ≤ heapStart.toNat := by decide
  exact .call (offTheList_below first) rfl (.call (offTheList_below second) rfl (.refl _))

theorem kfree_second_allowed (mem : Memory) : OffTheList (twoBlocks mem) (.kfree secondBlock) :=
  ⟨List.mem_cons_self, rfl, by decide⟩

theorem kfree_harmless_two :
    Harmless 1 (twoBlocks fun _ => 0) (.kfree secondBlock) ↔
      secondBlock.ptr = 0 ∨ HeaderSpare (twoBlocks fun _ => 0) secondBlock :=
  kfree_harmless_iff (by decide) (twoBlocks_run 1 fun _ => 0) (kfree_second_allowed _)

/-- Freeing the second of two blocks stores a 1 into the first. -/
theorem kfree_damages_neighbour :
    ∃ calls s s', Run (Heap.step 1) OffTheList (Heap.booted fun _ => 0) calls s ∧
      secondBlock ∈ s.live ∧ s.step 1 (.kfree secondBlock) = some ((), s') ∧
      firstBlock ∈ s'.live ∧ firstBlock.Covers 0x01000008 ∧
      s.mem 0x01000008 = 0 ∧ s'.mem 0x01000008 = 1 := by
  have intact := ListIntact.run Nat.one_pos (twoBlocks_run 1 fun _ => 0) (.booted _)
  have freed := Heap.step_kfree Nat.one_pos intact (by decide) (kfree_second_allowed fun _ => 0)
  refine ⟨_, _, _, twoBlocks_run 1 fun _ => 0, List.mem_cons_self, freed, ?_, ?_, ?_, ?_⟩
  · exact List.mem_singleton_self firstBlock
  · decide
  · decide
  · decide

end QuantumKernel.Mm
