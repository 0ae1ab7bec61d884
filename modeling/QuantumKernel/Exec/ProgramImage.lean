import QuantumKernel.Exec.Heap
import QuantumKernel.Exec.SegmentSafety

/-! # The image of a program

Where the heap has room, the blocks of a program lie one behind the other, and a page shows
the block of the last segment that maps it.  So a byte of a segment is right if its page is
mapped by that segment and by none after it, and also if it should be zero and another
segment maps its page.
-/

namespace QuantumKernel.Exec

open ByteStore Memory32 Fat32 Pages

/-- The `PT_LOAD` headers among the `remaining` ones from `i` on. -/
def segmentsFrom (img : FileImage) (header : ElfHeader) : (remaining : Nat) → UInt16 → List ElfProgramHeader
  | 0, _ => []
  | remaining + 1, i =>
    ((imageProgramHeader img header i).filter fun ph => ph.type = ptLoad).toList ++
      segmentsFrom img header remaining (i + 1)

/-- The `PT_LOAD` segments of a file, in their order. -/
def segments (img : FileImage) (header : ElfHeader) : List ElfProgramHeader :=
  segmentsFrom img header header.phnum.toNat 0

/-- The `remaining` program headers from `i` on can be read. -/
def ReadableFrom (img : FileImage) (header : ElfHeader) : (remaining : Nat) → UInt16 → Prop
  | 0, _ => True
  | remaining + 1, i =>
    imageProgramHeader img header i ≠ none ∧ ReadableFrom img header remaining (i + 1)

/-- The segment occupies the address. -/
def Occupies (ph : ElfProgramHeader) (a : Nat) : Prop :=
  ph.vaddr.toNat ≤ a ∧ a < ph.vaddr.toNat + ph.memsz.toNat

/-- The segment maps the page of the address. -/
def Covers (ph : ElfProgramHeader) (a : Nat) : Prop :=
  ph.vaddr.toNat / 4096 ≤ a / 4096 ∧ a / 4096 < ph.vaddr.toNat / 4096 + ph.pageCount.toNat

/-- The segment lies below the stack, and its part of the file is not larger than it. -/
structure InPlace (ph : ElfProgramHeader) : Prop where
  size : ph.filesz.toNat ≤ ph.memsz.toNat
  range : ph.vaddr.toNat + ph.memsz.toNat ≤ 0xBFFFC000

/-- The segments are in place and have no address in common. -/
structure Placed (segs : List ElfProgramHeader) : Prop where
  each : ∀ ph ∈ segs, InPlace ph
  apart : segs.Pairwise fun ph ph' => ∀ a, Occupies ph a → ¬ Occupies ph' a

/-- The byte that the file describes for place `j` of a segment. -/
def described (img : FileImage) (ph : ElfProgramHeader) (j : Nat) : UInt8 :=
  if j < ph.filesz.toNat then img.bytes (ph.offset.toNat + j) else 0

/-- The page of an address is present and user programs may access it. -/
def UserPage (c : PageContext) (a : UInt32) : Prop :=
  c.directory (directoryIndex a) &&& (pagePresent ||| pageUser) = pagePresent ||| pageUser ∧
    c.entry a &&& (pagePresent ||| pageUser) = pagePresent ||| pageUser

/-- The segment is in memory as the file describes it. -/
structure SegmentLoaded (img : FileImage) (ctx : UInt32) (k : Kernel) (ph : ElfProgramHeader) : Prop where
  read : img.delivered ph.offset ph.filesz = ph.filesz.toNat
  byte : ∀ j < ph.memsz.toNat, UserPage (k.paging.context ctx) (ph.vaddr + UInt32.ofNat j) ∧
    k.mem (pagingGetPhysical k.paging ctx (ph.vaddr + UInt32.ofNat j)) = described img ph j

/-- The segment is the last of the list to map the page of the address. -/
def LastToCover (ph : ElfProgramHeader) (after : List ElfProgramHeader) (a : Nat) : Prop :=
  Covers ph a ∧ ∀ q ∈ after, ¬ Covers q a

/-- The file has all of its part of the segment, every byte is on a page that some segment
maps, and its own segment is the last to map that page, unless the byte is zero. -/
structure SegmentClean (img : FileImage) (before : List ElfProgramHeader) (ph : ElfProgramHeader)
    (after : List ElfProgramHeader) : Prop where
  read : img.delivered ph.offset ph.filesz = ph.filesz.toNat
  mapped : ∀ j < ph.memsz.toNat, ∃ q ∈ before ++ ph :: after, Covers q (ph.vaddr.toNat + j)
  last : ∀ j < ph.memsz.toNat, LastToCover ph after (ph.vaddr.toNat + j) ∨ described img ph j = 0

/-- All segments of the list are clean. -/
def Clean (img : FileImage) (segs : List ElfProgramHeader) : Prop :=
  ∀ before ph after, segs = before ++ ph :: after → SegmentClean img before ph after

/-- The heap that the blocks of the segments take. -/
def blocksDemand (segs : List ElfProgramHeader) : Nat :=
  (segs.map fun ph => ph.pageCount.toNat * 4096 + 4096).sum

/-- The blocks lie one behind the other, from `lo` on, and all their pages are mapped. -/
def Stacked : (lo : Nat) → List Block → Prop
  | _, [] => True
  | lo, block :: rest => lo ≤ block.base.toNat ∧ block.base.toNat % 4096 = 0 ∧
      block.base.toNat + block.ph.pageCount.toNat * 4096 ≤ 0xFFFFF000 ∧
      block.pages = block.ph.calls block.base ∧
      Stacked (block.base.toNat + block.ph.pageCount.toNat * 4096) rest

variable {g : Fat32Fs} {cwd : UInt32} {v : Volume} {img : FileImage} {k : Kernel} {path : CString} {fuel : Nat}
  {ctx a base : UInt32} {header : ElfHeader} {ph : ElfProgramHeader} {p p' : Paging} {i : UInt16} {lo lo' : Nat}
  {block : Block} {blocks before after : List Block} {segs : List ElfProgramHeader} {mem : Memory}
  {x : UInt32} {c : PageContext}

/-! ## The blocks -/

theorem Stacked.mono (stacked : Stacked lo blocks) (less : lo' ≤ lo) : Stacked lo' blocks := by
  cases blocks with
  | nil => trivial
  | cons block rest => exact ⟨less.trans stacked.1, stacked.2⟩

/-- One block of the list, and the blocks behind it. -/
theorem Stacked.split (stacked : Stacked lo (before ++ block :: after)) : Stacked lo (block :: after) := by
  induction before generalizing lo with
  | nil => exact stacked
  | cons first rest ih =>
    obtain ⟨above, -, -, -, tail⟩ := stacked
    exact (ih tail).mono (above.trans (Nat.le_add_right _ _))

/-- A loop that comes to its end has read all headers. -/
theorem planLoop_readable (remaining : Nat) (p : Paging) (i : UInt16)
    (done : (planLoop img ctx header remaining p i).1 = true) : ReadableFrom img header remaining i := by
  induction remaining generalizing p i with
  | zero => trivial
  | succ remaining ih =>
    rw [planLoop] at done
    cases stepped : planStep img ctx header p i with
    | mk going rest =>
    rw [stepped] at done
    cases going with
    | false => cases done
    | true =>
      refine ⟨fun unread => ?_, ih rest.2 (i + 1) done⟩
      rw [planStep, planHeader, unread] at stepped
      cases stepped

/-- With room in the heap, every segment of a readable file gets its block. -/
theorem planLoop_room (remaining : Nat) (p : Paging) (i : UInt16) (readable : ReadableFrom img header remaining i)
    (room : Room p ctx (blocksDemand (segmentsFrom img header remaining i))) :
    (planLoop img ctx header remaining p i).1 = true ∧
      (planLoop img ctx header remaining p i).2.1.map Block.ph = segmentsFrom img header remaining i ∧
      Stacked p.heapPtr.toNat (planLoop img ctx header remaining p i).2.1 := by
  induction remaining generalizing p i with
  | zero => exact ⟨rfl, rfl, trivial⟩
  | succ remaining ih =>
    obtain ⟨read, readable⟩ := readable
    obtain ⟨ph, read⟩ := Option.ne_none_iff_exists'.mp read
    by_cases load : ph.type = ptLoad
    · have segs : segmentsFrom img header (remaining + 1) i = ph :: segmentsFrom img header remaining (i + 1) := by
        rw [segmentsFrom, read, Option.filter_some, if_pos (decide_eq_true load)]
        rfl
      rw [segs] at room ⊢
      have size := blockSize_toNat ph
      -- the block of this segment comes off the room on the heap
      have need : blocksDemand (ph :: segmentsFrom img header remaining (i + 1)) =
          (ph.pageCount * 0x1000).toNat + 4096 + blocksDemand (segmentsFrom img header remaining (i + 1)) := by
        rw [size]
        rfl
      rw [need] at room
      have bound := room.bound
      rw [demand] at bound
      have enough : p.heapPtr.toNat + (ph.pageCount * 0x1000).toNat + 4096 ≤ 0xFFFFF000 := by omega
      obtain ⟨base, pointer⟩ := kmallocAligned_toNat room.positive enough
      have nonzero := kmallocAligned_ne_zero room.positive enough
      have planned : planHeader img header p i =
          (.segment ph (kmallocAligned p.heapPtr (ph.pageCount * 0x1000) 0x1000).1,
            { p with heapPtr := (kmallocAligned p.heapPtr (ph.pageCount * 0x1000) 0x1000).2 }) := by
        rw [planHeader, read]
        simp only [if_neg (not_not.mpr load), if_neg nonzero]
      -- the mappings of its pages may take page tables from the heap as well
      obtain ⟨all, room₂, up⟩ := room.alloc.mapAll (ph.calls (kmallocAligned p.heapPtr (ph.pageCount * 0x1000) 0x1000).1)
      obtain ⟨done, phs, stacked⟩ := ih _ (i + 1) readable room₂
      rw [planLoop, planStep_segment planned]
      refine ⟨done, ?_, ?_⟩
      · simp only [List.singleton_append, List.map_cons, phs]
      · refine ⟨?_, ?_, ?_, all, stacked.mono ?_⟩
        · show p.heapPtr.toNat ≤ (kmallocAligned p.heapPtr (ph.pageCount * 0x1000) 0x1000).1.toNat
          omega
        · show (kmallocAligned p.heapPtr (ph.pageCount * 0x1000) 0x1000).1.toNat % 4096 = 0
          omega
        · show (kmallocAligned p.heapPtr (ph.pageCount * 0x1000) 0x1000).1.toNat + ph.pageCount.toNat * 4096 ≤ _
          omega
        · refine le_trans ?_ up
          show (kmallocAligned p.heapPtr (ph.pageCount * 0x1000) 0x1000).1.toNat + ph.pageCount.toNat * 4096 ≤
            (kmallocAligned p.heapPtr (ph.pageCount * 0x1000) 0x1000).2.toNat
          omega
    · have segs : segmentsFrom img header (remaining + 1) i = segmentsFrom img header remaining (i + 1) := by
        rw [segmentsFrom, read, Option.filter_some, if_neg (by simpa using load)]
        rfl
      have stepped : planStep img ctx header p i = (true, [], p) := by
        rw [planStep, planHeader, read]
        simp only [if_pos (show ph.type ≠ ptLoad from load)]
      rw [segs] at room ⊢
      rw [planLoop, stepped]
      exact ih p (i + 1) readable room

/-! ## The memory -/

theorem InPlace.pages (place : InPlace ph) : ph.memsz.toNat ≤ ph.pageCount.toNat * 4096 ∧
    ph.pageCount.toNat * 4096 < ph.memsz.toNat + 4096 := by
  have range := place.range
  have count := pageCount_toNat ph
  rw [Nat.mod_eq_of_lt (by omega)] at count
  omega

theorem InPlace.delivered (place : InPlace ph) (img : FileImage) :
    img.delivered ph.offset ph.filesz ≤ ph.memsz.toNat :=
  (img.delivered_le ph.offset ph.filesz).trans place.size

/-- Below its block a segment changes nothing. -/
theorem fill_below (place : InPlace ph) (top : base.toNat + ph.pageCount.toNat * 4096 ≤ 0xFFFFF000)
    (below : x.toNat < base.toNat) : fill img mem ph base x = mem x := by
  have size := blockSize_toNat ph
  have offset := offsetOf_toNat ph.vaddr
  have pages := place.pages
  have delivered := place.delivered img
  rw [fill, put_outside, put_outside]
  · rw [UInt32.toNat_sub]
    omega
  · rw [UInt32.toNat_sub, UInt32.toNat_add, offset]
    omega

/-- What a block shows at the place of an address of its pages. -/
def shown (img : FileImage) (ph : ElfProgramHeader) (a : Nat) : UInt8 :=
  if ph.vaddr.toNat ≤ a ∧ a < ph.vaddr.toNat + img.delivered ph.offset ph.filesz then
    img.bytes (ph.offset.toNat + (a - ph.vaddr.toNat)) else 0

theorem fill_inside (place : InPlace ph) (top : base.toNat + ph.pageCount.toNat * 4096 ≤ 0xFFFFF000)
    {a : Nat} (covers : Covers ph a) (here : x.toNat = base.toNat + (a - ph.vaddr.toNat / 4096 * 4096)) :
    fill img mem ph base x = shown img ph a := by
  have size := blockSize_toNat ph
  have offset := offsetOf_toNat ph.vaddr
  have pages := place.pages
  have delivered := place.delivered img
  obtain ⟨first, last⟩ := covers
  have boundX := x.toNat_lt
  have fromBase : (x - base).toNat = a - ph.vaddr.toNat / 4096 * 4096 := by
    rw [UInt32.toNat_sub]
    omega
  have start : (base + offsetOf ph.vaddr).toNat = base.toNat + ph.vaddr.toNat % 4096 := by
    rw [UInt32.toNat_add, offset]
    omega
  by_cases read : ph.vaddr.toNat ≤ a ∧ a < ph.vaddr.toNat + img.delivered ph.offset ph.filesz
  · have fromStart : (x - (base + offsetOf ph.vaddr)).toNat = a - ph.vaddr.toNat := by
      rw [UInt32.toNat_sub, start]
      omega
    rw [fill, put, fromStart, if_pos (by omega), shown, if_pos read]
  · have outside : img.delivered ph.offset ph.filesz ≤ (x - (base + offsetOf ph.vaddr)).toNat := by
      rw [UInt32.toNat_sub, start]
      omega
    rw [fill, put_outside outside, put, fromBase, if_pos (by omega), shown, if_neg read]

theorem fillAll_below (stacked : Stacked lo blocks) (places : ∀ block ∈ blocks, InPlace block.ph)
    (below : x.toNat < lo) : fillAll img mem blocks x = mem x := by
  induction blocks generalizing lo mem with
  | nil => rfl
  | cons block rest ih =>
    obtain ⟨above, -, top, -, tail⟩ := stacked
    have here : x.toNat < block.base.toNat := Nat.lt_of_lt_of_le below above
    rw [fillAll, List.foldl_cons]
    refine (ih tail (fun b member => places b (List.mem_cons_of_mem _ member))
      (Nat.lt_of_lt_of_le here (Nat.le_add_right _ _))).trans ?_
    exact fill_below (places block List.mem_cons_self) top here

/-- The blocks behind a block leave it as it was filled. -/
theorem fillAll_block (stacked : Stacked lo (before ++ block :: after))
    (places : ∀ b ∈ before ++ block :: after, InPlace b.ph) {a : Nat} (covers : Covers block.ph a)
    (here : x.toNat = block.base.toNat + (a - block.ph.vaddr.toNat / 4096 * 4096)) :
    fillAll img mem (before ++ block :: after) x = shown img block.ph a := by
  obtain ⟨-, -, top, -, tail⟩ := stacked.split
  have inBlock : x.toNat < block.base.toNat + block.ph.pageCount.toNat * 4096 := by
    obtain ⟨first, last⟩ := covers
    omega
  rw [fillAll_append, fillAll, List.foldl_cons]
  refine (fillAll_below tail (fun b member => places b (by simp [member])) inBlock).trans ?_
  exact fill_inside (places block (by simp)) top covers here

/-! ## The translations -/

theorem calls_page (place : InPlace ph) {call : UInt32 × UInt32} (base : UInt32) (member : call ∈ ph.calls base) :
    ∃ j < ph.pageCount.toNat, (pageOf call.1).toNat = ph.vaddr.toNat / 4096 + j ∧
      call.2 = base + UInt32.ofNat j * 0x1000 := by
  obtain ⟨j, inside, same⟩ := List.mem_map.mp member
  have bound := List.mem_range.mp inside
  have pages := place.pages
  have range := place.range
  refine ⟨j, bound, ?_, (congrArg Prod.snd same).symm⟩
  have virt : call.1 = baseOf ph.vaddr + UInt32.ofNat j * 0x1000 := (congrArg Prod.fst same).symm
  rw [virt, pageOf_toNat, UInt32.toNat_add, UInt32.toNat_mul, UInt32.toNat_ofNat', baseOf_toNat,
    show (0x1000 : UInt32).toNat = 4096 from rfl]
  omega

theorem calls_not_covering (place : InPlace ph) (base : UInt32) (uncovered : ¬ Covers ph a.toNat) :
    frameOf (ph.calls base) a = none := by
  refine frameOf_eq_none.mpr fun call member same => uncovered ?_
  obtain ⟨j, bound, page, -⟩ := calls_page place base member
  have pages := congrArg UInt32.toNat same
  rw [pageOf_toNat, page] at pages
  exact ⟨by omega, by omega⟩

theorem calls_covering (place : InPlace ph) (base : UInt32) (covers : Covers ph a.toNat) :
    frameOf (ph.calls base) a = some (base + UInt32.ofNat (a.toNat / 4096 - ph.vaddr.toNat / 4096) * 0x1000) := by
  obtain ⟨first, last⟩ := covers
  refine Bindings.lookupLast_unique ?_ fun binding bound same => ?_
  · have member : (baseOf ph.vaddr + UInt32.ofNat (a.toNat / 4096 - ph.vaddr.toNat / 4096) * 0x1000,
        base + UInt32.ofNat (a.toNat / 4096 - ph.vaddr.toNat / 4096) * 0x1000) ∈ ph.calls base :=
      List.mem_map.mpr ⟨_, List.mem_range.mpr (by omega), rfl⟩
    refine List.mem_map.mpr ⟨_, member, Prod.ext ?_ rfl⟩
    have pages := place.pages
    have range := place.range
    apply UInt32.toNat.inj
    rw [pageOf_toNat, pageOf_toNat, UInt32.toNat_add, UInt32.toNat_mul, UInt32.toNat_ofNat', baseOf_toNat,
      show (0x1000 : UInt32).toNat = 4096 from rfl]
    omega
  · obtain ⟨call, member, rfl⟩ := List.mem_map.mp bound
    obtain ⟨j, small, page, phys⟩ := calls_page place base member
    have pages := congrArg UInt32.toNat same
    rw [pageOf_toNat, page] at pages
    rw [phys, pages, Nat.add_sub_cancel_left]

/-- The pages of blocks that do not map the page of an address. -/
theorem pages_not_covering (stacked : Stacked lo blocks) (places : ∀ block ∈ blocks, InPlace block.ph)
    (uncovered : ∀ block ∈ blocks, ¬ Covers block.ph a.toNat) : frameOf (blocks.flatMap Block.pages) a = none := by
  induction blocks generalizing lo with
  | nil => rfl
  | cons block rest ih =>
    obtain ⟨-, -, -, pages, tail⟩ := stacked
    rw [List.flatMap_cons, frameOf_append, pages,
      ih tail (fun b member => places b (List.mem_cons_of_mem _ member))
        fun b member => uncovered b (List.mem_cons_of_mem _ member),
      calls_not_covering (places block List.mem_cons_self) block.base (uncovered block List.mem_cons_self)]
    rfl

/-- The frame of the last block that maps the page. -/
theorem pages_covering (stacked : Stacked lo (before ++ block :: after))
    (places : ∀ b ∈ before ++ block :: after, InPlace b.ph) (covers : Covers block.ph a.toNat)
    (last : ∀ block ∈ after, ¬ Covers block.ph a.toNat) :
    frameOf ((before ++ block :: after).flatMap Block.pages) a =
      some (block.base + UInt32.ofNat (a.toNat / 4096 - block.ph.vaddr.toNat / 4096) * 0x1000) := by
  obtain ⟨-, -, -, pages, tail⟩ := stacked.split
  rw [List.flatMap_append, List.flatMap_cons, frameOf_append, frameOf_append, pages,
    pages_not_covering tail (fun b member => places b (by simp [member])) last,
    calls_covering (places block (by simp)) block.base covers]
  rfl

theorem userPage_of_entry {frame : UInt32} (ok : DirectoryOk c) (entry : c.entry a = baseOf frame ||| userFlags) :
    UserPage c a := by
  have flags : c.entry a &&& (pagePresent ||| pageUser) = pagePresent ||| pageUser := by
    rw [entry]
    exact flags_kept (baseOf frame)
  refine ⟨ok _ fun missing => ?_, flags⟩
  rw [entry_of_missing missing] at flags
  exact absurd flags (by decide)

/-- **A page shows the last block that maps it.** -/
theorem page_shows (tabulated : Tabulated p ctx ((before ++ block :: after).flatMap Block.pages) p')
    (ok : DirectoryOk (p.context ctx)) (stacked : Stacked lo (before ++ block :: after))
    (places : ∀ b ∈ before ++ block :: after, InPlace b.ph) (covers : Covers block.ph a.toNat)
    (last : ∀ block ∈ after, ¬ Covers block.ph a.toNat) :
    UserPage (p'.context ctx) a ∧
      fillAll img mem (before ++ block :: after) (pagingGetPhysical p' ctx a) = shown img block.ph a.toNat := by
  have frame := pages_covering stacked places covers last
  have entry := tabulated.entry a
  have physical := tabulated.physical a
  rw [entryAfter, frame] at entry
  rw [frame] at physical
  refine ⟨userPage_of_entry (tabulated.directory ok) entry, ?_⟩
  obtain ⟨-, aligned, top, -, -⟩ := stacked.split
  obtain ⟨first, behind⟩ := covers
  refine fillAll_block stacked places ⟨first, behind⟩ ?_
  rw [physical]
  simp only [base_or_offset_toNat]
  rw [UInt32.toNat_add, UInt32.toNat_mul, UInt32.toNat_ofNat', show (0x1000 : UInt32).toNat = 4096 from rfl]
  omega

/-! ## The segments -/

/-- The last element of a list that has a property. -/
theorem exists_last_of_mem {α : Type*} {P : α → Prop} {l : List α} (found : ∃ x ∈ l, P x) :
    ∃ p x s, l = p ++ x :: s ∧ P x ∧ ∀ y ∈ s, ¬ P y := by
  induction l with
  | nil =>
    obtain ⟨x, member, -⟩ := found
    cases member
  | cons first rest ih =>
    by_cases later : ∃ x ∈ rest, P x
    · obtain ⟨p, x, s, split, holds, none⟩ := ih later
      exact ⟨first :: p, x, s, by rw [split, List.cons_append], holds, none⟩
    · obtain ⟨x, member, holds⟩ := found
      cases member with
      | head => exact ⟨[], first, rest, rfl, holds, fun y inRest holds => later ⟨y, inRest, holds⟩⟩
      | tail _ inRest => exact absurd ⟨x, inRest, holds⟩ later

theorem shown_own (whole : img.delivered ph.offset ph.filesz = ph.filesz.toNat) (j : Nat) :
    shown img ph (ph.vaddr.toNat + j) = described img ph j := by
  rw [shown, described, whole, Nat.add_sub_cancel_left]
  by_cases inFile : j < ph.filesz.toNat
  · rw [if_pos inFile, if_pos ⟨Nat.le_add_right _ _, by omega⟩]
  · rw [if_neg inFile, if_neg (by omega)]

/-- On the pages of another segment there are zeros. -/
theorem shown_other {q : ElfProgramHeader} {a : Nat} (place : InPlace q) (apart : ¬ Occupies q a) :
    shown img q a = 0 := by
  refine if_neg fun inside => apart ⟨inside.1, ?_⟩
  have delivered := place.delivered img
  omega

theorem Placed.disjoint {before after : List ElfProgramHeader} (placed : Placed (before ++ ph :: after)) :
    ∀ q ∈ before ++ after, ∀ a, Occupies ph a → ¬ Occupies q a := by
  obtain ⟨-, inner, outer⟩ := List.pairwise_append.mp placed.apart
  intro q member a occupies other
  cases List.mem_append.mp member with
  | inl inBefore => exact outer q inBefore ph List.mem_cons_self a other occupies
  | inr inAfter => exact (List.pairwise_cons.mp inner).1 q inAfter a occupies other

/-- A byte of a segment whose page is mapped: it is right if its own segment is the last to
map the page, and zero if another one is. -/
theorem segment_byte (mem : Memory) (placed : Placed ((before ++ block :: after).map Block.ph))
    (tabulated : Tabulated p ctx ((before ++ block :: after).flatMap Block.pages) p')
    (ok : DirectoryOk (p.context ctx)) (stacked : Stacked lo (before ++ block :: after))
    (whole : img.delivered block.ph.offset block.ph.filesz = block.ph.filesz.toNat) {j : Nat}
    (inside : j < block.ph.memsz.toNat)
    (covered : ∃ q ∈ before ++ block :: after, Covers q.ph (block.ph.vaddr.toNat + j)) :
    UserPage (p'.context ctx) (block.ph.vaddr + UInt32.ofNat j) ∧
      (fillAll img mem (before ++ block :: after)
          (pagingGetPhysical p' ctx (block.ph.vaddr + UInt32.ofNat j)) = described img block.ph j ↔
        LastToCover block.ph (after.map Block.ph) (block.ph.vaddr.toNat + j) ∨ described img block.ph j = 0) := by
  have places : ∀ q ∈ before ++ block :: after, InPlace q.ph :=
    fun q member => placed.each q.ph (List.mem_map_of_mem member)
  have range := (places block (by simp)).range
  have address : (block.ph.vaddr + UInt32.ofNat j).toNat = block.ph.vaddr.toNat + j := by
    rw [UInt32.toNat_add, UInt32.toNat_ofNat']
    omega
  have occupies : Occupies block.ph (block.ph.vaddr.toNat + j) := ⟨Nat.le_add_right _ _, by omega⟩
  rw [List.map_append, List.map_cons] at placed
  have zero (q : Block) (other : q ∈ before ++ after) : shown img q.ph (block.ph.vaddr.toNat + j) = 0 := by
    have inPlace : InPlace q.ph := places q (by simp only [List.mem_append, List.mem_cons] at other ⊢; tauto)
    refine shown_other inPlace (placed.disjoint q.ph ?_ _ occupies)
    rw [← List.map_append]
    exact List.mem_map_of_mem other
  -- the last block that maps the page is its own, or it comes after it or before it
  obtain ⟨p₁, q, s₁, split, covers, last⟩ := exists_last_of_mem covered
  have own (same : q = block) (rest : s₁ = after) :
      LastToCover block.ph (after.map Block.ph) (block.ph.vaddr.toNat + j) := by
    subst same rest
    refine ⟨covers, fun ph member => ?_⟩
    obtain ⟨b, inAfter, rfl⟩ := List.mem_map.mp member
    exact last b inAfter
  have which : q ∈ before ++ after ∧
      ¬ LastToCover block.ph (after.map Block.ph) (block.ph.vaddr.toNat + j) ∨
      q = block ∧ LastToCover block.ph (after.map Block.ph) (block.ph.vaddr.toNat + j) := by
    cases List.append_eq_append_iff.mp split with
    | inl behind =>
      obtain ⟨as, -, rest⟩ := behind
      cases as with
      | nil =>
        obtain ⟨same, tail⟩ := List.cons.inj rest
        exact Or.inr ⟨same.symm, own same.symm tail.symm⟩
      | cons b as =>
        obtain ⟨-, tail⟩ := List.cons.inj rest
        have inAfter : q ∈ after := by
          rw [tail]
          simp
        exact Or.inl ⟨List.mem_append_right _ inAfter,
          fun lastToCover => lastToCover.2 q.ph (List.mem_map_of_mem inAfter) covers⟩
    | inr ahead =>
      obtain ⟨cs, front, rest⟩ := ahead
      cases cs with
      | nil =>
        obtain ⟨same, tail⟩ := List.cons.inj rest
        exact Or.inr ⟨same, own same tail⟩
      | cons b cs =>
        obtain ⟨same, tail⟩ := List.cons.inj rest
        have inBefore : q ∈ before := by
          rw [front, same]
          simp
        have passed : ¬ Covers block.ph (block.ph.vaddr.toNat + j) := last block (by rw [tail]; simp)
        exact Or.inl ⟨List.mem_append_left _ inBefore, fun lastToCover => passed lastToCover.1⟩
  rw [split] at tabulated stacked places ⊢
  obtain ⟨user, byte⟩ := page_shows tabulated ok stacked places (address.symm ▸ covers) (address.symm ▸ last)
  rw [address] at byte
  refine ⟨user, ?_⟩
  rw [byte]
  cases which with
  | inl other =>
    obtain ⟨member, notLast⟩ := other
    rw [zero q member]
    simp [notLast, eq_comm]
  | inr own =>
    obtain ⟨rfl, isLast⟩ := own
    exact iff_of_true (shown_own whole j) (Or.inl isLast)

theorem not_userPage (zero : c.entry a = 0) : ¬ UserPage c a := by
  rintro ⟨-, flags⟩
  rw [zero] at flags
  exact absurd flags (by decide)

/-- A context without page tables. -/
def emptyContext : PageContext := ⟨fun _ => 0, fun _ => none, 0⟩

/-- What an accepted and readable file leaves, in a heap with room. -/
structure Loaded (img : FileImage) (ctx : UInt32) (header : ElfHeader) (k : Kernel) (blocks : List Block)
    (k' : Kernel) : Prop where
  phs : blocks.map Block.ph = segments img header
  stacked : Stacked k.paging.heapPtr.toNat blocks
  tabulated : Tabulated k.paging ctx (blocks.flatMap Block.pages) k'.paging
  mem : k'.mem = fillAll img k.mem blocks

/-- A load that can succeed does. -/
theorem loadElf_loaded (content : Content g cwd v path (some img)) (stores : Stores g cwd v k.fs)
    (enough : 4294967296 ≤ fuel) (accepted : imageHeader img = some header)
    (readable : ReadableFrom img header header.phnum.toNat 0)
    (room : Room k.paging ctx (blocksDemand (segments img header))) :
    ∃ k' blocks, loadElf fuel k path ctx = some (some header.entry, k') ∧ Loaded img ctx header k blocks k' := by
  obtain ⟨s', run⟩ := loadElf_spec content stores enough ctx
  obtain ⟨done, phs, stacked⟩ := planLoop_room header.phnum.toNat k.paging 0 readable room
  have tabulated := loadPlan_tabulated ctx (some img) k.paging
  have plan : loadPlan ctx (some img) k.paging =
      ⟨some header.entry, (planLoop img ctx header header.phnum.toNat k.paging 0).2.1,
        (planLoop img ctx header header.phnum.toNat k.paging 0).2.2⟩ := by
    rw [loadPlan, accepted]
    simp only [done, if_true]
  rw [plan] at run tabulated
  exact ⟨_, _, run, phs, stacked, tabulated, rfl⟩

/-- A load that succeeds accepted the file and read all its headers. -/
theorem readable_of_loadElf {k' : Kernel} {entry : UInt32} (content : Content g cwd v path (some img))
    (stores : Stores g cwd v k.fs) (enough : 4294967296 ≤ fuel)
    (done : loadElf fuel k path ctx = some (some entry, k')) (accepted : imageHeader img = some header) :
    ReadableFrom img header header.phnum.toNat 0 := by
  obtain ⟨s', run⟩ := loadElf_spec content stores enough ctx
  rw [run] at done
  have result := congrArg Prod.fst (Option.some.inj done)
  rw [loadPlan, accepted] at result
  have finished : (planLoop img ctx header header.phnum.toNat k.paging 0).1 = true := by
    by_contra stopped
    simp only [stopped] at result
    cases result
  exact planLoop_readable header.phnum.toNat k.paging 0 finished

/-- One segment of a loaded file. -/
theorem Loaded.segment_iff {k' : Kernel} (loaded : Loaded img ctx header k (before ++ block :: after) k')
    (placed : Placed (segments img header)) (ok : DirectoryOk (k.paging.context ctx))
    (covered : ∀ j < block.ph.memsz.toNat,
      ∃ q ∈ before ++ block :: after, Covers q.ph (block.ph.vaddr.toNat + j)) :
    SegmentLoaded img ctx k' block.ph ↔
      SegmentClean img (before.map Block.ph) block.ph (after.map Block.ph) := by
  obtain ⟨phs, stacked, tabulated, mem⟩ := loaded
  rw [← phs] at placed
  have byte (whole : img.delivered block.ph.offset block.ph.filesz = block.ph.filesz.toNat) (j : Nat)
      (inside : j < block.ph.memsz.toNat) := segment_byte k.mem placed tabulated ok stacked whole inside
        (covered j inside)
  constructor
  · rintro ⟨whole, bytes⟩
    refine ⟨whole, fun j inside => ?_, fun j inside => ?_⟩
    · obtain ⟨q, member, covers⟩ := covered j inside
      refine ⟨q.ph, ?_, covers⟩
      rw [← List.map_cons, ← List.map_append]
      exact List.mem_map_of_mem member
    · have right := (bytes j inside).2
      rw [mem] at right
      exact (byte whole j inside).2.mp right
  · rintro ⟨whole, -, last⟩
    refine ⟨whole, fun j inside => ⟨(byte whole j inside).1, ?_⟩⟩
    rw [mem]
    exact (byte whole j inside).2.mpr (last j inside)

/-- A segment of the file and its block. -/
theorem Loaded.ofSegment {k' : Kernel} (loaded : Loaded img ctx header k blocks k')
    {before after : List ElfProgramHeader} (split : segments img header = before ++ ph :: after) :
    ∃ bs block as, blocks = bs ++ block :: as ∧ bs.map Block.ph = before ∧ block.ph = ph ∧
      as.map Block.ph = after := by
  obtain ⟨bs, rest, rfl, front, back⟩ := List.map_eq_append_iff.mp (loaded.phs.trans split)
  obtain ⟨block, as, rfl, same, tail⟩ := List.map_eq_cons_iff.mp back
  exact ⟨bs, block, as, rfl, front, same, tail⟩

/-- In a context without page tables, only what the load maps is present. -/
theorem Loaded.covered {k' : Kernel} (loaded : Loaded img ctx header k blocks k')
    (placed : Placed (segments img header)) (empty : (k.paging.context ctx).entry a = 0)
    (present : UserPage (k'.paging.context ctx) a) : ∃ block ∈ blocks, Covers block.ph a.toNat := by
  by_contra uncovered
  have places : ∀ block ∈ blocks, InPlace block.ph := by
    intro block member
    exact placed.each block.ph (loaded.phs ▸ List.mem_map_of_mem member)
  have entry := loaded.tabulated.entry a
  rw [entryAfter, pages_not_covering loaded.stacked places fun block member covers =>
    uncovered ⟨block, member, covers⟩] at entry
  exact not_userPage (entry.trans empty) present

/-- The kernel with other contents of the memory and of the page tables. -/
def Kernel.withSpace (k : Kernel) (mem : Memory) (context : UInt32 → PageContext) : Kernel :=
  { k with mem := mem, paging := { k.paging with context := context } }

/-- The heap has room for the blocks of the file and for all page tables. -/
def HeapRoom (img : FileImage) (heapPtr : UInt32) : Prop :=
  ∀ header, imageHeader img = some header →
    heapPtr ≠ 0 ∧ heapPtr.toNat + 8192 * 1024 + blocksDemand (segments img header) ≤ 0xFFFFF000

theorem HeapRoom.room (heap : HeapRoom img k.paging.heapPtr) (accepted : imageHeader img = some header)
    (mem : Memory) (context : UInt32 → PageContext) (ctx : UInt32) :
    Room (k.withSpace mem context).paging ctx (blocksDemand (segments img header)) := by
  obtain ⟨positive, bound⟩ := heap header accepted
  refine ⟨positive, ?_⟩
  have few := missing_le (context ctx)
  show k.paging.heapPtr.toNat + 8192 * missing (context ctx) + _ ≤ _
  omega

/-- **The loader produces the image that the file describes exactly if** the file is clean.
The memory and the page tables before the load are arbitrary. -/
theorem load_elf_image_iff (content : Content g cwd v path (some img)) (stores : Stores g cwd v k.fs)
    (enough : 4294967296 ≤ fuel) (ctx : UInt32)
    (placed : ∀ header, imageHeader img = some header → Placed (segments img header))
    (heap : HeapRoom img k.paging.heapPtr) :
    (∀ mem context, DirectoryOk (context ctx) → ∀ entry k',
      loadElf fuel (k.withSpace mem context) path ctx = some (some entry, k') →
        ∀ header, imageHeader img = some header → ∀ ph ∈ segments img header, SegmentLoaded img ctx k' ph) ↔
      ∀ header, imageHeader img = some header → ReadableFrom img header header.phnum.toNat 0 →
        Clean img (segments img header) := by
  constructor
  · intro right header accepted readable before ph after split
    have place := placed header accepted
    obtain ⟨k', blocks, done, loaded⟩ := loadElf_loaded
      (k := k.withSpace k.mem fun _ => emptyContext) content stores enough accepted readable
      (heap.room accepted k.mem _ ctx)
    -- in an empty address space only the mappings of the loader are to be seen
    have ok : DirectoryOk emptyContext := fun i present => absurd rfl present
    obtain ⟨bs, block, as, rfl, rfl, rfl, rfl⟩ := loaded.ofSegment split
    have here := right k.mem (fun _ => emptyContext) ok header.entry k' done header accepted block.ph
      (by rw [split]; simp)
    refine (loaded.segment_iff place ok fun j inside => ?_).mp here
    have covered := loaded.covered place rfl (here.byte j inside).1
    have range := (place.each block.ph (by rw [split]; simp)).range
    have address : (block.ph.vaddr + UInt32.ofNat j).toNat = block.ph.vaddr.toNat + j := by
      rw [UInt32.toNat_add, UInt32.toNat_ofNat']
      omega
    rwa [address] at covered
  · intro clean mem context ok entry k' done header accepted ph member
    have readable := readable_of_loadElf (k := k.withSpace mem context) content stores enough done accepted
    obtain ⟨k₁, blocks, done₁, loaded⟩ := loadElf_loaded (k := k.withSpace mem context) content stores enough
      accepted readable (heap.room accepted mem context ctx)
    rw [done₁] at done
    cases done
    obtain ⟨before, after, split⟩ := List.append_of_mem member
    have segment := clean header accepted readable before ph after split
    obtain ⟨bs, block, as, rfl, rfl, rfl, rfl⟩ := loaded.ofSegment split
    refine (loaded.segment_iff (placed header accepted) ok fun j inside => ?_).mpr segment
    obtain ⟨q, inSegments, covers⟩ := segment.mapped j inside
    rw [← List.map_cons, ← List.map_append] at inSegments
    obtain ⟨b, inBlocks, rfl⟩ := List.mem_map.mp inSegments
    exact ⟨b, inBlocks, covers⟩

/-- A single segment in place is placed. -/
theorem Placed.single (place : InPlace ph) : Placed [ph] :=
  ⟨fun _ member => List.mem_singleton.mp member ▸ place, List.pairwise_singleton _ _⟩

/-- The segments of a program, from its bytes. -/
theorem segments_of {program : List UInt32} (small : program.length ≤ 128) (header : ElfHeader)
    (accepted : imageHeader (programImage program small) = some header)
    (found : segments (programImage program small) header = segs) :
    ∀ header, imageHeader (programImage program small) = some header →
      segments (programImage program small) header = segs := by
  intro other same
  rw [accepted] at same
  cases same
  exact found

theorem linkedProgram_segments : ∀ header, imageHeader (programImage linkedProgram (by decide)) = some header →
    segments (programImage linkedProgram (by decide)) header = [⟨ptLoad, 84, 0x400000, 0, 4096⟩] :=
  segments_of (by decide) ⟨elfMagic, 1, 3, 0x400000, 52, 32, 1⟩ (by decide +kernel) (by decide +kernel)

theorem straddlingProgram_segments :
    ∀ header, imageHeader (programImage straddlingProgram (by decide)) = some header →
      segments (programImage straddlingProgram (by decide)) header = [⟨ptLoad, 84, 0x80000FFF, 2, 2⟩] :=
  segments_of (by decide) ⟨elfMagic, 1, 3, 0x80000FFF, 52, 32, 1⟩ (by decide +kernel) (by decide +kernel)

theorem load_elf_image_iff_linked :
    (∀ mem context, DirectoryOk (context 0x01000000) → ∀ entry k',
      loadElf 4294967296 ((bootKernel linkedProgram).withSpace mem context) programPath 0x01000000 =
          some (some entry, k') →
        ∀ header, imageHeader (programImage linkedProgram (by decide)) = some header →
          ∀ ph ∈ segments (programImage linkedProgram (by decide)) header,
            SegmentLoaded (programImage linkedProgram (by decide)) 0x01000000 k' ph) ↔
      ∀ header, imageHeader (programImage linkedProgram (by decide)) = some header →
        ReadableFrom (programImage linkedProgram (by decide)) header header.phnum.toNat 0 →
          Clean (programImage linkedProgram (by decide))
            (segments (programImage linkedProgram (by decide)) header) := by
  refine load_elf_image_iff linkedProgram_content (bootKernel_stores linkedProgram) (by decide) 0x01000000
    (fun header accepted => ?_) fun header accepted => ?_
  · rw [linkedProgram_segments header accepted]
    exact .single ⟨by decide, by decide⟩
  · rw [linkedProgram_segments header accepted]
    decide

/-- `load_elf` returns 0, and the second byte of the segment is on a page that is not
mapped. -/
theorem load_elf_leaves_page_out :
    ∃ entry k', loadElf 4294967296 (bootKernel straddlingProgram) programPath 0x01000000 = some (some entry, k') ∧
      DirectoryOk ((bootKernel straddlingProgram).paging.context 0x01000000) ∧
      HeapRoom (programImage straddlingProgram (by decide)) (bootKernel straddlingProgram).paging.heapPtr ∧
      ∀ header, imageHeader (programImage straddlingProgram (by decide)) = some header →
        Placed (segments (programImage straddlingProgram (by decide)) header) ∧
          ∃ ph ∈ segments (programImage straddlingProgram (by decide)) header,
            ¬ SegmentLoaded (programImage straddlingProgram (by decide)) 0x01000000 k' ph := by
  have run : (loadElf 4294967296 (bootKernel straddlingProgram) programPath 0x01000000).map
      (fun outcome => (outcome.1, (outcome.2.paging.context 0x01000000).entry 0x80001000)) =
        some (some 0x80000FFF, 0) := by decide +kernel
  obtain ⟨⟨r, k'⟩, done, outcome⟩ := Option.map_eq_some_iff.mp run
  cases congrArg Prod.fst outcome
  have absent : (k'.paging.context 0x01000000).entry 0x80001000 = 0 := congrArg Prod.snd outcome
  refine ⟨_, k', done, pagingInit_directoryOk _ _ _, fun header accepted => ?_, fun header accepted => ?_⟩
  · rw [straddlingProgram_segments header accepted]
    decide
  · rw [straddlingProgram_segments header accepted]
    exact ⟨.single ⟨by decide, by decide⟩, _, List.mem_singleton_self _,
      fun loaded => not_userPage absent (loaded.byte 1 (by decide)).1⟩

end QuantumKernel.Exec
