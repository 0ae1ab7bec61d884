import QuantumKernel.Exec.Translations

/-! # Where the loader writes

For every `PT_LOAD` segment the loader allocates a block of `page_count` pages, clears it
and reads the file into it, `vaddr & 0xFFF` bytes behind its start.  The size of the block
is computed from `memsz` alone, and the read is as long as `filesz` and the file say.
-/

namespace QuantumKernel.Exec

open ByteStore Memory32 Fat32 Pages

/-- The loop of `load_elf` comes to program header `i`. -/
inductive AtHeader (fuel : Nat) (ctx : UInt32) (path : CString) (k₀ : Kernel) (header : ElfHeader) :
    Kernel → Fat32File → UInt16 → Prop
  | first {k : Kernel} {file : Fat32File} : openElf fuel k₀ path = some (some (header, file), k) →
      0 < header.phnum → AtHeader fuel ctx path k₀ header k file 0
  | next {k k' : Kernel} {file file' : Fat32File} {i : UInt16} : AtHeader fuel ctx path k₀ header k file i →
      loadHeader fuel ctx header k file i = some (true, file', k') → i + 1 < header.phnum →
      AtHeader fuel ctx path k₀ header k' file' (i + 1)

/-- `load_elf` fills the segment `ph` into the block at `base`, from this state. -/
def Fills (fuel : Nat) (ctx : UInt32) (path : CString) (k₀ : Kernel) (ph : ElfProgramHeader) (base : UInt32)
    (file : Fat32File) (k : Kernel) : Prop :=
  ∃ header k₁ file₁ i, AtHeader fuel ctx path k₀ header k₁ file₁ i ∧
    prepareSegment fuel header k₁ file₁ i = some (.segment ph base, file, k)

/-- Outside the block the memory stays as it is, whatever it holds. -/
def WritesInside (fuel : Nat) (ph : ElfProgramHeader) (base : UInt32) (file : Fat32File) (k : Kernel) : Prop :=
  ∀ mem file' k', fillSegment fuel { k with mem := mem } file ph base = some (file', k') →
    ∀ x, ph.pageCount.toNat * 0x1000 ≤ (x - base).toNat → k'.mem x = mem x

/-- The block is large enough for the segment. -/
def LargeEnough (ph : ElfProgramHeader) : Prop :=
  (ph.vaddr &&& 0xFFF).toNat + ph.memsz.toNat ≤ ph.pageCount.toNat * 0x1000

instance (ph : ElfProgramHeader) : Decidable (LargeEnough ph) := inferInstanceAs (Decidable (_ ≤ _))

/-- The end of the segment and of what is read lie before `memsz` rounded up to pages. -/
structure Fits (img : FileImage) (ph : ElfProgramHeader) : Prop where
  noWrap : ph.memsz.toNat + 0xFFF < 4294967296
  memory : ph.vaddr.toNat % 0x1000 + ph.memsz.toNat ≤ (ph.memsz.toNat + 0xFFF) / 0x1000 * 0x1000
  file : img.delivered ph.offset ph.filesz = 0 ∨
    ph.vaddr.toNat % 0x1000 + img.delivered ph.offset ph.filesz ≤ (ph.memsz.toNat + 0xFFF) / 0x1000 * 0x1000

variable {g : Fat32Fs} {cwd : UInt32} {v : Volume} {img : FileImage} {file : Fat32File} {k k₀ : Kernel}
  {path : CString} {fuel : Nat} {ctx base : UInt32} {header : ElfHeader} {ph : ElfProgramHeader} {i : UInt16}

theorem pageCount_toNat (ph : ElfProgramHeader) :
    ph.pageCount.toNat = (ph.memsz.toNat + 0xFFF) % 4294967296 / 0x1000 := by
  rw [ElfProgramHeader.pageCount, UInt32.toNat_div, UInt32.toNat_add]
  rfl

theorem blockSize_toNat (ph : ElfProgramHeader) :
    (ph.pageCount * 0x1000).toNat = ph.pageCount.toNat * 0x1000 := by
  have count := pageCount_toNat ph
  rw [UInt32.toNat_mul, show (0x1000 : UInt32).toNat = 0x1000 from rfl]
  omega

/-! ## One segment -/

theorem largeEnough_iff (ph : ElfProgramHeader) : LargeEnough ph ↔ ph.memsz.toNat + 0xFFF < 4294967296 ∧
    ph.vaddr.toNat % 0x1000 + ph.memsz.toNat ≤ (ph.memsz.toNat + 0xFFF) / 0x1000 * 0x1000 := by
  have bound := ph.memsz.toNat_lt
  rw [LargeEnough, pageCount_toNat, ← offsetOf, offsetOf_toNat]
  omega

/-- What `memset` and `fat32_read` leave alone. -/
theorem fill_outside {mem : Memory} {x : UInt32}
    (inside : img.delivered ph.offset ph.filesz = 0 ∨
      ph.vaddr.toNat % 0x1000 + img.delivered ph.offset ph.filesz ≤ ph.pageCount.toNat * 0x1000)
    (outside : ph.pageCount.toNat * 0x1000 ≤ (x - base).toNat) : fill img mem ph base x = mem x := by
  have boundX := x.toNat_lt
  have boundB := base.toNat_lt
  have boundO := offsetOf_toNat ph.vaddr
  rw [fill, put_outside, put_outside]
  · rw [blockSize_toNat]
    exact outside
  · rw [UInt32.toNat_sub] at outside
    rw [UInt32.toNat_sub, UInt32.toNat_add, boundO]
    omega

/-- A read that passes the end of the block writes there. -/
theorem fill_passes (passes : ph.pageCount.toNat * 0x1000 <
      ph.vaddr.toNat % 0x1000 + img.delivered ph.offset ph.filesz)
    (positive : img.delivered ph.offset ph.filesz ≠ 0) (base : UInt32) :
    ∃ x mem, ph.pageCount.toNat * 0x1000 ≤ (x - base).toNat ∧ fill img mem ph base x ≠ mem x := by
  have count := pageCount_toNat ph
  have small := img.delivered_lt ph.offset ph.filesz
  have boundB := base.toNat_lt
  have boundO := offsetOf_toNat ph.vaddr
  -- the last byte of the read, or the last address before the block is met again
  obtain ⟨j, read, behind, noWrap⟩ : ∃ j < img.delivered ph.offset ph.filesz,
      ph.pageCount.toNat * 0x1000 ≤ ph.vaddr.toNat % 0x1000 + j ∧
        ph.vaddr.toNat % 0x1000 + j < 4294967296 := by
    by_cases wraps : ph.vaddr.toNat % 0x1000 + img.delivered ph.offset ph.filesz ≤ 4294967296
    · exact ⟨img.delivered ph.offset ph.filesz - 1, by omega, by omega, by omega⟩
    · exact ⟨4294967295 - ph.vaddr.toNat % 0x1000, by omega, by omega, by omega⟩
  refine ⟨base + offsetOf ph.vaddr + UInt32.ofNat j, fun _ => img.bytes (ph.offset.toNat + j) + 1, ?_, ?_⟩
  · have place : (base + offsetOf ph.vaddr + UInt32.ofNat j - base).toNat = ph.vaddr.toNat % 0x1000 + j := by
      rw [UInt32.toNat_sub, UInt32.toNat_add, UInt32.toNat_add, UInt32.toNat_ofNat', boundO]
      omega
    rw [place]
    exact behind
  · rw [fill, put_at read (Nat.le_of_lt small)]
    intro same
    have values := congrArg UInt8.toNat same
    have byte := (img.bytes (ph.offset.toNat + j)).toNat_lt
    rw [UInt8.toNat_add, show (1 : UInt8).toNat = 1 from rfl] at values
    omega

theorem writesInside_iff (opened : Opened g cwd v img k.fs file) (enough : 4294967296 ≤ fuel)
    (ph : ElfProgramHeader) (base : UInt32) :
    WritesInside fuel ph base file k ↔ img.delivered ph.offset ph.filesz = 0 ∨
      ph.vaddr.toNat % 0x1000 + img.delivered ph.offset ph.filesz ≤ ph.pageCount.toNat * 0x1000 := by
  constructor
  · intro inside
    by_contra passes
    obtain ⟨positive, passes⟩ := not_or.mp passes
    obtain ⟨x, mem, behind, changed⟩ := fill_passes (Nat.not_le.mp passes) positive base
    obtain ⟨file', s', run, -⟩ := fillSegment_spec (k := { k with mem := mem }) opened enough ph base
    exact changed (inside mem _ _ run x behind)
  · intro inside mem file' k' run x outside
    obtain ⟨file₁, s₁, run₁, -⟩ := fillSegment_spec (k := { k with mem := mem }) opened enough ph base
    rw [run₁] at run
    cases run
    exact fill_outside inside outside

theorem segment_safe_iff (opened : Opened g cwd v img k.fs file) (enough : 4294967296 ≤ fuel)
    (ph : ElfProgramHeader) (base : UInt32) :
    WritesInside fuel ph base file k ∧ LargeEnough ph ↔ Fits img ph := by
  rw [writesInside_iff opened enough, largeEnough_iff, pageCount_toNat]
  constructor
  · rintro ⟨file, noWrap, memory⟩
    rw [Nat.mod_eq_of_lt noWrap] at file
    exact ⟨noWrap, memory, file⟩
  · rintro ⟨noWrap, memory, file⟩
    rw [Nat.mod_eq_of_lt noWrap]
    exact ⟨file, noWrap, memory⟩

/-! ## All segments of a file -/

theorem UInt16.succ_toNat {i n : UInt16} (below : i < n) : (i + 1).toNat = i.toNat + 1 := by
  have bound := n.toNat_lt
  rw [UInt16.lt_iff_toNat_lt] at below
  rw [UInt16.toNat_add, show (1 : UInt16).toNat = 1 from rfl]
  omega

/-- The headers that are still to come. -/
theorem planLoop_remaining (below : i < header.phnum) (p : Paging) :
    planLoop img ctx header (header.phnum.toNat - i.toNat) p i =
      match planStep img ctx header p i with
      | (false, blocks, p) => (false, blocks, p)
      | (true, blocks, p) =>
        match planLoop img ctx header (header.phnum.toNat - (i + 1).toNat) p (i + 1) with
        | (done, rest, p) => (done, blocks ++ rest, p) := by
  have next := UInt16.succ_toNat below
  rw [UInt16.lt_iff_toNat_lt] at below
  have step : header.phnum.toNat - i.toNat = (header.phnum.toNat - (i + 1).toNat) + 1 := by omega
  rw [step]
  rfl

/-- What is known when the loop comes to a program header. -/
structure Loading (g : Fat32Fs) (cwd : UInt32) (v : Volume) (img : FileImage) (ctx : UInt32) (p : Paging)
    (header : ElfHeader) (k : Kernel) (file : Fat32File) (i : UInt16) : Prop where
  opened : Opened g cwd v img k.fs file
  accepted : imageHeader img = some header
  below : i < header.phnum
  rest : ∀ block ∈ (planLoop img ctx header (header.phnum.toNat - i.toNat) k.paging i).2.1,
    block ∈ (loadPlan ctx (some img) p).blocks

theorem AtHeader.loading (content : Content g cwd v path (some img)) (stores : Stores g cwd v k₀.fs)
    (enough : 4294967296 ≤ fuel) (at_ : AtHeader fuel ctx path k₀ header k file i) :
    Loading g cwd v img ctx k₀.paging header k file i := by
  induction at_ with
  | @first k file run positive =>
    obtain ⟨file₁, s₁, run₁, opened⟩ := openElf_spec content stores enough
    rw [run₁] at run
    obtain ⟨found, same⟩ := Prod.mk.inj (Option.some.inj run)
    obtain ⟨header₁, accepted, pair⟩ := Option.map_eq_some_iff.mp found
    cases pair
    cases same
    refine ⟨opened (by simp [accepted]), accepted, positive, fun block member => ?_⟩
    rw [loadPlan, accepted]
    exact member
  | @next k k' file file' i _ step more ih =>
    obtain ⟨opened, accepted, below, rest⟩ := ih
    obtain ⟨file₁, s₁, run, opened₁⟩ := loadHeader_spec opened enough ctx header i
    rw [run] at step
    cases planned : planStep img ctx header k.paging i with
    | mk going tail =>
    rw [planned] at step opened₁
    cases step
    refine ⟨opened₁ rfl, accepted, more, fun block member => rest block ?_⟩
    rw [planLoop_remaining below, planned]
    exact List.mem_append_right _ member

/-- The segment at a program header. -/
theorem planStep_segment {p p₁ : Paging} (planned : planHeader img header p i = (.segment ph base, p₁)) :
    planStep img ctx header p i =
      (true, [⟨ph, base, mapped ctx p₁ (ph.calls base)⟩], mapAll p₁ ctx (ph.calls base)) := by
  rw [planStep, planned]

/-- What `load_elf` fills in is in the plan. -/
theorem Fills.planned (content : Content g cwd v path (some img)) (stores : Stores g cwd v k₀.fs)
    (enough : 4294967296 ≤ fuel) (fills : Fills fuel ctx path k₀ ph base file k) :
    Opened g cwd v img k.fs file ∧
      ∃ block ∈ (loadPlan ctx (some img) k₀.paging).blocks, block.ph = ph := by
  obtain ⟨header, k₁, file₁, i, at_, prepare⟩ := fills
  obtain ⟨opened, -, below, rest⟩ := at_.loading content stores enough
  obtain ⟨file₂, s₂, run, opened₂⟩ := prepareSegment_spec opened enough header i
  rw [run] at prepare
  cases planned : planHeader img header k₁.paging i with
  | mk action p =>
  rw [planned] at prepare
  cases prepare
  refine ⟨opened₂, ⟨ph, base, mapped ctx p (ph.calls base)⟩, rest _ ?_, rfl⟩
  rw [planLoop_remaining below, planStep_segment planned]
  exact List.mem_append_left _ (List.mem_singleton_self _)

/-- From a program header on, everything in the plan is filled in. -/
theorem fills_of_planned (enough : 4294967296 ≤ fuel) (remaining : Nat)
    (at_ : AtHeader fuel ctx path k₀ header k file i) (opened : Opened g cwd v img k.fs file)
    (below : i < header.phnum) (left : remaining = header.phnum.toNat - i.toNat) {block : Block}
    (member : block ∈ (planLoop img ctx header remaining k.paging i).2.1) :
    ∃ file' k', Fills fuel ctx path k₀ block.ph block.base file' k' ∧ Opened g cwd v img k'.fs file' := by
  induction remaining generalizing k file i with
  | zero => cases member
  | succ remaining ih =>
    obtain ⟨file₁, s₁, run, opened₁⟩ := loadHeader_spec opened enough ctx header i
    have next := UInt16.succ_toNat below
    -- the block may be that of this header
    have here : block ∈ (planStep img ctx header k.paging i).2.1 →
        ∃ file' k', Fills fuel ctx path k₀ block.ph block.base file' k' ∧ Opened g cwd v img k'.fs file' := by
      intro first
      obtain ⟨file₂, s₂, prepare, opened₂⟩ := prepareSegment_spec opened enough header i
      rw [planStep] at first
      cases planned : planHeader img header k.paging i with
      | mk action p =>
      rw [planned] at first prepare
      cases action with
      | failed => cases first
      | skipped => cases first
      | segment ph base =>
        cases List.mem_singleton.mp first
        exact ⟨file₂, _, ⟨header, k, file, i, at_, prepare⟩, opened₂⟩
    rw [planLoop] at member
    cases stepped : planStep img ctx header k.paging i with
    | mk going tail =>
    rw [stepped] at member run opened₁ here
    cases going with
    | false => exact here member
    | true =>
      cases List.mem_append.mp member with
      | inl first => exact here first
      | inr later =>
        by_cases more : i + 1 < header.phnum
        · exact ih (at_.next run more) (opened₁ rfl) more (by omega) later
        · rw [UInt16.lt_iff_toNat_lt, next] at more
          have none : remaining = 0 := by omega
          subst none
          cases later

/-- Every block of the plan is filled in. -/
theorem block_filled (content : Content g cwd v path (some img)) (stores : Stores g cwd v k.fs)
    (enough : 4294967296 ≤ fuel) {block : Block}
    (member : block ∈ (loadPlan ctx (some img) k.paging).blocks) :
    ∃ file' k', Fills fuel ctx path k block.ph block.base file' k' ∧ Opened g cwd v img k'.fs file' := by
  obtain ⟨file, s₁, run, opened⟩ := openElf_spec content stores enough
  cases accepted : imageHeader img with
  | none =>
    rw [loadPlan, accepted] at member
    cases member
  | some header =>
    rw [accepted] at run opened
    rw [loadPlan, accepted] at member
    replace member : block ∈ (planLoop img ctx header header.phnum.toNat k.paging 0).2.1 := member
    by_cases positive : 0 < header.phnum
    · exact fills_of_planned enough header.phnum.toNat (.first run positive) (opened (by simp)) positive
        (Nat.sub_zero _).symm member
    · have empty : header.phnum.toNat = 0 := by
        rw [UInt16.lt_iff_toNat_lt] at positive
        exact Nat.eq_zero_of_not_pos positive
      rw [empty] at member
      cases member

/-- **The loader writes inside its blocks, and its blocks are large enough, exactly if**
every segment that gets a block ends, with the bytes read for it, before its `memsz`
rounded up to pages. -/
theorem segments_safe_iff (content : Content g cwd v path (some img)) (stores : Stores g cwd v k.fs)
    (enough : 4294967296 ≤ fuel) (ctx : UInt32) :
    (∀ ph base file k', Fills fuel ctx path k ph base file k' →
        WritesInside fuel ph base file k' ∧ LargeEnough ph) ↔
      ∀ block ∈ (loadPlan ctx (some img) k.paging).blocks, Fits img block.ph := by
  constructor
  · intro safe block member
    obtain ⟨file', k', fills, opened'⟩ := block_filled content stores enough member
    exact (segment_safe_iff opened' enough block.ph block.base).mp (safe _ _ _ _ fills)
  · intro fit ph base file k' fills
    obtain ⟨opened, block, member, rfl⟩ := fills.planned content stores enough
    exact (segment_safe_iff opened enough block.ph base).mpr (fit block member)

theorem segments_safe_iff_linked :
    (∀ ph base file k', Fills 4294967296 0x01000000 programPath (bootKernel linkedProgram) ph base file k' →
        WritesInside 4294967296 ph base file k' ∧ LargeEnough ph) ↔
      ∀ block ∈ (loadPlan 0x01000000 (some (programImage linkedProgram (by decide)))
        (bootKernel linkedProgram).paging).blocks, Fits (programImage linkedProgram (by decide)) block.ph :=
  segments_safe_iff linkedProgram_content (bootKernel_stores linkedProgram) (by decide) 0x01000000

/-- Two bytes on both sides of the end of a page. -/
def straddlingProgram : List UInt32 :=
  programWords 0x80000FFF 1 [⟨ptLoad, 84, 0x80000FFF, 2, 2⟩] [0xF4F4]

theorem straddlingProgram_content : Content smallFs 2 (bootKernel straddlingProgram).fs.volume programPath
    (some (programImage straddlingProgram (by decide))) :=
  bootKernel_content (by decide) (by decide +kernel) (by decide +kernel) (by decide +kernel)

/-- The block of one page is too small for the second byte, which is read behind it. -/
theorem segment_leaves_block :
    ∃ ph base file k', Fills 4294967296 0x01000000 programPath (bootKernel straddlingProgram) ph base file k' ∧
      ¬ WritesInside 4294967296 ph base file k' ∧ ¬ LargeEnough ph := by
  have blocks : (loadPlan 0x01000000 (some (programImage straddlingProgram (by decide)))
      (bootKernel straddlingProgram).paging).blocks =
        [⟨⟨ptLoad, 84, 0x80000FFF, 2, 2⟩, 0x01002000, [(0x80000000, 0x01002000)]⟩] := by
    decide +kernel
  have member := blocks ▸ List.mem_singleton_self _
  obtain ⟨file', k', fills, opened⟩ := block_filled straddlingProgram_content
    (bootKernel_stores straddlingProgram) (Nat.le_refl 4294967296) member
  refine ⟨_, _, file', k', fills, fun inside => ?_, by decide⟩
  have delivered : (programImage straddlingProgram (by decide)).delivered 84 2 = 2 := by decide +kernel
  have bound := (writesInside_iff opened (Nat.le_refl _) _ _).mp inside
  rw [delivered] at bound
  exact absurd bound (by decide)

end QuantumKernel.Exec
