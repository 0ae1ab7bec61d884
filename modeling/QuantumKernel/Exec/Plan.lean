import QuantumKernel.Exec.Mappings
import QuantumKernel.Fat32.Image

/-! # The plan of a load

What a program load does is decided by the bytes of the file, the heap pointer and the
page tables: which segments get a block, and which pages are mapped to which frames.
`loadPlan` and `execPlan` say it over the image of the file, and `load_elf` and `exec`
follow them (`loadElf_spec`, `exec_spec`).
-/

namespace QuantumKernel.Exec

open ByteStore Memory32 Fat32 Pages QuantumKernel.Task

/-- A segment with the block that was allocated for it, and the calls that map its pages. -/
structure Block where
  ph : ElfProgramHeader
  base : UInt32
  pages : List (UInt32 × UInt32)
  deriving DecidableEq

/-- The header of the file, if `load_elf` accepts it. -/
def imageHeader (img : FileImage) : Option ElfHeader :=
  if img.delivered 0 sizeofElfHeader ≠ sizeofElfHeader.toNat then none
  else
    let header := elfHeaderAt img.bytes
    if header.magic ≠ elfMagic ∨ header.elfClass ≠ 1 ∨ header.machine ≠ 3 then none else some header

/-- Where program header `i` is looked for. -/
def ElfHeader.position (header : ElfHeader) (i : UInt16) : UInt32 :=
  header.phoff + i.toUInt32 * header.phentsize.toUInt32

/-- Program header `i`, if the file has all of it. -/
def imageProgramHeader (img : FileImage) (header : ElfHeader) (i : UInt16) : Option ElfProgramHeader :=
  if img.delivered (header.position i) sizeofProgramHeader ≠ sizeofProgramHeader.toNat then none
  else some (programHeaderAt fun k => img.bytes ((header.position i).toNat + k))

/-- What becomes of program header `i`. -/
def planHeader (img : FileImage) (header : ElfHeader) (p : Paging) (i : UInt16) : HeaderAction × Paging :=
  match imageProgramHeader img header i with
  | none => (.failed, p)
  | some ph =>
    if ph.type ≠ ptLoad then (.skipped, p)
    else
      match kmallocAligned p.heapPtr (ph.pageCount * 0x1000) 0x1000 with
      | (base, heapPtr) =>
        (if base = 0 then .failed else .segment ph base, { p with heapPtr := heapPtr })

/-- The calls that map the pages of a segment. -/
def ElfProgramHeader.calls (ph : ElfProgramHeader) (base : UInt32) : List (UInt32 × UInt32) :=
  pagesFrom (ph.vaddr &&& 0xFFFFF000) base ph.pageCount.toNat

/-- One round of the loop: whether it goes on, the segment that it loads, and the page
tables. -/
def planStep (img : FileImage) (ctx : UInt32) (header : ElfHeader) (p : Paging) (i : UInt16) :
    Bool × List Block × Paging :=
  match planHeader img header p i with
  | (.failed, p) => (false, [], p)
  | (.skipped, p) => (true, [], p)
  | (.segment ph base, p) =>
    (true, [⟨ph, base, mapped ctx p (ph.calls base)⟩], mapAll p ctx (ph.calls base))

/-- The loop from program header `i` on. -/
def planLoop (img : FileImage) (ctx : UInt32) (header : ElfHeader) :
    (remaining : Nat) → Paging → UInt16 → Bool × List Block × Paging
  | 0, p, _ => (true, [], p)
  | remaining + 1, p, i =>
    match planStep img ctx header p i with
    | (false, blocks, p) => (false, blocks, p)
    | (true, blocks, p) =>
      match planLoop img ctx header remaining p (i + 1) with
      | (done, rest, p) => (done, blocks ++ rest, p)

structure LoadPlan where
  /-- The entry point, unless the load fails. -/
  entry : Option UInt32
  blocks : List Block
  paging : Paging

/-- `load_elf` for a path under which there is this file, or none. -/
def loadPlan (ctx : UInt32) (content : Option FileImage) (p : Paging) : LoadPlan :=
  match content with
  | none => ⟨none, [], p⟩
  | some img =>
    match imageHeader img with
    | none => ⟨none, [], p⟩
    | some header =>
      match planLoop img ctx header header.phnum.toNat p 0 with
      | (done, blocks, p) => ⟨if done then some header.entry else none, blocks, p⟩

/-- The memory after a segment is loaded into its block. -/
def fill (img : FileImage) (mem : Memory) (ph : ElfProgramHeader) (base : UInt32) : Memory :=
  put (put mem base (fun _ => 0) (ph.pageCount * 0x1000).toNat) (base + offsetOf ph.vaddr)
    (fun k => img.bytes (ph.offset.toNat + k)) (img.delivered ph.offset ph.filesz)

def fillAll (img : FileImage) (mem : Memory) (blocks : List Block) : Memory :=
  blocks.foldl (fun mem block => fill img mem block.ph block.base) mem

structure ExecPlan where
  entry : Option UInt32
  blocks : List Block
  /-- The calls that map the pages of the stack. -/
  stack : List (UInt32 × UInt32)
  paging : Paging

/-- `exec`, into the context `ctx`. -/
def execPlan (ctx : UInt32) (content : Option FileImage) (p : Paging) : ExecPlan :=
  if ctx = 0 then ⟨none, [], [], p⟩
  else
    match loadPlan ctx content p with
    | ⟨none, blocks, p⟩ => ⟨none, blocks, [], p⟩
    | ⟨some entry, blocks, p⟩ =>
      match kmallocAligned p.heapPtr userStackSize 0x1000 with
      | (stackPhys, heapPtr) =>
        let p := { p with heapPtr := heapPtr }
        let calls := pagesFrom (userStackTop - userStackSize) stackPhys 4
        if stackPhys = 0 then ⟨none, blocks, [], p⟩
        else ⟨some entry, blocks, mapped ctx p calls, mapAll p ctx calls⟩

/-- All mappings of the plan, in their order. -/
def ExecPlan.mappings (plan : ExecPlan) : List (UInt32 × UInt32) :=
  plan.blocks.flatMap Block.pages ++ plan.stack

variable {g : Fat32Fs} {cwd : UInt32} {v : Volume} {img : FileImage} {file : Fat32File} {k : Kernel}
  {path : CString} {fuel : Nat} {ctx base : UInt32} {header : ElfHeader} {ph : ElfProgramHeader}
  {content : Option FileImage} {p : Paging}

/-! ## The two structures -/

theorem elfHeaderAt_congr {bytes bytes' : Bytes} (agree : ∀ k < 52, bytes k = bytes' k) :
    elfHeaderAt bytes = elfHeaderAt bytes' := by
  have half (k : Nat) (bound : k + 1 < 52) : load16 bytes k = load16 bytes' k :=
    load16_congr fun j small => agree (k + j) (by omega)
  have word (k : Nat) (bound : k + 3 < 52) : load32 bytes k = load32 bytes' k :=
    load32_congr fun j small => agree (k + j) (by omega)
  simp only [elfHeaderAt, half 18 (by omega), half 42 (by omega), half 44 (by omega), word 0 (by omega),
    word 24 (by omega), word 28 (by omega), agree 4 (by omega)]

theorem programHeaderAt_congr {bytes bytes' : Bytes} (agree : ∀ k < 32, bytes k = bytes' k) :
    programHeaderAt bytes = programHeaderAt bytes' := by
  have word (k : Nat) (bound : k + 3 < 32) : load32 bytes k = load32 bytes' k :=
    load32_congr fun j small => agree (k + j) (by omega)
  simp only [programHeaderAt, word 0 (by omega), word 4 (by omega), word 8 (by omega),
    word 16 (by omega), word 20 (by omega)]

/-- `fat32_read` into a structure. -/
theorem readStruct_spec (opened : Opened g cwd v img k.fs file) (enough : 4294967296 ≤ fuel) (size : UInt32) :
    ∃ bytes file' s', readStruct fuel k.fs file size =
        some ((UInt32.ofNat (img.delivered file.position size)).toInt32, bytes, file', s') ∧
      Opened g cwd v img s' file' ∧
      ∀ j < img.delivered file.position size, bytes j = img.bytes (file.position.toNat + j) := by
  obtain ⟨buffer, file', s', run, opened', bytes⟩ := opened.read enough (fun _ => 0) size
  refine ⟨buffer, file', s', ?_, opened', fun j bound => ?_⟩
  · simp only [readStruct, run, Option.bind_eq_bind, Option.bind_some, Option.getD_some]
  · rw [bytes j, if_pos bound]

/-- The result of a read is compared with the size asked for. -/
theorem readCount_ne_iff (img : FileImage) (position size : UInt32) :
    (UInt32.ofNat (img.delivered position size)).toInt32.toUInt32 ≠ size ↔
      img.delivered position size ≠ size.toNat := by
  have back : (UInt32.ofNat (img.delivered position size)).toInt32.toUInt32 =
      UInt32.ofNat (img.delivered position size) := rfl
  rw [back, not_iff_not, ← UInt32.toNat_inj, UInt32.toNat_ofNat',
    Nat.mod_eq_of_lt (img.delivered_lt position size)]

/-! ## One segment -/

theorem prepareSegment_spec (opened : Opened g cwd v img k.fs file) (enough : 4294967296 ≤ fuel)
    (header : ElfHeader) (i : UInt16) :
    ∃ file' s', prepareSegment fuel header k file i = some ((planHeader img header k.paging i).1, file',
        { k with fs := s', paging := (planHeader img header k.paging i).2 }) ∧
      Opened g cwd v img s' file' := by
  obtain ⟨seek, opened₁⟩ := opened.seek (header.position i)
  obtain ⟨bytes, file', s', run, opened', agree⟩ := readStruct_spec opened₁ enough sizeofProgramHeader
  refine ⟨file', s', ?_, opened'⟩
  rw [prepareSegment, ← ElfHeader.position, seek]
  simp only [run, Option.bind_eq_bind, Option.bind_some, readCount_ne_iff, planHeader, imageProgramHeader]
  by_cases short : img.delivered (header.position i) sizeofProgramHeader ≠ sizeofProgramHeader.toNat
  · rw [if_pos short, if_pos short]
  · have whole := not_not.mp short
    have same : programHeaderAt bytes = programHeaderAt fun j => img.bytes ((header.position i).toNat + j) :=
      programHeaderAt_congr fun j bound => agree j (by rw [whole]; exact bound)
    rw [if_neg short, if_neg short, same]
    generalize (programHeaderAt fun j => img.bytes ((header.position i).toNat + j)) = ph
    by_cases other : ph.type ≠ ptLoad
    · simp only [if_pos other]
    · by_cases noMemory : (kmallocAligned k.paging.heapPtr (ph.pageCount * 0x1000) 0x1000).1 = 0
      · simp only [if_neg other, if_pos noMemory]
      · simp only [if_neg other, if_neg noMemory]

/-- `fat32_read` to memory stores what it delivers, and nothing else. -/
theorem readMemory_spec (opened : Opened g cwd v img k.fs file) (enough : 4294967296 ≤ fuel)
    (address size : UInt32) :
    ∃ file' s', readMemory fuel k file address size = some (file', { k with
        fs := s'
        mem := put k.mem address (fun j => img.bytes (file.position.toNat + j))
          (img.delivered file.position size) }) ∧
      Opened g cwd v img s' file' := by
  obtain ⟨buffer, file', s', run, opened', bytes⟩ := opened.read enough (view k.mem address) size
  refine ⟨file', s', ?_, opened'⟩
  have stored : (fun x => buffer (x - address).toNat) = put k.mem address
      (fun j => img.bytes (file.position.toNat + j)) (img.delivered file.position size) := by
    funext x
    rw [bytes, put]
    split
    · rfl
    · rw [view, UInt32.ofNat_toNat, UInt32.add_comm, UInt32.sub_add_cancel]
  simp only [readMemory, run, Option.bind_eq_bind, Option.bind_some, Option.getD_some, stored]

theorem fillSegment_spec (opened : Opened g cwd v img k.fs file) (enough : 4294967296 ≤ fuel)
    (ph : ElfProgramHeader) (base : UInt32) :
    ∃ file' s', fillSegment fuel k file ph base =
        some (file', { k with fs := s', mem := fill img k.mem ph base }) ∧ Opened g cwd v img s' file' := by
  rw [fillSegment]
  split
  · obtain ⟨seek, opened₁⟩ := opened.seek ph.offset
    obtain ⟨file', s', run, opened'⟩ := readMemory_spec
      (k := { k with mem := put k.mem base (fun _ => 0) (ph.pageCount * 0x1000).toNat }) opened₁ enough
      (base + (ph.vaddr &&& 0xFFF)) ph.filesz
    refine ⟨file', s', ?_, opened'⟩
    rw [seek]
    exact run
  · rename_i empty
    have none : img.delivered ph.offset ph.filesz = 0 := by
      have bound := img.delivered_le ph.offset ph.filesz
      rw [UInt32.lt_iff_toNat_lt, UInt32.toNat_zero] at empty
      omega
    have nothing : fill img k.mem ph base = put k.mem base (fun _ => 0) (ph.pageCount * 0x1000).toNat := by
      rw [fill, none]
      funext x
      exact put_outside (Nat.zero_le _)
    refine ⟨file, k.fs, ?_, opened⟩
    rw [nothing]

/-! ## The loop -/

theorem loadHeader_spec (opened : Opened g cwd v img k.fs file) (enough : 4294967296 ≤ fuel) (ctx : UInt32)
    (header : ElfHeader) (i : UInt16) :
    ∃ file' s', loadHeader fuel ctx header k file i =
        some ((planStep img ctx header k.paging i).1, file', { k with
          fs := s'
          mem := fillAll img k.mem (planStep img ctx header k.paging i).2.1
          paging := (planStep img ctx header k.paging i).2.2 }) ∧
      ((planStep img ctx header k.paging i).1 = true → Opened g cwd v img s' file') := by
  obtain ⟨file₁, s₁, prepare, opened₁⟩ := prepareSegment_spec opened enough header i
  rw [loadHeader, prepare, planStep]
  cases planned : planHeader img header k.paging i with
  | mk action p =>
  cases action with
  | failed =>
    cases close : fat32Close s₁ file₁ with
    | mk status rest =>
    refine ⟨rest.1, rest.2, ?_, Bool.noConfusion⟩
    simp only [Option.bind_eq_bind, Option.bind_some, closeFailed, close]
    rfl
  | skipped => exact ⟨file₁, s₁, rfl, fun _ => opened₁⟩
  | segment ph base =>
    obtain ⟨file', s', filled, opened'⟩ := fillSegment_spec
      (k := { k with fs := s₁, paging := p }) opened₁ enough ph base
    refine ⟨file', s', ?_, fun _ => opened'⟩
    simp only [Option.bind_eq_bind, Option.bind_some, filled, mapPages_eq]
    rfl

theorem fillAll_append (img : FileImage) (mem : Memory) (blocks rest : List Block) :
    fillAll img mem (blocks ++ rest) = fillAll img (fillAll img mem blocks) rest := List.foldl_append

theorem loadLoop_spec (enough : 4294967296 ≤ fuel) (remaining : Nat) (k : Kernel) (file : Fat32File) (i : UInt16)
    (opened : Opened g cwd v img k.fs file) :
    ∃ file' s', loadLoop fuel ctx header remaining k file i =
      some ((planLoop img ctx header remaining k.paging i).1, file', { k with
        fs := s'
        mem := fillAll img k.mem (planLoop img ctx header remaining k.paging i).2.1
        paging := (planLoop img ctx header remaining k.paging i).2.2 }) := by
  induction remaining generalizing k file i with
  | zero => exact ⟨file, k.fs, rfl⟩
  | succ remaining ih =>
    obtain ⟨file₁, s₁, step, opened₁⟩ := loadHeader_spec opened enough ctx header i
    rw [loadLoop, step, planLoop]
    cases planned : planStep img ctx header k.paging i with
    | mk going rest =>
    rw [planned] at opened₁
    cases going with
    | false => exact ⟨file₁, s₁, rfl⟩
    | true =>
      obtain ⟨file', s', run⟩ := ih { k with fs := s₁, mem := fillAll img k.mem rest.1, paging := rest.2 }
        file₁ (i + 1) (opened₁ rfl)
      refine ⟨file', s', ?_⟩
      simp only [Option.bind_eq_bind, Option.bind_some, if_true, fillAll_append]
      exact run

/-! ## `load_elf` and `exec` -/

theorem openElf_spec (content : Content g cwd v path (some img)) (stores : Stores g cwd v k.fs)
    (enough : 4294967296 ≤ fuel) :
    ∃ file s', openElf fuel k path =
        some ((imageHeader img).map fun header => (header, file), { k with fs := s' }) ∧
      (imageHeader img ≠ none → Opened g cwd v img s' file) := by
  obtain ⟨file₁, s₁, run₁, start, opened₁⟩ := content.opened enough Fat32File.zero stores
  obtain ⟨bytes, file₂, s₂, run₂, opened₂, agree⟩ := readStruct_spec (k := { k with fs := s₁ }) opened₁ enough
    sizeofElfHeader
  rw [start] at run₂ agree
  cases close : fat32Close s₂ file₂ with
  | mk status rest =>
  simp only [openElf, run₁, Option.bind_eq_bind, Option.bind_some, ne_eq, not_true_eq_false, if_false, run₂,
    imageHeader]
  by_cases short : img.delivered 0 sizeofElfHeader ≠ sizeofElfHeader.toNat
  · have count := (readCount_ne_iff img 0 sizeofElfHeader).mpr short
    refine ⟨file₂, rest.2, ?_, by simp [short]⟩
    rw [if_pos count, if_pos short, closeFailed, close]
    rfl
  · have count := (not_congr (readCount_ne_iff img 0 sizeofElfHeader)).mpr short
    have same : elfHeaderAt bytes = elfHeaderAt img.bytes :=
      elfHeaderAt_congr fun j bound => by
        rw [agree j (by rw [not_not.mp short]; exact bound), UInt32.toNat_zero, Nat.zero_add]
    rw [if_neg count, if_neg short, same]
    split
    · refine ⟨file₂, rest.2, ?_, by simp⟩
      rw [closeFailed, close]
      rfl
    · exact ⟨file₂, s₂, rfl, fun _ => opened₂⟩

theorem loadElf_spec (content : Content g cwd v path (some img)) (stores : Stores g cwd v k.fs)
    (enough : 4294967296 ≤ fuel) (ctx : UInt32) :
    ∃ s', loadElf fuel k path ctx = some ((loadPlan ctx (some img) k.paging).entry, { k with
      fs := s'
      mem := fillAll img k.mem (loadPlan ctx (some img) k.paging).blocks
      paging := (loadPlan ctx (some img) k.paging).paging }) := by
  obtain ⟨file, s₁, run₁, opened⟩ := openElf_spec content stores enough
  rw [loadElf, run₁, loadPlan]
  cases accepted : imageHeader img with
  | none => exact ⟨s₁, rfl⟩
  | some header =>
    rw [accepted] at opened
    have loop := fun opened => @loadLoop_spec g cwd v img fuel ctx header enough header.phnum.toNat
      { k with fs := s₁ } file 0 opened
    obtain ⟨file', s₂, run₂⟩ := loop (opened (by simp))
    cases outcome : planLoop img ctx header header.phnum.toNat k.paging 0 with
    | mk done rest =>
    simp only [outcome] at run₂
    simp only [Option.map_some, Option.bind_eq_bind, Option.bind_some, run₂, outcome]
    cases done with
    | false => exact ⟨s₂, rfl⟩
    | true =>
      cases fat32Close s₂ file' with
      | mk status rest => exact ⟨rest.2, rfl⟩

theorem loadElf_missing (content : Content g cwd v path none) (stores : Stores g cwd v k.fs)
    (enough : 4294967296 ≤ fuel) (ctx : UInt32) :
    ∃ s', loadElf fuel k path ctx = some (none, { k with fs := s' }) := by
  obtain ⟨s', run⟩ := content.missing enough Fat32File.zero stores
  refine ⟨s', ?_⟩
  simp [loadElf, openElf, run]

/-- The tasks after a successful `exec`: the caller has the context. -/
def enterContext (tasks : Tasks) (ctx : UInt32) : Tasks :=
  { tasks.modify tasks.current fun task => { task with pageCtx := ctx } with currentContext := ctx }

/-- What `exec` does to the kernel, up to the file system and the memory. -/
structure Executed (k : Kernel) (plan : ExecPlan) (k' : Kernel) : Prop where
  paging : k'.paging = plan.paging
  tasks : k'.tasks = if plan.entry = none then k.tasks else enterContext k.tasks k.tasks.kernelPageContext

/-- **`exec` follows its plan**, in the kernel's page context. -/
theorem exec_spec (content' : Content g cwd v path content) (stores : Stores g cwd v k.fs)
    (enough : 4294967296 ≤ fuel) :
    ∃ k', exec fuel k path = some ((execPlan k.tasks.kernelPageContext content k.paging).entry, k') ∧
      Executed k (execPlan k.tasks.kernelPageContext content k.paging) k' := by
  have loaded : ∃ s' mem, loadElf fuel k path k.tasks.kernelPageContext =
      some ((loadPlan k.tasks.kernelPageContext content k.paging).entry, { k with
        fs := s'
        mem := mem
        paging := (loadPlan k.tasks.kernelPageContext content k.paging).paging }) := by
    cases content with
    | none =>
      obtain ⟨s', run⟩ := loadElf_missing content' stores enough k.tasks.kernelPageContext
      exact ⟨s', k.mem, run⟩
    | some img =>
      obtain ⟨s', run⟩ := loadElf_spec content' stores enough k.tasks.kernelPageContext
      exact ⟨s', _, run⟩
  obtain ⟨s', mem, run⟩ := loaded
  rw [exec, pagingCreateContext, execPlan]
  by_cases null : k.tasks.kernelPageContext = 0
  · rw [if_pos null, if_pos null]
    exact ⟨k, rfl, rfl, rfl⟩
  · simp only [if_neg null, run, Option.bind_eq_bind, Option.bind_some]
    cases plan : loadPlan k.tasks.kernelPageContext content k.paging with
    | mk entry blocks p =>
    cases entry with
    | none => exact ⟨_, rfl, rfl, rfl⟩
    | some entry =>
      simp only
      split
      · exact ⟨_, rfl, rfl, rfl⟩
      · exact ⟨_, rfl, mapPages_eq _ _ _ _ _, rfl⟩

end QuantumKernel.Exec
