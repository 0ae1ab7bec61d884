import QuantumKernel.Exec.Plan
import QuantumKernel.Fat32.Sessions
import QuantumKernel.Task.TaskList

/-! # Translations after a load

A load maps pages in place, in the page context that all tasks have.  After it, an address
is translated by the last mapping of its page, or as before.
-/

namespace QuantumKernel.Exec

open Pages Fat32 Memory32 ByteStore QuantumKernel.Task

variable {g : Fat32Fs} {cwd : UInt32} {v : Volume} {img : FileImage} {k k' : Kernel} {path : CString}
  {fuel : Nat} {ctx other a frame imageEnd : UInt32} {header : ElfHeader} {content : Option FileImage}
  {p : Paging}

/-! ## What the plan leaves in the page tables -/

theorem planHeader_context (img : FileImage) (header : ElfHeader) (p : Paging) (i : UInt16) :
    (planHeader img header p i).2.context = p.context := by
  rw [planHeader]
  split
  · rfl
  · split
    · rfl
    · rfl

/-- The page tables after the loop. -/
structure Tabulated (p : Paging) (ctx : UInt32) (calls : List (UInt32 × UInt32)) (p' : Paging) : Prop where
  entry : ∀ a, (p'.context ctx).entry a = entryAfter calls ((p.context ctx).entry a) a
  directory : DirectoryOk (p.context ctx) → DirectoryOk (p'.context ctx)
  other : ∀ other, other ≠ ctx → p'.context other = p.context other

theorem Tabulated.refl (p : Paging) (ctx : UInt32) : Tabulated p ctx [] p :=
  ⟨fun _ => rfl, id, fun _ _ => rfl⟩

/-- The heap pointer has no part in it. -/
theorem Tabulated.heap {p p' q : Paging} {calls : List (UInt32 × UInt32)} (tabulated : Tabulated p ctx calls p')
    (same : q.context = p.context) : Tabulated q ctx calls p' := by
  obtain ⟨entry, directory, other⟩ := tabulated
  exact ⟨by rwa [same], by rwa [same], by rwa [same]⟩

theorem Tabulated.trans {p p' p'' : Paging} {calls calls' : List (UInt32 × UInt32)}
    (first : Tabulated p ctx calls p') (second : Tabulated p' ctx calls' p'') :
    Tabulated p ctx (calls ++ calls') p'' where
  entry := fun a => by rw [second.entry, first.entry, entryAfter_append]
  directory := fun ok => second.directory (first.directory ok)
  other := fun other ne => (second.other other ne).trans (first.other other ne)

theorem mapAll_tabulated (p : Paging) (ctx : UInt32) (calls : List (UInt32 × UInt32)) :
    Tabulated p ctx (mapped ctx p calls) (mapAll p ctx calls) :=
  ⟨mapAll_entry calls p ctx, mapAll_directoryOk calls, fun _ ne => mapAll_other ne calls p⟩

theorem planStep_tabulated (img : FileImage) (ctx : UInt32) (header : ElfHeader) (p : Paging) (i : UInt16) :
    Tabulated p ctx ((planStep img ctx header p i).2.1.flatMap Block.pages) (planStep img ctx header p i).2.2 := by
  have same := planHeader_context img header p i
  rw [planStep]
  cases planned : planHeader img header p i with
  | mk action p₁ =>
  rw [planned] at same
  cases action with
  | failed => exact (Tabulated.refl p₁ ctx).heap same.symm
  | skipped => exact (Tabulated.refl p₁ ctx).heap same.symm
  | segment ph base =>
    rw [List.flatMap_singleton]
    exact (mapAll_tabulated p₁ ctx (ph.calls base)).heap same.symm

theorem planLoop_tabulated (remaining : Nat) (p : Paging) (i : UInt16) :
    Tabulated p ctx ((planLoop img ctx header remaining p i).2.1.flatMap Block.pages)
      (planLoop img ctx header remaining p i).2.2 := by
  induction remaining generalizing p i with
  | zero => exact .refl p ctx
  | succ remaining ih =>
    have first := planStep_tabulated img ctx header p i
    rw [planLoop]
    cases planned : planStep img ctx header p i with
    | mk going rest =>
    rw [planned] at first
    cases going with
    | false => exact first
    | true =>
      simp only [List.flatMap_append]
      exact first.trans (ih rest.2 (i + 1))

theorem loadPlan_tabulated (ctx : UInt32) (content : Option FileImage) (p : Paging) :
    Tabulated p ctx ((loadPlan ctx content p).blocks.flatMap Block.pages) (loadPlan ctx content p).paging := by
  cases content with
  | none => exact .refl p ctx
  | some img =>
    rw [loadPlan]
    split
    · exact .refl p ctx
    · exact planLoop_tabulated _ p 0

theorem execPlan_tabulated (ctx : UInt32) (content : Option FileImage) (p : Paging) :
    Tabulated p ctx (execPlan ctx content p).mappings (execPlan ctx content p).paging := by
  have loaded := loadPlan_tabulated ctx content p
  rw [execPlan]
  split
  · exact .refl p ctx
  · cases plan : loadPlan ctx content p with
    | mk entry blocks p₁ =>
    rw [plan] at loaded
    cases entry with
    | none =>
      rw [ExecPlan.mappings, List.append_nil]
      exact loaded
    | some entry =>
      simp only
      split
      · rw [ExecPlan.mappings, List.append_nil]
        exact ⟨loaded.entry, loaded.directory, loaded.other⟩
      · refine loaded.trans ((mapAll_tabulated _ ctx _).heap ?_)
        rfl

/-- The translation after mappings. -/
theorem Tabulated.physical {p' : Paging} {calls : List (UInt32 × UInt32)} (tabulated : Tabulated p ctx calls p')
    (a : UInt32) : pagingGetPhysical p' ctx a =
      match frameOf calls a with
      | some frame => baseOf frame ||| offsetOf a
      | none => pagingGetPhysical p ctx a := by
  rw [pagingGetPhysical_eq, tabulated.entry, entryAfter]
  cases frameOf calls a with
  | some frame => exact physicalOf_frame frame a
  | none => exact (pagingGetPhysical_eq p ctx a).symm

theorem Tabulated.physical_other {p' : Paging} {calls : List (UInt32 × UInt32)}
    (tabulated : Tabulated p ctx calls p') (ne : other ≠ ctx) (a : UInt32) :
    pagingGetPhysical p' other a = pagingGetPhysical p other a := by
  rw [pagingGetPhysical_eq, pagingGetPhysical_eq, tabulated.other other ne]

/-! ## A kernel with a program on its drive -/

/-- The words of a program header. -/
def ElfProgramHeader.toWords (ph : ElfProgramHeader) : List UInt32 :=
  [ph.type, ph.offset, ph.vaddr, ph.vaddr, ph.filesz, ph.memsz, 7, 0x1000]

/-- The words of a program file. -/
def programWords (entry : UInt32) (phnum : UInt16) (segments : List ElfProgramHeader) (data : List UInt32) :
    List UInt32 :=
  [elfMagic, 1, 0, 0, 0x00030002, 1, entry, 52, 0, 0, 0x00200034, phnum.toUInt32, 0] ++
    segments.flatMap ElfProgramHeader.toWords ++ data

/-- A drive with the layout of `smallFs` that holds one file, in one cluster. -/
def programDrive (size : UInt32) (bytes : Bytes) : Nat → Bytes :=
  smallDrive (fun c => if c = 2 ∨ c = 3 then fat32EocMax else fat32FreeCluster) fun c k =>
    if c = 2 then if k < 28 then letterEntry 0x41 3 k else if k < 32 then bytes32 size (k - 28) else 0
    else if c = 3 then bytes k else 0

/-- The kernel after `paging_init` and `task_init`, with a program on its drive. -/
def bootKernel (program : List UInt32) : Kernel where
  fs := mountedOn smallFs (programDrive (UInt32.ofNat (4 * program.length)) (words program))
  mem := fun _ => 0
  paging := (pagingInit ⟨fun _ => ⟨fun _ => 0, fun _ => none, 0⟩, 0x01000000⟩ 0x226000 0x227000).2
  tasks := taskInit (Tasks.boot (fun _ => TaskT.zero) 0 0x01000000) 0x200000

/-- The name of the program. -/
def programPath : CString := letterPath 0x41 (by decide)

/-- The file that holds a program of at most 512 bytes. -/
def programImage (program : List UInt32) (small : program.length ≤ 128) : FileImage where
  size := UInt32.ofNat (4 * program.length)
  bytes := (bootKernel program).fs.volume.byteAt smallFs [3]
  room := 512
  size_le := by
    rw [UInt32.toNat_ofNat']
    omega

theorem bootKernel_stores (program : List UInt32) :
    Stores smallFs 2 (bootKernel program).fs.volume (bootKernel program).fs :=
  Stores.of_geometry (s := (bootKernel program).fs) smallFs_geometry fun _ => rfl

theorem bootKernel_content {program : List UInt32} (small : program.length ≤ 128)
    (fat : (bootKernel program).fs.volume.fat 2 = fat32EocMax ∧ (bootKernel program).fs.volume.fat 3 = fat32EocMax)
    (found : (bootKernel program).fs.volume.lookup (smallFs.dirSlots [2]) (fat32ToShortName programPath) = some (2, 0))
    (entry : ((bootKernel program).fs.volume.dirent (2, 0)).fileSize = UInt32.ofNat (4 * program.length) ∧
      ((bootKernel program).fs.volume.dirent (2, 0)).firstCluster = 3) :
    Content smallFs 2 (bootKernel program).fs.volume programPath (some (programImage program small)) := by
  have last {c : UInt32} (inRange : smallFs.InRange c) (stop : (bootKernel program).fs.volume.fat c = fat32EocMax) :
      FatChain smallFs (bootKernel program).fs.volume c [c] :=
    .last inRange (by rw [stop]; decide)
  refine ⟨[2], last (by decide) fat.1, (2, 0), found, entry.1, .inr ⟨[3], ?_, rfl, fun _ => rfl⟩⟩
  rw [entry.2]
  exact last (by decide) fat.2

/-- A program of one segment, at the address of `link.ld`. -/
def linkedProgram : List UInt32 := programWords 0x400000 1 [⟨ptLoad, 84, 0x400000, 0, 4096⟩] []

/-- The same segment, and a second program header that the file lacks. -/
def brokenProgram : List UInt32 := programWords 0x400000 2 [⟨ptLoad, 84, 0x400000, 0, 4096⟩] []

theorem linkedProgram_content : Content smallFs 2 (bootKernel linkedProgram).fs.volume programPath
    (some (programImage linkedProgram (by decide))) :=
  bootKernel_content (by decide) (by decide +kernel) (by decide +kernel) (by decide +kernel)

theorem brokenProgram_content : Content smallFs 2 (bootKernel brokenProgram).fs.volume programPath
    (some (programImage brokenProgram (by decide))) :=
  bootKernel_content (by decide) (by decide +kernel) (by decide +kernel) (by decide +kernel)

/-! ## The identity mapping of the kernel -/

/-- The heap pointer after each of the calls that map pages, which may each allocate a table. -/
def mapPointers (ctx : UInt32) : Paging → List (UInt32 × UInt32) → List UInt32
  | _, [] => []
  | p, call :: rest =>
    let p := pagingMapPage p ctx call.1 call.2 userFlags
    p.heapPtr :: mapPointers ctx p rest

/-- The heap pointers of one round: after its block, and after each page. -/
def stepPointers (img : FileImage) (ctx : UInt32) (header : ElfHeader) (p : Paging) (i : UInt16) : List UInt32 :=
  match planHeader img header p i with
  | (.failed, p) => [p.heapPtr]
  | (.skipped, p) => [p.heapPtr]
  | (.segment ph base, p) => p.heapPtr :: mapPointers ctx p (ph.calls base)

def loopPointers (img : FileImage) (ctx : UInt32) (header : ElfHeader) :
    (remaining : Nat) → Paging → UInt16 → List UInt32
  | 0, _, _ => []
  | remaining + 1, p, i =>
    stepPointers img ctx header p i ++
      match planStep img ctx header p i with
      | (false, _, _) => []
      | (true, _, p) => loopPointers img ctx header remaining p (i + 1)

def loadPointers (ctx : UInt32) (content : Option FileImage) (p : Paging) : List UInt32 :=
  match content with
  | none => []
  | some img =>
    match imageHeader img with
    | none => []
    | some header => loopPointers img ctx header header.phnum.toNat p 0

/-- What `heap_ptr` is at the start of `exec` and after each step of it; no step calls `kmalloc`
more than once. -/
def execPointers (ctx : UInt32) (content : Option FileImage) (p : Paging) : List UInt32 :=
  p.heapPtr ::
    if ctx = 0 then []
    else
      loadPointers ctx content p ++
        match loadPlan ctx content p with
        | ⟨none, _, _⟩ => []
        | ⟨some _, _, p⟩ =>
          match kmallocAligned p.heapPtr userStackSize 0x1000 with
          | (stackPhys, heapPtr) =>
            heapPtr :: if stackPhys = 0 then []
              else mapPointers ctx { p with heapPtr := heapPtr } (pagesFrom (userStackTop - userStackSize) stackPhys 4)

/-- The heap between two values of `heap_ptr` that follow one another, also when it wraps. -/
def HandedOut (pointers : List UInt32) (a : UInt32) : Prop :=
  ∃ block ∈ pointers.zip pointers.tail, a - block.1 < block.2 - block.1

/-- The addresses in which the kernel works: its image, from 1 MiB to `imageEnd`, and the heap that
was handed out before the load and during it. -/
def KernelMemory (imageEnd : UInt32) (before : UInt32 → Prop) (pointers : List UInt32) (a : UInt32) : Prop :=
  0x100000 ≤ a ∧ a < imageEnd ∨ before a ∨ HandedOut pointers a

/-- The kernel addresses that translate to themselves still do. -/
def IdentityKept (kernel : UInt32 → Prop) (p p' : Paging) (ctx : UInt32) : Prop :=
  ∀ a, kernel a → pagingGetPhysical p ctx a = a → pagingGetPhysical p' ctx a = a

/-! ### Without a wrap -/

theorem mapPointers_last (h : UInt32) (calls : List (UInt32 × UInt32)) (p : Paging) (start : p.heapPtr = h) :
    (h :: mapPointers ctx p calls).getLast (List.cons_ne_nil _ _) = (mapAll p ctx calls).heapPtr := by
  induction calls generalizing p h with
  | nil => exact start.symm
  | cons call rest ih =>
    rw [mapPointers, List.getLast_cons (List.cons_ne_nil _ _)]
    exact ih _ _ rfl

theorem stepPointers_last (h : UInt32) (img : FileImage) (ctx : UInt32) (header : ElfHeader) (p : Paging)
    (i : UInt16) : (h :: stepPointers img ctx header p i).getLast (List.cons_ne_nil _ _) =
      (planStep img ctx header p i).2.2.heapPtr := by
  rw [stepPointers, planStep]
  cases planHeader img header p i with
  | mk action p₁ =>
  cases action with
  | failed => rfl
  | skipped => rfl
  | segment ph base =>
    rw [List.getLast_cons (List.cons_ne_nil _ _)]
    exact mapPointers_last _ _ _ rfl

/-- Lists of heap pointers one after the other. -/
theorem getLast_pointers {h h' : UInt32} {first second : List UInt32}
    (last : (h :: first).getLast (List.cons_ne_nil _ _) = h') :
    (h :: (first ++ second)).getLast (List.cons_ne_nil _ _) =
      (h' :: second).getLast (List.cons_ne_nil _ _) := by
  cases second with
  | nil => simpa using last
  | cons x rest =>
    rw [List.getLast_cons (List.cons_ne_nil _ _)]
    show ((h :: first) ++ x :: rest).getLast _ = _
    exact List.getLast_append_of_ne_nil _ (List.cons_ne_nil x rest)

theorem loopPointers_last (remaining : Nat) (h : UInt32) (p : Paging) (i : UInt16) (start : p.heapPtr = h) :
    (h :: loopPointers img ctx header remaining p i).getLast (List.cons_ne_nil _ _) =
      (planLoop img ctx header remaining p i).2.2.heapPtr := by
  induction remaining generalizing h p i with
  | zero => exact start.symm
  | succ remaining ih =>
    have step := stepPointers_last h img ctx header p i
    rw [loopPointers, planLoop, getLast_pointers step]
    cases planStep img ctx header p i with
    | mk going rest =>
    cases going with
    | false => rfl
    | true => exact ih _ rest.2 (i + 1) rfl

theorem loadPointers_last (ctx : UInt32) (content : Option FileImage) (p : Paging) :
    (p.heapPtr :: loadPointers ctx content p).getLast (List.cons_ne_nil _ _) =
      (loadPlan ctx content p).paging.heapPtr := by
  cases content with
  | none => rfl
  | some img =>
    rw [loadPointers, loadPlan]
    cases imageHeader img with
    | none => rfl
    | some header => exact loopPointers_last _ _ p 0 rfl

/-- The last of the pointers is where the heap ends after `exec`. -/
theorem execPointers_last (ctx : UInt32) (content : Option FileImage) (p : Paging) :
    (execPointers ctx content p).getLast (List.cons_ne_nil _ _) = (execPlan ctx content p).paging.heapPtr := by
  have loaded := loadPointers_last ctx content p
  rw [execPlan]
  by_cases null : ctx = 0
  · simp only [execPointers, if_pos null]
    rfl
  · simp only [execPointers, if_neg null]
    rw [getLast_pointers loaded]
    cases loadPlan ctx content p with
    | mk entry blocks p₁ =>
    cases entry with
    | none => rfl
    | some entry =>
      simp only
      split
      · rfl
      · rw [List.getLast_cons (List.cons_ne_nil _ _)]
        exact mapPointers_last _ _ _ rfl

/-- As long as the heap pointer does not wrap, what is handed out lies between the first value and the
last. -/
theorem handedOut_iff {h : UInt32} {rest : List UInt32} (rises : (h :: rest).Pairwise (· ≤ ·)) (a : UInt32) :
    HandedOut (h :: rest) a ↔ h ≤ a ∧ a < (h :: rest).getLast (List.cons_ne_nil _ _) := by
  induction rest generalizing h with
  | nil =>
    simp only [HandedOut, List.tail_cons, List.zip_nil_right, List.not_mem_nil, false_and, exists_false,
      List.getLast_singleton, false_iff, not_and, UInt32.not_lt]
    exact id
  | cons h' rest ih =>
    obtain ⟨first, later⟩ := List.pairwise_cons.mp rises
    have up := first h' List.mem_cons_self
    have top : h' ≤ (h' :: rest).getLast (List.cons_ne_nil _ _) := by
      rcases List.mem_cons.mp (List.getLast_mem (List.cons_ne_nil h' rest)) with same | member
      · exact UInt32.le_of_eq same.symm
      · exact (List.pairwise_cons.mp later).1 _ member
    have split : HandedOut (h :: h' :: rest) a ↔ a - h < h' - h ∨ HandedOut (h' :: rest) a := by
      simp [HandedOut]
    have bounds := a.toNat_lt
    have bounds' := h'.toNat_lt
    rw [split, ih later, List.getLast_cons (List.cons_ne_nil _ _)]
    generalize (h' :: rest).getLast (List.cons_ne_nil _ _) = top' at top
    simp only [UInt32.lt_iff_toNat_lt, UInt32.le_iff_toNat_le, UInt32.toNat_sub] at up top ⊢
    omega

theorem frame_identity_iff : baseOf frame ||| offsetOf a = a ↔ baseOf frame = baseOf a := by
  have frames := frame.toNat_lt
  rw [← UInt32.toNat_inj, ← UInt32.toNat_inj, base_or_offset_toNat, baseOf_toNat, baseOf_toNat]
  omega

/-- **The kernel keeps its identity mapping exactly if** no page of the program or of its
stack is a page of the kernel, unless the page is mapped to itself in the end.  `before` is the heap
that was handed out before the load. -/
theorem exec_identity_kept_iff (content' : Content g cwd v path content) (stores : Stores g cwd v k.fs)
    (enough : 4294967296 ≤ fuel) (imageEnd : UInt32) (before : UInt32 → Prop) :
    ∃ r k', exec fuel k path = some (r, k') ∧
      (IdentityKept (KernelMemory imageEnd before (execPointers k.tasks.kernelPageContext content k.paging))
          k.paging k'.paging k.tasks.kernelPageContext ↔
        ∀ a, KernelMemory imageEnd before (execPointers k.tasks.kernelPageContext content k.paging) a →
          pagingGetPhysical k.paging k.tasks.kernelPageContext a = a →
          ∀ frame, frameOf (execPlan k.tasks.kernelPageContext content k.paging).mappings a = some frame →
            baseOf frame = baseOf a) := by
  obtain ⟨k', run, executed⟩ := exec_spec content' stores enough
  have tabulated := execPlan_tabulated k.tasks.kernelPageContext content k.paging
  refine ⟨_, k', run, ?_⟩
  rw [executed.paging]
  constructor
  · intro kept a kernel identity frame last
    have after := kept a kernel identity
    rw [tabulated.physical, last] at after
    exact frame_identity_iff.mp after
  · intro apart a kernel identity
    rw [tabulated.physical]
    cases last : frameOf (execPlan k.tasks.kernelPageContext content k.paging).mappings a with
    | some frame => exact frame_identity_iff.mpr (apart a kernel identity frame last)
    | none => exact identity

/-- What `exec` hands out is the heap up to the new heap pointer, as long as that does not wrap. -/
theorem exec_hands_out (content' : Content g cwd v path content) (stores : Stores g cwd v k.fs)
    (enough : 4294967296 ≤ fuel)
    (rises : (execPointers k.tasks.kernelPageContext content k.paging).Pairwise (· ≤ ·)) :
    ∃ r k', exec fuel k path = some (r, k') ∧ ∀ a,
      HandedOut (execPointers k.tasks.kernelPageContext content k.paging) a ↔
        k.paging.heapPtr ≤ a ∧ a < k'.paging.heapPtr := by
  obtain ⟨k', run, executed⟩ := exec_spec content' stores enough
  refine ⟨_, k', run, fun a => ?_⟩
  rw [executed.paging, ← execPointers_last]
  exact handedOut_iff rises a

/-- The heap of the kernel that has just started. -/
def heapBefore (p : Paging) (a : UInt32) : Prop := 0x01000000 ≤ a ∧ a < p.heapPtr

theorem exec_identity_kept_iff_linked :
    ∃ r k', exec 4294967296 (bootKernel linkedProgram) programPath = some (r, k') ∧
      (IdentityKept (KernelMemory 0x529B48 (heapBefore (bootKernel linkedProgram).paging)
          (execPointers 0x01000000 (some (programImage linkedProgram (by decide))) (bootKernel linkedProgram).paging))
          (bootKernel linkedProgram).paging k'.paging 0x01000000 ↔
        ∀ a, KernelMemory 0x529B48 (heapBefore (bootKernel linkedProgram).paging)
            (execPointers 0x01000000 (some (programImage linkedProgram (by decide)))
              (bootKernel linkedProgram).paging) a →
          pagingGetPhysical (bootKernel linkedProgram).paging 0x01000000 a = a →
          ∀ frame, frameOf (execPlan 0x01000000 (some (programImage linkedProgram (by decide)))
            (bootKernel linkedProgram).paging).mappings a = some frame → baseOf frame = baseOf a) :=
  exec_identity_kept_iff linkedProgram_content (bootKernel_stores linkedProgram) (by decide) 0x529B48 _

/-- The image of the kernel reaches up to `0x529B48`, and programs are linked at `0x400000`. -/
theorem exec_remaps_kernel_page :
    ∃ k', exec 4294967296 (bootKernel linkedProgram) programPath = some (some 0x400000, k') ∧
      ¬ IdentityKept (KernelMemory 0x529B48 (heapBefore (bootKernel linkedProgram).paging)
        (execPointers 0x01000000 (some (programImage linkedProgram (by decide))) (bootKernel linkedProgram).paging))
        (bootKernel linkedProgram).paging k'.paging 0x01000000 := by
  have run : (exec 4294967296 (bootKernel linkedProgram) programPath).map
      (fun outcome => (outcome.1, pagingGetPhysical outcome.2.paging 0x01000000 0x400000)) =
        some (some 0x400000, 0x01002000) := by decide +kernel
  have before : pagingGetPhysical (bootKernel linkedProgram).paging 0x01000000 0x400000 = 0x400000 := by
    decide +kernel
  obtain ⟨⟨r, k'⟩, done, outcome⟩ := Option.map_eq_some_iff.mp run
  cases congrArg Prod.fst outcome
  refine ⟨k', done, fun kept => ?_⟩
  have after := kept 0x400000 (Or.inl (by decide)) before
  have moved : pagingGetPhysical k'.paging 0x01000000 0x400000 = 0x01002000 := congrArg Prod.snd outcome
  rw [after] at moved
  exact absurd moved (by decide)

/-! ## A failed `exec` -/

/-- The address space of the task that runs. -/
def addressSpace (k : Kernel) (a : UInt32) : UInt32 :=
  pagingGetPhysical k.paging (k.tasks.task k.tasks.current).pageCtx a

/-- **A failed `exec` leaves its caller alone exactly if** every page that was mapped before
the failure was mapped to the same frame already, or the caller has a context of its own. -/
theorem failed_exec_harmless_iff (content' : Content g cwd v path content) (stores : Stores g cwd v k.fs)
    (enough : 4294967296 ≤ fuel) :
    ∃ r k', exec fuel k path = some (r, k') ∧ ((r = none → addressSpace k' = addressSpace k) ↔
      ((execPlan k.tasks.kernelPageContext content k.paging).entry = none →
        (k.tasks.task k.tasks.current).pageCtx = k.tasks.kernelPageContext → ∀ a frame,
          frameOf (execPlan k.tasks.kernelPageContext content k.paging).mappings a = some frame →
            addressSpace k a = baseOf frame ||| offsetOf a)) := by
  obtain ⟨k', run, executed⟩ := exec_spec content' stores enough
  have tabulated := execPlan_tabulated k.tasks.kernelPageContext content k.paging
  refine ⟨_, k', run, imp_congr_right fun failed => ?_⟩
  have tasks : k'.tasks = k.tasks := by rw [executed.tasks, if_pos failed]
  by_cases shared : (k.tasks.task k.tasks.current).pageCtx = k.tasks.kernelPageContext
  · have after (a : UInt32) : addressSpace k' a =
        match frameOf (execPlan k.tasks.kernelPageContext content k.paging).mappings a with
        | some frame => baseOf frame ||| offsetOf a
        | none => addressSpace k a := by
      rw [addressSpace, addressSpace, tasks, executed.paging, shared, tabulated.physical]
    constructor
    · intro same _ a frame last
      rw [← same, after, last]
    · intro same
      funext a
      rw [after]
      cases last : frameOf (execPlan k.tasks.kernelPageContext content k.paging).mappings a with
      | some frame => exact (same shared a frame last).symm
      | none => rfl
  · refine iff_of_true (funext fun a => ?_) fun own => absurd own shared
    rw [addressSpace, tasks, executed.paging, tabulated.physical_other shared]
    rfl

theorem failed_exec_harmless_iff_broken :
    ∃ r k', exec 4294967296 (bootKernel brokenProgram) programPath = some (r, k') ∧
      ((r = none → addressSpace k' = addressSpace (bootKernel brokenProgram)) ↔
        ((execPlan 0x01000000 (some (programImage brokenProgram (by decide)))
            (bootKernel brokenProgram).paging).entry = none →
          ((bootKernel brokenProgram).tasks.task (bootKernel brokenProgram).tasks.current).pageCtx = 0x01000000 →
          ∀ a frame, frameOf (execPlan 0x01000000 (some (programImage brokenProgram (by decide)))
            (bootKernel brokenProgram).paging).mappings a = some frame →
              addressSpace (bootKernel brokenProgram) a = baseOf frame ||| offsetOf a)) :=
  failed_exec_harmless_iff brokenProgram_content (bootKernel_stores brokenProgram) (by decide)

/-- The first segment stays mapped when the second program header cannot be read. -/
theorem failed_exec_keeps_mapping :
    ∃ k', exec 4294967296 (bootKernel brokenProgram) programPath = some (none, k') ∧
      addressSpace (bootKernel brokenProgram) 0x400000 = 0x400000 ∧ addressSpace k' 0x400000 = 0x01002000 := by
  have run : (exec 4294967296 (bootKernel brokenProgram) programPath).map
      (fun outcome => (outcome.1, addressSpace outcome.2 0x400000)) = some (none, 0x01002000) := by decide +kernel
  obtain ⟨⟨r, k'⟩, done, outcome⟩ := Option.map_eq_some_iff.mp run
  cases congrArg Prod.fst outcome
  exact ⟨k', done, by decide +kernel, congrArg Prod.snd outcome⟩

end QuantumKernel.Exec
