import QuantumKernel.Exec.Paging
import QuantumKernel.Fat32.File
import QuantumKernel.Library.Memory32
import QuantumKernel.Task.Tasks

/-! # Program loading

`load_elf` and `exec` of `exec.c`.  The memory is physical memory, and the pointers of the
kernel are taken for physical addresses, as `virt_to_phys` does; the variables of the file
system and the page tables are kept apart from it.
-/

namespace QuantumKernel.Exec

open ByteStore Memory32 Fat32 QuantumKernel.Task

def userStackSize : UInt32 := 0x4000
def userStackTop : UInt32 := 0xC0000000

def elfMagic : UInt32 := 0x464C457F
def ptLoad : UInt32 := 1

/-- The fields of `elf_header_t` that `load_elf` reads. -/
structure ElfHeader where
  magic : UInt32
  elfClass : UInt8
  machine : UInt16
  entry : UInt32
  phoff : UInt32
  phentsize : UInt16
  phnum : UInt16
  deriving DecidableEq

/-- `sizeof(elf_header_t)`. -/
def sizeofElfHeader : UInt32 := 52

def elfHeaderAt (bytes : Bytes) : ElfHeader where
  magic := load32 bytes 0
  elfClass := bytes 4
  machine := load16 bytes 18
  entry := load32 bytes 24
  phoff := load32 bytes 28
  phentsize := load16 bytes 42
  phnum := load16 bytes 44

/-- The fields of `elf_program_header_t` that `load_elf` reads. -/
structure ElfProgramHeader where
  type : UInt32
  offset : UInt32
  vaddr : UInt32
  filesz : UInt32
  memsz : UInt32
  deriving DecidableEq

/-- `sizeof(elf_program_header_t)`. -/
def sizeofProgramHeader : UInt32 := 32

def programHeaderAt (bytes : Bytes) : ElfProgramHeader where
  type := load32 bytes 0
  offset := load32 bytes 4
  vaddr := load32 bytes 8
  filesz := load32 bytes 16
  memsz := load32 bytes 20

structure Kernel where
  fs : Fat32State
  mem : Memory
  paging : Paging
  tasks : Tasks

/-- `fat32_read` into a local structure. -/
def readStruct (fuel : Nat) (fs : Fat32State) (file : Fat32File) (size : UInt32) :
    Option (Int32 × Bytes × Fat32File × Fat32State) := do
  let (count, buffer, file, fs) ← fat32Read fuel fs file (some fun _ => 0) size
  some (count, buffer.getD fun _ => 0, file, fs)

/-- `fat32_read` to an address, which is not null. -/
def readMemory (fuel : Nat) (k : Kernel) (file : Fat32File) (address size : UInt32) :
    Option (Fat32File × Kernel) := do
  let (_, buffer, file, fs) ← fat32Read fuel k.fs file (some (view k.mem address)) size
  let buffer := buffer.getD (view k.mem address)
  some (file, { k with fs := fs, mem := fun x => buffer (x - address).toNat })

/-- `page_count` of a segment. -/
def ElfProgramHeader.pageCount (ph : ElfProgramHeader) : UInt32 := (ph.memsz + 0xFFF) / 0x1000

/-- `memset` of the block, and `fat32_read` into it. -/
def fillSegment (fuel : Nat) (k : Kernel) (file : Fat32File) (ph : ElfProgramHeader) (physBase : UInt32) :
    Option (Fat32File × Kernel) :=
  let k := { k with mem := put k.mem physBase (fun _ => 0) (ph.pageCount * 0x1000).toNat }
  if 0 < ph.filesz then
    match fat32Seek file ph.offset.toInt32 fat32SeekSet with
    | (_, file) => readMemory fuel k file (physBase + (ph.vaddr &&& 0xFFF)) ph.filesz
  else some (file, k)

/-- The loops that map `count` pages from `virt` to the frames from `phys`. -/
def mapPages (p : Paging) (ctx virt phys : UInt32) (count : Nat) : Paging :=
  (List.range count).foldl (fun p i => pagingMapPage p ctx (virt + UInt32.ofNat i * 0x1000)
    (phys + UInt32.ofNat i * 0x1000) (pagePresent ||| pageWrite ||| pageUser)) p

/-- `fat32_close` before `return -1`. -/
def closeFailed (k : Kernel) (file : Fat32File) : Bool × Fat32File × Kernel :=
  match fat32Close k.fs file with
  | (_, file, fs) => (false, file, { k with fs := fs })

/-- What the loop does with a program header once it is read. -/
inductive HeaderAction
  | failed
  | skipped
  /-- A `PT_LOAD` segment for which a block was allocated. -/
  | segment (ph : ElfProgramHeader) (physBase : UInt32)

/-- The body of the loop over the program headers, up to the allocation. -/
def prepareSegment (fuel : Nat) (header : ElfHeader) (k : Kernel) (file : Fat32File) (i : UInt16) :
    Option (HeaderAction × Fat32File × Kernel) :=
  match fat32Seek file (header.phoff + i.toUInt32 * header.phentsize.toUInt32).toInt32 fat32SeekSet with
  | (_, file) => do
    let (count, bytes, file, fs) ← readStruct fuel k.fs file sizeofProgramHeader
    let k := { k with fs := fs }
    if count.toUInt32 ≠ sizeofProgramHeader then some (.failed, file, k)
    else
      let ph := programHeaderAt bytes
      if ph.type ≠ ptLoad then some (.skipped, file, k)
      else
        match kmallocAligned k.paging.heapPtr (ph.pageCount * 0x1000) 0x1000 with
        | (physBase, heapPtr) =>
          let k := { k with paging := { k.paging with heapPtr := heapPtr } }
          if physBase = 0 then some (.failed, file, k) else some (.segment ph physBase, file, k)

/-- The body of the loop over the program headers; `false` stands for `return -1`. -/
def loadHeader (fuel : Nat) (ctx : UInt32) (header : ElfHeader) (k : Kernel) (file : Fat32File) (i : UInt16) :
    Option (Bool × Fat32File × Kernel) := do
  let (action, file, k) ← prepareSegment fuel header k file i
  match action with
  | .failed => some (closeFailed k file)
  | .skipped => some (true, file, k)
  | .segment ph physBase =>
    let (file, k) ← fillSegment fuel k file ph physBase
    some (true, file, { k with
      paging := mapPages k.paging ctx (ph.vaddr &&& 0xFFFFF000) physBase ph.pageCount.toNat })

/-- The loop over the program headers from `i`, of which `remaining` are left. -/
def loadLoop (fuel : Nat) (ctx : UInt32) (header : ElfHeader) :
    (remaining : Nat) → Kernel → Fat32File → UInt16 → Option (Bool × Fat32File × Kernel)
  | 0, k, file, _ => some (true, file, k)
  | remaining + 1, k, file, i => do
    let (done, file, k) ← loadHeader fuel ctx header k file i
    if done then loadLoop fuel ctx header remaining k file (i + 1) else some (false, file, k)

/-- `load_elf` up to the loop: the file and its header, or `return -1`. -/
def openElf (fuel : Nat) (k : Kernel) (path : CString) : Option (Option (ElfHeader × Fat32File) × Kernel) := do
  let (status, file, fs) ← fat32Open fuel k.fs Fat32File.zero (some path) 0
  let k := { k with fs := fs }
  if status ≠ 0 then some (none, k)
  else
    let (count, bytes, file, fs) ← readStruct fuel k.fs file sizeofElfHeader
    let k := { k with fs := fs }
    if count.toUInt32 ≠ sizeofElfHeader then some (none, (closeFailed k file).2.2)
    else
      let header := elfHeaderAt bytes
      if header.magic ≠ elfMagic ∨ header.elfClass ≠ 1 ∨ header.machine ≠ 3 then
        some (none, (closeFailed k file).2.2)
      else some (some (header, file), k)

/-- `load_elf`: the entry point for the result 0, `none` for -1. -/
def loadElf (fuel : Nat) (k : Kernel) (path : CString) (ctx : UInt32) : Option (Option UInt32 × Kernel) := do
  let (opened, k) ← openElf fuel k path
  match opened with
  | none => some (none, k)
  | some (header, file) =>
    let (done, file, k) ← loadLoop fuel ctx header header.phnum.toNat k file 0
    if done then
      match fat32Close k.fs file with
      | (_, _, fs) => some (some header.entry, { k with fs := fs })
    else some (none, k)

/-- `exec`: the entry point to which it jumps, `none` for the result -1. -/
def exec (fuel : Nat) (k : Kernel) (path : CString) : Option (Option UInt32 × Kernel) := do
  let newCtx := pagingCreateContext k.tasks
  if newCtx = 0 then some (none, k)
  else
    let (loaded, k) ← loadElf fuel k path newCtx
    match loaded with
    | none => some (none, k)
    | some entryPoint =>
      match kmallocAligned k.paging.heapPtr userStackSize 0x1000 with
      | (stackPhys, heapPtr) =>
        let k := { k with paging := { k.paging with heapPtr := heapPtr } }
        if stackPhys = 0 then some (none, k)
        else
          let k := { k with
            mem := put k.mem stackPhys (fun _ => 0) userStackSize.toNat
            paging := mapPages k.paging newCtx (userStackTop - userStackSize) stackPhys 4 }
          some (some entryPoint, { k with
            tasks := { k.tasks.modify k.tasks.current fun task => { task with pageCtx := newCtx } with
              currentContext := newCtx } })

end QuantumKernel.Exec
