import QuantumKernel.Cpu.Idt

/-! # The global descriptor table and the task state

`gdt_init` writes five descriptors and `tss_init` the sixth, with the structure from which the processor takes
the stack of the kernel when it leaves user space.  After both, a selector leads to a segment of the
kernel or of user space, or to the task state, or nowhere (`selectors_resolve`); and every gate of the
interrupt table enters the kernel's code on the kernel's stack (`kernel_entry`).
-/

namespace QuantumKernel.Cpu

open I386Descriptors Packed

/-- `struct gdt_entry`. -/
structure GdtEntry where
  limitLow : UInt16
  baseLow : UInt16
  baseMid : UInt8
  access : UInt8
  gran : UInt8
  baseHigh : UInt8

/-- An entry in memory; the structure is packed. -/
def GdtEntry.bytes (e : GdtEntry) : List UInt8 :=
  le16 e.limitLow ++ (le16 e.baseLow ++ [e.baseMid, e.access, e.gran, e.baseHigh])

abbrev Gdt := Fin 6 → GdtEntry

/-- `gdt_set`. -/
def gdtSet (gdt : Gdt) (i : Fin 6) (base limit : UInt32) (access gran : UInt8) : Gdt :=
  Function.update gdt i {
    baseLow := (base &&& 0xFFFF).toUInt16
    baseMid := ((base >>> 16) &&& 0xFF).toUInt8
    baseHigh := ((base >>> 24) &&& 0xFF).toUInt8
    limitLow := (limit &&& 0xFFFF).toUInt16
    gran := ((limit >>> 16) &&& 0x0F).toUInt8 ||| (gran &&& 0xF0)
    access := access }

/-- `gdt_set_tss`. -/
def gdtSetTss (gdt : Gdt) (num : Fin 6) (base limit : UInt32) : Gdt :=
  Function.update gdt num {
    baseLow := (base &&& 0xFFFF).toUInt16
    baseMid := ((base >>> 16) &&& 0xFF).toUInt8
    baseHigh := ((base >>> 24) &&& 0xFF).toUInt8
    limitLow := (limit &&& 0xFFFF).toUInt16
    gran := (((limit >>> 16) &&& 0x0F) ||| 0x40).toUInt8
    access := 0x89 }

/-- `gdt_init`. -/
def gdtInit (gdt : Gdt) : Gdt :=
  let gdt := gdtSet gdt 0 0 0 0 0
  let gdt := gdtSet gdt 1 0 0xFFFFFFFF 0x9A 0xCF
  let gdt := gdtSet gdt 2 0 0xFFFFFFFF 0x92 0xCF
  let gdt := gdtSet gdt 3 0 0xFFFFFFFF 0xFA 0xCF
  gdtSet gdt 4 0 0xFFFFFFFF 0xF2 0xCF

/-- `struct tss_entry`. -/
structure TssEntry where
  prevTss : UInt32
  esp0 : UInt32
  ss0 : UInt32
  esp1 : UInt32
  ss1 : UInt32
  esp2 : UInt32
  ss2 : UInt32
  cr3 : UInt32
  eip : UInt32
  eflags : UInt32
  eax : UInt32
  ecx : UInt32
  edx : UInt32
  ebx : UInt32
  esp : UInt32
  ebp : UInt32
  esi : UInt32
  edi : UInt32
  es : UInt32
  cs : UInt32
  ss : UInt32
  ds : UInt32
  fs : UInt32
  gs : UInt32
  ldt : UInt32
  trap : UInt16
  iomapBase : UInt16

/-- The task state in memory; the structure is packed. -/
def TssEntry.bytes (t : TssEntry) : List UInt8 :=
  [t.prevTss, t.esp0, t.ss0, t.esp1, t.ss1, t.esp2, t.ss2, t.cr3, t.eip, t.eflags, t.eax, t.ecx, t.edx, t.ebx,
    t.esp, t.ebp, t.esi, t.edi, t.es, t.cs, t.ss, t.ds, t.fs, t.gs, t.ldt].flatMap le32 ++
  (le16 t.trap ++ le16 t.iomapBase)

/-- `tss` when its bytes are zero. -/
def TssEntry.zero : TssEntry :=
  ⟨0, 0, 0, 0, 0, 0, 0, 0, 0, 0, 0, 0, 0, 0, 0, 0, 0, 0, 0, 0, 0, 0, 0, 0, 0, 0, 0⟩

/-- The structure that `tss_init` leaves; `stackTop` is the address of `stack_top`. -/
def tssInit (stackTop : UInt32) : TssEntry :=
  { TssEntry.zero with
    ss0 := 0x10, esp0 := stackTop, cs := 0x0B, ss := 0x13, ds := 0x13, es := 0x13, fs := 0x13, gs := 0x13 }

/-- The table after `gdt_init` and `tss_init`; `tss` is the address of the structure. -/
def bootGdt (gdt : Gdt) (tss : UInt32) : Gdt :=
  gdtSetTss (gdtInit gdt) 5 tss (UInt32.ofNat TssEntry.zero.bytes.length - 1)

/-- The table in memory, as far as the limit in `gp` allows. -/
def Gdt.memory (gdt : Gdt) : List (List UInt8) := (List.finRange 6).map fun i => (gdt i).bytes

/-- A flat segment of 4 GiB. -/
def flat (dpl kind : UInt8) : Segment := ⟨0, 0xFFFFFFFF, dpl, kind⟩

/-- The segments by the upper 13 bits of a selector. -/
def segmentOf (tss : UInt32) (index : Nat) : Option Segment :=
  if index = 1 then some (flat 0 0x1A)
  else if index = 2 then some (flat 0 0x12)
  else if index = 3 then some (flat 3 0x1A)
  else if index = 4 then some (flat 3 0x12)
  else if index = 5 then some ⟨tss, 103, 0, 0x09⟩
  else none

variable {gdt : Gdt} {i : Fin 6} {base limit tss stackTop : UInt32} {access gran : UInt8} {selector : UInt16}

/-! ## One descriptor -/

theorem decodeSegment_bytes (e : GdtEntry) : decodeSegment e.bytes =
    if e.access &&& 0x80 = 0 then none
    else some {
      base := UInt32.ofNat (e.baseLow.toNat + 65536 * (e.baseMid.toNat + 256 * e.baseHigh.toNat))
      limit := scaledLimit (e.gran &&& 0x80 != 0) (e.limitLow.toNat + 65536 * (e.gran &&& 0x0F).toNat)
      dpl := (e.access >>> 5) &&& 3
      kind := e.access &&& 0x1F } := by
  have limitLow : readWord16 e.bytes 0 = some e.limitLow := readWord16_le16 _
  have baseLow : readWord16 e.bytes 2 = some e.baseLow := by
    rw [GdtEntry.bytes, readWord16_append (by simp)]
    exact readWord16_le16 _
  have baseMid : readByte e.bytes 4 = some e.baseMid := rfl
  have access : readByte e.bytes 5 = some e.access := rfl
  have flags : readByte e.bytes 6 = some e.gran := rfl
  have baseHigh : readByte e.bytes 7 = some e.baseHigh := rfl
  simp only [decodeSegment, limitLow, baseLow, baseMid, access, flags, baseHigh, Option.bind_eq_bind, Option.bind_some]

/-- The processor finds the base that `gdt_set` was given, the lower 20 bits of the limit in units of bytes or
pages, and the access rights. -/
theorem decodeSegment_gdtSet : decodeSegment (gdtSet gdt i base limit access gran i).bytes =
    if access &&& 0x80 = 0 then none
    else some ⟨base, scaledLimit (gran &&& 0x80 != 0) (limit.toNat % 1048576), (access >>> 5) &&& 3, access &&& 0x1F⟩ := by
  rw [decodeSegment_bytes, gdtSet, Function.update_self]
  simp only [ofNat_parts, flags_low, flags_high, limit_parts]

/-- The same for `gdt_set_tss`, whose limit counts bytes. -/
theorem decodeSegment_gdtSetTss : decodeSegment (gdtSetTss gdt i base limit i).bytes =
    some ⟨base, UInt32.ofNat (limit.toNat % 1048576), 0, 0x09⟩ := by
  have flags : (((limit >>> 16) &&& 0x0F) ||| 0x40).toUInt8 = ((limit >>> 16) &&& 0x0F).toUInt8 ||| (0x40 &&& 0xF0) :=
    UInt32.toUInt8_or _ _
  rw [decodeSegment_bytes, gdtSetTss, Function.update_self, flags]
  simp only [ofNat_parts, flags_low, flags_high, limit_parts]
  rfl

/-! ## The tables after boot -/

theorem gdtSet_other {j : Fin 6} (other : j ≠ i) : gdtSet gdt i base limit access gran j = gdt j :=
  Function.update_of_ne other _ _

theorem gdtSetTss_other {j : Fin 6} (other : j ≠ i) : gdtSetTss gdt i base limit j = gdt j :=
  Function.update_of_ne other _ _

/-- The size of the task state less one. -/
theorem tss_limit : UInt32.ofNat TssEntry.zero.bytes.length - 1 = 103 := rfl

theorem bootGdt_segment (index : Fin 6) : decodeSegment (bootGdt gdt tss index).bytes = segmentOf tss index := by
  have kernel {j : Fin 6} (other : j ≠ 5) : bootGdt gdt tss j = gdtInit gdt j := gdtSetTss_other other
  match index with
  | 0 =>
    rw [kernel (by decide), gdtInit, gdtSet_other (by decide), gdtSet_other (by decide), gdtSet_other (by decide),
      gdtSet_other (by decide), decodeSegment_gdtSet, if_pos (by decide)]
    rfl
  | 1 =>
    rw [kernel (by decide), gdtInit, gdtSet_other (by decide), gdtSet_other (by decide), gdtSet_other (by decide),
      decodeSegment_gdtSet, if_neg (by decide)]
    rfl
  | 2 =>
    rw [kernel (by decide), gdtInit, gdtSet_other (by decide), gdtSet_other (by decide), decodeSegment_gdtSet,
      if_neg (by decide)]
    rfl
  | 3 =>
    rw [kernel (by decide), gdtInit, gdtSet_other (by decide), decodeSegment_gdtSet, if_neg (by decide)]
    rfl
  | 4 =>
    rw [kernel (by decide), gdtInit, decodeSegment_gdtSet, if_neg (by decide)]
    rfl
  | 5 =>
    rw [bootGdt, tss_limit, decodeSegment_gdtSetTss]
    rfl

theorem segmentOf_high {index : Nat} (high : 6 ≤ index) : segmentOf tss index = none := by
  rw [segmentOf, if_neg (by omega), if_neg (by omega), if_neg (by omega), if_neg (by omega), if_neg (by omega)]

theorem memory_bind (index : Nat) :
    (bootGdt gdt tss).memory[index]?.bind decodeSegment = segmentOf tss index := by
  by_cases inside : index < 6
  · have entry : (bootGdt gdt tss).memory[index]? = some (bootGdt gdt tss ⟨index, inside⟩).bytes := by
      simp [Gdt.memory, inside]
    rw [entry, Option.bind_some, bootGdt_segment]
  · have outside : (bootGdt gdt tss).memory[index]? = none := by
      simp [Gdt.memory, show 6 ≤ index by omega]
    rw [outside, Option.bind_none, segmentOf_high (by omega)]

/-- Whatever the table held before, and wherever the task state lies: the selectors of the kernel's and of the
user's code and data lead to flat segments of their ring, the selector that `tss_flush` loads leads to
the whole task state, and every other selector leads nowhere. -/
theorem selectors_resolve (gdt : Gdt) (tss : UInt32) (selector : UInt16) :
    resolve (bootGdt gdt tss).memory selector =
      if selector &&& 4 ≠ 0 then none else segmentOf tss (selector.toNat / 8) := by
  have index : (selector >>> 3).toNat = selector.toNat / 8 := by
    rw [UInt16.toNat_shiftRight]
    exact Nat.shiftRight_eq_div_pow _ 3
  rw [resolve, memory_bind, index]
  by_cases lower : selector &&& 4 ≠ 0
  · rw [if_pos (.inl lower), if_pos lower]
  · rw [if_neg lower]
    by_cases null : selector >>> 3 = 0
    · have zero : selector.toNat / 8 = 0 := by
        rw [← index, null]
        rfl
      rw [if_pos (.inr null), zero]
      rfl
    · rw [if_neg (fun either => either.elim lower null)]

/-- The task state that the processor reads when it leaves user space. -/
theorem ringZeroStack_tssInit : ringZeroStack (tssInit stackTop).bytes = some (0x10, stackTop) := by
  obtain ⟨rest, shape⟩ : ∃ rest, (tssInit stackTop).bytes = le32 0 ++ (le32 stackTop ++ (le16 0x10 ++ rest)) :=
    ⟨_, rfl⟩
  have esp : readWord32 (tssInit stackTop).bytes 4 = some stackTop := by
    rw [shape, readWord32_append (by simp)]
    exact readWord32_le32 _
  have ss : readWord16 (tssInit stackTop).bytes 8 = some 0x10 := by
    rw [shape, readWord16_append (by simp), readWord16_append (by simp)]
    exact readWord16_le16 _
  simp only [ringZeroStack, esp, ss, Option.bind_eq_bind, Option.bind_some]

/-- Every interrupt, exception and system call enters the kernel's flat code segment with interrupts disabled,
and one that comes from user space gets the kernel's data segment as its stack, from `stack_top` down: whatever
the tables held before, wherever they and the handlers lie, and whatever lines the network cards have. -/
theorem kernel_entry (tss stackTop : UInt32) {address : Handler → UInt32} {irqLines : List UInt8} {idt : Idt}
    {vector : UInt8} {gate : Gate}
    (present : decodeGate (bootIdt address irqLines idt vector).bytes = some gate) :
    gate.kind = 0x0E ∧ resolve (bootGdt gdt tss).memory gate.selector = some (flat 0 0x1A) ∧
    (∃ task, resolve (bootGdt gdt tss).memory 0x2B = some task ∧ task.base = tss ∧
      task.limit.toNat + 1 = (tssInit stackTop).bytes.length) ∧
    ∃ ss, ringZeroStack (tssInit stackTop).bytes = some (ss, stackTop) ∧
      resolve (bootGdt gdt tss).memory ss = some (flat 0 0x12) := by
  obtain ⟨handler, rfl⟩ : ∃ handler, gateOf address handler = gate := by
    rw [decodeGate_bootIdt] at present
    obtain ⟨handler, _, same⟩ := Option.map_eq_some_iff.mp present
    exact ⟨handler, same⟩
  refine ⟨rfl, ?_, ⟨⟨tss, 103, 0, 0x09⟩, ?_, rfl, rfl⟩, 0x10, ringZeroStack_tssInit, ?_⟩
  · exact selectors_resolve gdt tss 0x08
  · exact selectors_resolve gdt tss 0x2B
  · exact selectors_resolve gdt tss 0x10

/-- A system call, with a card on line 11. -/
theorem kernel_entry_call :
    resolve (bootGdt (fun _ => ⟨0, 0, 0, 0, 0, 0⟩) 0x120000).memory
      (gateOf (fun _ => 0x101000) .syscallHandler).selector = some (flat 0 0x1A) := by
  have present : decodeGate (bootIdt (fun _ => 0x101000) [11] (fun _ => idtEntry 0 0 0) 0x80).bytes =
      some (gateOf (fun _ => 0x101000) .syscallHandler) := by
    rw [decodeGate_bootIdt]
    rfl
  exact (kernel_entry 0x120000 0x180000 present).2.1

end QuantumKernel.Cpu
