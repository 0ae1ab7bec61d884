import QuantumKernel.Library.Bindings
import QuantumKernel.Library.I386Descriptors

/-! # The interrupt descriptor table

Gates are written at three places: `idt_init` fills the table for the exceptions and for the hardware
interrupts, `kernel_main` adds the system call, and `rtl8139_init` adds one for the interrupt line that the
configuration space of each network card names.  Whatever these lines are, every vector leads to where
the last write for it points (`vectors_routed`).
-/

namespace QuantumKernel.Cpu

open Bindings I386Descriptors Packed

/-- `idt_entry_t`. -/
structure IdtEntry where
  offsetLow : UInt16
  selector : UInt16
  zero : UInt8
  typeAttr : UInt8
  offsetHigh : UInt16

/-- An entry in memory; the structure is packed. -/
def IdtEntry.bytes (e : IdtEntry) : List UInt8 :=
  le16 e.offsetLow ++ (le16 e.selector ++ ([e.zero, e.typeAttr] ++ (le16 e.offsetHigh ++ [])))

/-- What `idt_set_gate` stores. -/
def idtEntry (handler : UInt32) (selector : UInt16) (typeAttr : UInt8) : IdtEntry where
  offsetLow := (handler &&& 0xFFFF).toUInt16
  selector := selector
  zero := 0
  typeAttr := typeAttr
  offsetHigh := ((handler >>> 16) &&& 0xFFFF).toUInt16

abbrev Idt := UInt8 → IdtEntry

/-- `idt_set_gate`. -/
def idtSetGate (idt : Idt) (num : UInt8) (handler : UInt32) (selector : UInt16) (typeAttr : UInt8) : Idt :=
  Function.update idt num (idtEntry handler selector typeAttr)

/-- The functions in assembler that gates point to. -/
inductive Handler
  | isr (vector : Fin 32)
  | irq (line : Fin 16)
  | syscallHandler
  deriving DecidableEq, Repr

/-- `idt_init`.  The handlers are where the linker has put them. -/
def idtInit (address : Handler → UInt32) (idt : Idt) : Idt :=
  let idt := (List.range 256).foldl (fun idt i => idtSetGate idt (UInt8.ofNat i) 0 0 0) idt
  let idt := (List.finRange 32).foldl (fun idt (vector : Fin 32) =>
    idtSetGate idt (UInt8.ofNat vector) (address (.isr vector)) 0x08 0x8E) idt
  (List.finRange 16).foldl (fun idt (line : Fin 16) =>
    idtSetGate idt (UInt8.ofNat (32 + line)) (address (.irq line)) 0x08 0x8E) idt

theorem cardLine_lt : 10 < 16 := by decide

/-- The line whose handler is installed for the cards. -/
def cardLine : Fin 16 := ⟨10, cardLine_lt⟩

/-- `rtl8139_init`, for a card with this interrupt line. -/
def rtl8139Gate (address : Handler → UInt32) (idt : Idt) (irqLine : UInt8) : Idt :=
  idtSetGate idt (32 + irqLine) (address (.irq cardLine)) 0x08 0x8E

/-- The table when `kernel_main` enables interrupts. -/
def bootIdt (address : Handler → UInt32) (irqLines : List UInt8) (idt : Idt) : Idt :=
  irqLines.foldl (rtl8139Gate address) (idtSetGate (idtInit address idt) 0x80 (address .syscallHandler) 0x08 0xEE)

/-- The handler of a vector before any card is found. -/
def builtinHandler (vector : UInt8) : Option Handler :=
  if bound : vector.toNat < 32 then some (.isr ⟨vector.toNat, bound⟩)
  else if bound : vector.toNat < 48 then some (.irq ⟨vector.toNat - 32, by omega⟩)
  else if vector = 0x80 then some .syscallHandler
  else none

/-- The handler of a vector. -/
def handlerOf (irqLines : List UInt8) (vector : UInt8) : Option Handler :=
  if vector - 32 ∈ irqLines then some (.irq cardLine) else builtinHandler vector

/-- The gate of a handler: all are interrupt gates to the kernel's code, and user space may use the one of
the system call. -/
def gateOf (address : Handler → UInt32) (handler : Handler) : Gate where
  offset := address handler
  selector := 0x08
  dpl := if handler = .syscallHandler then 3 else 0
  kind := 0x0E

variable {address : Handler → UInt32} {irqLines : List UInt8} {idt : Idt} {vector : UInt8}
  {handler : UInt32} {selector : UInt16} {typeAttr : UInt8}

/-! ## One gate -/

/-- The processor finds in an entry what `idt_set_gate` was told to put there. -/
theorem decodeGate_idtEntry : decodeGate (idtEntry handler selector typeAttr).bytes =
    if typeAttr &&& 0x80 = 0 then none
    else some ⟨handler, selector, (typeAttr >>> 5) &&& 3, typeAttr &&& 0x1F⟩ := by
  have low : readWord16 (idtEntry handler selector typeAttr).bytes 0 = some (handler &&& 0xFFFF).toUInt16 :=
    readWord16_le16 _
  have middle : readWord16 (idtEntry handler selector typeAttr).bytes 2 = some selector := by
    rw [IdtEntry.bytes, readWord16_append (by simp)]
    exact readWord16_le16 _
  have attributes : readByte (idtEntry handler selector typeAttr).bytes 5 = some typeAttr := rfl
  have high : readWord16 (idtEntry handler selector typeAttr).bytes 6 =
      some ((handler >>> 16) &&& 0xFFFF).toUInt16 := by
    rw [IdtEntry.bytes, readWord16_append (by simp), readWord16_append (by simp), readWord16_append (by simp)]
    exact readWord16_le16 _
  simp only [decodeGate, low, middle, attributes, high, Option.bind_eq_bind, Option.bind_some, ofNat_halves]

/-! ## The writes -/

/-- The writes of `idt_init`, of `kernel_main` and of `rtl8139_init`, in order. -/
def bootWrites (address : Handler → UInt32) (irqLines : List UInt8) : List (UInt8 × IdtEntry) :=
  ((List.range 256).map fun i => (UInt8.ofNat i, idtEntry 0 0 0)) ++
  (((List.finRange 32).map fun (vector : Fin 32) => (UInt8.ofNat vector, idtEntry (address (.isr vector)) 0x08 0x8E)) ++
  (((List.finRange 16).map fun (line : Fin 16) => (UInt8.ofNat (32 + line), idtEntry (address (.irq line)) 0x08 0x8E)) ++
  ([(0x80, idtEntry (address .syscallHandler) 0x08 0xEE)] ++
  irqLines.map fun irqLine => (32 + irqLine, idtEntry (address (.irq cardLine)) 0x08 0x8E))))

theorem bootIdt_eq : bootIdt address irqLines idt vector =
    (lookupLast (bootWrites address irqLines) vector).getD (idt vector) := by
  rw [← foldl_update, bootWrites]
  simp only [List.foldl_append, List.foldl_map, List.foldl_cons, List.foldl_nil]
  rfl

/-- The writes for the cards. -/
theorem lookup_cards (card : vector - 32 ∈ irqLines) :
    lookupLast (irqLines.map fun irqLine => ((32 : UInt8) + irqLine, idtEntry handler selector typeAttr)) vector =
      some (idtEntry handler selector typeAttr) := by
  apply lookupLast_unique
  · rw [List.mem_map]
    exact ⟨vector - 32, card, Prod.ext ((UInt8.add_comm _ _).trans (UInt8.sub_add_cancel _ _)) rfl⟩
  · intro binding member _
    obtain ⟨_, _, rfl⟩ := List.mem_map.mp member
    rfl

theorem lookup_noCards (noCard : vector - 32 ∉ irqLines) :
    lookupLast (irqLines.map fun irqLine => ((32 : UInt8) + irqLine, idtEntry handler selector typeAttr)) vector =
      none := by
  rw [lookupLast_eq_none]
  intro binding member same
  obtain ⟨irqLine, inside, rfl⟩ := List.mem_map.mp member
  have line : vector - 32 = irqLine := by
    rw [same, UInt8.add_comm]
    exact UInt8.add_sub_cancel _ _
  exact noCard (line ▸ inside)

/-- The writes of one loop, whose keys are consecutive numbers. -/
theorem lookup_loop {n : Nat} (vector : UInt8) (start : Nat) (entry : Fin n → IdtEntry) (fits : start + n ≤ 256) :
    lookupLast ((List.finRange n).map fun (i : Fin n) => (UInt8.ofNat (start + i), entry i)) vector =
      if bound : start ≤ vector.toNat ∧ vector.toNat < start + n then some (entry ⟨vector.toNat - start, by omega⟩)
      else none := by
  have value {i : Fin n} : vector = UInt8.ofNat (start + i) ↔ vector.toNat = start + i := by
    rw [← UInt8.toNat_inj, UInt8.toNat_ofNat', Nat.mod_eq_of_lt (by omega)]
  split
  · rename_i bound
    apply lookupLast_unique
    · rw [List.mem_map]
      refine ⟨⟨vector.toNat - start, by omega⟩, List.mem_finRange _, Prod.ext (value.mpr ?_).symm rfl⟩
      simp only
      omega
    · intro binding member same
      obtain ⟨i, _, rfl⟩ := List.mem_map.mp member
      have number := value.mp same
      apply congrArg entry
      apply Fin.ext
      simp only
      omega
  · rename_i outside
    rw [lookupLast_eq_none]
    intro binding member same
    obtain ⟨i, _, rfl⟩ := List.mem_map.mp member
    have number := value.mp same
    omega

/-- The first loop of `idt_init` clears every entry. -/
theorem lookup_cleared : lookupLast ((List.range 256).map fun i => (UInt8.ofNat i, idtEntry 0 0 0)) vector =
    some (idtEntry 0 0 0) := by
  apply lookupLast_unique
  · rw [List.mem_map]
    exact ⟨vector.toNat, List.mem_range.mpr vector.toNat_lt, Prod.ext (UInt8.ofNat_toNat) rfl⟩
  · intro binding member _
    obtain ⟨_, _, rfl⟩ := List.mem_map.mp member
    rfl

/-- The entry of a vector: that of its handler, or a cleared one. -/
def entryOf (address : Handler → UInt32) (handler : Option Handler) : IdtEntry :=
  match handler with
  | some .syscallHandler => idtEntry (address .syscallHandler) 0x08 0xEE
  | some handler => idtEntry (address handler) 0x08 0x8E
  | none => idtEntry 0 0 0

theorem lookup_exceptions : lookupLast ((List.finRange 32).map fun (i : Fin 32) =>
    (UInt8.ofNat i, idtEntry (address (.isr i)) 0x08 0x8E)) vector =
      if bound : vector.toNat < 32 then some (idtEntry (address (.isr ⟨vector.toNat, bound⟩)) 0x08 0x8E) else none := by
  have loop := lookup_loop vector 0 (fun i : Fin 32 => idtEntry (address (.isr i)) 0x08 0x8E) (by decide)
  simpa using loop

theorem lookup_bootWrites : lookupLast (bootWrites address irqLines) vector =
    some (entryOf address (handlerOf irqLines vector)) := by
  rw [bootWrites, lookupLast_append, lookupLast_append, lookupLast_append, lookupLast_append, lookup_exceptions,
    lookup_loop _ _ _ (by decide), lookup_cleared, handlerOf]
  by_cases card : vector - 32 ∈ irqLines
  · rw [lookup_cards card, if_pos card]
    rfl
  · rw [lookup_noCards card, if_neg card, builtinHandler]
    by_cases exception : vector.toNat < 32
    · have other : vector ≠ 0x80 := by
        rintro rfl
        exact absurd exception (by decide)
      simp [lookupLast_cons, other, exception, show ¬ 32 ≤ vector.toNat by omega, entryOf]
    · by_cases hardware : vector.toNat < 48
      · have other : vector ≠ 0x80 := by
          rintro rfl
          exact absurd hardware (by decide)
        simp [lookupLast_cons, other, exception, hardware, show 32 ≤ vector.toNat by omega, entryOf]
      · by_cases call : vector = 0x80
        · simp [lookupLast_cons, call, entryOf]
        · simp [lookupLast_cons, call, exception, hardware, entryOf]

theorem decodeGate_entryOf (handler : Option Handler) :
    decodeGate (entryOf address handler).bytes = handler.map (gateOf address) := by
  cases handler with
  | none => rw [entryOf, decodeGate_idtEntry, if_pos (by decide), Option.map_none]
  | some handler =>
    cases handler with
    | syscallHandler =>
      rw [entryOf, decodeGate_idtEntry, if_neg (by decide)]
      rfl
    | _ =>
      rw [entryOf, decodeGate_idtEntry, if_neg (by decide)]
      · rfl
      · simp

theorem builtinHandler_eq_syscall : builtinHandler vector = some .syscallHandler ↔ vector = 0x80 := by
  rw [builtinHandler]
  constructor
  · intro same
    split at same
    · cases same
    · split at same
      · cases same
      · by_contra other
        simp [other] at same
  · rintro rfl
    rfl

theorem handlerOf_eq_syscall : handlerOf irqLines vector = some .syscallHandler ↔ vector = 0x80 ∧ 0x60 ∉ irqLines := by
  rw [handlerOf]
  by_cases card : vector - 32 ∈ irqLines
  · rw [if_pos card]
    constructor
    · intro same
      cases same
    · rintro ⟨rfl, free⟩
      exact absurd card free
  · rw [if_neg card, builtinHandler_eq_syscall]
    constructor
    · rintro rfl
      exact ⟨rfl, card⟩
    · exact And.left

theorem decodeGate_bootIdt : decodeGate (bootIdt address irqLines idt vector).bytes =
    (handlerOf irqLines vector).map (gateOf address) := by
  rw [bootIdt_eq, lookup_bootWrites, Option.getD_some, decodeGate_entryOf]

/-- After boot every vector leads to its handler, whatever interrupt lines the network cards have: a vector that
belongs to a card leads to the card's handler, then come the exceptions, the hardware interrupts and the
system call, and the other gates are not present.  User space can use the gate of the system call and no
other; it loses that one if a card has the line `0x60`. -/
theorem vectors_routed (address : Handler → UInt32) (irqLines : List UInt8) (idt : Idt) (vector : UInt8) :
    decodeGate (bootIdt address irqLines idt vector).bytes = (handlerOf irqLines vector).map (gateOf address) ∧
    ((∃ gate, decodeGate (bootIdt address irqLines idt vector).bytes = some gate ∧ gate.dpl = 3) ↔
      vector = 0x80 ∧ 0x60 ∉ irqLines) := by
  refine ⟨decodeGate_bootIdt, ?_⟩
  rw [decodeGate_bootIdt, ← handlerOf_eq_syscall]
  cases handlerOf irqLines vector with
  | none => simp
  | some handler => cases handler <;> simp [gateOf]

end QuantumKernel.Cpu
