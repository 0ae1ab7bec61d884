import Mathlib.Data.Fin.Tuple.Basic
import Mathlib.Data.Fintype.Basic
import Mathlib.Data.Set.Insert

/-! # Two 8259 interrupt controllers

A controller has eight request lines, of which the one with the smallest number goes first.  It remembers a
request until the processor takes it; then the line is in service, and keeps itself and the later lines back,
until the processor writes an end of interrupt.  In a PC the output of a second controller is line 2 of
the first, so there are fifteen lines for devices, here numbered from 0 to 15 without 2.

What the processor sees of all this is `Lines`: a set of pending lines and a set of enabled ones, from
which the first in the order of `rank` is taken.  This holds as long as every interrupt is ended before
the next one is taken (`acknowledge_spec`, `endOfInterrupt_spec`).
-/

namespace I8259

/-- The initialization words that a controller waits for after `ICW1`. -/
inductive Expects
  | icw2 | icw3 | icw4 | nothing
  deriving DecidableEq, Repr

structure Chip where
  requested : Fin 8 → Bool
  inService : Fin 8 → Bool
  mask : UInt8
  base : UInt8
  cascade : UInt8
  mode : UInt8
  single : Bool
  needsIcw4 : Bool
  expects : Expects

namespace Chip

def masked (c : Chip) (i : Fin 8) : Bool := c.mask.toBitVec.getLsbD i

/-- The request has a right to be served. -/
def ready (c : Chip) (requests : Fin 8 → Bool) (i : Fin 8) : Bool :=
  requests i && !c.masked i && decide (∀ j ≤ i, c.inService j = false)

/-- The request that the output of the controller stands for. -/
def output (c : Chip) (requests : Fin 8 → Bool) : Option (Fin 8) := Fin.find? (c.ready requests)

/-- The automatic end of interrupt of `ICW4`. -/
def autoEoi (c : Chip) : Bool := c.mode &&& 2 != 0

def accept (c : Chip) (i : Fin 8) : Chip :=
  { c with
    requested := Function.update c.requested i false
    inService := if c.autoEoi then c.inService else Function.update c.inService i true }

/-- The first line in service is done. -/
def endOfInterrupt (c : Chip) : Chip :=
  match Fin.find? c.inService with
  | some i => { c with inService := Function.update c.inService i false }
  | none => c

/-- A write to the even port: `ICW1`, or an end of interrupt.  The other commands are not needed here. -/
def outCommand (c : Chip) (value : UInt8) : Chip :=
  if value &&& 0x10 ≠ 0 then
    { c with
      requested := fun _ => false
      inService := fun _ => false
      mask := 0
      mode := 0
      single := value &&& 2 != 0
      needsIcw4 := value &&& 1 != 0
      expects := .icw2 }
  else if value = 0x20 then c.endOfInterrupt
  else c

/-- What follows the words that are done. -/
def afterIcw3 (c : Chip) : Expects := if c.needsIcw4 then .icw4 else .nothing

/-- A write to the odd port: the next initialization word, or the mask. -/
def outData (c : Chip) (value : UInt8) : Chip :=
  match c.expects with
  | .icw2 => { c with base := value &&& 0xF8, expects := if c.single then c.afterIcw3 else .icw3 }
  | .icw3 => { c with cascade := value, expects := c.afterIcw3 }
  | .icw4 => { c with mode := value, expects := .nothing }
  | .nothing => { c with mask := value }

end Chip

structure Pair where
  master : Chip
  slave : Chip

namespace Pair

/-- The first controller knows the second, and it the other way round. -/
def cascaded (p : Pair) : Bool := p.master.cascade &&& 4 != 0 && p.slave.cascade == 2

/-- The requests at the first controller. -/
def masterRequests (p : Pair) : Fin 8 → Bool :=
  Function.update p.master.requested 2 (p.slave.output p.slave.requested).isSome

/-- The processor takes an interrupt: the vector that it gets. -/
def acknowledge (p : Pair) : Option (UInt8 × Pair) :=
  match p.master.output p.masterRequests with
  | none => none
  | some i =>
    if i = 2 ∧ p.cascaded then
      match p.slave.output p.slave.requested with
      | none => none
      | some j => some (p.slave.base + UInt8.ofNat j, ⟨p.master.accept 2, p.slave.accept j⟩)
    else some (p.master.base + UInt8.ofNat i, { p with master := p.master.accept i })

/-- A write to a port of the controllers; the other ports are of no concern to them. -/
def out (p : Pair) (port : UInt16) (value : UInt8) : Pair :=
  if port = 0x20 then { p with master := p.master.outCommand value }
  else if port = 0x21 then { p with master := p.master.outData value }
  else if port = 0xA0 then { p with slave := p.slave.outCommand value }
  else if port = 0xA1 then { p with slave := p.slave.outData value }
  else p

/-- A read of one of the two masks. -/
def inMask (p : Pair) (port : UInt16) : UInt8 := if port = 0x21 then p.master.mask else p.slave.mask

/-- A device requests an interrupt; no device is connected to line 2. -/
def request (p : Pair) (line : Fin 16) : Pair :=
  if line = 2 then p
  else if bound : line.val < 8 then
    { p with master.requested := Function.update p.master.requested ⟨line, bound⟩ true }
  else
    { p with slave.requested := Function.update p.slave.requested ⟨line - 8, by omega⟩ true }

end Pair

/-! ## The lines -/

/-- The order in which lines are served. -/
def rank (line : Fin 16) : Nat :=
  if line.val < 2 then line else if 8 ≤ line.val then line - 6 else line + 7

structure Lines where
  pending : Set (Fin 16)
  enabled : Set (Fin 16)

/-- A line that can be taken.  Those of the second controller need line 2, too. -/
def Lines.Deliverable (s : Lines) (line : Fin 16) : Prop :=
  line ∈ s.pending ∧ line ∈ s.enabled ∧ (8 ≤ line.val → 2 ∈ s.enabled)

/-- A line that can be taken, and no other that can be goes before it. -/
structure Lines.First (s : Lines) (line : Fin 16) : Prop where
  deliverable : s.Deliverable line
  first {other : Fin 16} : s.Deliverable other → rank line ≤ rank other

def Pair.requestedLine (p : Pair) (line : Fin 16) : Bool :=
  if bound : line.val < 8 then line != 2 && p.master.requested ⟨line, bound⟩
  else p.slave.requested ⟨line - 8, by omega⟩

def Pair.maskedLine (p : Pair) (line : Fin 16) : Bool :=
  if bound : line.val < 8 then p.master.masked ⟨line, bound⟩ else p.slave.masked ⟨line - 8, by omega⟩

/-- What the processor sees of the two controllers. -/
def Pair.lines (p : Pair) : Lines where
  pending := { line | p.requestedLine line = true }
  enabled := { line | p.maskedLine line = false }

/-- The vector of a line. -/
def Pair.vector (p : Pair) (line : Fin 16) : UInt8 :=
  if line.val < 8 then p.master.base + UInt8.ofNat line else p.slave.base + UInt8.ofNat (line - 8)

/-- A controller between two interrupts. -/
structure Chip.Idle (c : Chip) : Prop where
  expects : c.expects = .nothing
  inService : c.inService = fun _ => false
  manual : c.autoEoi = false

/-- Both controllers between two interrupts, initialized for each other. -/
structure Pair.Idle (p : Pair) : Prop where
  master : p.master.Idle
  slave : p.slave.Idle
  cascaded : p.cascaded = true

/-- The processor has taken the interrupt of a line. -/
def Pair.taken (p : Pair) (line : Fin 16) : Pair :=
  if bound : line.val < 8 then { p with master := p.master.accept ⟨line, bound⟩ }
  else ⟨p.master.accept 2, p.slave.accept ⟨line - 8, by omega⟩⟩

/-- The request of a line is served. -/
def Pair.served (p : Pair) (line : Fin 16) : Pair :=
  if bound : line.val < 8 then
    { p with master.requested := Function.update p.master.requested ⟨line, bound⟩ false }
  else
    { p with
      master.requested := Function.update p.master.requested 2 false
      slave.requested := Function.update p.slave.requested ⟨line - 8, by omega⟩ false }

variable {c : Chip} {p p' : Pair} {i : Fin 8} {requests : Fin 8 → Bool} {line : Fin 16} {value : UInt8}
  {vector : UInt8}

/-! ## One controller -/

theorem Chip.Idle.ready (idle : c.Idle) : c.ready requests i = (requests i && !c.masked i) := by
  simp [Chip.ready, idle.inService]

theorem Chip.Idle.output_eq_some (idle : c.Idle) : c.output requests = some i ↔
    (requests i = true ∧ c.masked i = false) ∧ ∀ j < i, requests j = true → c.masked j = true := by
  rw [Chip.output, Fin.find?_eq_some_iff]
  simp [idle.ready]

theorem Chip.Idle.output_eq_none (idle : c.Idle) : c.output requests = none ↔
    ∀ i, requests i = true → c.masked i = true := by
  rw [Chip.output, Fin.find?_eq_none_iff]
  simp [idle.ready]

theorem Chip.Idle.endOfInterrupt (idle : c.Idle) : c.endOfInterrupt = c := by
  have none : Fin.find? c.inService = none := by
    rw [Fin.find?_eq_none_iff, idle.inService]
    exact fun _ => rfl
  rw [Chip.endOfInterrupt, none]

/-- The end of the only interrupt in service. -/
theorem Chip.Idle.endOfInterrupt_accept (idle : c.Idle) : (c.accept i).endOfInterrupt =
    { c with requested := Function.update c.requested i false } := by
  have taken : (c.accept i).inService = Function.update (fun _ => false) i true := by
    simp [Chip.accept, idle.manual, idle.inService]
  have first : Fin.find? (c.accept i).inService = some i := by
    rw [Fin.find?_eq_some_iff, taken]
    constructor
    · simp
    · intro j before
      simp [Function.update_of_ne (Fin.ne_of_lt before)]
  rw [Chip.endOfInterrupt, first, taken]
  simp [Chip.accept, idle.inService]

/-! ## Lines of the first and of the second controller -/

def low (i : Fin 8) : Fin 16 := ⟨i, by omega⟩

def high (j : Fin 8) : Fin 16 := ⟨j + 8, by omega⟩

theorem line_cases (line : Fin 16) : (∃ i, line = low i) ∨ ∃ j, line = high j := by
  by_cases bound : line.val < 8
  · exact .inl ⟨⟨line, bound⟩, rfl⟩
  · refine .inr ⟨⟨line - 8, by omega⟩, Fin.ext ?_⟩
    simp only [high]
    omega

section

variable {j : Fin 8}

@[simp] theorem low_val : (low i).val = i := rfl

@[simp] theorem high_val : (high j).val = j + 8 := rfl

theorem low_eq_two : low i = 2 ↔ i = 2 := by
  simp only [Fin.ext_iff, low_val, Fin.val_two]

@[simp] theorem low_inj {i' : Fin 8} : low i = low i' ↔ i = i' := by
  simp [Fin.ext_iff]

@[simp] theorem high_inj {j' : Fin 8} : high j = high j' ↔ j = j' := by
  simp [Fin.ext_iff]

@[simp] theorem low_ne_high : low i ≠ high j := by
  simp only [ne_eq, Fin.ext_iff, low_val, high_val]
  omega

theorem low_beq_two : (low i == 2) = (i == 2) := by
  revert i
  decide

@[simp] theorem requestedLine_low : p.requestedLine (low i) = (i != 2 && p.master.requested i) := by
  simp [Pair.requestedLine, bne, low_beq_two]

@[simp] theorem requestedLine_high : p.requestedLine (high j) = p.slave.requested j := by
  simp [Pair.requestedLine]

@[simp] theorem maskedLine_low : p.maskedLine (low i) = p.master.masked i := by
  simp [Pair.maskedLine]

@[simp] theorem maskedLine_high : p.maskedLine (high j) = p.slave.masked j := by
  simp [Pair.maskedLine]

@[simp] theorem vector_low : p.vector (low i) = p.master.base + UInt8.ofNat i := by
  simp [Pair.vector]

@[simp] theorem vector_high : p.vector (high j) = p.slave.base + UInt8.ofNat j := by
  simp [Pair.vector]

@[simp] theorem taken_low : p.taken (low i) = { p with master := p.master.accept i } := by
  simp [Pair.taken]

@[simp] theorem taken_high : p.taken (high j) = ⟨p.master.accept 2, p.slave.accept j⟩ := by
  simp [Pair.taken]

theorem deliverable_low : p.lines.Deliverable (low i) ↔
    i ≠ 2 ∧ p.master.requested i = true ∧ p.master.masked i = false := by
  simp [Lines.Deliverable, Pair.lines, and_assoc]

theorem deliverable_high : p.lines.Deliverable (high j) ↔
    p.slave.requested j = true ∧ p.slave.masked j = false ∧ p.master.masked 2 = false := by
  have cascade : p.maskedLine 2 = p.master.masked 2 := rfl
  simp [Lines.Deliverable, Pair.lines, cascade]

theorem rank_low : rank (low i) = if i.val < 2 then i.val else i + 7 := by
  simp [rank, show ¬ 8 ≤ i.val by omega]

theorem rank_high : rank (high j) = j + 2 := by
  simp [rank]

end

/-! ## The processor takes an interrupt -/

theorem masterRequests_of_ne (other : i ≠ 2) : p.masterRequests i = p.master.requested i :=
  Function.update_of_ne other _ _

theorem masterRequests_two : p.masterRequests 2 = (p.slave.output p.slave.requested).isSome :=
  Function.update_self _ _ _

/-- A line of the second controller that can be taken shows at the first. -/
theorem Pair.Idle.masterRequests_of_deliverable (idle : p.Idle) {j : Fin 8}
    (deliverable : p.lines.Deliverable (high j)) : p.masterRequests 2 = true := by
  obtain ⟨requested, open_, _⟩ := deliverable_high.mp deliverable
  rw [masterRequests_two, Option.isSome_iff_ne_none]
  intro none
  have masked := idle.slave.output_eq_none.mp none j requested
  simp [open_] at masked

theorem Pair.Idle.first_low (idle : p.Idle) (other : i ≠ 2)
    (output : p.master.output p.masterRequests = some i) : p.lines.First (low i) := by
  obtain ⟨⟨requested, open_⟩, before⟩ := idle.master.output_eq_some.mp output
  rw [masterRequests_of_ne other] at requested
  constructor
  · exact deliverable_low.mpr ⟨other, requested, open_⟩
  · intro line deliverable
    obtain ⟨k, rfl⟩ | ⟨j, rfl⟩ := line_cases line
    · obtain ⟨notCascade, requested, open_⟩ := deliverable_low.mp deliverable
      have later : ¬ k < i := by
        intro earlier
        have masked := before k earlier (by rw [masterRequests_of_ne notCascade, requested])
        simp [open_] at masked
      rw [rank_low, rank_low]
      split <;> split <;> omega
    · have open_ := (deliverable_high.mp deliverable).2.2
      have later : ¬ 2 < i := by
        intro earlier
        have masked := before 2 earlier (idle.masterRequests_of_deliverable deliverable)
        simp [open_] at masked
      rw [rank_low, rank_high]
      split <;> omega

theorem Pair.Idle.first_high (idle : p.Idle) {j : Fin 8} (output : p.master.output p.masterRequests = some 2)
    (slave : p.slave.output p.slave.requested = some j) : p.lines.First (high j) := by
  obtain ⟨⟨_, cascadeOpen⟩, before⟩ := idle.master.output_eq_some.mp output
  obtain ⟨⟨requested, open_⟩, slaveBefore⟩ := idle.slave.output_eq_some.mp slave
  constructor
  · exact deliverable_high.mpr ⟨requested, open_, cascadeOpen⟩
  · intro line deliverable
    obtain ⟨k, rfl⟩ | ⟨k, rfl⟩ := line_cases line
    · obtain ⟨notCascade, requested, open_⟩ := deliverable_low.mp deliverable
      have later : ¬ k < 2 := by
        intro earlier
        have masked := before k earlier (by rw [masterRequests_of_ne notCascade, requested])
        simp [open_] at masked
      rw [rank_low, rank_high]
      split <;> omega
    · obtain ⟨requested, open_, _⟩ := deliverable_high.mp deliverable
      have later : ¬ k < j := by
        intro earlier
        have masked := slaveBefore k earlier requested
        simp [open_] at masked
      rw [rank_high, rank_high]
      omega

theorem Pair.Idle.acknowledge_some (idle : p.Idle) (taken : p.acknowledge = some (vector, p')) :
    ∃ line, p.lines.First line ∧ vector = p.vector line ∧ p' = p.taken line := by
  rw [acknowledge] at taken
  split at taken
  · cases taken
  · rename_i i output
    by_cases cascade : i = 2
    · subst cascade
      rw [if_pos ⟨rfl, idle.cascaded⟩] at taken
      split at taken
      · cases taken
      · rename_i j slave
        cases taken
        exact ⟨high j, idle.first_high output slave, vector_high.symm, taken_high.symm⟩
    · rw [if_neg (fun both => cascade both.1)] at taken
      cases taken
      exact ⟨low i, idle.first_low cascade output, vector_low.symm, taken_low.symm⟩

/-- An interrupt is taken whenever a line can be. -/
theorem Pair.Idle.acknowledge_none (idle : p.Idle) (none : p.acknowledge = none) (line : Fin 16) :
    ¬ p.lines.Deliverable line := by
  intro deliverable
  rw [acknowledge] at none
  split at none
  · rename_i output
    have masked := idle.master.output_eq_none.mp output
    obtain ⟨k, rfl⟩ | ⟨j, rfl⟩ := line_cases line
    · obtain ⟨notCascade, requested, open_⟩ := deliverable_low.mp deliverable
      have closed := masked k (by rw [masterRequests_of_ne notCascade, requested])
      simp [open_] at closed
    · have closed := masked 2 (idle.masterRequests_of_deliverable deliverable)
      simp [(deliverable_high.mp deliverable).2.2] at closed
  · rename_i i output
    split at none
    · rename_i cascade
      have shown := (idle.master.output_eq_some.mp output).1.1
      rw [cascade.1, masterRequests_two] at shown
      split at none
      · rename_i silent
        simp [silent] at shown
      · cases none
    · cases none

/-! ## The end of an interrupt -/

/-- The writes to ports, one after the other. -/
def Pair.outs (p : Pair) (writes : List (UInt16 × UInt8)) : Pair :=
  writes.foldl (fun p write => p.out write.1 write.2) p

theorem Pair.out_endOfMaster : p.out 0x20 0x20 = { p with master := p.master.endOfInterrupt } := rfl

theorem Pair.out_endOfSlave : p.out 0xA0 0x20 = { p with slave := p.slave.endOfInterrupt } := rfl

/-- The ends of interrupt for a line.  The second controller must be told about its own lines, and may be
told about the others. -/
inductive EndsOf : Fin 16 → List (UInt16 × UInt8) → Prop
  | master {line : Fin 16} : line.val < 8 → EndsOf line [(0x20, 0x20)]
  | both {line : Fin 16} : EndsOf line [(0xA0, 0x20), (0x20, 0x20)]

theorem Pair.Idle.endOfInterrupt_taken (idle : p.Idle) {writes : List (UInt16 × UInt8)}
    (ends : EndsOf line writes) : (p.taken line).outs writes = p.served line := by
  cases ends with
  | master bound =>
    obtain ⟨i, rfl⟩ : ∃ i, line = low i := ⟨⟨line, bound⟩, rfl⟩
    simp [outs, out_endOfMaster, idle.master.endOfInterrupt_accept, served]
  | both =>
    obtain ⟨i, rfl⟩ | ⟨j, rfl⟩ := line_cases line
    · simp [outs, out_endOfMaster, out_endOfSlave, idle.slave.endOfInterrupt, idle.master.endOfInterrupt_accept,
        served]
    · simp [outs, out_endOfMaster, out_endOfSlave, idle.slave.endOfInterrupt_accept,
        idle.master.endOfInterrupt_accept, served]

theorem Pair.Idle.served (idle : p.Idle) : (p.served line).Idle := by
  rw [Pair.served]
  split
  · exact ⟨⟨idle.master.expects, idle.master.inService, idle.master.manual⟩, idle.slave, idle.cascaded⟩
  · exact ⟨⟨idle.master.expects, idle.master.inService, idle.master.manual⟩,
      ⟨idle.slave.expects, idle.slave.inService, idle.slave.manual⟩, idle.cascaded⟩

theorem Pair.Idle.request (idle : p.Idle) : (p.request line).Idle := by
  rw [Pair.request]
  split
  · exact idle
  · split
    · exact ⟨⟨idle.master.expects, idle.master.inService, idle.master.manual⟩, idle.slave, idle.cascaded⟩
    · exact ⟨idle.master, ⟨idle.slave.expects, idle.slave.inService, idle.slave.manual⟩, idle.cascaded⟩

/-! ## What happens to the lines -/

theorem served_low : p.served (low i) =
    { p with master.requested := Function.update p.master.requested i false } := by
  simp [Pair.served]

theorem served_high {j : Fin 8} : p.served (high j) =
    { p with
      master.requested := Function.update p.master.requested 2 false
      slave.requested := Function.update p.slave.requested j false } := by
  simp [Pair.served]

theorem request_low (other : i ≠ 2) : p.request (low i) =
    { p with master.requested := Function.update p.master.requested i true } := by
  simp [Pair.request, low_eq_two, other]

theorem request_high {j : Fin 8} : p.request (high j) =
    { p with slave.requested := Function.update p.slave.requested j true } := by
  have other : high j ≠ 2 := by
    intro same
    have value := congrArg Fin.val same
    simp at value
  simp [Pair.request, other]

theorem served_maskedLine {other : Fin 16} : (p.served line).maskedLine other = p.maskedLine other := by
  rw [Pair.served]
  split <;> rfl

theorem request_maskedLine {other : Fin 16} : (p.request line).maskedLine other = p.maskedLine other := by
  rw [Pair.request]
  split
  · rfl
  · split <;> rfl

theorem Lines.ext {s t : Lines} (pending : ∀ line, line ∈ s.pending ↔ line ∈ t.pending)
    (enabled : ∀ line, line ∈ s.enabled ↔ line ∈ t.enabled) : s = t := by
  cases s
  cases t
  congr 1
  · exact Set.ext pending
  · exact Set.ext enabled

/-- The line is no longer pending, and nothing else has changed. -/
theorem served_lines : (p.served line).lines = { p.lines with pending := p.lines.pending \ {line} } := by
  apply Lines.ext
  · intro other
    obtain ⟨i, rfl⟩ | ⟨j, rfl⟩ := line_cases line
    · obtain ⟨k, rfl⟩ | ⟨k, rfl⟩ := line_cases other
      · by_cases same : k = i <;> simp [served_low, Pair.lines, same]
      · simp [served_low, Pair.lines, low_ne_high.symm]
    · obtain ⟨k, rfl⟩ | ⟨k, rfl⟩ := line_cases other
      · by_cases two : k = 2 <;> simp [served_high, Pair.lines, two]
      · by_cases same : k = j <;> simp [served_high, Pair.lines, same]
  · intro other
    simp [Pair.lines, served_maskedLine]

theorem request_lines (device : line ≠ 2) :
    (p.request line).lines = { p.lines with pending := insert line p.lines.pending } := by
  apply Lines.ext
  · intro other
    obtain ⟨i, rfl⟩ | ⟨j, rfl⟩ := line_cases line
    · have notCascade : i ≠ 2 := fun same => device (low_eq_two.mpr same)
      obtain ⟨k, rfl⟩ | ⟨k, rfl⟩ := line_cases other
      · by_cases same : k = i <;> simp [request_low notCascade, Pair.lines, same, notCascade]
      · simp [request_low notCascade, Pair.lines, low_ne_high.symm]
    · obtain ⟨k, rfl⟩ | ⟨k, rfl⟩ := line_cases other
      · simp [request_high, Pair.lines]
      · by_cases same : k = j <;> simp [request_high, Pair.lines, same]
  · intro other
    simp [Pair.lines, request_maskedLine]

end I8259
