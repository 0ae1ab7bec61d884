import QuantumKernel.Library.RingBuffer
import QuantumKernel.Library.Transition

/-! # Keys from the keyboard to `SYS_READ`

`keyboard_irq` turns scancodes into bytes and puts them into a ring of 128 cells, one of
which stays free; `SYS_READ` takes them out with `kbd_pop`.  A `char` is signed, so `kbd_pop`
returns a negative number for the four arrow keys, which `SYS_READ` takes for an empty ring.
-/

namespace QuantumKernel.Keyboard

open RingBuffer Transition

/-- `KBD_BUF_SIZE`. -/
def kbdBufSize : UInt32 := 128

def keyUp : UInt8 := 0x80
def keyDown : UInt8 := 0x81
def keyLeft : UInt8 := 0x82
def keyRight : UInt8 := 0x83

/-- The entries that `keymap` lists; the others are 0. -/
def keymapEntries : List UInt8 :=
  [0x00, 0x1B, 0x31, 0x32, 0x33, 0x34, 0x35, 0x36,
   0x37, 0x38, 0x39, 0x30, 0x2D, 0x3D, 0x08, 0x09,
   0x71, 0x77, 0x65, 0x72, 0x74, 0x79, 0x75, 0x69,
   0x6F, 0x70, 0x5B, 0x5D, 0x0A, 0x00, 0x61, 0x73,
   0x64, 0x66, 0x67, 0x68, 0x6A, 0x6B, 0x6C, 0x3B,
   0x27, 0x60, 0x00, 0x5C, 0x7A, 0x78, 0x63, 0x76,
   0x62, 0x6E, 0x6D, 0x2C, 0x2E, 0x2F, 0x00, 0x2A,
   0x00, 0x20]

/-- `keymap[sc]`. -/
def keymap (sc : UInt8) : UInt8 := keymapEntries.getD sc.toNat 0

/-- The static variables of `keyboard.c`. -/
structure Kbd where
  kbdBuf : List UInt8
  kbdHead : UInt32
  kbdTail : UInt32
  extended : Bool

/-- The static variables before any function has run. -/
def Kbd.zero : Kbd := ⟨List.replicate 128 0, 0, 0, false⟩

/-- The ring has no free cell for a further byte. -/
def Kbd.isFull (k : Kbd) : Bool := (k.kbdHead + 1) % kbdBufSize == k.kbdTail

/-- `kbd_push`. -/
def kbdPush (k : Kbd) (c : UInt8) : Kbd :=
  if k.isFull then k
  else { k with kbdBuf := k.kbdBuf.set k.kbdHead.toNat c, kbdHead := (k.kbdHead + 1) % kbdBufSize }

/-- `kbd_pop`; the byte is a `char`, which is signed. -/
def kbdPop (k : Kbd) : Int32 × Kbd :=
  if k.kbdHead = k.kbdTail then (-1, k)
  else
    let c := k.kbdBuf.getD k.kbdTail.toNat 0
    (c.toInt8.toInt32, { k with kbdTail := (k.kbdTail + 1) % kbdBufSize })

/-- The switch of `keyboard_irq` after `0xE0`. -/
def extendedKey (sc : UInt8) : Option UInt8 :=
  if sc = 0x48 then some keyUp
  else if sc = 0x50 then some keyDown
  else if sc = 0x4B then some keyLeft
  else if sc = 0x4D then some keyRight
  else none

/-- What `keyboard_irq` passes to `kbd_push` for a scancode, and `extended` afterwards. -/
def scancode (extended : Bool) (sc : UInt8) : Option UInt8 × Bool :=
  if sc = 0xE0 then (none, true)
  else if sc &&& 0x80 ≠ 0 then (none, false)
  else if extended then (extendedKey sc, false)
  else (if keymap sc ≠ 0 then some (keymap sc) else none, extended)

/-- `keyboard_irq`. -/
def keyboardIrq (k : Kbd) (sc : UInt8) : Kbd :=
  match scancode k.extended sc with
  | (some c, extended) => kbdPush { k with extended := extended } c
  | (none, extended) => { k with extended := extended }

/-- The loop of `SYS_READ`, with room for `room` more bytes. -/
def readLoop : Nat → Kbd → List UInt8 → List UInt8 × Kbd
  | 0, k, buf => (buf, k)
  | room + 1, k, buf =>
    match kbdPop k with
    | (c, k) => if c < 0 then (buf, k) else readLoop room k (buf ++ [c.toInt8.toUInt8])

/-- `SYS_READ`: the bytes in the caller's buffer; their number is the result. -/
def sysRead (k : Kbd) (len : UInt32) : List UInt8 × Kbd := readLoop len.toNat k []

/-! ## Runs -/

/-- An interrupt with a scancode, or a request for `len` bytes. -/
inductive KeyCall
  | irq (sc : UInt8)
  | read (len : UInt32)

/-- The bytes that `kbd_push` accepted and those that `SYS_READ` delivered. -/
structure KeyReply where
  accepted : List UInt8
  delivered : List UInt8
  deriving DecidableEq

/-- The byte of a scancode, if the ring has room for it. -/
def acceptedOf (k : Kbd) (sc : UInt8) : List UInt8 :=
  if k.isFull then [] else (scancode k.extended sc).1.toList

def Kbd.step (k : Kbd) : KeyCall → Option (KeyReply × Kbd)
  | .irq sc => some (⟨acceptedOf k sc, []⟩, keyboardIrq k sc)
  | .read len => some (⟨[], (sysRead k len).1⟩, (sysRead k len).2)

/-- How many bytes are in the ring. -/
def Kbd.count (k : Kbd) : Nat := (k.kbdHead.toNat + 128 - k.kbdTail.toNat) % 128

/-- The bytes in the ring, the oldest first. -/
def Kbd.pending (k : Kbd) : List UInt8 :=
  (List.range k.count).map fun i => k.kbdBuf.getD ((k.kbdTail.toNat + i) % 128) 0

/-- What the calls of a run accepted, and what they delivered. -/
def accepted (calls : List (KeyCall × KeyReply)) : List UInt8 := calls.flatMap fun call => call.2.accepted
def delivered (calls : List (KeyCall × KeyReply)) : List UInt8 := calls.flatMap fun call => call.2.delivered

/-- `SYS_READ` returns fewer bytes than it was asked for only if no byte is left. -/
def ReadsAll (k : Kbd) : KeyCall → Prop
  | .irq _ => True
  | .read len => (sysRead k len).1.length < len.toNat → (sysRead k len).2.pending = []

/-- `SYS_READ` reaches no arrow key: the bytes that it can take out are below `0x80`. -/
def ReachesNoArrow (k : Kbd) : KeyCall → Prop
  | .irq _ => True
  | .read len => ∀ c ∈ k.pending.take len.toNat, c < 0x80

/-- The indices lie in the ring. -/
structure Kbd.Valid (k : Kbd) : Prop where
  length : k.kbdBuf.length = 128
  head : k.kbdHead.toNat < 128
  tail : k.kbdTail.toNat < 128

variable {k k' : Kbd} {c sc : UInt8} {rest buf : List UInt8} {room : Nat} {call : KeyCall} {r : KeyReply}
  {calls : List (KeyCall × KeyReply)}

/-! ## The ring -/

theorem next_toNat (x : UInt32) : ((x + 1) % kbdBufSize).toNat = (x.toNat + 1) % 128 := by
  simp only [kbdBufSize, UInt32.toNat_mod, UInt32.toNat_add, UInt32.reduceToNat]
  omega

theorem Kbd.Valid.isFull (valid : k.Valid) : k.isFull = true ↔ k.count = 127 := by
  have head := valid.head
  have tail := valid.tail
  rw [Kbd.isFull, beq_iff_eq, ← UInt32.toNat_inj, next_toNat k.kbdHead, Kbd.count]
  omega

theorem Kbd.Valid.isEmpty (valid : k.Valid) : k.kbdHead = k.kbdTail ↔ k.count = 0 := by
  have head := valid.head
  have tail := valid.tail
  rw [← UInt32.toNat_inj, Kbd.count]
  omega

theorem Kbd.pending_length (k : Kbd) : k.pending.length = k.count := by
  rw [pending, List.length_map, List.length_range]

/-- The ring holds the bytes from `kbd_tail` on. -/
theorem Kbd.Valid.holds (valid : k.Valid) : Holds 128 k.kbdBuf k.kbdTail.toNat k.pending := by
  intro i bound
  have inside : (k.kbdTail.toNat + i) % 128 < k.kbdBuf.length := by
    rw [valid.length]
    exact Nat.mod_lt _ (by decide)
  rw [Kbd.pending_length] at bound
  rw [Kbd.pending, List.getElem?_map, List.getElem?_range bound, List.getElem?_eq_getElem inside]
  simp [List.getD_eq_getElem?_getD, List.getElem?_eq_getElem inside]

/-- The bytes are known by what the ring holds. -/
theorem Kbd.pending_eq (length : rest.length = k.count) (holds : Holds 128 k.kbdBuf k.kbdTail.toNat rest) :
    k.pending = rest := by
  refine List.ext_getElem? fun i => ?_
  by_cases bound : i < k.count
  · have cell := holds i (by omega)
    have value : rest[i]? = some rest[i] := List.getElem?_eq_getElem (by omega)
    rw [Kbd.pending, List.getElem?_map, List.getElem?_range bound, Option.map_some,
      List.getD_eq_getElem?_getD, cell, value, Option.getD_some]
  · rw [List.getElem?_eq_none, List.getElem?_eq_none]
    · omega
    · rw [Kbd.pending_length]
      omega

theorem Kbd.Valid.push (valid : k.Valid) (c : UInt8) : (kbdPush k c).Valid := by
  rw [kbdPush]
  split
  · exact valid
  · have next := next_toNat k.kbdHead
    refine ⟨by rw [List.length_set, valid.length], ?_, valid.tail⟩
    show ((k.kbdHead + 1) % kbdBufSize).toNat < 128
    omega

/-- `kbd_push` puts a byte behind the others, if there is room. -/
theorem Kbd.Valid.push_pending (valid : k.Valid) (c : UInt8) :
    (kbdPush k c).pending = if k.isFull then k.pending else k.pending ++ [c] := by
  rw [kbdPush]
  split
  · rfl
  · rename_i room
    have head := valid.head
    have tail := valid.tail
    have next := next_toNat k.kbdHead
    have notFull : k.count ≠ 127 := fun full => room (valid.isFull.mpr full)
    have length := k.pending_length
    have place : (k.kbdTail.toNat + k.pending.length) % 128 = k.kbdHead.toNat % 128 := by
      rw [length, Kbd.count]
      omega
    have below : k.count < 127 := by
      rw [Kbd.count] at notFull ⊢
      omega
    refine Kbd.pending_eq ?_ ?_
    · simp only [List.length_append, length, List.length_singleton, Kbd.count, next]
      rw [Kbd.count] at below
      omega
    · -- the byte is written behind the data, less than a round later
      have written : Holds 128
          (RingBuffer.write 128 k.kbdBuf (k.kbdTail.toNat + k.pending.length) [c]) k.kbdTail.toNat k.pending :=
        valid.holds.write (le_refl _) (by simp only [List.length_singleton]; omega)
      have wrote : RingBuffer.write 128 k.kbdBuf (k.kbdTail.toNat + k.pending.length) [c] =
          k.kbdBuf.set k.kbdHead.toNat c := by
        rw [RingBuffer.write, RingBuffer.write, place, Nat.mod_eq_of_lt head]
      rw [wrote] at written
      intro i bound
      rw [List.length_append, List.length_singleton] at bound
      by_cases old : i < k.pending.length
      · rw [List.getElem?_append_left old]
        exact written i old
      · obtain rfl : i = k.pending.length := by omega
        rw [List.getElem?_append_right (le_refl _), Nat.sub_self, place, Nat.mod_eq_of_lt head,
          List.getElem?_set_self (by rw [valid.length]; exact head)]
        rfl

theorem kbdPop_empty (valid : k.Valid) (empty : k.pending = []) : kbdPop k = (-1, k) := by
  have none := k.pending_length
  rw [empty, List.length_nil] at none
  rw [kbdPop, if_pos (valid.isEmpty.mpr none.symm)]

/-- `kbd_pop` takes out the oldest byte. -/
theorem kbdPop_cons (valid : k.Valid) (pending : k.pending = c :: rest) :
    ∃ k', kbdPop k = (c.toInt8.toInt32, k') ∧ k'.Valid ∧ k'.pending = rest := by
  have holds := valid.holds
  have length := k.pending_length
  have head := valid.head
  have tail := valid.tail
  have next := next_toNat k.kbdTail
  rw [pending] at holds length
  rw [List.length_cons] at length
  have some_ : ¬ k.kbdHead = k.kbdTail := fun same => by
    rw [valid.isEmpty.mp same] at length
    omega
  have oldest : k.kbdBuf.getD k.kbdTail.toNat 0 = c := by
    have cell := holds 0 (by simp)
    rw [Nat.add_zero, Nat.mod_eq_of_lt tail] at cell
    rw [List.getD_eq_getElem?_getD, cell]
    rfl
  refine ⟨{ k with kbdTail := (k.kbdTail + 1) % kbdBufSize }, by rw [kbdPop, if_neg some_, oldest],
    ⟨valid.length, head, ?_⟩, Kbd.pending_eq ?_ ?_⟩
  · show ((k.kbdTail + 1) % kbdBufSize).toNat < 128
    omega
  · simp only [Kbd.count, next] at length ⊢
    omega
  · intro i bound
    have cell := holds (i + 1) (by rw [List.length_cons]; omega)
    have place : (((k.kbdTail + 1) % kbdBufSize).toNat + i) % 128 = (k.kbdTail.toNat + (i + 1)) % 128 := by omega
    rw [place, cell]
    rfl

/-! ## `SYS_READ` -/

/-- What `SYS_READ` makes of the bytes in the ring: it delivers bytes up to an arrow key, which
it takes out as well. -/
def readList : Nat → List UInt8 → List UInt8 × List UInt8
  | 0, pending => ([], pending)
  | _ + 1, [] => ([], [])
  | room + 1, c :: rest =>
    if c < 0x80 then (c :: (readList room rest).1, (readList room rest).2) else ([], rest)

/-- A `char` is negative from `0x80` on. -/
theorem char_nonneg_iff : ¬ c.toInt8.toInt32 < 0 ↔ c < 0x80 := by
  have bound := c.toNat_lt
  rw [Int32.lt_iff_toInt_lt, UInt8.lt_iff_toNat_lt, Int8.toInt_toInt32]
  show ¬ c.toBitVec.toInt < 0 ↔ c.toBitVec.toNat < 128
  rw [BitVec.toInt_eq_toNat_cond]
  split
  · omega
  · omega

theorem char_of_int (c : UInt8) : c.toInt8.toInt32.toInt8.toUInt8 = c := by simp

theorem readLoop_spec (valid : k.Valid) (room : Nat) (buf : List UInt8) :
    ∃ k', readLoop room k buf = (buf ++ (readList room k.pending).1, k') ∧ k'.Valid ∧
      k'.pending = (readList room k.pending).2 := by
  induction room generalizing k buf with
  | zero => exact ⟨k, by simp [readLoop, readList], valid, rfl⟩
  | succ room ih =>
    cases pending : k.pending with
    | nil =>
      refine ⟨k, ?_, valid, pending⟩
      rw [readLoop, kbdPop_empty valid pending, readList, List.append_nil]
      rfl
    | cons c rest =>
      obtain ⟨k₁, pop, valid₁, pending₁⟩ := kbdPop_cons valid pending
      rw [readLoop, pop, readList]
      by_cases plain : c < 0x80
      · obtain ⟨k', loop, valid', pending'⟩ := ih valid₁ (buf ++ [c])
        rw [pending₁] at loop pending'
        refine ⟨k', ?_, valid', ?_⟩
        · simp only [if_neg (char_nonneg_iff.mpr plain), char_of_int, loop, if_pos plain, List.append_assoc,
            List.singleton_append]
        · rw [if_pos plain, pending']
      · have negative := not_not.mp fun nonneg => plain (char_nonneg_iff.mp nonneg)
        refine ⟨k₁, ?_, valid₁, ?_⟩
        · simp only [if_pos negative, if_neg plain, List.append_nil]
        · rw [if_neg plain, pending₁]

theorem sysRead_spec (valid : k.Valid) (len : UInt32) :
    (sysRead k len).1 = (readList len.toNat k.pending).1 ∧ (sysRead k len).2.Valid ∧
      (sysRead k len).2.pending = (readList len.toNat k.pending).2 := by
  obtain ⟨k', loop, valid', pending'⟩ := readLoop_spec valid len.toNat []
  rw [sysRead, loop]
  exact ⟨rfl, valid', pending'⟩

/-- Without an arrow key the bytes are delivered as they are. -/
theorem readList_plain {pending : List UInt8} (plain : ∀ c ∈ pending.take room, c < 0x80) :
    readList room pending = (pending.take room, pending.drop room) := by
  induction room generalizing pending with
  | zero => rfl
  | succ room ih =>
    cases pending with
    | nil => rfl
    | cons c rest =>
      rw [List.take_succ_cons] at plain
      have first := plain c List.mem_cons_self
      have later := ih fun d member => plain d (List.mem_cons_of_mem c member)
      rw [readList, if_pos first, later]
      rfl

/-- An arrow key is lost. -/
theorem readList_arrow {pending : List UInt8} (arrow : ¬ ∀ c ∈ pending.take room, c < 0x80) :
    (readList room pending).1.length + (readList room pending).2.length + 1 = pending.length := by
  induction room generalizing pending with
  | zero => exact absurd (fun c member => absurd member List.not_mem_nil) arrow
  | succ room ih =>
    cases pending with
    | nil => exact absurd (fun c member => absurd member List.not_mem_nil) arrow
    | cons c rest =>
      rw [readList]
      by_cases plain : c < 0x80
      · have later : ¬ ∀ d ∈ rest.take room, d < 0x80 := by
          intro all
          refine arrow fun d member => ?_
          rcases List.mem_cons.mp member with rfl | inRest
          · exact plain
          · exact all d inRest
        have lengths := ih later
        rw [if_pos plain]
        simp only [List.length_cons]
        omega
      · rw [if_neg plain, List.length_cons, List.length_nil, Nat.zero_add]

/-! ## Runs -/

theorem keyboardIrq_spec (valid : k.Valid) (sc : UInt8) :
    (keyboardIrq k sc).Valid ∧ (keyboardIrq k sc).pending = k.pending ++ acceptedOf k sc := by
  have moved (extended : Bool) : ({ k with extended := extended } : Kbd).Valid :=
    ⟨valid.length, valid.head, valid.tail⟩
  rw [keyboardIrq, acceptedOf]
  cases decoded : scancode k.extended sc with
  | mk key extended =>
    cases key with
    | none =>
      refine ⟨moved extended, ?_⟩
      rw [Option.toList_none, ite_self, List.append_nil]
      rfl
    | some c =>
      refine ⟨(moved extended).push c, ?_⟩
      have pushed := (moved extended).push_pending c
      simp only [Option.toList_some]
      rw [pushed]
      by_cases full : k.isFull
      · rw [if_pos full, if_pos (show Kbd.isFull { k with extended := extended } = true from full), List.append_nil]
        rfl
      · rw [if_neg full, if_neg (show ¬ Kbd.isFull { k with extended := extended } = true from full)]
        rfl

theorem Kbd.Valid.step (valid : k.Valid) (done : k.step call = some (r, k')) : k'.Valid := by
  cases call with
  | irq sc =>
    cases done
    exact (keyboardIrq_spec valid sc).1
  | read len =>
    cases done
    exact (sysRead_spec valid len).2.1

/-- A call that reaches no arrow key loses nothing. -/
theorem step_balance (valid : k.Valid) (plain : ReachesNoArrow k call) (done : k.step call = some (r, k')) :
    k.pending ++ r.accepted = r.delivered ++ k'.pending ∧ ReadsAll k call := by
  cases call with
  | irq sc =>
    cases done
    exact ⟨(keyboardIrq_spec valid sc).2.symm, trivial⟩
  | read len =>
    cases done
    obtain ⟨bytes, -, rest⟩ := sysRead_spec valid len
    have list := readList_plain plain
    rw [list] at bytes rest
    refine ⟨?_, fun short => ?_⟩
    · rw [bytes, rest, List.append_nil, List.take_append_drop]
    · rw [bytes, List.length_take] at short
      rw [rest]
      exact List.drop_eq_nil_of_le (by omega)

/-- Another call loses a byte. -/
theorem step_loses (valid : k.Valid) (arrow : ¬ ReachesNoArrow k call) (done : k.step call = some (r, k')) :
    r.delivered.length + k'.pending.length < k.pending.length + r.accepted.length := by
  cases call with
  | irq sc => exact absurd trivial arrow
  | read len =>
    cases done
    obtain ⟨bytes, -, rest⟩ := sysRead_spec valid len
    have lengths := readList_arrow arrow
    simp only [bytes, rest, List.length_nil]
    omega

theorem run_balance (valid : k.Valid) (run : Run Kbd.step ReachesNoArrow k calls k') :
    k.pending ++ accepted calls = delivered calls ++ k'.pending ∧ Run Kbd.step ReadsAll k calls k' := by
  induction run with
  | refl k => exact ⟨by simp [accepted, delivered], .refl k⟩
  | @call k k₁ k' call r calls plain done run ih =>
    obtain ⟨first, readsAll⟩ := step_balance valid plain done
    obtain ⟨later, run'⟩ := ih (valid.step done)
    refine ⟨?_, .call readsAll done run'⟩
    simp only [accepted, delivered, List.flatMap_cons] at later ⊢
    rw [← List.append_assoc, first, List.append_assoc, later, List.append_assoc]

/-- What a run accepts is delivered, left in the ring or lost. -/
theorem run_length (valid : k.Valid) (run : Run Kbd.step (fun _ _ => True) k calls k') :
    (delivered calls).length + k'.pending.length ≤ k.pending.length + (accepted calls).length ∧
      (k.pending.length + (accepted calls).length ≤ (delivered calls).length + k'.pending.length →
        Run Kbd.step ReachesNoArrow k calls k') := by
  induction run with
  | refl k => exact ⟨by simp [accepted, delivered], fun _ => .refl k⟩
  | @call k k₁ k' call r calls _ done run ih =>
    obtain ⟨later, noArrow⟩ := ih (valid.step done)
    simp only [accepted, delivered, List.flatMap_cons, List.length_append] at later noArrow ⊢
    by_cases plain : ReachesNoArrow k call
    · have first := congrArg List.length (step_balance valid plain done).1
      simp only [List.length_append] at first
      refine ⟨by omega, fun enough => .call plain done (noArrow (by omega))⟩
    · have lost := step_loses valid plain done
      exact ⟨by omega, fun enough => absurd enough (by omega)⟩

theorem Kbd.zero_valid : Kbd.zero.Valid := ⟨List.length_replicate, by decide, by decide⟩

/-- **Every key reaches the reader once and in order exactly in the runs** in which no
`SYS_READ` reaches an arrow key. -/
theorem keys_delivered_iff (run : Run Kbd.step (fun _ _ => True) Kbd.zero calls k) :
    accepted calls = delivered calls ++ k.pending ∧ Run Kbd.step ReadsAll Kbd.zero calls k ↔
      Run Kbd.step ReachesNoArrow Kbd.zero calls k := by
  have empty : Kbd.zero.pending = [] := by decide
  constructor
  · rintro ⟨balance, -⟩
    have lengths := congrArg List.length balance
    rw [List.length_append] at lengths
    refine (run_length Kbd.zero_valid run).2 ?_
    rw [empty, List.length_nil, Nat.zero_add, lengths]
  · intro plain
    have balance := run_balance Kbd.zero_valid plain
    rwa [empty, List.nil_append] at balance

instance (k : Kbd) : (call : KeyCall) → Decidable (ReachesNoArrow k call)
  | .irq _ => .isTrue trivial
  | .read len => inferInstanceAs (Decidable (∀ c ∈ k.pending.take len.toNat, c < 0x80))

/-- The key `a` is pressed and released, and read. -/
theorem keys_delivered_iff_a :
    ∃ calls k, Run Kbd.step ReachesNoArrow Kbd.zero calls k ∧ delivered calls = [0x61] ∧
      accepted calls = delivered calls ++ k.pending := by
  obtain ⟨calls, k, plain, bytes⟩ := Run.exists_of_replay Kbd.step ReachesNoArrow Kbd.zero
    [.irq 0x1E, .irq 0x9E, .read 5] (fun calls _ => delivered calls = [0x61]) (by decide +kernel)
  have run : Run Kbd.step (fun _ _ => True) Kbd.zero calls k := plain.mono fun _ _ _ => trivial
  exact ⟨calls, k, plain, bytes, ((keys_delivered_iff run).mpr plain).1⟩

/-- The arrow key up is pressed, and then `a`: `SYS_READ` loses the arrow key and stops,
although `a` is left. -/
theorem arrow_key_lost :
    ∃ calls k, Run Kbd.step (fun _ _ => True) Kbd.zero calls k ∧ accepted calls = [keyUp, 0x61] ∧
      delivered calls = [] ∧ k.pending = [0x61] ∧
      ¬ (accepted calls = delivered calls ++ k.pending ∧ Run Kbd.step ReadsAll Kbd.zero calls k) := by
  obtain ⟨calls, k, run, pushed, read, left⟩ := Run.exists_of_replay Kbd.step (fun _ _ => True) Kbd.zero
    [.irq 0xE0, .irq 0x48, .irq 0x1E, .read 5]
    (fun calls k => accepted calls = [keyUp, 0x61] ∧ delivered calls = [] ∧ k.pending = [0x61])
    (by decide +kernel)
  refine ⟨calls, k, run, pushed, read, left, fun once => ?_⟩
  have balance := once.1
  rw [pushed, read, left] at balance
  exact absurd balance (by decide)

/-! ## A bounded queue -/

/-- The two operations on the ring, in any order. -/
inductive RingCall
  | push (c : UInt8)
  | pop

/-- The byte that `kbd_push` stored, and the value that `kbd_pop` returned for a ring that was not empty. -/
structure RingReply where
  stored : List UInt8
  popped : List Int32

def Kbd.ringStep (k : Kbd) : RingCall → Option (RingReply × Kbd)
  | .push c => some (⟨if k.isFull then [] else [c], []⟩, kbdPush k c)
  | .pop => some (⟨[], if k.kbdHead = k.kbdTail then [] else [(kbdPop k).1]⟩, (kbdPop k).2)

/-- The bytes that a run stored, and the values that it took out. -/
def stored (calls : List (RingCall × RingReply)) : List UInt8 := calls.flatMap fun call => call.2.stored
def popped (calls : List (RingCall × RingReply)) : List Int32 := calls.flatMap fun call => call.2.popped

/-- The low byte of an `int`. -/
def lowByte (value : Int32) : UInt8 := value.toUInt32.toUInt8

theorem lowByte_char (c : UInt8) : lowByte c.toInt8.toInt32 = c := by
  apply UInt8.toBitVec_inj.mp
  show BitVec.setWidth 8 (BitVec.signExtend 32 c.toBitVec) = c.toBitVec
  ext i inside
  have below : i < 32 := by omega
  simp [BitVec.getElem_signExtend, inside, below]

variable {ringCall : RingCall} {ringReply : RingReply} {ringCalls : List (RingCall × RingReply)}

/-- A push changes nothing exactly if 127 bytes are pending. -/
theorem Kbd.Valid.push_eq_self_iff (valid : k.Valid) (c : UInt8) : kbdPush k c = k ↔ k.pending.length = 127 := by
  rw [Kbd.pending_length, ← valid.isFull]
  constructor
  · intro same
    by_contra room
    have longer := congrArg List.length (valid.push_pending c)
    rw [same, if_neg room, List.length_append, List.length_singleton] at longer
    omega
  · intro full
    rw [kbdPush, if_pos full]

theorem Kbd.Valid.ringStep (valid : k.Valid) (done : k.ringStep ringCall = some (ringReply, k')) :
    k'.Valid ∧ k.pending ++ ringReply.stored = ringReply.popped.map lowByte ++ k'.pending := by
  cases ringCall with
  | push c =>
    cases done
    refine ⟨valid.push c, ?_⟩
    rw [valid.push_pending]
    split
    · simp
    · simp
  | pop =>
    cases done
    cases pending : k.pending with
    | nil =>
      have empty := kbdPop_empty valid pending
      have none := k.pending_length
      rw [pending, List.length_nil] at none
      rw [empty, if_pos (valid.isEmpty.mpr none.symm)]
      exact ⟨valid, by simp [pending]⟩
    | cons c rest =>
      obtain ⟨k', pop, valid', pending'⟩ := kbdPop_cons valid pending
      have some_ := k.pending_length
      rw [pending, List.length_cons] at some_
      have notEmpty : ¬ k.kbdHead = k.kbdTail := fun same => by
        rw [valid.isEmpty.mp same] at some_
        omega
      rw [pop, if_neg notEmpty]
      refine ⟨valid', ?_⟩
      simp [pending', lowByte_char]

theorem ring_balance (valid : k.Valid) (run : Run Kbd.ringStep (fun _ _ => True) k ringCalls k') :
    k'.Valid ∧ k.pending ++ stored ringCalls = (popped ringCalls).map lowByte ++ k'.pending := by
  induction run with
  | refl k => exact ⟨valid, by simp [stored, popped]⟩
  | call _ done _ ih =>
    obtain ⟨valid', first⟩ := valid.ringStep done
    obtain ⟨valid'', later⟩ := ih valid'
    refine ⟨valid'', ?_⟩
    simp only [stored, popped, List.flatMap_cons, List.map_append] at later ⊢
    rw [← List.append_assoc, first, List.append_assoc, later, List.append_assoc]

/-- **The ring is a bounded queue.**  After any calls of `kbd_push` and `kbd_pop` the indices lie in the
ring; the bytes that were stored are those that were taken out, in the same order, followed by those that
are pending; and a push is dropped exactly if 127 bytes are pending. -/
theorem ring_is_bounded_queue (run : Run Kbd.ringStep (fun _ _ => True) Kbd.zero ringCalls k) :
    k.kbdHead < 128 ∧ k.kbdTail < 128 ∧ stored ringCalls = (popped ringCalls).map lowByte ++ k.pending ∧
      ∀ c, kbdPush k c = k ↔ (stored ringCalls).length = (popped ringCalls).length + 127 := by
  have empty : Kbd.zero.pending = [] := by decide
  obtain ⟨valid, balance⟩ := ring_balance Kbd.zero_valid run
  rw [empty, List.nil_append] at balance
  refine ⟨UInt32.lt_iff_toNat_lt.mpr valid.head, UInt32.lt_iff_toNat_lt.mpr valid.tail, balance, fun c => ?_⟩
  rw [valid.push_eq_self_iff, balance, List.length_append, List.length_map]
  omega

/-- Two bytes, of which one is taken out. -/
theorem ring_is_bounded_queue_two :
    ∃ calls k, Run Kbd.ringStep (fun _ _ => True) Kbd.zero calls k ∧ (popped calls).map lowByte = [0x82] ∧
      stored calls = (popped calls).map lowByte ++ k.pending := by
  obtain ⟨calls, k, run, bytes⟩ := Run.exists_of_replay Kbd.ringStep (fun _ _ => True) Kbd.zero
    [.push 0x82, .push 0x61, .pop] (fun calls _ => (popped calls).map lowByte = [0x82]) (by decide +kernel)
  exact ⟨calls, k, run, bytes, (ring_is_bounded_queue run).2.2.1⟩

end QuantumKernel.Keyboard
