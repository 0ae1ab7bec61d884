import QuantumKernel.Net.RxRing

/-! # The driver and the card in step

The driver goes on at `current_rx_offset` without taking it modulo 8192, and starts at 0 again
when it is behind the ring.  As long as no packet goes over the end of the ring, the packets
between the two offsets are those that were not read (`InStep`).  Behind a packet that does,
the driver is at 0 and the card is not (`InStep.out_of_step`).
-/

namespace QuantumKernel.Net

open Packed Transition

/-- Where packets were placed. -/
def placed (actions : List (RingAction × RingReply)) : List (Nat × RxPacket) :=
  actions.filterMap fun action =>
    match action with
    | (.receive p, .placed offset) => some (offset, p)
    | _ => none

/-- What the driver read. -/
def reads (actions : List (RingAction × RingReply)) : List (Nat × Option (List UInt8)) :=
  actions.filterMap fun action =>
    match action.2 with
    | .read offset pkt => some (offset, pkt)
    | _ => none

/-- What it has to read for a placed packet. -/
def expected (record : Nat × RxPacket) : Nat × Option (List UInt8) := (record.1, record.2.delivered)

variable {r r' : RxRing} {p : RxPacket} {unread : List RxPacket} {buffer : RxBuffer} {off : UInt16}
  {start pos : Nat} {data : List UInt8} {action : RingAction} {reply : RingReply}
  {actions rest : List (RingAction × RingReply)}

/-! ## The unread packets -/

def total (unread : List RxPacket) : Nat := (unread.map RxPacket.size).sum

/-- The packets are in the ring from a position on, one behind the other, and none goes over its
end. -/
def Stored (buffer : RxBuffer) (start : Nat) : List RxPacket → Prop
  | [] => True
  | p :: rest => RingBuffer.Holds 8192 buffer.toList start p.record ∧
      start % 8192 + 4 + p.data.length ≤ 8192 ∧ Stored buffer (start + p.size) rest

/-- The packets with the places where they are. -/
def laid (start : Nat) : List RxPacket → List (Nat × RxPacket)
  | [] => []
  | p :: rest => (start % 8192, p) :: laid (start + p.size) rest

/-- The driver is where the card takes it to be, and the unread packets are between the two. -/
structure InStep (r : RxRing) (unread : List RxPacket) : Prop where
  aligned : 4 ∣ r.currentRxOffset.toNat
  inside : r.currentRxOffset.toNat ≤ 8192
  capr : r.capr = r.currentRxOffset - 16
  writing : r.writeOffset = (r.currentRxOffset.toNat + total unread) % 8192
  room : total unread < 8192
  stored : Stored r.buffer r.currentRxOffset.toNat unread

theorem total_cons : total (p :: unread) = p.size + total unread := List.sum_cons

theorem total_snoc : total (unread ++ [p]) = total unread + p.size := by simp [total]

theorem Stored.write (stored : Stored buffer start unread) (behind : start + total unread ≤ pos)
    (room : pos + data.length ≤ start + 8192) :
    Stored ⟨RingBuffer.write 8192 buffer.toList pos data, length_ringWrite ..⟩ start unread := by
  induction unread generalizing start with
  | nil => trivial
  | cons p rest ih =>
    obtain ⟨held, straight, later⟩ := stored
    rw [total_cons] at behind
    have fits := p.record_le_size
    refine ⟨held.write ?_ room, straight, ih later (by omega) (by omega)⟩
    rw [RxPacket.length_record]
    omega

theorem Stored.snoc (stored : Stored buffer start unread)
    (held : RingBuffer.Holds 8192 buffer.toList (start + total unread) p.record)
    (straight : (start + total unread) % 8192 + 4 + p.data.length ≤ 8192) :
    Stored buffer start (unread ++ [p]) := by
  induction unread generalizing start with
  | nil => exact ⟨held, straight, trivial⟩
  | cons q rest ih =>
    obtain ⟨heldQ, straightQ, later⟩ := stored
    rw [total_cons, ← Nat.add_assoc] at held straight
    exact ⟨heldQ, straightQ, ih later held straight⟩

/-- Positions a round apart are the same place. -/
theorem Stored.of_mod (stored : Stored buffer start unread) (same : start % 8192 = pos % 8192) :
    Stored buffer pos unread := by
  induction unread generalizing start pos with
  | nil => trivial
  | cons p rest ih =>
    obtain ⟨held, straight, later⟩ := stored
    exact ⟨held.of_mod same, same ▸ straight, ih later (by omega)⟩

theorem laid_snoc (start : Nat) (unread : List RxPacket) (p : RxPacket) :
    laid start (unread ++ [p]) = laid start unread ++ [((start + total unread) % 8192, p)] := by
  induction unread generalizing start with
  | nil => rfl
  | cons q rest ih =>
    rw [List.cons_append, laid, laid, ih, total_cons, ← Nat.add_assoc]
    rfl

theorem laid_of_mod (same : start % 8192 = pos % 8192) : laid start unread = laid pos unread := by
  induction unread generalizing start pos with
  | nil => rfl
  | cons p rest ih =>
    have next : (start + p.size) % 8192 = (pos + p.size) % 8192 := by omega
    rw [laid, laid, same, ih next]

/-! ## One step -/

/-- CAPR is 16 behind the offset of the driver. -/
theorem capr_offset (offset : UInt16) : ((offset - 16).toNat + 16) % 8192 = offset.toNat % 8192 := by
  have minus : (offset - 16).toNat = (65536 - 16 + offset.toNat) % 65536 := UInt16.toNat_sub ..
  omega

/-- The card knows where the driver is. -/
theorem InStep.readOffset (inStep : InStep r unread) : r.readOffset = r.currentRxOffset.toNat % 8192 := by
  rw [RxRing.readOffset, inStep.capr, capr_offset]

theorem InStep.unread_eq (inStep : InStep r unread) : r.unread = total unread := by
  have room := inStep.room
  rw [RxRing.unread, inStep.readOffset, inStep.writing]
  omega

/-- The card reports the buffer empty exactly if every packet was read. -/
theorem InStep.empty_iff (inStep : InStep r unread) : r.writeOffset = r.readOffset ↔ unread = [] := by
  have room := inStep.room
  rw [inStep.writing, inStep.readOffset]
  cases unread with
  | nil => simp [total]
  | cons p rest =>
    have positive := p.size_pos
    rw [total_cons] at room ⊢
    simp only [reduceCtorEq, iff_false]
    omega

theorem InStep.put (inStep : InStep r unread) (fits : r.unread + p.size < 8192)
    (straight : r.writeOffset + 4 + p.data.length ≤ 8192) : InStep (r.put p) (unread ++ [p]) := by
  have aligned := inStep.aligned
  have writing := inStep.writing
  have record := p.record_le_size
  have length : r.buffer.toList.length = 9708 := r.buffer.toList_length
  rw [inStep.unread_eq] at fits
  have same : r.writeOffset % 8192 = (r.currentRxOffset.toNat + total unread) % 8192 := by omega
  refine ⟨aligned, inStep.inside, inStep.capr, ?_, ?_, ?_⟩
  · show (r.writeOffset + p.size) % 8192 = (r.currentRxOffset.toNat + total (unread ++ [p])) % 8192
    rw [total_snoc]
    omega
  · rw [total_snoc]
    exact fits
  · have moved : (r.put p).buffer = ⟨RingBuffer.write 8192 r.buffer.toList
        (r.currentRxOffset.toNat + total unread) p.record, length_ringWrite ..⟩ :=
      List.Vector.eq _ _ (RingBuffer.write_of_mod same)
    have small : p.record.length ≤ 8192 := by
      rw [p.length_record]
      omega
    rw [moved]
    refine (inStep.stored.write le_rfl ?_).snoc (RingBuffer.holds_write (by decide) ?_ small) ?_
    · rw [p.length_record]
      omega
    · rw [length]
      decide
    · show (r.currentRxOffset.toNat + total unread) % 8192 + 4 + p.data.length ≤ 8192
      rwa [← writing]

/-- At the end of the ring the driver starts again at 0. -/
theorem InStep.overflow (inStep : InStep r unread) (behind : r.currentRxOffset.toNat = 8192) :
    InStep (r.advance 0) unread ∧ laid (r.advance 0).currentRxOffset.toNat unread =
      laid r.currentRxOffset.toNat unread := by
  have writing := inStep.writing
  have same : r.currentRxOffset.toNat % 8192 = (0 : UInt16).toNat % 8192 := by rw [behind]; rfl
  refine ⟨⟨Nat.dvd_zero 4, Nat.zero_le _, rfl, ?_, inStep.room, inStep.stored.of_mod same⟩, laid_of_mod same.symm⟩
  show r.writeOffset = (0 + total unread) % 8192
  omega

/-- Behind the first unread packet. -/
theorem InStep.advance (inStep : InStep r (p :: unread)) (before : r.currentRxOffset.toNat < 8192) :
    InStep (r.advance (nextRxOffset r.currentRxOffset p.len)) unread ∧
      (nextRxOffset r.currentRxOffset p.len).toNat = r.currentRxOffset.toNat + p.size := by
  have writing := inStep.writing
  have room := inStep.room
  have aligned := inStep.aligned
  have multiple := p.size_aligned
  have round : p.size < 4 + p.data.length + 4 := by
    rw [RxPacket.size]
    omega
  obtain ⟨held, straight, later⟩ := inStep.stored
  rw [total_cons] at writing room
  have next : (nextRxOffset r.currentRxOffset p.len).toNat = r.currentRxOffset.toNat + p.size :=
    nextRxOffset_size aligned (by omega)
  refine ⟨⟨?_, ?_, rfl, ?_, ?_, ?_⟩, next⟩
  · exact nextRxOffset_aligned _ _
  · show (nextRxOffset r.currentRxOffset p.len).toNat ≤ 8192
    omega
  · show r.writeOffset = ((nextRxOffset r.currentRxOffset p.len).toNat + total unread) % 8192
    omega
  · omega
  · show Stored r.buffer (nextRxOffset r.currentRxOffset p.len).toNat unread
    rwa [next]

/-- A round reads the first unread packet where it was placed. -/
theorem InStep.turn (inStep : InStep r (p :: unread)) (before : r.currentRxOffset.toNat < 8192) :
    r.step .turn = some (.read r.currentRxOffset.toNat p.delivered,
      r.advance (nextRxOffset r.currentRxOffset p.len)) := by
  have unread : ¬ r.writeOffset = r.readOffset := fun empty => List.cons_ne_nil _ _ (inStep.empty_iff.mp empty)
  obtain ⟨held, straight, -⟩ := inStep.stored
  rw [Nat.mod_eq_of_lt before] at straight
  have there := held.take_drop (by rw [p.length_record]; omega)
  rw [RxRing.step, if_neg unread, rxTurn_record before there (by omega)]
  cases p.delivered with
  | none => rfl
  | some pkt => rfl

theorem InStep.step (inStep : InStep r unread) (straight : r.Straight action)
    (done : r.step action = some (reply, r')) :
    ∃ unread', InStep r' unread' ∧
      reads [(action, reply)] ++ (laid r'.currentRxOffset.toNat unread').map expected =
        (laid r.currentRxOffset.toNat unread).map expected ++ (placed [(action, reply)]).map expected := by
  cases action with
  | receive p =>
    cases done
    refine ⟨unread ++ [p], inStep.put straight.1 straight.2, ?_⟩
    show (laid r.currentRxOffset.toNat (unread ++ [p])).map expected = _ ++ [(r.writeOffset, p)].map expected
    rw [laid_snoc, List.map_append, inStep.writing]
  | turn =>
    cases unread with
    | nil =>
      rw [RxRing.step, if_pos (inStep.empty_iff.mpr rfl)] at done
      cases done
      exact ⟨[], inStep, rfl⟩
    | cons p rest =>
      by_cases before : r.currentRxOffset.toNat < 8192
      · rw [inStep.turn before] at done
        cases done
        obtain ⟨inStep', next⟩ := inStep.advance before
        refine ⟨rest, inStep', ?_⟩
        show (r.currentRxOffset.toNat, p.delivered) ::
          (laid (nextRxOffset r.currentRxOffset p.len).toNat rest).map expected = _ ++ []
        rw [next, List.append_nil, laid, List.map_cons, Nat.mod_eq_of_lt before]
        rfl
      · -- the offset ran over the end of the buffer: this round only takes it back
        have inside := inStep.inside
        have unread : ¬ r.writeOffset = r.readOffset := fun empty => List.cons_ne_nil _ _ (inStep.empty_iff.mp empty)
        obtain ⟨inStep', same⟩ := inStep.overflow (by omega)
        have behind : 8192 ≤ r.currentRxOffset := UInt16.le_iff_toNat_le.mpr (not_lt.mp before)
        rw [RxRing.step, if_neg unread, rxTurn, if_pos behind] at done
        cases done
        refine ⟨p :: rest, inStep', ?_⟩
        rw [same]
        exact (List.append_nil _).symm

/-! ## Runs -/

theorem reads_append (actions rest : List (RingAction × RingReply)) :
    reads (actions ++ rest) = reads actions ++ reads rest := List.filterMap_append

theorem placed_append (actions rest : List (RingAction × RingReply)) :
    placed (actions ++ rest) = placed actions ++ placed rest := List.filterMap_append

theorem InStep.init (buffer : RxBuffer) : InStep (RxRing.init buffer) [] :=
  ⟨Nat.dvd_zero 4, Nat.zero_le _, rfl, rfl, by decide, trivial⟩

theorem InStep.run (run : Run RxRing.step RxRing.Straight r actions r') (inStep : InStep r unread) :
    ∃ unread', InStep r' unread' ∧
      reads actions ++ (laid r'.currentRxOffset.toNat unread').map expected =
        (laid r.currentRxOffset.toNat unread).map expected ++ (placed actions).map expected := by
  induction run generalizing unread with
  | refl => exact ⟨unread, inStep, (List.append_nil _).symm⟩
  | @call r r₁ r' action reply rest straight done run ih =>
    obtain ⟨unread₁, inStep₁, first⟩ := inStep.step straight done
    obtain ⟨unread', inStep', later⟩ := ih inStep₁
    refine ⟨unread', inStep', ?_⟩
    have readsCons : reads ((action, reply) :: rest) = reads [(action, reply)] ++ reads rest :=
      reads_append [(action, reply)] rest
    have placedCons : placed ((action, reply) :: rest) = placed [(action, reply)] ++ placed rest :=
      placed_append [(action, reply)] rest
    rw [readsCons, placedCons, List.append_assoc, later, ← List.append_assoc, first, List.map_append,
      List.append_assoc]

/-- If no packet goes over the end of the ring, the driver reads every header where the card placed
it and passes on the good packets, each once and in order; all of them when the ring is empty. -/
theorem ring_in_step (buffer : RxBuffer)
    (run : Run RxRing.step RxRing.Straight (RxRing.init buffer) actions r) :
    reads actions <+: (placed actions).map expected ∧
      (r.writeOffset = r.readOffset → reads actions = (placed actions).map expected) := by
  obtain ⟨unread, inStep, balance⟩ := InStep.run run (.init buffer)
  rw [laid, List.map_nil, List.nil_append] at balance
  refine ⟨⟨_, balance⟩, fun empty => ?_⟩
  rw [inStep.empty_iff.mp empty, laid, List.map_nil, List.append_nil] at balance
  exact balance

/-- Two packets wait in the ring, the second of them a bad one, and a third comes later. -/
theorem ring_in_step_three :
    ∃ actions r, Run RxRing.step RxRing.Straight (RxRing.init (List.Vector.replicate 9708 0)) actions r ∧
      (placed actions).map Prod.fst = [0, 68, 136] ∧ reads actions = (placed actions).map expected := by
  obtain ⟨actions, r, run, offsets, empty⟩ := Run.exists_of_replay RxRing.step RxRing.Straight
    (RxRing.init (List.Vector.replicate 9708 0))
    [.receive ⟨1, List.replicate 64 7⟩, .receive ⟨0, List.replicate 64 8⟩, .turn, .turn,
      .receive ⟨1, List.replicate 64 9⟩, .turn]
    (fun actions r => (placed actions).map Prod.fst = [0, 68, 136] ∧ r.writeOffset = r.readOffset) (by decide +kernel)
  exact ⟨actions, r, run, offsets, (ring_in_step _ run).2 empty⟩

/-- A packet is received and read. -/
theorem InStep.cycle (inStep : InStep r []) (inside : r.currentRxOffset.toNat + 4 + p.data.length ≤ 8192)
    (small : p.size < 8192) :
    ∃ r', Run RxRing.step RxRing.Straight r [(.receive p, .placed r.writeOffset),
        (.turn, .read r.currentRxOffset.toNat p.delivered)] r' ∧
      InStep r' [] ∧ r'.currentRxOffset.toNat = r.currentRxOffset.toNat + p.size ∧
      r.writeOffset = r.currentRxOffset.toNat := by
  have aligned := inStep.aligned
  have record := p.record_le_size
  have round : p.size < 4 + p.data.length + 4 := by
    rw [RxPacket.size]
    omega
  have writing : r.writeOffset = r.currentRxOffset.toNat := by
    have there : r.writeOffset = (r.currentRxOffset.toNat + 0) % 8192 := inStep.writing
    omega
  have fits : r.unread + p.size < 8192 := by
    rw [inStep.unread_eq]
    show 0 + p.size < 8192
    omega
  have straight : r.writeOffset + 4 + p.data.length ≤ 8192 := by rwa [writing]
  have received := inStep.put fits straight
  have before : (r.put p).currentRxOffset.toNat < 8192 := by
    show r.currentRxOffset.toNat < 8192
    omega
  obtain ⟨inStep', next⟩ := received.advance before
  exact ⟨_, .call ⟨fits, straight⟩ rfl (.call trivial (received.turn before) (.refl _)), inStep', next, writing⟩

/-! ## Over the end of the ring -/

theorem rxTurn_reads (before : off.toNat < 8192) : rxTurn buffer off ≠ some .overflow := by
  rw [rxTurn, if_neg (by rw [UInt16.le_iff_toNat_le]; exact not_le.mpr before)]
  simp only [Option.bind_eq_bind, ne_eq, Option.bind_eq_some_iff, not_exists, not_and]
  intro hdr _ turn
  split at turn
  · simp only [Option.bind_eq_some_iff] at turn
    obtain ⟨_, -, _, -, turn⟩ := turn
    cases turn
  · cases turn

/-- With unread bytes in the ring, a round reads a header. -/
theorem RxRing.turn_reads (unread : r.writeOffset ≠ r.readOffset) (aligned : 4 ∣ r.currentRxOffset.toNat)
    (before : r.currentRxOffset.toNat < 8192) :
    ∃ pkt next, r.step .turn = some (.read r.currentRxOffset.toNat pkt, r.advance next) := by
  rw [RxRing.step, if_neg unread]
  rcases rxTurn_inside r.buffer aligned with behind | ⟨next, turn, -⟩ | ⟨pkt, len, next, turn, -⟩
  · exact absurd behind (rxTurn_reads before)
  · rw [turn]
    exact ⟨none, next, rfl⟩
  · rw [turn]
    exact ⟨some pkt, next, rfl⟩

/-- The round at a header goes on behind the packet. -/
theorem RxRing.turn_header (unread : r.writeOffset ≠ r.readOffset) (aligned : 4 ∣ r.currentRxOffset.toNat)
    (before : r.currentRxOffset.toNat < 8192) (status len : UInt16)
    (held : (r.buffer.toList.drop r.currentRxOffset.toNat).take 4 = le16 status ++ le16 len) :
    ∃ pkt, r.step .turn =
      some (.read r.currentRxOffset.toNat pkt, r.advance (nextRxOffset r.currentRxOffset len)) := by
  rw [RxRing.step, if_neg unread, rxTurn_header before status len held]
  by_cases good : goodPacket status len = true
  · obtain ⟨-, least, most⟩ := goodPacket_iff.mp good
    obtain ⟨count, difference, length⟩ := checkedSub_eq (y := 4) (le_trans (by decide) least)
    have four : (4 : UInt16).toNat = 4 := rfl
    have size : r.buffer.toList.length = 9708 := r.buffer.toList_length
    rw [if_pos good, difference]
    simp only [Option.bind_eq_bind, Option.bind_some]
    rw [readSlice_eq (by omega)]
    exact ⟨_, rfl⟩
  · rw [if_neg good]
    exact ⟨none, rfl⟩

/-- The card goes on at the start of the ring behind a packet that goes over its end, and the
driver at 0: the next header is read where none was placed. -/
theorem InStep.out_of_step {q : RxPacket} (inStep : InStep r []) (before : r.currentRxOffset.toNat < 8192)
    (small : p.size < 8192) (behind : 8192 < r.currentRxOffset.toNat + 4 + p.data.length)
    (next : r.currentRxOffset.toNat + p.size + q.size < 16384) :
    ∃ pkt pkt' r', Run RxRing.step RxRing.Fits r [(.receive p, .placed r.currentRxOffset.toNat),
      (.turn, .read r.currentRxOffset.toNat pkt),
      (.receive q, .placed (r.currentRxOffset.toNat + p.size - 8192)), (.turn, .overflow),
      (.turn, .read 0 pkt')] r' := by
  have aligned := inStep.aligned
  have record := p.record_le_size
  have positive := q.size_pos
  have writing : r.writeOffset = r.currentRxOffset.toNat := by
    have there : r.writeOffset = (r.currentRxOffset.toNat + 0) % 8192 := inStep.writing
    omega
  have length : r.buffer.toList.length = 9708 := r.buffer.toList_length
  -- The header of the packet is in one piece.
  have held : RingBuffer.Holds 8192 (r.put p).buffer.toList r.currentRxOffset.toNat p.record := by
    rw [← writing]
    exact RingBuffer.holds_write (by decide) (by rw [length]; decide) (by rw [p.length_record]; omega)
  have record' : p.record = (le16 p.status ++ le16 p.len) ++ p.data := by simp [RxPacket.record]
  rw [record'] at held
  have header := held.left.take_drop (by simp; omega)
  have advanced : (nextRxOffset r.currentRxOffset p.len).toNat = r.currentRxOffset.toNat + p.size := by
    rw [nextRxOffset_toNat, RxPacket.len_toNat (by omega), RxPacket.size]
    omega
  have stays : (r.put p).readOffset = r.currentRxOffset.toNat := inStep.readOffset.trans (Nat.mod_eq_of_lt before)
  have moved : (r.put p).writeOffset = r.currentRxOffset.toNat + p.size - 8192 := by
    show (r.writeOffset + p.size) % 8192 = _
    omega
  have unread : (r.put p).writeOffset ≠ (r.put p).readOffset := by
    rw [stays, moved]
    omega
  obtain ⟨pkt, first⟩ : ∃ pkt, (r.put p).step .turn = some (.read r.currentRxOffset.toNat pkt,
      (r.put p).advance (nextRxOffset r.currentRxOffset p.len)) :=
    RxRing.turn_header unread aligned before p.status p.len header
  generalize nextRxOffset r.currentRxOffset p.len = offset at advanced first
  -- Both have passed the end of the ring, and nothing is unread.
  have empty : ((r.put p).advance offset).unread = 0 := by
    show ((r.put p).writeOffset + 8192 - ((offset - 16).toNat + 16) % 8192) % 8192 = 0
    rw [moved, capr_offset]
    omega
  have fits : ((r.put p).advance offset).unread + q.size < 8192 := by
    rw [empty]
    omega
  have moved' : (((r.put p).advance offset).put q).writeOffset = r.currentRxOffset.toNat + p.size - 8192 + q.size := by
    show ((r.put p).writeOffset + q.size) % 8192 = _
    omega
  have passed : (((r.put p).advance offset).put q).writeOffset ≠ (((r.put p).advance offset).put q).readOffset := by
    show _ ≠ ((offset - 16).toNat + 16) % 8192
    rw [moved', capr_offset]
    omega
  have second : (((r.put p).advance offset).put q).step .turn =
      some (.overflow, (((r.put p).advance offset).put q).advance 0) := by
    have gone : 8192 ≤ offset := UInt16.le_iff_toNat_le.mpr (show 8192 ≤ offset.toNat by omega)
    rw [RxRing.step, if_neg passed, rxTurn]
    exact congrArg (Option.bind · _) (if_pos gone)
  -- The driver is at 0, and the card has placed the packet behind.
  have unread' : ((((r.put p).advance offset).put q).advance 0).writeOffset ≠
      ((((r.put p).advance offset).put q).advance 0).readOffset := by
    show (((r.put p).advance offset).put q).writeOffset ≠ ((0 - 16 : UInt16).toNat + 16) % 8192
    rw [moved', capr_offset]
    show _ ≠ 0
    omega
  obtain ⟨pkt', next', third⟩ := RxRing.turn_reads unread' (Nat.dvd_zero 4) (show 0 < 8192 by decide)
  have start : r.Fits (.receive p) := by
    show r.unread + p.size < 8192
    rw [inStep.unread_eq]
    show 0 + p.size < 8192
    omega
  refine ⟨pkt, pkt', ((((r.put p).advance offset).put q).advance 0).advance next', ?_⟩
  rw [← moved]
  refine .call start (by rw [← writing]; rfl) (.call trivial first ?_)
  exact .call fits rfl (.call trivial second (.call trivial third (.refl _)))

/-- A good packet of the greatest length. -/
def largePacket : RxPacket := ⟨1, List.replicate 1518 0⟩

theorem largePacket_length : largePacket.data.length = 1518 := List.length_replicate

theorem largePacket_size : largePacket.size = 1524 := by rw [RxPacket.size, largePacket_length]

/-- Five large packets fit one behind the other. -/
theorem large_cycles (buffer : RxBuffer) (n : Nat) (few : n ≤ 5) :
    ∃ actions r, Run RxRing.step RxRing.Straight (RxRing.init buffer) actions r ∧ InStep r [] ∧
      r.currentRxOffset.toNat = n * 1524 ∧ (reads actions).map Prod.fst = (placed actions).map Prod.fst ∧
        ∀ record ∈ placed actions, record.2 = largePacket := by
  induction n with
  | zero => exact ⟨[], _, .refl _, .init buffer, rfl, rfl, fun _ none => absurd none List.not_mem_nil⟩
  | succ n ih =>
    obtain ⟨actions, r, run, inStep, offset, same, large⟩ := ih (by omega)
    obtain ⟨r', cycle, inStep', offset', writing⟩ := inStep.cycle (p := largePacket)
      (by rw [largePacket_length]; omega) (by rw [largePacket_size]; decide)
    refine ⟨_, r', run.append cycle, inStep', ?_, ?_, ?_⟩
    · rw [offset', largePacket_size]
      omega
    · rw [reads_append, placed_append, List.map_append, List.map_append, same, writing]
      rfl
    · intro record member
      rw [placed_append] at member
      cases List.mem_append.mp member with
      | inl before => exact large record before
      | inr last =>
        cases last with
        | head => rfl
        | tail _ none => cases none

/-- The sixth large packet goes over the end of the ring, and the header of the seventh is read at
0, while it was placed at 952. -/
theorem ring_out_of_step :
    ∃ actions r, Run RxRing.step RxRing.Fits (RxRing.init (List.Vector.replicate 9708 0)) actions r ∧
      (∀ record ∈ placed actions, record.2 = largePacket) ∧
      ¬ reads actions <+: (placed actions).map expected := by
  obtain ⟨actions, r, run, inStep, offset, same, large⟩ := large_cycles (List.Vector.replicate 9708 0) 5 le_rfl
  obtain ⟨pkt, pkt', r', last⟩ := inStep.out_of_step (p := largePacket) (q := largePacket) (by omega)
    (by rw [largePacket_size]; decide) (by rw [largePacket_length]; omega) (by rw [largePacket_size]; omega)
  have fits : Run RxRing.step RxRing.Fits (RxRing.init (List.Vector.replicate 9708 0)) actions r :=
    run.mono fun r action straight => by
      cases action with
      | receive p => exact straight.1
      | turn => trivial
  rw [largePacket_size, offset] at last
  refine ⟨_, r', fits.append last, ?_, fun ordered => ?_⟩
  · intro record member
    rw [placed_append] at member
    cases List.mem_append.mp member with
    | inl before => exact large record before
    | inr last =>
      cases last with
      | head => rfl
      | tail _ second =>
        cases second with
        | head => rfl
        | tail _ none => cases none
  · have offsets := ordered.map Prod.fst
    rw [List.map_map, reads_append, placed_append, List.map_append, List.map_append, same] at offsets
    have last : [7620, 0] <+: [7620, 952] := (List.prefix_append_right_inj _).mp offsets
    exact absurd last (by decide)

end QuantumKernel.Net
