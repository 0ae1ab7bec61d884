import QuantumKernel.Library.RingBuffer
import QuantumKernel.Net.Receive

/-! # The receive ring

The card writes packets into the first 8192 bytes of the receive buffer, modulo 8192; RXCONFIG
is 0x0F, without the bit that would let a packet run on behind them.  The driver reads a packet
where its offset is, and `rxTurn_record` says what it does with a packet that is there.
-/

namespace QuantumKernel.Net

open Packed Transition

/-! ## The card -/

/-- A received packet; `data` is the frame and its CRC. -/
structure RxPacket where
  status : UInt16
  data : List UInt8

namespace RxPacket

def len (p : RxPacket) : UInt16 := UInt16.ofNat p.data.length

/-- The header and the packet in the ring. -/
def record (p : RxPacket) : List UInt8 := le16 p.status ++ (le16 p.len ++ p.data)

/-- How far the card advances: the record, rounded up to a multiple of 4. -/
def size (p : RxPacket) : Nat := (p.data.length + 7) / 4 * 4

/-- What the driver has to pass to `eth_rx`: the packet without its CRC, if it is a good one. -/
def delivered (p : RxPacket) : Option (List UInt8) :=
  if goodPacket p.status p.len then some (p.data.take (p.data.length - 4)) else none

/-- The packet and its header are in the buffer at an offset. -/
def At (p : RxPacket) (buffer : RxBuffer) (off : UInt16) : Prop :=
  (buffer.toList.drop off.toNat).take p.record.length = p.record

end RxPacket

/-- The receive side of the card, and the offset of the driver. -/
structure RxRing where
  buffer : RxBuffer
  /-- Where the card writes next. -/
  writeOffset : Nat
  /-- The register CAPR. -/
  capr : UInt16
  currentRxOffset : UInt16

/-- After `rtl8139_init`. -/
def RxRing.init (buffer : RxBuffer) : RxRing := ⟨buffer, 0, 0xFFF0, 0⟩

theorem length_ringWrite (buffer : RxBuffer) (pos : Nat) (data : List UInt8) :
    (RingBuffer.write 8192 buffer.toList pos data).length = 9708 :=
  RingBuffer.length_write.trans buffer.toList_length

/-- The card writes a packet and advances. -/
def RxRing.put (r : RxRing) (p : RxPacket) : RxRing := { r with
  buffer := ⟨RingBuffer.write 8192 r.buffer.toList r.writeOffset p.record, length_ringWrite ..⟩
  writeOffset := (r.writeOffset + p.size) % 8192 }

/-- Where the card takes the driver to be. -/
def RxRing.readOffset (r : RxRing) : Nat := (r.capr.toNat + 16) % 8192

/-- The bytes that the driver has not read. -/
def RxRing.unread (r : RxRing) : Nat := (r.writeOffset + 8192 - r.readOffset) % 8192

/-! ## The two together -/

inductive RingAction
  | receive (p : RxPacket)
  /-- A round of the receive loop, in any interrupt. -/
  | turn

inductive RingReply
  | placed (offset : Nat)
  /-- The command register says that the buffer is empty, and the loop ends. -/
  | empty
  | overflow
  /-- The header at this offset was read, and a packet was passed on or not. -/
  | read (offset : Nat) (pkt : Option (List UInt8))

/-- The driver goes on at an offset, and tells the card. -/
def RxRing.advance (r : RxRing) (offset : UInt16) : RxRing :=
  { r with currentRxOffset := offset, capr := offset - 16 }

def RxRing.step (r : RxRing) : RingAction → Option (RingReply × RxRing)
  | .receive p => some (.placed r.writeOffset, r.put p)
  | .turn =>
    if r.writeOffset = r.readOffset then some (.empty, r)
    else do
      match ← rxTurn r.buffer r.currentRxOffset with
      | .overflow => some (.overflow, r.advance 0)
      | .bad next => some (.read r.currentRxOffset.toNat none, r.advance next)
      | .packet pkt _ next => some (.read r.currentRxOffset.toNat (some pkt), r.advance next)

/-- The card does not overrun what the driver has not read. -/
def RxRing.Fits (r : RxRing) : RingAction → Prop
  | .receive p => r.unread + p.size < 8192
  | .turn => True

/-- No packet goes over the end of the ring. -/
def RxRing.Straight (r : RxRing) : RingAction → Prop
  | .receive p => r.unread + p.size < 8192 ∧ r.writeOffset + 4 + p.data.length ≤ 8192
  | .turn => True

instance decidableStraight (r : RxRing) : (action : RingAction) → Decidable (r.Straight action)
  | .receive p => inferInstanceAs (Decidable (r.unread + p.size < 8192 ∧ r.writeOffset + 4 + p.data.length ≤ 8192))
  | .turn => .isTrue trivial

variable {p : RxPacket} {buffer : RxBuffer} {off : UInt16}

/-! ## One record -/

namespace RxPacket

@[simp] theorem length_record (p : RxPacket) : p.record.length = 4 + p.data.length := by
  simp [record]
  omega

theorem record_le_size (p : RxPacket) : 4 + p.data.length ≤ p.size := by
  rw [size]
  omega

theorem size_pos (p : RxPacket) : 0 < p.size := by
  rw [size]
  omega

theorem size_aligned (p : RxPacket) : 4 ∣ p.size := Nat.dvd_mul_left ..

theorem len_toNat (small : p.data.length < 65536) : p.len.toNat = p.data.length := by
  rw [len, UInt16.toNat_ofNat_of_lt' small]

end RxPacket

/-- Behind a packet that does not reach behind the ring, the driver is where the card is. -/
theorem nextRxOffset_size (aligned : 4 ∣ off.toNat) (inside : off.toNat + 4 + p.data.length ≤ 8192) :
    (nextRxOffset off p.len).toNat = off.toNat + p.size := by
  rw [nextRxOffset_toNat, RxPacket.len_toNat (by omega), RxPacket.size]
  omega

/-- A round of the driver at a header. -/
theorem rxTurn_header (before : off.toNat < 8192) (status len : UInt16)
    (held : (buffer.toList.drop off.toNat).take 4 = le16 status ++ le16 len) :
    rxTurn buffer off =
      if goodPacket status len then do
        let count ← checkedSub len 4
        let pkt ← readSlice buffer.toList (off.toNat + 4) count.toNat
        some (.packet pkt count (nextRxOffset off len))
      else some (.bad (nextRxOffset off len)) := by
  have header : readWord32 buffer.toList off.toNat = some (UInt32.ofNat (status.toNat + 65536 * len.toNat)) := by
    have here : readWord32 (buffer.toList.drop off.toNat) 0 = readWord32 buffer.toList (off.toNat + 0) :=
      readWord32_drop off.toNat
    rw [← List.take_append_drop 4 (buffer.toList.drop off.toNat), held, List.append_assoc, readWord32_le16] at here
    exact here.symm
  have low : (UInt32.ofNat (status.toNat + 65536 * len.toNat)).toUInt16 = status := by
    have bound := status.toNat_lt
    apply UInt16.toNat.inj
    simp
  have high : (UInt32.ofNat (status.toNat + 65536 * len.toNat) >>> 16).toUInt16 = len := by
    have bound := status.toNat_lt
    have bound' := len.toNat_lt
    apply UInt16.toNat.inj
    simp [UInt32.toNat_shiftRight, Nat.shiftRight_eq_div_pow]
    omega
  rw [rxTurn, if_neg (by rw [UInt16.le_iff_toNat_le]; exact not_le.mpr before), header]
  simp only [Option.bind_eq_bind, Option.bind_some, low, high]

/-- The header and the packet of a record. -/
theorem RxPacket.At.parts (held : p.At buffer off) :
    (buffer.toList.drop off.toNat).take 4 = le16 p.status ++ le16 p.len ∧
      ((buffer.toList.drop off.toNat).drop 4).take p.data.length = p.data := by
  have header : (le16 p.status ++ le16 p.len).length = 4 := rfl
  have record : p.record = (le16 p.status ++ le16 p.len) ++ p.data := by simp [RxPacket.record]
  rw [RxPacket.At, p.length_record] at held
  constructor
  · have first := congrArg (List.take 4) held
    rwa [List.take_take, Nat.min_eq_left (Nat.le_add_right ..), record,
      List.take_append_of_le_length header.ge, List.take_of_length_le header.le] at first
  · have second := congrArg (List.drop 4) held
    rwa [List.drop_take, Nat.add_sub_cancel_left, record, List.drop_append_of_le_length header.ge,
      List.drop_of_length_le header.le, List.nil_append] at second

/-- A round of the driver at a record. -/
theorem rxTurn_record (before : off.toNat < 8192) (held : p.At buffer off)
    (small : p.data.length < 65536) :
    rxTurn buffer off = some (match p.delivered with
      | some pkt => .packet pkt (p.len - 4) (nextRxOffset off p.len)
      | none => .bad (nextRxOffset off p.len)) := by
  obtain ⟨header, data⟩ := held.parts
  rw [rxTurn_header before p.status p.len header, RxPacket.delivered]
  by_cases good : goodPacket p.status p.len = true
  · obtain ⟨-, least, -⟩ := goodPacket_iff.mp good
    have length := RxPacket.len_toNat small
    have four : (4 : UInt16) ≤ p.len := UInt16.le_iff_toNat_le.mpr (le_trans (by decide) least)
    have count : (p.len - 4).toNat = p.data.length - 4 := by
      rw [UInt16.toNat_sub_of_le _ _ four, length]
      rfl
    have inside : off.toNat + 4 + (p.data.length - 4) ≤ buffer.toList.length := by
      have fits := congrArg List.length data
      rw [List.length_take, List.length_drop, List.length_drop] at fits
      omega
    have packet : (buffer.toList.drop (off.toNat + 4)).take (p.data.length - 4) =
        p.data.take (p.data.length - 4) := by
      have part := congrArg (List.take (p.data.length - 4)) data
      rwa [List.take_take, Nat.min_eq_left (Nat.sub_le ..), List.drop_drop] at part
    rw [if_pos good, if_pos good, checkedSub, if_pos four]
    simp only [Option.bind_eq_bind, Option.bind_some, count, readSlice_eq inside, packet]
  · rw [if_neg good, if_neg good]

end QuantumKernel.Net
