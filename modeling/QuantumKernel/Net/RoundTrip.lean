import QuantumKernel.Net.Queue
import QuantumKernel.Net.RxRing
import QuantumKernel.Net.TxRing

/-! # From `ip_tx` to `icmp_rx`

A packet goes down through `ip_tx`, `eth_tx` and `rtl8139_send`, and up through
`rtl8139_irq_handler`, `eth_rx` and `ip_rx`.  Each layer takes off what the other one added,
except for the padding: `ip_rx` takes the length of the frame and not the one in the header
of the datagram, and so a short payload arrives with the padding behind it.
-/

namespace QuantumKernel.Net

open SlotArray Packed

variable {n : Stack} {dst : UInt32} {mac localMac : Mac} {payload rest crc : List UInt8} {len off status : UInt16}
  {buffer : RxBuffer} {t : Transmitter} {src : UInt32} {frame : Frame}

/-- What the card has in its buffer for a frame after `rtl8139_send`. -/
theorem rtl8139Send_contents (on : t.ioBase ≠ 0) (short : frame.length ≤ 1792) :
    ∃ i txStatus t', rtl8139Send t frame = (some (i, txStatus), t') ∧
      (t'.txBuffers i).take txStatus.toNat = padded frame := by
  rcases rtl8139Send_cases t frame with dropped | ⟨-, -, txStatus, length, accepted⟩
  · rw [rtl8139Send, if_neg on, if_neg (not_lt.mpr short)] at dropped
    cases dropped
  · refine ⟨_, _, _, accepted, ?_⟩
    show ((Function.update t.txBuffers t.tx _) t.tx).take txStatus.toNat = _
    rw [Function.update_self, length, List.take_append_of_le_length le_rfl, List.take_length]

/-- The record of a padded frame with its CRC is passed on as the padded frame. -/
theorem rxTurn_frame (before : off.toNat < 8192) (received : status &&& (1 : UInt16) ≠ 0) (fits : frame.length ≤ 1514)
    (check : crc.length = 4)
    (held : RxPacket.At ⟨status, padded frame ++ crc⟩ buffer off) :
    ∃ pktLen next : UInt16, pktLen.toNat = max frame.length 60 ∧
      rxTurn buffer off = some (.packet (padded frame) pktLen next) := by
  have length := length_padded frame
  have total : (RxPacket.mk status (padded frame ++ crc)).data.length = max frame.length 60 + 4 := by
    rw [List.length_append, length, check]
  have small : (RxPacket.mk status (padded frame ++ crc)).data.length < 65536 := by omega
  have field := RxPacket.len_toNat small
  have good : goodPacket status (RxPacket.mk status (padded frame ++ crc)).len = true :=
    goodPacket_iff.mpr ⟨received, by omega, by omega⟩
  have delivered : (RxPacket.mk status (padded frame ++ crc)).delivered = some (padded frame) := by
    rw [RxPacket.delivered, if_pos good, total, Nat.add_sub_cancel, ← length,
      List.take_append_of_le_length le_rfl, List.take_length]
  have turn := rxTurn_record before held small
  rw [delivered] at turn
  refine ⟨_, _, ?_, turn⟩
  have four : (4 : UInt16) ≤ (RxPacket.mk status (padded frame ++ crc)).len :=
    UInt16.le_iff_toNat_le.mpr (le_trans (by decide) (show 60 ≤ _ by omega))
  rw [UInt16.toNat_sub_of_le _ _ four, field, total]
  rfl

/-- `eth_rx` takes the header off. -/
theorem ethUpcall_ip (localMac mac : Mac) (rest : List UInt8) (enough : 14 ≤ len.toNat) :
    ∃ ipLen : UInt16, ipLen.toNat = len.toNat - 14 ∧
      ethUpcall (ethFrame localMac mac ethTypeIp rest) len = some (.ip rest ipLen) := by
  obtain ⟨ipLen, difference, length⟩ := checkedSub_eq (y := 14) enough
  have notArp : ¬ ethTypeIp = ethTypeArp := by decide
  refine ⟨ipLen, length, ?_⟩
  rw [ethUpcall, ethFrame_type]
  simp only [Option.bind_eq_bind, Option.bind_some, bswap16_bswap16, if_neg notArp, if_true, difference,
    ethFrame_drop]

/-- `ip_rx` takes the header off, and passes on whatever is behind it. -/
theorem ipRxIcmp_datagram (src dst : UInt32) (payload rest : List UInt8) (enough : 20 ≤ len.toNat) :
    ∃ payloadLen : UInt16, payloadLen.toNat = len.toNat - 20 ∧
      ipRxIcmp (ipDatagram src dst 1 payload ++ rest) len = some (some (payload ++ rest, payloadLen)) := by
  obtain ⟨payloadLen, difference, length⟩ := checkedSub_eq (y := 20) enough
  have header : ¬ len < 20 := fun short => absurd (UInt16.lt_iff_toNat_lt.mp short) (not_lt.mpr enough)
  refine ⟨payloadLen, length, ?_⟩
  have body : (ipDatagram src dst 1 payload ++ rest).drop 20 = payload ++ rest := by
    rw [ipDatagram, List.append_assoc, List.drop_append_of_le_length length_ipHdr.ge,
      List.drop_of_length_le length_ipHdr.le, List.nil_append]
  rw [ipRxIcmp, if_neg header, readByte_append_left ipDatagram_read_proto]
  simp only [Option.bind_eq_bind, Option.bind_some, if_true, difference, body]

/-- What arrives at `icmp_rx`: the payload, padded to 26 bytes. -/
theorem icmp_arrives (before : off.toNat < 8192) (received : status &&& (1 : UInt16) ≠ 0)
    (small : payload.length ≤ 1400) (check : crc.length = 4)
    (same : frame = ethFrame localMac mac ethTypeIp (ipDatagram src dst 1 payload))
    (held : RxPacket.At ⟨status, padded frame ++ crc⟩ buffer off) :
    ∃ pkt pktLen next datagram ipLen payloadLen, rxTurn buffer off = some (.packet pkt pktLen next) ∧
      ethUpcall pkt pktLen = some (.ip datagram ipLen) ∧
      payloadLen.toNat = max payload.length 26 ∧
      ipRxIcmp datagram ipLen =
        some (some (payload ++ List.replicate (26 - payload.length) 0, payloadLen)) := by
  have length : frame.length = 34 + payload.length := by
    rw [same, length_ethFrame, length_ipDatagram]
    omega
  obtain ⟨pktLen, next, total, turn⟩ := rxTurn_frame before received (by omega) check held
  have pad : padded frame = ethFrame localMac mac ethTypeIp
      (ipDatagram src dst 1 payload ++ List.replicate (26 - payload.length) 0) := by
    rw [padded, length, same, ethFrame_append, show 60 - (34 + payload.length) = 26 - payload.length by omega]
  obtain ⟨ipLen, inner, upcall⟩ := ethUpcall_ip localMac mac
    (ipDatagram src dst 1 payload ++ List.replicate (26 - payload.length) 0) (show 14 ≤ pktLen.toNat by omega)
  obtain ⟨payloadLen, last, arrived⟩ := ipRxIcmp_datagram src dst payload
    (List.replicate (26 - payload.length) 0) (show 20 ≤ ipLen.toNat by omega)
  rw [← pad] at upcall
  exact ⟨_, _, _, _, _, payloadLen, turn, upcall, by omega, arrived⟩

/-- The frame that `ip_tx` sends for a known destination. -/
theorem ipTx_known (known : arpLookup n dst = some mac) (small : payload.length ≤ 1400) (proto : UInt8) :
    ipTx n dst proto payload =
      some (1, [ethFrame n.localMac mac ethTypeIp (ipDatagram n.ipIp dst proto payload)], n) := by
  rw [ipTx, if_neg (show ¬ 1480 < payload.length by omega), known]
  rfl

/-- A buffer that starts with a packet. -/
theorem RxPacket.exists_at (p : RxPacket) (fits : p.data.length ≤ 1518) : ∃ buffer, p.At buffer 0 := by
  have length : (p.record ++ List.replicate (9708 - p.record.length) 0).length = 9708 := by
    rw [List.length_append, List.length_replicate, p.length_record]
    omega
  refine ⟨⟨p.record ++ List.replicate (9708 - p.record.length) 0, length⟩, ?_⟩
  show ((p.record ++ _).drop 0).take p.record.length = p.record
  rw [List.drop_zero, List.take_append_of_le_length le_rfl, List.take_length]

/-- A host that has learned an address. -/
def acquainted : Stack := (arpAddEntry (netBoot zeroMac 1 0) 2 broadcast).2

theorem acquainted_known : arpLookup acquainted 2 = some broadcast := by
  have unique : UniqueIps (netBoot zeroMac 1 0).arpTable := fun _ _ valid => Bool.noConfusion valid
  exact arpLookup_added unique 2 broadcast

/-- The transmitter after its start. -/
def started : Transmitter := (TxRing.init 1 fun _ => []).transmitter

theorem started_on : started.ioBase ≠ 0 := by decide

/-- The frame of the acquainted host arrives in a buffer. -/
theorem exists_arrival (short : payload.length ≤ 1400) {i : Fin 4} {txStatus : UInt32} {t' : Transmitter}
    (tx : ipTx acquainted 2 1 payload = some (1, [frame], acquainted))
    (sent : rtl8139Send started frame = (some (i, txStatus), t')) :
    ∃ buffer, RxPacket.At ⟨1, (t'.txBuffers i).take txStatus.toNat ++ [0, 0, 0, 0]⟩ buffer 0 := by
  rw [ipTx_known acquainted_known short] at tx
  cases tx
  have length := length_padded
    (ethFrame acquainted.localMac broadcast ethTypeIp (ipDatagram acquainted.ipIp 2 1 payload))
  rw [length_ethFrame, length_ipDatagram] at length
  obtain ⟨j, txStatus', t'', sent', contents⟩ := rtl8139Send_contents started_on
    (show (ethFrame acquainted.localMac broadcast ethTypeIp (ipDatagram acquainted.ipIp 2 1 payload)).length ≤ 1792 by
      rw [length_ethFrame, length_ipDatagram]
      omega)
  rw [sent] at sent'
  cases sent'
  rw [contents]
  refine RxPacket.exists_at _ ?_
  rw [List.length_append, length]
  show _ + 4 ≤ 1518
  omega

/-- The bytes that `icmp_rx` gets and their number are the payload exactly if it needs no padding. -/
theorem icmp_round_trip_iff (known : arpLookup n dst = some mac) (small : payload.length ≤ 1400)
    (on : t.ioBase ≠ 0) :
    ∃ frame i txStatus t', ipTx n dst 1 payload = some (1, [frame], n) ∧
      rtl8139Send t frame = (some (i, txStatus), t') ∧
      ∀ status crc buffer off, status &&& (1 : UInt16) ≠ 0 → crc.length = 4 → off.toNat < 8192 →
        RxPacket.At ⟨status, (t'.txBuffers i).take txStatus.toNat ++ crc⟩ buffer off →
        ∃ pkt pktLen next datagram ipLen, rxTurn buffer off = some (.packet pkt pktLen next) ∧
          ethUpcall pkt pktLen = some (.ip datagram ipLen) ∧
          (ipRxIcmp datagram ipLen = some (some (payload, UInt16.ofNat payload.length)) ↔ 26 ≤ payload.length) := by
  have short : (ethFrame n.localMac mac ethTypeIp (ipDatagram n.ipIp dst 1 payload)).length ≤ 1792 := by
    rw [length_ethFrame, length_ipDatagram]
    omega
  obtain ⟨i, txStatus, t', sent, contents⟩ := rtl8139Send_contents on short
  refine ⟨_, i, txStatus, t', ipTx_known known small 1, sent, ?_⟩
  intro status crc buffer off received check before held
  rw [contents] at held
  obtain ⟨pkt, pktLen, next, datagram, ipLen, payloadLen, turn, upcall, length, arrived⟩ :=
    icmp_arrives before received small check rfl held
  refine ⟨pkt, pktLen, next, datagram, ipLen, turn, upcall, ?_⟩
  rw [arrived]
  constructor
  · intro same
    have bytes := congrArg List.length (Prod.mk.inj (Option.some.inj (Option.some.inj same))).1
    rw [List.length_append, List.length_replicate] at bytes
    omega
  · intro enough
    have none : 26 - payload.length = 0 := by omega
    have count : payloadLen = UInt16.ofNat payload.length := by
      apply UInt16.toNat.inj
      rw [length, UInt16.toNat_ofNat_of_lt' (show payload.length < 65536 by omega)]
      omega
    rw [none, List.replicate_zero, List.append_nil, count]

theorem icmp_round_trip_26 :
    ∃ frame i txStatus t' buffer pkt pktLen next datagram ipLen,
      ipTx acquainted 2 1 (List.replicate 26 7) = some (1, [frame], acquainted) ∧
      rtl8139Send started frame = (some (i, txStatus), t') ∧
      RxPacket.At ⟨1, (t'.txBuffers i).take txStatus.toNat ++ [0, 0, 0, 0]⟩ buffer 0 ∧
      rxTurn buffer 0 = some (.packet pkt pktLen next) ∧ ethUpcall pkt pktLen = some (.ip datagram ipLen) ∧
      ipRxIcmp datagram ipLen = some (some (List.replicate 26 7, 26)) := by
  obtain ⟨frame, i, txStatus, t', tx, sent, arrives⟩ :=
    @icmp_round_trip_iff acquainted 2 broadcast (List.replicate 26 7) started acquainted_known (by decide) started_on
  obtain ⟨buffer, held⟩ := exists_arrival (by decide) tx sent
  obtain ⟨pkt, pktLen, next, datagram, ipLen, turn, upcall, same⟩ :=
    arrives 1 [0, 0, 0, 0] buffer 0 (by decide) rfl (by decide) held
  exact ⟨frame, i, txStatus, t', buffer, pkt, pktLen, next, datagram, ipLen, tx, sent, held, turn, upcall,
    same.mpr (by decide)⟩

/-- A payload of one byte arrives with 25 bytes of padding. -/
theorem icmp_payload_padded :
    ∃ frame i txStatus t' buffer pkt pktLen next datagram ipLen,
      ipTx acquainted 2 1 [7] = some (1, [frame], acquainted) ∧
      rtl8139Send started frame = (some (i, txStatus), t') ∧
      RxPacket.At ⟨1, (t'.txBuffers i).take txStatus.toNat ++ [0, 0, 0, 0]⟩ buffer 0 ∧
      rxTurn buffer 0 = some (.packet pkt pktLen next) ∧ ethUpcall pkt pktLen = some (.ip datagram ipLen) ∧
      ipRxIcmp datagram ipLen ≠ some (some ([7], 1)) := by
  have tx : ipTx acquainted 2 1 [7] = _ := ipTx_known acquainted_known (by decide) 1
  have short : (ethFrame acquainted.localMac broadcast ethTypeIp (ipDatagram acquainted.ipIp 2 1 [7])).length ≤ 1792 := by
    rw [length_ethFrame, length_ipDatagram]
    decide
  obtain ⟨i, txStatus, t', sent, contents⟩ := rtl8139Send_contents started_on short
  obtain ⟨buffer, held⟩ := exists_arrival (by decide) tx sent
  have held' := held
  rw [contents] at held'
  obtain ⟨pkt, pktLen, next, datagram, ipLen, payloadLen, turn, upcall, -, arrived⟩ :=
    icmp_arrives (by decide) (by decide) (by decide) rfl rfl held'
  refine ⟨_, i, txStatus, t', buffer, pkt, pktLen, next, datagram, ipLen, tx, sent, held, turn, upcall, ?_⟩
  rw [arrived]
  intro same
  have bytes := congrArg List.length (Prod.mk.inj (Option.some.inj (Option.some.inj same))).1
  exact absurd bytes (by decide)

end QuantumKernel.Net
