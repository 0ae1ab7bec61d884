import QuantumKernel.Library.Transition
import QuantumKernel.Net.Rtl8139

/-! # The receive path stays inside of its buffers

Every read of the receive path is a `none` if it leaves its packet, and every difference of
lengths is one if it wraps; so the statements say that the functions always give a value.
A round of the loop needs that the offset is a multiple of 4, which it leaves to the next
one: a packet may end 3 bytes before the end of the buffer, and not later.
-/

namespace QuantumKernel.Net

open Packed Transition

variable {n : Stack} {data pkt : List UInt8} {len next off pktStatus pktLen : UInt16} {buffer : RxBuffer}
  {h h' : Host}

/-! ## Arithmetic -/

theorem and_not_three_toNat (x : UInt32) : (x &&& ~~~ (3 : UInt32)).toNat = x.toNat / 4 * 4 := by
  have shifts : x &&& ~~~ (3 : UInt32) = (x >>> 2) <<< 2 := by
    apply UInt32.toBitVec_inj.mp
    ext i bound
    simp
    interval_cases i <;> simp
  have bound := x.toNat_lt
  rw [shifts]
  simp [UInt32.toNat_shiftLeft, UInt32.toNat_shiftRight, Nat.shiftLeft_eq, Nat.shiftRight_eq_div_pow]
  omega

theorem nextRxOffset_toNat (off pktLen : UInt16) :
    (nextRxOffset off pktLen).toNat = (off.toNat + pktLen.toNat + 7) / 4 * 4 % 65536 := by
  have start := off.toNat_lt
  have length := pktLen.toNat_lt
  have sum : (off.toUInt32 + pktLen.toUInt32 + 4 + 3).toNat = off.toNat + pktLen.toNat + 7 := by
    simp [UInt32.toNat_add]
    omega
  rw [nextRxOffset, UInt32.toNat_toUInt16, and_not_three_toNat, sum]

/-- Whatever the length is, the next offset is a multiple of 4. -/
theorem nextRxOffset_aligned (off pktLen : UInt16) : 4 ∣ (nextRxOffset off pktLen).toNat := by
  rw [nextRxOffset_toNat]
  omega

theorem goodPacket_iff :
    goodPacket pktStatus pktLen = true ↔
      pktStatus &&& (1 : UInt16) ≠ 0 ∧ 60 ≤ pktLen.toNat ∧ pktLen.toNat ≤ 1518 := by
  simp only [goodPacket, Bool.and_eq_true, bne_iff_ne, decide_eq_true_eq, UInt16.le_iff_toNat_le, and_assoc]
  rfl

theorem checkedSub_eq {x y : UInt16} (le : y.toNat ≤ x.toNat) :
    ∃ z, checkedSub x y = some z ∧ z.toNat = x.toNat - y.toNat :=
  ⟨x - y, if_pos (UInt16.le_iff_toNat_le.mpr le), UInt16.toNat_sub_of_le _ _ (UInt16.le_iff_toNat_le.mpr le)⟩

/-! ## The layers -/

theorem arpReplies_inside (enough : 28 ≤ pkt.length) : ∃ replies, arpReplies n pkt = some replies := by
  obtain ⟨tpa, readTpa⟩ := readWord32_isSome (show 24 + 4 ≤ pkt.length by omega)
  obtain ⟨sha, readSha⟩ := readVector_isSome (show 8 + 6 ≤ pkt.length by omega)
  obtain ⟨spa, readSpa⟩ := readWord32_isSome (show 14 + 4 ≤ pkt.length by omega)
  rw [arpReplies, readTpa]
  by_cases mine : tpa = n.arpIp
  · simp only [Option.bind_eq_bind, Option.bind_some, if_pos mine, readSha, readSpa]
    exact ⟨_, rfl⟩
  · simp only [Option.bind_eq_bind, Option.bind_some, if_neg mine]
    exact ⟨_, rfl⟩

/-- An ARP packet has 28 bytes. -/
theorem arpRx_inside (enough : 28 ≤ pkt.length) : ∃ sent, arpRx n pkt = some sent := by
  obtain ⟨oper, readOper⟩ := readWord16_isSome (show 6 + 2 ≤ pkt.length by omega)
  obtain ⟨replies, answered⟩ := arpReplies_inside (n := n) enough
  obtain ⟨spa, readSpa⟩ := readWord32_isSome (show 14 + 4 ≤ pkt.length by omega)
  obtain ⟨sha, readSha⟩ := readVector_isSome (show 8 + 6 ≤ pkt.length by omega)
  rw [arpRx, readOper]
  by_cases request : bswap16 oper = 1
  · simp only [Option.bind_eq_bind, Option.bind_some, if_pos request, answered, readSpa, readSha]
    exact ⟨_, rfl⟩
  · by_cases reply : bswap16 oper = 2
    · simp only [Option.bind_eq_bind, Option.bind_some, if_neg request, if_pos reply, readSpa, readSha]
      exact ⟨_, rfl⟩
    · simp only [Option.bind_eq_bind, Option.bind_some, if_neg request, if_neg reply]
      exact ⟨_, rfl⟩

/-- `icmp_rx` checks its length itself. -/
theorem icmpRx_inside (length : pkt.length = len.toNat) : ∃ n', icmpRx n pkt len = some n' := by
  rw [icmpRx]
  by_cases short : len < 8
  · rw [if_pos short]
    exact ⟨_, rfl⟩
  · rw [UInt16.lt_iff_toNat_lt] at short
    have enough : 8 ≤ len.toNat := not_lt.mp short
    obtain ⟨type, readType⟩ := readByte_isSome (show 0 < pkt.length by omega)
    obtain ⟨seq, readSeq⟩ := readWord16_isSome (show 6 + 2 ≤ pkt.length by omega)
    rw [if_neg (by rwa [UInt16.lt_iff_toNat_lt]), readType]
    by_cases awaited : type = 0 ∧ n.icmp.pingWaiting = true
    · simp only [Option.bind_eq_bind, Option.bind_some, if_pos awaited, readSeq]
      exact ⟨_, rfl⟩
    · simp only [Option.bind_eq_bind, Option.bind_some, if_neg awaited]
      exact ⟨_, rfl⟩

/-- `ip_rx` checks that there is a header before it takes its length off. -/
theorem ipRx_inside (length : pkt.length = len.toNat) : ∃ n', ipRx n pkt len = some n' := by
  rw [ipRx, ipRxIcmp]
  by_cases short : len < 20
  · rw [if_pos short]
    exact ⟨_, rfl⟩
  · rw [UInt16.lt_iff_toNat_lt] at short
    have enough : 20 ≤ len.toNat := not_lt.mp short
    obtain ⟨proto, readProto⟩ := readByte_isSome (show 9 < pkt.length by omega)
    rw [if_neg (by rwa [UInt16.lt_iff_toNat_lt]), readProto]
    by_cases icmp : proto = 1
    · obtain ⟨payloadLen, difference, payloadLength⟩ := checkedSub_eq (y := 20) enough
      have dropped : (pkt.drop 20).length = payloadLen.toNat := by
        rw [List.length_drop, length, payloadLength]
        rfl
      simp only [Option.bind_eq_bind, Option.bind_some, if_pos icmp, difference]
      exact icmpRx_inside dropped
    · simp only [Option.bind_eq_bind, Option.bind_some, if_neg icmp]
      exact ⟨_, rfl⟩

/-- The lower bound of the driver is enough for an ARP packet behind an Ethernet header. -/
theorem ethRx_inside (length : data.length = len.toNat) (enough : 56 ≤ len.toNat) :
    ∃ sent, ethRx n data len = some sent := by
  obtain ⟨type, readType⟩ := readWord16_isSome (show 12 + 2 ≤ data.length by omega)
  rw [ethRx, ethUpcall, readType]
  by_cases arp : bswap16 type = ethTypeArp
  · simp only [Option.bind_eq_bind, Option.bind_some, if_pos arp]
    exact arpRx_inside (by rw [List.length_drop]; omega)
  · by_cases ip : bswap16 type = ethTypeIp
    · have header : (14 : UInt16).toNat ≤ len.toNat := le_trans (by decide) enough
      obtain ⟨ipLen, difference, ipLength⟩ := checkedSub_eq header
      have dropped : (data.drop 14).length = ipLen.toNat := by
        rw [List.length_drop, length, ipLength]
        rfl
      obtain ⟨n', received⟩ := ipRx_inside (n := n) dropped
      simp only [Option.bind_eq_bind, Option.bind_some, if_neg arp, if_pos ip, difference, received]
      exact ⟨_, rfl⟩
    · simp only [Option.bind_eq_bind, Option.bind_some, if_neg arp, if_neg ip]
      exact ⟨_, rfl⟩

/-! ## The driver -/

/-- The packet lies in the buffer behind its header at `off`. -/
structure Inside (buffer : RxBuffer) (off : UInt16) (pkt : List UInt8) (len : UInt16) : Prop where
  header : off.toNat + 4 ≤ 8192
  packet : off.toNat + 4 + len.toNat ≤ 9708
  bytes : pkt = (buffer.toList.drop (off.toNat + 4)).take len.toNat
  enough : 56 ≤ len.toNat

theorem Inside.length (inside : Inside buffer off pkt len) : pkt.length = len.toNat := by
  have packet := inside.packet
  rw [inside.bytes, List.length_take, List.length_drop, List.Vector.toList_length]
  omega

/-- A round at a multiple of 4 stays inside, and goes on at one. -/
theorem rxTurn_inside (buffer : RxBuffer) (aligned : 4 ∣ off.toNat) :
    rxTurn buffer off = some .overflow ∨
    (∃ next, rxTurn buffer off = some (.bad next) ∧ 4 ∣ next.toNat) ∨
    ∃ pkt len next, rxTurn buffer off = some (.packet pkt len next) ∧ 4 ∣ next.toNat ∧ Inside buffer off pkt len := by
  rw [rxTurn]
  by_cases behind : 8192 ≤ off
  · rw [if_pos behind]
    exact Or.inl rfl
  · rw [UInt16.le_iff_toNat_le] at behind
    have before : off.toNat < 8192 := not_le.mp behind
    have size : buffer.toList.length = 9708 := buffer.toList_length
    obtain ⟨hdr, readHdr⟩ := readWord32_isSome (show off.toNat + 4 ≤ buffer.toList.length by omega)
    rw [if_neg (by rwa [UInt16.le_iff_toNat_le]), readHdr]
    simp only [Option.bind_eq_bind, Option.bind_some]
    by_cases good : goodPacket hdr.toUInt16 (hdr >>> 16).toUInt16 = true
    · obtain ⟨-, least, most⟩ := goodPacket_iff.mp good
      obtain ⟨len, difference, length⟩ := checkedSub_eq (y := 4) (le_trans (by decide) least)
      have four : (4 : UInt16).toNat = 4 := rfl
      rw [if_pos good, difference]
      simp only [Option.bind_some]
      rw [readSlice_eq (by omega)]
      exact Or.inr (Or.inr ⟨_, _, _, rfl, nextRxOffset_aligned _ _, by omega, by omega, rfl, by omega⟩)
    · rw [if_neg good]
      exact Or.inr (Or.inl ⟨_, rfl, nextRxOffset_aligned _ _⟩)

/-- Any number of rounds. -/
theorem rxLoop_inside (buffers : List RxBuffer) (h : Host) (aligned : 4 ∣ h.currentRxOffset.toNat) :
    ∃ frames h', rxLoop h buffers = some (frames, h') ∧ 4 ∣ h'.currentRxOffset.toNat := by
  induction buffers generalizing h with
  | nil => exact ⟨[], h, rfl, aligned⟩
  | cons buffer later ih =>
    rcases rxTurn_inside buffer aligned with turn | ⟨next, turn, aligned'⟩ | ⟨pkt, len, next, turn, aligned', inside⟩
    · rw [rxLoop, turn]
      exact ⟨_, _, rfl, Nat.dvd_zero 4⟩
    · rw [rxLoop, turn]
      exact ih { h with currentRxOffset := next } aligned'
    · obtain ⟨⟨frames, stack⟩, received⟩ := ethRx_inside (n := h.stack) inside.length inside.enough
      obtain ⟨rest, h', run, final⟩ := ih { h with stack := stack, currentRxOffset := next } aligned'
      rw [rxLoop, turn]
      simp only [Option.bind_eq_bind, Option.bind_some, received, run]
      exact ⟨_, _, rfl, final⟩

theorem rtl8139IrqHandler_inside (irq : Interrupt) (h : Host) (aligned : 4 ∣ h.currentRxOffset.toNat) :
    ∃ frames h', rtl8139IrqHandler h irq = some (frames, h') ∧ 4 ∣ h'.currentRxOffset.toNat := by
  rw [rtl8139IrqHandler]
  by_cases off : h.ioBase = 0
  · rw [if_pos off]
    exact ⟨[], h, rfl, aligned⟩
  · rw [if_neg off]
    split
    · exact rxLoop_inside irq.buffers h aligned
    · exact ⟨[], h, rfl, aligned⟩

/-- After any interrupts with any contents of the buffer, the offset is a multiple of 4, the next
packet lies inside of the buffer, and the next interrupt reads nothing outside. -/
theorem receive_in_bounds (stack : Stack) (ioBase : UInt32) {irqs : List (Interrupt × List Frame)}
    (run : Run rtl8139IrqHandler (fun _ _ => True) (rtl8139Init stack ioBase) irqs h) :
    4 ∣ h.currentRxOffset.toNat ∧
    (∀ buffer pkt len next, rxTurn buffer h.currentRxOffset = some (.packet pkt len next) →
      Inside buffer h.currentRxOffset pkt len ∧ 4 ∣ next.toNat) ∧
    ∀ irq, ∃ frames h', rtl8139IrqHandler h irq = some (frames, h') ∧ 4 ∣ h'.currentRxOffset.toNat := by
  have aligned : 4 ∣ h.currentRxOffset.toNat := by
    refine run.invariant (fun h => 4 ∣ h.currentRxOffset.toNat) (fun h irq _ h' aligned _ done => ?_) (Nat.dvd_zero 4)
    obtain ⟨frames, h'', same, aligned'⟩ := rtl8139IrqHandler_inside irq h aligned
    rw [same] at done
    cases done
    exact aligned'
  refine ⟨aligned, fun buffer pkt len next turn => ?_, fun irq => rtl8139IrqHandler_inside irq h aligned⟩
  rcases rxTurn_inside buffer aligned with behind | ⟨_, bad, -⟩ | ⟨_, _, _, good, aligned', inside⟩
  · rw [behind] at turn
    cases turn
  · rw [bad] at turn
    cases turn
  · rw [good] at turn
    cases turn
    exact ⟨inside, aligned'⟩

/-- An ARP request of 60 bytes with its CRC, behind the header of a good packet. -/
def requestRecord : List UInt8 :=
  le16 1 ++ le16 64 ++ List.replicate 12 0 ++ [8, 6, 0, 1, 8, 0, 6, 4, 0, 1] ++ List.replicate 42 0

theorem requests_length : (requestRecord ++ (requestRecord ++ List.replicate 9572 0)).length = 9708 := by
  rw [List.length_append, List.length_append, List.length_replicate]
  rfl

/-- Two of them, one behind the other. -/
def requestBuffer : RxBuffer := ⟨requestRecord ++ (requestRecord ++ List.replicate 9572 0), requests_length⟩

/-- The first request is answered, the second is the next packet. -/
theorem receive_in_bounds_requests :
    ∃ irqs h pkt next, Run rtl8139IrqHandler (fun _ _ => True) (rtl8139Init Stack.zero 1) irqs h ∧
      irqs.map (fun irq => irq.2.length) = [1] ∧ h.currentRxOffset = 68 ∧
      rxTurn requestBuffer h.currentRxOffset = some (.packet pkt 60 next) ∧
      Inside requestBuffer h.currentRxOffset pkt 60 ∧ 4 ∣ next.toNat := by
  obtain ⟨irqs, h, run, answered, offset, turn⟩ := Run.exists_of_replay rtl8139IrqHandler (fun _ _ => True)
    (rtl8139Init Stack.zero 1) [⟨1, [requestBuffer]⟩]
    (fun irqs h => irqs.map (fun irq => irq.2.length) = [1] ∧ h.currentRxOffset = 68 ∧
      rxTurn requestBuffer h.currentRxOffset = some (.packet ((requestBuffer.toList.drop 72).take 60) 60 136))
    (by decide +kernel)
  exact ⟨irqs, h, _, _, run, answered, offset, turn, (receive_in_bounds Stack.zero 1 run).2.1 _ _ _ _ turn⟩

end QuantumKernel.Net
