import QuantumKernel.Net.Stack

/-! # The network card

`rtl8139_send` and `rtl8139_irq_handler`.  The card itself is outside: the handler gets from
it the status register and, for each round of its loop, the bytes of the receive buffer, and
`rtl8139_send` gives what it writes to a TXSTATUS register.
-/

namespace QuantumKernel.Net

open Packed

/-! ## Sending -/

/-- The bytes that are sent for a frame: short ones are padded to 60. -/
def padded (data : List UInt8) : List UInt8 := data ++ List.replicate (60 - data.length) 0

theorem nextDescriptor_lt (tx : Nat) : (tx + 1) &&& 3 < 4 :=
  Nat.lt_of_le_of_lt Nat.and_le_right (by decide)

/-- `(tx + 1) & 3`. -/
def nextDescriptor (tx : Fin 4) : Fin 4 := ⟨(tx.val + 1) &&& 3, nextDescriptor_lt tx.val⟩

/-- The static variables of `rtl8139_send` and the four buffers. -/
structure Transmitter where
  ioBase : UInt32
  tx : Fin 4
  txBuffers : Fin 4 → List UInt8

/-- `rtl8139_send`, with the TXSTATUS register that it writes and the value. -/
def rtl8139Send (t : Transmitter) (data : List UInt8) : Option (Fin 4 × UInt32) × Transmitter :=
  if t.ioBase = 0 then (none, t)
  else if 1792 < data.length then (none, t)
  else
    let bytes := padded data
    (some (t.tx, UInt32.ofNat bytes.length &&& (0x1FFF : UInt32)), { t with
      txBuffers := Function.update t.txBuffers t.tx (bytes ++ (t.txBuffers t.tx).drop bytes.length)
      tx := nextDescriptor t.tx })

/-! ## Receiving -/

/-- The receive buffer that `rtl8139_init` allocates. -/
abbrev RxBuffer := List.Vector UInt8 9708

/-- What a round of the receive loop does: it gives up at the end of the ring, or it skips a
packet or passes it to `eth_rx`, and goes on at the next offset. -/
inductive RxTurn
  | overflow
  | bad (next : UInt16)
  | packet (pkt : List UInt8) (len next : UInt16)
  deriving DecidableEq

/-- `current_rx_offset` behind a packet. -/
def nextRxOffset (off pktLen : UInt16) : UInt16 :=
  ((off.toUInt32 + pktLen.toUInt32 + 4 + 3) &&& ~~~ (3 : UInt32)).toUInt16

/-- The packets that are passed on. -/
def goodPacket (pktStatus pktLen : UInt16) : Bool :=
  pktStatus &&& (1 : UInt16) != 0 && 60 ≤ pktLen && pktLen ≤ 1518

/-- A round of the loop of `rtl8139_irq_handler`; `none` is a read outside of the buffer or a
length that wraps. -/
def rxTurn (buffer : RxBuffer) (off : UInt16) : Option RxTurn :=
  if 8192 ≤ off then some .overflow
  else do
    let hdr ← readWord32 buffer.toList off.toNat
    let pktStatus := hdr.toUInt16
    let pktLen := (hdr >>> 16).toUInt16
    if goodPacket pktStatus pktLen then
      let len ← checkedSub pktLen 4
      let pkt ← readSlice buffer.toList (off.toNat + 4) len.toNat
      some (.packet pkt len (nextRxOffset off pktLen))
    else some (.bad (nextRxOffset off pktLen))

/-- The static variables that the handler uses, here and above. -/
structure Host where
  stack : Stack
  ioBase : UInt32
  currentRxOffset : UInt16

/-- The loop of the handler.  The list has the receive buffer at each round in which the card
does not report it empty. -/
def rxLoop (h : Host) : List RxBuffer → Option (List Frame × Host)
  | [] => some ([], h)
  | buffer :: later => do
    match ← rxTurn buffer h.currentRxOffset with
    | .overflow => some ([], { h with currentRxOffset := 0 })
    | .bad next => rxLoop { h with currentRxOffset := next } later
    | .packet pkt len next => do
      let (frames, stack) ← ethRx h.stack pkt len
      let (rest, h) ← rxLoop { h with stack := stack, currentRxOffset := next } later
      some (frames ++ rest, h)

/-- An interrupt: the register ISR, and what the receive loop finds in the buffer. -/
structure Interrupt where
  status : UInt16
  buffers : List RxBuffer

/-- `rtl8139_irq_handler`. -/
def rtl8139IrqHandler (h : Host) (irq : Interrupt) : Option (List Frame × Host) :=
  if h.ioBase = 0 then some ([], h)
  else if irq.status &&& (1 : UInt16) ≠ 0 then rxLoop h irq.buffers
  else some ([], h)

/-- The part of `rtl8139_init` that the handler depends on. -/
def rtl8139Init (stack : Stack) (ioBase : UInt32) : Host := ⟨stack, ioBase, 0⟩

end QuantumKernel.Net
