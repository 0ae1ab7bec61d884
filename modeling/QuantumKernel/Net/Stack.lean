import QuantumKernel.Net.Frames
import QuantumKernel.Library.SlotArray

/-! # The network stack

`ethernet.c`, `arp.c`, `ip.c` and `icmp.c`.  The static variables of the four files are the
fields of `Stack`; a function that sends returns the frames that it passes to `rtl8139_send`,
in order.  A received packet is the list of its bytes from the pointer on.  The functions
that receive give `none` if they read behind the packet or if a length wraps, and `ip_tx`
gives `none` if a `memcpy` leaves its array.
-/

namespace QuantumKernel.Net

open Packed SlotArray

/-- `arp_entry_t`. -/
structure ArpEntry where
  ip : UInt32
  mac : Mac
  timestamp : UInt32
  valid : Bool

/-- `queued_packet_t`; `payload` is the part of the array that `len` counts. -/
structure QueuedPacket where
  dst : UInt32
  proto : UInt8
  payload : List UInt8
  timestamp : UInt32
  valid : Bool

/-- The static variables of `icmp.c`. -/
structure Icmp where
  pingId : UInt16
  pingSeq : UInt16
  pingWaiting : Bool
  pingSentTime : UInt32

structure Stack where
  localMac : Mac
  /-- `local_ip` of `arp.c`. -/
  arpIp : UInt32
  /-- `local_ip` of `ip.c`. -/
  ipIp : UInt32
  arpTable : Fin 16 → ArpEntry
  arpQueue : Fin 8 → QueuedPacket
  arpPending : Int32
  icmp : Icmp
  /-- What `get_tick_count` returns. -/
  ticks : UInt32

def zeroMac : Mac := List.Vector.replicate 6 0
def broadcast : Mac := List.Vector.replicate 6 255

def ArpEntry.zero : ArpEntry := ⟨0, zeroMac, 0, false⟩
def QueuedPacket.zero : QueuedPacket := ⟨0, 0, [], 0, false⟩

/-! ## Start -/

/-- The static variables before any function has run. -/
def Stack.zero : Stack where
  localMac := zeroMac
  arpIp := 0
  ipIp := 0
  arpTable := fun _ => ArpEntry.zero
  arpQueue := fun _ => QueuedPacket.zero
  arpPending := 0
  icmp := ⟨1, 0, false, 0⟩
  ticks := 0

def ethInit (n : Stack) (mac : Mac) : Stack := { n with localMac := mac }

def arpInit (n : Stack) (ip : UInt32) : Stack := { n with arpIp := ip, arpTable := fun _ => ArpEntry.zero }

/-- `ip_init`; it leaves `arp_pending` as it is. -/
def ipInit (n : Stack) (ip : UInt32) : Stack := { n with ipIp := ip, arpQueue := fun _ => QueuedPacket.zero }

/-- The part of the boot that sets up the network, at some time. -/
def netBoot (mac : Mac) (ip ticks : UInt32) : Stack :=
  ipInit (arpInit (ethInit { Stack.zero with ticks := ticks } mac) ip) ip

/-! ## Sending -/

/-- `eth_tx`. -/
def ethTx (n : Stack) (dst : Mac) (type : UInt16) (payload : List UInt8) : Frame :=
  ethFrame n.localMac dst type payload

/-- `arp_request`. -/
def arpRequest (n : Stack) (ip : UInt32) : Frame :=
  ethTx n broadcast ethTypeArp (arpPkt 1 n.localMac n.arpIp zeroMac ip).bytes

/-- The entry that `arp_lookup` and `arp_add_entry` look for. -/
def ArpEntry.isFor (ip : UInt32) (e : ArpEntry) : Bool := e.valid && e.ip == ip

/-- `arp_lookup`. -/
def arpLookup (n : Stack) (ip : UInt32) : Option Mac :=
  (findSlot fun i => (n.arpTable i).isFor ip).map fun i => (n.arpTable i).mac

/-- The packet waits for this address. -/
def QueuedPacket.waitsFor (ip : UInt32) (p : QueuedPacket) : Bool := p.valid && p.dst == ip

/-- The frame that a queued packet leaves in. -/
def queuedFrame (n : Stack) (mac : Mac) (p : QueuedPacket) : Frame :=
  ethTx n mac ethTypeIp (ipDatagram n.ipIp p.dst p.proto p.payload)

/-- The body of the loop of `ip_process_arp_queue`. -/
def processSlot (mac : Mac) (ip : UInt32) (sent : List Frame × Stack) (i : Fin 8) : List Frame × Stack :=
  let p := sent.2.arpQueue i
  if p.waitsFor ip then
    (sent.1 ++ [queuedFrame sent.2 mac p], { sent.2 with
      arpQueue := Function.update sent.2.arpQueue i { p with valid := false }
      arpPending := sent.2.arpPending - 1 })
  else sent

/-- `ip_process_arp_queue`. -/
def ipProcessArpQueue (n : Stack) (resolvedIp : UInt32) : List Frame × Stack :=
  match arpLookup n resolvedIp with
  | none => ([], n)
  | some mac => (List.finRange 8).foldl (processSlot mac resolvedIp) ([], n)

/-- `ip_tx`. -/
def ipTx (n : Stack) (dst : UInt32) (proto : UInt8) (payload : List UInt8) :
    Option (Int32 × List Frame × Stack) :=
  -- `buf` has 1500 bytes, 20 of them for the header.
  if 1480 < payload.length then none
  else
    match arpLookup n dst with
    | none =>
      match findSlot fun i => !(n.arpQueue i).valid with
      | none => some (-1, [], n)
      | some slot =>
        if 1400 < payload.length then none
        else some (0, [arpRequest n dst], { n with
          arpQueue := Function.update n.arpQueue slot ⟨dst, proto, payload, n.ticks, true⟩
          arpPending := n.arpPending + 1 })
    | some mac => some (1, [ethTx n mac ethTypeIp (ipDatagram n.ipIp dst proto payload)], n)

/-- The request that `icmp_ping` sends. -/
def icmpRequest (id seq : UInt16) : List UInt8 :=
  let hdr (csum : UInt16) := [8, 0] ++ (le16 csum ++ (le16 id ++ le16 seq))
  hdr (checksum (hdr 0))

/-- `icmp_ping`. -/
def icmpPing (n : Stack) (ip : UInt32) : Option (List Frame × Stack) := do
  let n := { n with icmp := { n.icmp with
    pingSeq := n.icmp.pingSeq + 1, pingWaiting := true, pingSentTime := n.ticks } }
  let (_, frames, n) ← ipTx n ip 1 (icmpRequest n.icmp.pingId n.icmp.pingSeq)
  some (frames, n)

/-! ## The ARP table -/

theorem arpTable_pos : 0 < 16 := by decide

/-- The loop for the entry with the lowest timestamp. -/
def oldestSlot (table : Fin 16 → ArpEntry) : Fin 16 :=
  (List.finRange 16).tail.foldl
    (fun oldest i => if (table i).timestamp < (table oldest).timestamp then i else oldest) ⟨0, arpTable_pos⟩

/-- A new entry in a slot. -/
def Stack.putEntry (n : Stack) (i : Fin 16) (ip : UInt32) (mac : Mac) : Stack :=
  { n with arpTable := Function.update n.arpTable i ⟨ip, mac, n.ticks, true⟩ }

@[simp] theorem Stack.putEntry_arpTable (n : Stack) (i : Fin 16) (ip : UInt32) (mac : Mac) :
    (n.putEntry i ip mac).arpTable = Function.update n.arpTable i ⟨ip, mac, n.ticks, true⟩ := rfl

/-- `arp_add_entry`. -/
def arpAddEntry (n : Stack) (ip : UInt32) (mac : Mac) : List Frame × Stack :=
  match findSlot fun i => (n.arpTable i).isFor ip with
  | some i => ([], { n with
      arpTable := Function.update n.arpTable i { n.arpTable i with mac := mac, timestamp := n.ticks } })
  | none =>
    match findSlot fun i => !(n.arpTable i).valid with
    | some i => ipProcessArpQueue (n.putEntry i ip mac) ip
    | none => ipProcessArpQueue (n.putEntry (oldestSlot n.arpTable) ip mac) ip

/-! ## Receiving -/

/-- A difference of lengths, which must not wrap. -/
def checkedSub (x y : UInt16) : Option UInt16 := if y ≤ x then some (x - y) else none

/-- The reply of `arp_rx` to a request, if it is for the own address. -/
def arpReplies (n : Stack) (pkt : List UInt8) : Option (List Frame) := do
  let tpa ← readWord32 pkt 24
  if tpa = n.arpIp then
    let sha ← readVector 6 pkt 8
    let spa ← readWord32 pkt 14
    some [ethTx n sha ethTypeArp (arpPkt 2 n.localMac n.arpIp sha spa).bytes]
  else some []

/-- `arp_rx`. -/
def arpRx (n : Stack) (pkt : List UInt8) : Option (List Frame × Stack) := do
  let oper ← readWord16 pkt 6
  if bswap16 oper = 1 then
    let replies ← arpReplies n pkt
    let spa ← readWord32 pkt 14
    let sha ← readVector 6 pkt 8
    let (frames, n) := arpAddEntry n spa sha
    some (replies ++ frames, n)
  else if bswap16 oper = 2 then
    let spa ← readWord32 pkt 14
    let sha ← readVector 6 pkt 8
    some (arpAddEntry n spa sha)
  else some ([], n)

/-- `icmp_rx`; `seq` is only printed. -/
def icmpRx (n : Stack) (pkt : List UInt8) (len : UInt16) : Option Stack :=
  if len < 8 then some n
  else do
    let type ← readByte pkt 0
    if type = 0 ∧ n.icmp.pingWaiting = true then
      let _ ← readWord16 pkt 6
      some { n with icmp := { n.icmp with pingWaiting := false } }
    else some n

/-- The arguments with which `ip_rx` calls `icmp_rx`, if it does. -/
def ipRxIcmp (pkt : List UInt8) (len : UInt16) : Option (Option (List UInt8 × UInt16)) :=
  if len < 20 then some none
  else do
    let proto ← readByte pkt 9
    if proto = 1 then
      let payloadLen ← checkedSub len 20
      some (some (pkt.drop 20, payloadLen))
    else some none

/-- `ip_rx`. -/
def ipRx (n : Stack) (pkt : List UInt8) (len : UInt16) : Option Stack := do
  match ← ipRxIcmp pkt len with
  | none => some n
  | some (payload, payloadLen) => icmpRx n payload payloadLen

/-- The packets to which `eth_rx` dispatches. -/
inductive Upcall
  | arp (pkt : List UInt8)
  | ip (pkt : List UInt8) (len : UInt16)
  | ignored

/-- Where `eth_rx` passes a frame. -/
def ethUpcall (data : List UInt8) (len : UInt16) : Option Upcall := do
  let type ← readWord16 data 12
  if bswap16 type = ethTypeArp then some (.arp (data.drop 14))
  else if bswap16 type = ethTypeIp then
    let len ← checkedSub len 14
    some (.ip (data.drop 14) len)
  else some .ignored

/-- `eth_rx`. -/
def ethRx (n : Stack) (data : List UInt8) (len : UInt16) : Option (List Frame × Stack) := do
  match ← ethUpcall data len with
  | .arp pkt => arpRx n pkt
  | .ip pkt len => do
    let n ← ipRx n pkt len
    some ([], n)
  | .ignored => some ([], n)

/-! ## Calls -/

/-- What happens to the stack of one host. -/
inductive NetCall
  | ipTx (dst : UInt32) (proto : UInt8) (payload : List UInt8)
  | arpRequest (ip : UInt32)
  | arpRx (pkt : List UInt8)
  | arpAddEntry (ip : UInt32) (mac : Mac)
  /-- The timer interrupt. -/
  | tick

/-- The result of `ip_tx`, 0 for the other calls, and the frames. -/
structure NetReply where
  result : Int32
  frames : List Frame

def Stack.step (n : Stack) : NetCall → Option (NetReply × Stack)
  | .ipTx dst proto payload => do
    let (result, frames, n) ← ipTx n dst proto payload
    some (⟨result, frames⟩, n)
  | .arpRequest ip => some (⟨0, [arpRequest n ip]⟩, n)
  | .arpRx pkt => do
    let (frames, n) ← arpRx n pkt
    some (⟨0, frames⟩, n)
  | .arpAddEntry ip mac =>
    let (frames, n) := arpAddEntry n ip mac
    some (⟨0, frames⟩, n)
  | .tick => some (⟨0, []⟩, { n with ticks := n.ticks + 1 })

end QuantumKernel.Net
