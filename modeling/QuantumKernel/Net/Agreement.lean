import QuantumKernel.Net.Queue
import QuantumKernel.Net.Rtl8139

/-! # Agreement of the ARP tables

Any number of hosts on one wire, which may lose, duplicate and reorder frames.  An ARP packet
carries the pair of the host that made it, a table takes over pairs from ARP packets only, and
an IP frame takes its address from a table.  So every pair anywhere is the pair of a host
(`Agreement`), and the order in which frames arrive does not matter.
-/

namespace QuantumKernel.Net

open SlotArray Packed Transition

variable {ι : Type}

/-- The hosts on a wire, each with its own address. -/
structure Hosts (ι : Type) where
  mac : ι → Mac
  ip : ι → UInt32
  distinct : Function.Injective ip

/-- The host `k`, and no other one, has the address. -/
def Hosts.Owner (hosts : Hosts ι) (ip : UInt32) (k : ι) : Prop := ∀ l, hosts.ip l = ip ↔ l = k

/-- The address belongs to a host with this MAC. -/
def Hosts.Owns (hosts : Hosts ι) (ip : UInt32) (mac : Mac) : Prop := ∃ k, hosts.Owner ip k ∧ hosts.mac k = mac

/-- The hosts, and the frames on the wire. -/
structure Network (ι : Type) where
  stackOf : ι → Stack
  wire : List Frame

inductive NetAction (ι : Type)
  | arpRequest (i : ι) (ip : UInt32)
  | ipTx (i : ι) (dst : UInt32) (proto : UInt8) (payload : List UInt8)
  | tick (i : ι)
  /-- A frame reaches a host, and stays on the wire. -/
  | deliver (i : ι) (f : Frame)
  /-- Frames are lost, duplicated or put into another order. -/
  | disturb (wire : List Frame)

def Network.boot (hosts : Hosts ι) (ticks : ι → UInt32) : Network ι where
  stackOf i := netBoot (hosts.mac i) (hosts.ip i) (ticks i)
  wire := []

/-- A host sends frames. -/
def Network.emit [DecidableEq ι] (net : Network ι) (i : ι) (frames : List Frame) (n : Stack) : Network ι where
  stackOf := Function.update net.stackOf i n
  wire := net.wire ++ frames.map padded

def Network.step [DecidableEq ι] (net : Network ι) : NetAction ι → Option (List Frame × Network ι)
  | .arpRequest i ip =>
    let frames := [arpRequest (net.stackOf i) ip]
    some (frames, net.emit i frames (net.stackOf i))
  | .ipTx i dst proto payload => do
    let (_, frames, n) ← ipTx (net.stackOf i) dst proto payload
    some (frames, net.emit i frames n)
  | .tick i => some ([], net.emit i [] { net.stackOf i with ticks := (net.stackOf i).ticks + 1 })
  | .deliver i f => do
    let (frames, n) ← ethRx (net.stackOf i) f (UInt16.ofNat f.length)
    some (frames, net.emit i frames n)
  | .disturb wire => some ([], { net with wire := wire })

/-- The wire makes no frames of its own. -/
def Network.Allowed (net : Network ι) : NetAction ι → Prop
  | .deliver _ f => f ∈ net.wire
  | .disturb wire => ∀ f ∈ wire, f ∈ net.wire
  | _ => True

/-- The pair in an ARP frame is the pair of a host, and an IP frame goes to the owner of its
destination. -/
structure GoodFrame (hosts : Hosts ι) (f : Frame) : Prop where
  arp : readWord16 f 12 = some (bswap16 ethTypeArp) →
    ∃ spa sha, readWord32 f 28 = some spa ∧ readVector 6 f 22 = some sha ∧ hosts.Owns spa sha
  ip : readWord16 f 12 = some (bswap16 ethTypeIp) →
    ∃ dst mac, readWord32 f 30 = some dst ∧ readVector 6 f 0 = some mac ∧ hosts.Owns dst mac

/-- The host has its own addresses and the right entries. -/
structure GoodStack (hosts : Hosts ι) (i : ι) (n : Stack) : Prop where
  localMac : n.localMac = hosts.mac i
  arpIp : n.arpIp = hosts.ip i
  entries : ∀ j, (n.arpTable j).valid = true → hosts.Owns (n.arpTable j).ip (n.arpTable j).mac

structure Agreement (hosts : Hosts ι) (net : Network ι) : Prop where
  stackOf : ∀ i, GoodStack hosts i (net.stackOf i)
  wire : ∀ f ∈ net.wire, GoodFrame hosts f

variable {hosts : Hosts ι} {i : ι} {n n' : Stack} {net net' : Network ι} {frames : List Frame} {f : Frame}
  {ip dst : UInt32} {mac : Mac} {proto : UInt8} {payload pkt : List UInt8} {result : Int32}
  {action : NetAction ι}

/-! ## Frames -/

/-- A host owns its pair. -/
theorem Hosts.owns (hosts : Hosts ι) (i : ι) : hosts.Owns (hosts.ip i) (hosts.mac i) :=
  ⟨i, fun _ => hosts.distinct.eq_iff, rfl⟩

theorem goodFrame_arp (localMac dstMac tha : Mac) (oper : UInt16) (tpa : UInt32) (owns : hosts.Owns ip mac) :
    GoodFrame hosts (padded (ethFrame localMac dstMac ethTypeArp (arpPkt oper mac ip tha tpa).bytes)) := by
  rw [padded, ethFrame_append]
  constructor
  · intro _
    exact ⟨ip, mac, (ethFrame_word32 14).trans ArpPkt.read_spa, (ethFrame_vector 8 6).trans ArpPkt.read_sha, owns⟩
  · intro type
    rw [ethFrame_type] at type
    exact absurd type (by decide)

theorem goodFrame_ip (localMac : Mac) (src : UInt32) (proto : UInt8) (payload : List UInt8)
    (owns : hosts.Owns dst mac) :
    GoodFrame hosts (padded (ethFrame localMac mac ethTypeIp (ipDatagram src dst proto payload))) := by
  rw [padded, ethFrame_append]
  constructor
  · intro type
    rw [ethFrame_type] at type
    exact absurd type (by decide)
  · intro _
    exact ⟨dst, mac, (ethFrame_word32 16).trans (readWord32_append_left ipDatagram_read_dst), ethFrame_dst, owns⟩

theorem GoodStack.arpRequest (good : GoodStack hosts i n) (ip : UInt32) :
    GoodFrame hosts (padded (arpRequest n ip)) := by
  refine goodFrame_arp _ _ _ _ _ ?_
  rw [good.localMac, good.arpIp]
  exact hosts.owns i

theorem GoodStack.arpReply (good : GoodStack hosts i n) (ip : UInt32) (mac : Mac) :
    GoodFrame hosts (padded (arpReply n ip mac)) := by
  refine goodFrame_arp _ _ _ _ _ ?_
  rw [good.localMac, good.arpIp]
  exact hosts.owns i

/-- What waited for an address goes to its owner. -/
theorem goodFrame_released (owns : hosts.Owns ip mac) (sent : f ∈ n.released ip mac) :
    GoodFrame hosts (padded f) := by
  obtain ⟨j, waits, rfl⟩ := List.mem_map.mp sent
  refine goodFrame_ip _ _ _ _ ?_
  rwa [(mem_waiting.mp waits).2]

/-! ## What a host does -/

theorem GoodStack.putEntry (good : GoodStack hosts i n) (owns : hosts.Owns ip mac) (k : Fin 16) :
    GoodStack hosts i (n.putEntry k ip mac) := by
  refine ⟨good.localMac, good.arpIp, fun j => ?_⟩
  rw [Stack.putEntry_arpTable]
  by_cases here : j = k
  · rw [here, Function.update_self]
    exact fun _ => owns
  · rw [Function.update_of_ne here]
    exact good.entries j

theorem GoodStack.arpAddEntry (good : GoodStack hosts i n) (owns : hosts.Owns ip mac) :
    GoodStack hosts i (arpAddEntry n ip mac).2 ∧
      ∀ f ∈ (arpAddEntry n ip mac).1, GoodFrame hosts (padded f) := by
  rcases arpAddEntry_cases n ip mac with ⟨-, k, same⟩ | ⟨-, k, same⟩
  · rw [same]
    exact ⟨good.putEntry owns k, fun f none => absurd none List.not_mem_nil⟩
  · rw [same]
    have put := good.putEntry owns k
    exact ⟨⟨put.localMac, put.arpIp, put.entries⟩, fun f sent => goodFrame_released owns sent⟩

theorem GoodStack.arpRx (good : GoodStack hosts i n) (done : arpRx n pkt = some (frames, n'))
    (mapped : ∀ ip mac, arpMapping pkt = some (ip, mac) → hosts.Owns ip mac) :
    GoodStack hosts i n' ∧ ∀ f ∈ frames, GoodFrame hosts (padded f) := by
  rcases arpRx_cases done with ⟨ip, mac, replies, mapping, answered, rfl, rfl⟩ | ⟨-, rfl, rfl⟩
  · obtain ⟨good', sent⟩ := good.arpAddEntry (mapped ip mac mapping)
    refine ⟨good', fun f member => ?_⟩
    cases List.mem_append.mp member with
    | inl reply =>
      cases answered with
      | inl none =>
        rw [none] at reply
        cases reply
      | inr one =>
        rw [one, List.mem_singleton] at reply
        rw [reply]
        exact good.arpReply ip mac
    | inr released => exact sent f released
  · exact ⟨good, fun f none => absurd none List.not_mem_nil⟩

theorem GoodStack.ipTx (good : GoodStack hosts i n) (done : ipTx n dst proto payload = some (result, frames, n')) :
    GoodStack hosts i n' ∧ ∀ f ∈ frames, GoodFrame hosts (padded f) := by
  rw [Net.ipTx] at done
  split at done
  · cases done
  cases found : arpLookup n dst with
  | some mac =>
    rw [found] at done
    cases done
    refine ⟨good, fun f sent => ?_⟩
    rw [List.mem_singleton] at sent
    rw [sent]
    obtain ⟨k, entry, rfl⟩ := arpLookup_entry found
    rw [ArpEntry.isFor_iff] at entry
    exact goodFrame_ip _ _ _ _ (entry.2 ▸ good.entries k entry.1)
  | none =>
    rw [found] at done
    cases free : findSlot fun i => !(n.arpQueue i).valid with
    | none =>
      rw [free] at done
      cases done
      exact ⟨good, fun f none => absurd none List.not_mem_nil⟩
    | some slot =>
      rw [free] at done
      simp only at done
      split at done
      · cases done
      · cases done
        refine ⟨⟨good.localMac, good.arpIp, good.entries⟩, fun f sent => ?_⟩
        rw [List.mem_singleton] at sent
        rw [sent]
        exact good.arpRequest dst

/-- An ARP packet that is passed on is behind the header of an ARP frame. -/
theorem ethUpcall_arp {len : UInt16} (up : ethUpcall f len = some (.arp pkt)) :
    readWord16 f 12 = some (bswap16 ethTypeArp) ∧ pkt = f.drop 14 := by
  simp only [ethUpcall, Option.bind_eq_bind, Option.bind_eq_some_iff] at up
  obtain ⟨type, read, up⟩ := up
  split at up
  · rename_i isArp
    cases up
    rw [read, ← isArp, bswap16_bswap16]
    exact ⟨rfl, rfl⟩
  · split at up
    · simp only [Option.bind_eq_some_iff] at up
      obtain ⟨_, -, up⟩ := up
      cases up
    · cases up

/-- A mapping is the pair in the ARP frame. -/
theorem arpMapping_frame (type : readWord16 f 12 = some (bswap16 ethTypeArp))
    (mapping : arpMapping (f.drop 14) = some (ip, mac)) :
    readWord32 f 28 = some ip ∧ readVector 6 f 22 = some mac := by
  simp only [arpMapping, Option.bind_eq_bind, Option.bind_eq_some_iff] at mapping
  obtain ⟨oper, -, spa, readSpa, sha, readSha, same⟩ := mapping
  split at same
  · cases same
    have header : 14 ≤ f.length := readWord16_inside type
    rw [readWord32_drop] at readSpa
    rw [readVector_drop 14 header] at readSha
    exact ⟨readSpa, readSha⟩
  · cases same

/-- `ip_rx` only changes what `icmp.c` keeps. -/
theorem ipRx_frame {len : UInt16} (done : ipRx n pkt len = some n') : ∃ icmp, n' = { n with icmp := icmp } := by
  simp only [ipRx, Option.bind_eq_bind, Option.bind_eq_some_iff] at done
  obtain ⟨up, -, done⟩ := done
  cases up with
  | none =>
    cases done
    exact ⟨_, rfl⟩
  | some args =>
    simp only [icmpRx] at done
    split at done
    · cases done
      exact ⟨_, rfl⟩
    · simp only [Option.bind_eq_bind, Option.bind_eq_some_iff] at done
      obtain ⟨type, -, done⟩ := done
      split at done
      · simp only [Option.bind_eq_some_iff] at done
        obtain ⟨seq, -, done⟩ := done
        cases done
        exact ⟨_, rfl⟩
      · cases done
        exact ⟨_, rfl⟩

/-- A good frame brings a right entry, if it brings one. -/
theorem GoodStack.ethRx {len : UInt16} (good : GoodStack hosts i n) (frame : GoodFrame hosts f)
    (done : ethRx n f len = some (frames, n')) :
    GoodStack hosts i n' ∧ ∀ f ∈ frames, GoodFrame hosts (padded f) := by
  simp only [Net.ethRx, Option.bind_eq_bind, Option.bind_eq_some_iff] at done
  obtain ⟨up, upcall, done⟩ := done
  cases up with
  | arp pkt =>
    obtain ⟨type, rfl⟩ := ethUpcall_arp upcall
    refine good.arpRx done fun ip mac mapping => ?_
    obtain ⟨spa, sha, readSpa, readSha, owns⟩ := frame.arp type
    obtain ⟨readIp, readMac⟩ := arpMapping_frame type mapping
    rw [readIp] at readSpa
    rw [readMac] at readSha
    cases readSpa
    cases readSha
    exact owns
  | ip pkt len =>
    simp only [Option.bind_eq_some_iff] at done
    obtain ⟨m, received, same⟩ := done
    cases same
    obtain ⟨icmp, rfl⟩ := ipRx_frame received
    exact ⟨⟨good.localMac, good.arpIp, good.entries⟩, fun f none => absurd none List.not_mem_nil⟩
  | ignored =>
    cases done
    exact ⟨good, fun f none => absurd none List.not_mem_nil⟩

/-! ## Runs -/

theorem Agreement.boot (hosts : Hosts ι) (ticks : ι → UInt32) : Agreement hosts (Network.boot hosts ticks) :=
  ⟨fun _ => ⟨rfl, rfl, fun _ valid => Bool.noConfusion valid⟩, fun _ none => absurd none List.not_mem_nil⟩

variable [DecidableEq ι]

/-- A host that sends good frames keeps the agreement. -/
theorem Agreement.emit (agree : Agreement hosts net)
    (good : GoodStack hosts i n ∧ ∀ f ∈ frames, GoodFrame hosts (padded f)) :
    Agreement hosts (net.emit i frames n) := by
  constructor
  · intro j
    show GoodStack hosts j (Function.update net.stackOf i n j)
    by_cases here : j = i
    · subst here
      rw [Function.update_self]
      exact good.1
    · rw [Function.update_of_ne here]
      exact agree.stackOf j
  · intro f sent
    cases List.mem_append.mp sent with
    | inl before => exact agree.wire f before
    | inr now =>
      obtain ⟨unpadded, member, rfl⟩ := List.mem_map.mp now
      exact good.2 unpadded member

theorem Agreement.step (agree : Agreement hosts net) (allowed : net.Allowed action)
    (done : net.step action = some (frames, net')) : Agreement hosts net' := by
  cases action with
  | arpRequest i ip =>
    cases done
    refine agree.emit ⟨agree.stackOf i, fun f sent => ?_⟩
    rw [List.mem_singleton] at sent
    rw [sent]
    exact (agree.stackOf i).arpRequest ip
  | ipTx i dst proto payload =>
    simp only [Network.step, Option.bind_eq_bind, Option.bind_eq_some_iff] at done
    obtain ⟨⟨result, frames, n⟩, sent, same⟩ := done
    cases same
    exact agree.emit ((agree.stackOf i).ipTx sent)
  | tick i =>
    cases done
    have good := agree.stackOf i
    exact agree.emit ⟨⟨good.localMac, good.arpIp, good.entries⟩, fun f none => absurd none List.not_mem_nil⟩
  | deliver i f =>
    simp only [Network.step, Option.bind_eq_bind, Option.bind_eq_some_iff] at done
    obtain ⟨⟨frames, n⟩, received, same⟩ := done
    cases same
    exact agree.emit ((agree.stackOf i).ethRx (agree.wire f allowed) received)
  | disturb wire =>
    cases done
    exact ⟨agree.stackOf, fun f member => agree.wire f (allowed f member)⟩

instance decidableAllowed (net : Network ι) : (action : NetAction ι) → Decidable (net.Allowed action)
  | .arpRequest _ _ => .isTrue trivial
  | .ipTx _ _ _ _ => .isTrue trivial
  | .tick _ => .isTrue trivial
  | .deliver _ f => inferInstanceAs (Decidable (f ∈ net.wire))
  | .disturb wire => inferInstanceAs (Decidable (∀ f ∈ wire, f ∈ net.wire))

end QuantumKernel.Net
