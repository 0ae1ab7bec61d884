import QuantumKernel.Library.Packed

/-! # Frames and packets

The packed structures of `ethernet.h`, `arp.c` and `ip.c`, as the bytes that they put into a
frame.  IP addresses are stored as they are, without a swap; the other words are swapped.
-/

namespace QuantumKernel.Net

open Packed

abbrev Mac := List.Vector UInt8 6

/-- A frame as it is passed to `rtl8139_send`. -/
abbrev Frame := List UInt8

def ethTypeArp : UInt16 := 0x0806
def ethTypeIp : UInt16 := 0x0800

def sizeofEthHdr : Nat := 14
def sizeofArpPkt : Nat := 28
def sizeofIpHdr : Nat := 20

/-- The frame that `eth_tx` builds. -/
def ethFrame (localMac dst : Mac) (type : UInt16) (payload : List UInt8) : Frame :=
  dst.toList ++ (localMac.toList ++ (le16 (bswap16 type) ++ payload))

/-- `arp_pkt_t`. -/
structure ArpPkt where
  htype : UInt16
  ptype : UInt16
  hlen : UInt8
  plen : UInt8
  oper : UInt16
  sha : Mac
  spa : UInt32
  tha : Mac
  tpa : UInt32

def ArpPkt.bytes (a : ArpPkt) : List UInt8 :=
  le16 a.htype ++ (le16 a.ptype ++ ([a.hlen, a.plen] ++ (le16 a.oper ++
    (a.sha.toList ++ (le32 a.spa ++ (a.tha.toList ++ le32 a.tpa))))))

/-- The packets that `arp_request` and `arp_rx` send. -/
def arpPkt (oper : UInt16) (sha : Mac) (spa : UInt32) (tha : Mac) (tpa : UInt32) : ArpPkt :=
  ⟨bswap16 1, bswap16 0x0800, 6, 4, bswap16 oper, sha, spa, tha, tpa⟩

/-! ## The checksum -/

/-- The loop over the words, and the odd byte. -/
def checksumLoop (sum : UInt32) : List UInt8 → UInt32
  | low :: high :: rest => checksumLoop (sum + (low.toUInt32 + 256 * high.toUInt32)) rest
  | [last] => sum + last.toUInt32
  | [] => sum

/-- The loop that adds the carries. -/
def foldCarries (sum : UInt32) : UInt32 :=
  if sum >>> 16 = 0 then sum else foldCarries ((sum &&& (0xffff : UInt32)) + (sum >>> 16))
termination_by sum.toNat
decreasing_by
  rename_i carry
  have bound := sum.toNat_lt
  have high : (sum >>> 16).toNat = sum.toNat / 65536 := by
    simp [UInt32.toNat_shiftRight, Nat.shiftRight_eq_div_pow]
  have low : (sum &&& (0xffff : UInt32)).toNat = sum.toNat % 65536 := by
    simp only [UInt32.toNat_and, UInt32.reduceToNat]
    exact Nat.and_two_pow_sub_one_eq_mod _ 16
  have positive : (sum >>> 16).toNat ≠ 0 := fun zero => carry (UInt32.toNat.inj zero)
  rw [high] at positive
  rw [UInt32.toNat_add, high, low, Nat.mod_eq_of_lt (by omega)]
  omega

/-- `checksum`. -/
def checksum (buf : List UInt8) : UInt16 := ~~~ (foldCarries (checksumLoop 0 buf)).toUInt16

/-! ## IP datagrams -/

/-- `ip_hdr_t` as `ip_tx` fills it in. -/
def ipHdr (src dst : UInt32) (proto : UInt8) (len csum : UInt16) : List UInt8 :=
  [0x45, 0] ++ (le16 (bswap16 (20 + len)) ++ (le16 0 ++ (le16 0 ++ ([64, proto] ++
    (le16 csum ++ (le32 src ++ le32 dst))))))

/-- The header with its checksum, and the payload. -/
def ipDatagram (src dst : UInt32) (proto : UInt8) (payload : List UInt8) : List UInt8 :=
  let len := UInt16.ofNat payload.length
  ipHdr src dst proto len (checksum (ipHdr src dst proto len 0)) ++ payload

variable {localMac dst : Mac} {type : UInt16} {payload rest : List UInt8} {a : ArpPkt}
  {src target : UInt32} {proto : UInt8} {len csum : UInt16}

@[simp] theorem length_ethFrame : (ethFrame localMac dst type payload).length = 14 + payload.length := by
  simp [ethFrame]
  omega

@[simp] theorem ArpPkt.length_bytes : a.bytes.length = 28 := by simp [ArpPkt.bytes]

@[simp] theorem length_ipHdr : (ipHdr src target proto len csum).length = 20 := by simp [ipHdr]

@[simp] theorem length_ipDatagram : (ipDatagram src target proto payload).length = 20 + payload.length := by
  simp [ipDatagram]

/-! ## Reading the fields back -/

theorem ethFrame_split :
    ethFrame localMac dst type payload = (dst.toList ++ localMac.toList ++ le16 (bswap16 type)) ++ payload := by
  simp [ethFrame]

theorem length_ethHdr : (dst.toList ++ localMac.toList ++ le16 (bswap16 type)).length = 14 := by simp

theorem ethFrame_type : readWord16 (ethFrame localMac dst type payload) 12 = some (bswap16 type) := by
  rw [ethFrame, readWord16_append (by simp), readWord16_append (by simp)]
  simp

theorem ethFrame_dst : readVector 6 (ethFrame localMac dst type payload) 0 = some dst :=
  readVector_toList dst

theorem ethFrame_drop : (ethFrame localMac dst type payload).drop 14 = payload := by
  rw [ethFrame_split, List.drop_append, length_ethHdr, List.drop_of_length_le length_ethHdr.le]
  rfl

theorem ethFrame_word32 (k : Nat) :
    readWord32 (ethFrame localMac dst type payload) (14 + k) = readWord32 payload k := by
  rw [ethFrame_split, readWord32_append (by rw [length_ethHdr]; omega), length_ethHdr, Nat.add_sub_cancel_left]

theorem ethFrame_vector (k n : Nat) :
    readVector n (ethFrame localMac dst type payload) (14 + k) = readVector n payload k := by
  rw [ethFrame_split, readVector_append (by rw [length_ethHdr]; omega), length_ethHdr, Nat.add_sub_cancel_left]

/-- Padding is behind the payload. -/
theorem ethFrame_append :
    ethFrame localMac dst type payload ++ rest = ethFrame localMac dst type (payload ++ rest) := by
  simp [ethFrame]

theorem ArpPkt.read_sha : readVector 6 (a.bytes ++ rest) 8 = some a.sha := by
  simp only [ArpPkt.bytes, List.append_assoc]
  rw [readVector_append (by simp), readVector_append (by simp), readVector_append (by simp),
    readVector_append (by simp)]
  simp

theorem ArpPkt.read_spa : readWord32 (a.bytes ++ rest) 14 = some a.spa := by
  simp only [ArpPkt.bytes, List.append_assoc]
  rw [readWord32_append (by simp), readWord32_append (by simp), readWord32_append (by simp),
    readWord32_append (by simp), readWord32_append (by simp)]
  simp

theorem ipDatagram_read_dst : readWord32 (ipDatagram src target proto payload) 16 = some target := by
  simp only [ipDatagram, ipHdr, List.append_assoc]
  rw [readWord32_append (by simp), readWord32_append (by simp), readWord32_append (by simp),
    readWord32_append (by simp), readWord32_append (by simp), readWord32_append (by simp),
    readWord32_append (by simp)]
  simp

theorem ipDatagram_read_proto : readByte (ipDatagram src target proto payload) 9 = some proto := by
  simp only [ipDatagram, ipHdr, List.append_assoc]
  rw [readByte_append (by simp), readByte_append (by simp), readByte_append (by simp),
    readByte_append (by simp)]
  rfl

end QuantumKernel.Net
