import Mathlib.Tactic

/-! # The mouse

`mouse_irq` collects the three bytes of a PS/2 packet and moves the mouse by the second and the third
byte, read as signed bytes.  The device reports nine-bit distances: their sign bits are in the first
byte, which the interrupt handler does not look at.
-/

namespace QuantumKernel.Mouse

/-- The variables of the driver. -/
structure MouseState where
  mouseX : Int32
  mouseY : Int32
  mouseButtons : Int32
  mouseCycle : UInt8
  mousePacket : Int8 × Int8 × Int8

/-- `if (v < 0) v = 0;` and `if (v > limit) v = limit;` -/
def clampInt (limit v : Int32) : Int32 :=
  let v := if v < 0 then 0 else v
  if v > limit then limit else v

/-- `mouse_irq`, with the byte that `inb` returns. -/
def mouseIrq (m : MouseState) (data : UInt8) : MouseState :=
  if m.mouseCycle = 0 then
    if data &&& 0x08 = 0 then m
    else { m with mousePacket := (data.toInt8, m.mousePacket.2), mouseCycle := 1 }
  else if m.mouseCycle = 1 then
    { m with mousePacket := (m.mousePacket.1, data.toInt8, m.mousePacket.2.2), mouseCycle := 2 }
  else
    let packet := (m.mousePacket.1, m.mousePacket.2.1, data.toInt8)
    { mousePacket := packet
      mouseCycle := 0
      mouseButtons := packet.1.toInt32 &&& 7
      mouseX := clampInt 1919 (m.mouseX + packet.2.1.toInt32)
      mouseY := clampInt 1079 (m.mouseY - packet.2.2.toInt32) }

/-- The mouse before the first interrupt. -/
def MouseState.initial : MouseState := ⟨100, 100, 0, 0, (0, 0, 0)⟩

/-! ## The packets of the device -/

/-- Three bytes of the device: the first has bit 3 set, and no overflow bit. -/
structure Packet where
  status : UInt8
  dx : UInt8
  dy : UInt8
  sync : status &&& 0x08 ≠ 0
  noOverflow : status &&& 0xC0 = 0

def Packet.bytes (p : Packet) : List UInt8 := [p.status, p.dx, p.dy]

/-- The sign bits, 4 and 5 of the first byte. -/
def Packet.xSign (p : Packet) : Bool := p.status &&& 0x10 != 0
def Packet.ySign (p : Packet) : Bool := p.status &&& 0x20 != 0

/-- A nine-bit number in two's complement. -/
def signed9 (sign : Bool) (low : UInt8) : Int := if sign then (low.toNat : Int) - 256 else low.toNat

def clamp (limit v : Int) : Int := max 0 (min limit v)

/-- The position after one more packet. -/
def moved (position : Int × Int) (p : Packet) : Int × Int :=
  (clamp 1919 (position.1 + signed9 p.xSign p.dx), clamp 1079 (position.2 - signed9 p.ySign p.dy))

/-- Where the packets lead from the start. -/
def track (packets : List Packet) : Int × Int := packets.foldl moved (100, 100)

/-- The driver after the bytes of the packets. -/
def after (packets : List Packet) : MouseState := (packets.flatMap Packet.bytes).foldl mouseIrq MouseState.initial

/-- The driver is between two packets, at the given position. -/
structure MouseState.IsAt (m : MouseState) (position : Int × Int) : Prop where
  x : m.mouseX.toInt = position.1
  y : m.mouseY.toInt = position.2
  cycle : m.mouseCycle = 0

/-- After any number of the packets the driver is where they lead. -/
def Tracks (packets : List Packet) : Prop := ∀ q, q <+: packets → (after q).IsAt (track q)

/-- The eighth bit of a byte is its sign, or the distance is -256 and the mouse is at the edge behind it. -/
def SignAgrees (sign : Bool) (low : UInt8) (atEdge : Prop) : Prop :=
  sign = decide (128 ≤ low.toNat) ∨ sign = true ∧ low = 0 ∧ atEdge

/-- The packets that the driver reads as the device means them, at the position before each. -/
def InRange (packets : List Packet) : Prop :=
  ∀ q p, q ++ [p] <+: packets →
    SignAgrees p.xSign p.dx ((track q).1 = 0) ∧ SignAgrees p.ySign p.dy ((track q).2 = 1079)

variable {m : MouseState} {p : Packet} {packets q : List Packet} {position : Int × Int} {sign : Bool} {low : UInt8}
  {x y limit d : Int} {v : Int32}

/-! ## One packet -/

/-- The sign that the driver gives a byte. -/
theorem toInt_byte (low : UInt8) : low.toInt8.toInt32.toInt = signed9 (decide (128 ≤ low.toNat)) low := by
  have bound := low.toNat_lt
  have signed : low.toInt8.toInt = (low.toNat : Int).bmod 256 := BitVec.toInt_eq_toNat_bmod low.toBitVec
  rw [Int8.toInt_toInt32, signed9, signed, Int.bmod_def]
  simp only [decide_eq_true_eq]
  omega

theorem signed9_range (sign : Bool) (low : UInt8) : -256 ≤ signed9 sign low ∧ signed9 sign low ≤ 255 := by
  have bound := low.toNat_lt
  rw [signed9]
  split
  · omega
  · omega

theorem clampInt_toInt (limit v : Int32) (nonneg : 0 ≤ limit.toInt) :
    (clampInt limit v).toInt = clamp limit.toInt v.toInt := by
  have zero : (0 : Int32).toInt = 0 := rfl
  simp only [clampInt, clamp, gt_iff_lt, Int32.lt_iff_toInt_lt, zero]
  split
  · split
    · omega
    · omega
  · split
    · omega
    · omega

/-- One packet moves the driver by the signed bytes. -/
theorem irq_packet (p : Packet) (isAt : m.IsAt (x, y)) (xRange : 0 ≤ x ∧ x ≤ 1919) (yRange : 0 ≤ y ∧ y ≤ 1079) :
    (p.bytes.foldl mouseIrq m).IsAt
      (clamp 1919 (x + signed9 (decide (128 ≤ p.dx.toNat)) p.dx),
        clamp 1079 (y - signed9 (decide (128 ≤ p.dy.toNat)) p.dy)) := by
  obtain ⟨atX, atY, cycle⟩ := isAt
  dsimp only at atX atY
  have ran : p.bytes.foldl mouseIrq m =
      ⟨clampInt 1919 (m.mouseX + p.dx.toInt8.toInt32), clampInt 1079 (m.mouseY - p.dy.toInt8.toInt32),
        p.status.toInt8.toInt32 &&& 7, 0, (p.status.toInt8, p.dx.toInt8, p.dy.toInt8)⟩ := by
    simp [Packet.bytes, mouseIrq, cycle, p.sync]
  rw [ran]
  have dx := signed9_range (decide (128 ≤ p.dx.toNat)) p.dx
  have dy := signed9_range (decide (128 ≤ p.dy.toNat)) p.dy
  refine ⟨?_, ?_, rfl⟩
  · rw [clampInt_toInt _ _ (by decide), Int32.toInt_add, toInt_byte, atX, Int.bmod_eq_of_le (by omega) (by omega)]
    rfl
  · rw [clampInt_toInt _ _ (by decide), Int32.toInt_sub, toInt_byte, atY, Int.bmod_eq_of_le (by omega) (by omega)]
    rfl

/-- Two readings of a byte lead to the same position only in the cases of `SignAgrees`. -/
theorem clamp_add_eq_iff (positive : 0 < limit) (range : 0 ≤ x ∧ x ≤ limit) :
    clamp limit (x + signed9 (decide (128 ≤ low.toNat)) low) = clamp limit (x + signed9 sign low) ↔
      SignAgrees sign low (x = 0) := by
  have bound := low.toNat_lt
  have zero : low = 0 ↔ low.toNat = 0 := by simp [← UInt8.toNat_inj]
  by_cases high : 128 ≤ low.toNat
  · cases sign
    · simp [SignAgrees, signed9, clamp, high]
      omega
    · simp [SignAgrees, high]
  · cases sign
    · simp [SignAgrees, high]
    · simp [SignAgrees, signed9, clamp, high, zero]
      omega

/-- The same from the other edge of the screen. -/
theorem clamp_sub_eq_iff (positive : 0 < limit) (range : 0 ≤ y ∧ y ≤ limit) :
    clamp limit (y - signed9 (decide (128 ≤ low.toNat)) low) = clamp limit (y - signed9 sign low) ↔
      SignAgrees sign low (y = limit) := by
  have mirror (d : Int) : clamp limit (y - d) = limit - clamp limit (limit - y + d) := by
    simp only [clamp]
    omega
  have edge : limit - y = 0 ↔ y = limit := by omega
  rw [mirror, mirror, sub_right_inj, clamp_add_eq_iff positive (by omega), edge]

/-! ## Packet after packet -/

theorem track_append (q : List Packet) (p : Packet) : track (q ++ [p]) = moved (track q) p := by
  rw [track, List.foldl_append]
  rfl

theorem after_append (q : List Packet) (p : Packet) : after (q ++ [p]) = p.bytes.foldl mouseIrq (after q) := by
  rw [after, List.flatMap_append, List.foldl_append, List.flatMap_singleton]
  rfl

theorem track_range (packets : List Packet) :
    (0 ≤ (track packets).1 ∧ (track packets).1 ≤ 1919) ∧ 0 ≤ (track packets).2 ∧ (track packets).2 ≤ 1079 := by
  rcases packets.eq_nil_or_concat' with rfl | ⟨q, p, rfl⟩
  · decide
  · rw [track_append]
    simp only [moved, clamp]
    omega

/-- From the right position one packet leads to the right position exactly when its signs agree. -/
theorem isAt_append_iff (isAt : (after q).IsAt (track q)) : (after (q ++ [p])).IsAt (track (q ++ [p])) ↔
    SignAgrees p.xSign p.dx ((track q).1 = 0) ∧ SignAgrees p.ySign p.dy ((track q).2 = 1079) := by
  obtain ⟨xRange, yRange⟩ := track_range q
  have next := irq_packet p isAt xRange yRange
  rw [after_append, track_append, ← clamp_add_eq_iff (by decide) xRange,
    ← clamp_sub_eq_iff (by decide) yRange]
  constructor
  · intro there
    exact ⟨next.x.symm.trans there.x, next.y.symm.trans there.y⟩
  · rintro ⟨sameX, sameY⟩
    exact ⟨next.x.trans sameX, next.y.trans sameY, next.cycle⟩

/-- **When the driver follows the device.**  The eighth bit of each distance must be its sign bit, or
the distance is -256 and the edge of the screen hides the difference. -/
theorem tracks_iff (packets : List Packet) : Tracks packets ↔ InRange packets := by
  constructor
  · intro tracks q p part
    exact (isAt_append_iff (tracks q ((List.prefix_append q [p]).trans part))).mp (tracks _ part)
  · intro inRange q part
    induction q using List.reverseRecOn with
    | nil => exact ⟨rfl, rfl, rfl⟩
    | append_singleton q p ih =>
      exact (isAt_append_iff (ih ((List.prefix_append q [p]).trans part))).mpr (inRange q p part)

/-- A move to the right by 200 is read as one to the left by 56. -/
theorem wide_move_reversed : ¬ Tracks [⟨0x08, 0xC8, 0x00, by decide, by decide⟩] := by
  intro tracks
  have there := (tracks _ (List.prefix_refl _)).x
  revert there
  decide

end QuantumKernel.Mouse
