import QuantumKernel.Console.Font
import QuantumKernel.Library.ByteStore

/-! # The framebuffer console

`putpixel` and `getpixel` access the framebuffer at three or four bytes a pixel and clip what is outside.
`term_putc` moves a text cursor in steps of 16 pixels and draws one cell of 16 by 16 pixels at most;
what it does to the cursor, and which cell it draws, does not depend on what is on the screen.
-/

namespace QuantumKernel.Console

open ByteStore

/-- The framebuffer that `term_init_fb` is given.  The kernel takes one with 24 or 32 bits a pixel only,
its rows do not overlap, and it lies in the address space. -/
structure Framebuffer where
  width : UInt32
  height : UInt32
  pitch : UInt32
  bpp : UInt32
  depth : bpp = 24 ∨ bpp = 32
  row : width.toNat * (bpp.toNat / 8) ≤ pitch.toNat
  memory : pitch.toNat * height.toNat ≤ 4294967296

/-- The variables of the console; `fb` is the memory from the start of the framebuffer on. -/
structure ConsoleState where
  fb : Bytes
  cursorX : UInt32
  cursorY : UInt32
  termFg : UInt32
  cursorBuffer : Nat → UInt32
  lastMouseX : Int32
  lastMouseY : Int32

/-- `TERM_COLOR_BG`, which `term_bg` keeps. -/
def termColorBg : UInt32 := 0x000B001F

/-- The offset of a pixel. -/
def Framebuffer.offset (f : Framebuffer) (x y : UInt32) : Nat := (y * f.pitch + x * (f.bpp / 8)).toNat

def putpixel (f : Framebuffer) (fb : Bytes) (x y color : UInt32) : Bytes :=
  if x ≥ f.width ∨ y ≥ f.height then fb
  else
    let p := f.offset x y
    if f.bpp = 32 then
      let fb := Function.update fb p (color >>> 16).toUInt8
      let fb := Function.update fb (p + 1) (color >>> 8).toUInt8
      let fb := Function.update fb (p + 2) color.toUInt8
      Function.update fb (p + 3) (color >>> 24).toUInt8
    else if f.bpp = 24 then
      let fb := Function.update fb p (color >>> 16).toUInt8
      let fb := Function.update fb (p + 1) (color >>> 8).toUInt8
      Function.update fb (p + 2) color.toUInt8
    else fb

def getpixel (f : Framebuffer) (fb : Bytes) (x y : UInt32) : UInt32 :=
  if x ≥ f.width ∨ y ≥ f.height then 0
  else
    let p := f.offset x y
    if f.bpp = 32 then
      (fb (p + 3)).toUInt32 <<< 24 ||| (fb p).toUInt32 <<< 16 ||| (fb (p + 1)).toUInt32 <<< 8 ||| (fb (p + 2)).toUInt32
    else if f.bpp = 24 then
      (fb p).toUInt32 <<< 16 ||| (fb (p + 1)).toUInt32 <<< 8 ||| (fb (p + 2)).toUInt32
    else 0

/-- One call of `putpixel`. -/
structure Pixel where
  x : UInt32
  y : UInt32
  color : UInt32
  deriving DecidableEq

/-- A loop of `putpixel` calls. -/
def plot (f : Framebuffer) (fb : Bytes) (pixels : List Pixel) : Bytes :=
  pixels.foldl (fun fb pixel => putpixel f fb pixel.x pixel.y pixel.color) fb

/-! ## Characters -/

/-- `font8x8_basic[ch][row]`; for a character from 128 on this is the memory `beyond` the table. -/
def glyphRow (beyond : Bytes) (ch : UInt8) (row : Nat) : UInt8 :=
  if ch.toNat < font8x8Basic.length then (font8x8Basic.getD ch.toNat []).getD row 0
  else beyond ((ch.toNat - 128) * 8 + row)

/-- A character and where it is drawn: the arguments of `draw_char`. -/
structure Cell where
  ch : UInt8
  x : UInt32
  y : UInt32

/-- The colour of `draw_char` in a row and a column of the glyph. -/
def glyphColor (beyond : Bytes) (termFg : UInt32) (ch : UInt8) (row col : Nat) : UInt32 :=
  if (glyphRow beyond ch row).toUInt32 &&& 1 <<< UInt32.ofNat (7 - col) ≠ 0 then termFg else termColorBg

/-- The four loops of `draw_char`. -/
def Cell.pixels (beyond : Bytes) (termFg : UInt32) (cell : Cell) : List Pixel :=
  (List.range 8).flatMap fun row => (List.range 8).flatMap fun col =>
    (List.range 2).flatMap fun sy => (List.range 2).map fun sx =>
      ⟨cell.x + UInt32.ofNat (col * 2 + sx), cell.y + UInt32.ofNat (row * 2 + sy),
        glyphColor beyond termFg cell.ch row col⟩

/-- `term_putc`, as far as the text cursor goes: the cell to draw, and the cursor behind the call. -/
def putcCursor (f : Framebuffer) (cursorX cursorY : UInt32) (c : UInt8) : Option Cell × UInt32 × UInt32 :=
  if c = 0x0A then
    let cursorY := cursorY + 16
    (none, 0, if cursorY + 16 > f.height then 0 else cursorY)
  else if c = 0x0D then (none, 0, cursorY)
  else if c = 0x08 ∨ c = 0x7F then
    if cursorX ≥ 16 then
      let cursorX := cursorX - 16
      (some ⟨0x20, cursorX, cursorY⟩, cursorX, cursorY)
    else if cursorY ≥ 16 then
      let cursorY := cursorY - 16
      let cursorX := f.width - 16
      (some ⟨0x20, cursorX, cursorY⟩, cursorX, cursorY)
    else (none, cursorX, cursorY)
  else if c < 32 then (none, cursorX, cursorY)
  else
    let (cursorX, cursorY) := if cursorX + 16 > f.width then (0, cursorY + 16) else (cursorX, cursorY)
    let cursorY := if cursorY + 16 > f.height then 0 else cursorY
    (some ⟨c, cursorX, cursorY⟩, cursorX + 16, cursorY)

/-- The pixels that `term_putc` plots. -/
def putcPixels (f : Framebuffer) (beyond : Bytes) (s : ConsoleState) (c : UInt8) : List Pixel :=
  (putcCursor f s.cursorX s.cursorY c).1.elim [] (Cell.pixels beyond s.termFg)

def termPutc (f : Framebuffer) (beyond : Bytes) (s : ConsoleState) (c : UInt8) : ConsoleState :=
  { s with
    fb := plot f s.fb (putcPixels f beyond s c)
    cursorX := (putcCursor f s.cursorX s.cursorY c).2.1
    cursorY := (putcCursor f s.cursorX s.cursorY c).2.2 }

/-- The two loops of `term_clear`. -/
def clearPixels (f : Framebuffer) : List Pixel :=
  (List.range f.height.toNat).flatMap fun y => (List.range f.width.toNat).map fun x =>
    ⟨UInt32.ofNat x, UInt32.ofNat y, termColorBg⟩

def termClear (f : Framebuffer) (s : ConsoleState) : ConsoleState :=
  { s with
    fb := plot f s.fb (clearPixels f)
    cursorX := 0
    cursorY := 0
    lastMouseX := -1
    lastMouseY := -1 }

/-- `SYS_WRITE` with the bytes at the address in `ecx`, as many as `edx` says: the console and `eax`. -/
def sysWrite (f : Framebuffer) (beyond : Bytes) (s : ConsoleState) (ebx : UInt32) (bytes : List UInt8) :
    ConsoleState × UInt32 :=
  (if ebx = 1 then bytes.foldl (termPutc f beyond) s else s, UInt32.ofNat bytes.length)

/-! ## What keeps the console on the screen -/

/-- The glyph comes from the table, and the cell is inside the framebuffer, on the grid. -/
structure Cell.Inside (f : Framebuffer) (cell : Cell) : Prop where
  glyph : cell.ch.toNat < font8x8Basic.length
  column : 16 ∣ cell.x.toNat
  row : 16 ∣ cell.y.toNat
  right : cell.x.toNat + 16 ≤ f.width.toNat
  bottom : cell.y.toNat + 16 ≤ f.height.toNat

/-- The console after bytes written to a cleared screen. -/
def written (f : Framebuffer) (beyond : Bytes) (s : ConsoleState) (bytes : List UInt8) : ConsoleState :=
  (sysWrite f beyond (termClear f s) 1 bytes).1

/-- The cursor is on the screen after all bytes, and every cell drawn is inside. -/
structure Survives (f : Framebuffer) (beyond : Bytes) (s : ConsoleState) (bytes : List UInt8) : Prop where
  cursor : ∀ q, q <+: bytes → (written f beyond s q).cursorX ≤ f.width ∧ (written f beyond s q).cursorY < f.height
  cells : ∀ q c, q ++ [c] <+: bytes → ∀ cell,
    (putcCursor f (written f beyond s q).cursorX (written f beyond s q).cursorY c).1 = some cell → cell.Inside f

/-- The byte is in the table, and the width of the screen is a multiple of a cell's or the byte does not go
back over the start of a line. -/
def Fits (f : Framebuffer) (cursorX cursorY : UInt32) (c : UInt8) : Prop :=
  c < 0x80 ∧ (16 ∣ f.width.toNat ∨ ¬ ((c = 0x08 ∨ c = 0x7F) ∧ cursorX < 16 ∧ 16 ≤ cursorY))

/-- The cursor is on the screen, in a row of cells. -/
structure Placed (f : Framebuffer) (cursorX cursorY : UInt32) : Prop where
  right : cursorX.toNat ≤ f.width.toNat
  bottom : cursorY.toNat + 16 ≤ f.height.toNat
  row : 16 ∣ cursorY.toNat

variable {f : Framebuffer} {beyond : Bytes} {s : ConsoleState} {cursorX cursorY x y : UInt32} {c : UInt8}
  {bytes q : List UInt8}

/-! ## The size of a framebuffer -/

theorem Framebuffer.bytes_range (f : Framebuffer) : 3 ≤ f.bpp.toNat / 8 ∧ f.bpp.toNat / 8 ≤ 4 := by
  rcases f.depth with depth | depth
  · rw [depth]
    decide
  · rw [depth]
    decide

theorem Framebuffer.width_le (f : Framebuffer) : f.width.toNat ≤ 1431655765 := by
  have bound := f.pitch.toNat_lt
  have row := f.row
  have bytes := Nat.mul_le_mul_left f.width.toNat f.bytes_range.1
  omega

theorem Framebuffer.height_le (f : Framebuffer) (wide : 16 ≤ f.width.toNat) : f.height.toNat ≤ 89478485 := by
  have row := f.row
  have bytes := Nat.mul_le_mul wide f.bytes_range.1
  have memory := f.memory
  have rows := Nat.mul_le_mul_right f.height.toNat (show 48 ≤ f.pitch.toNat by omega)
  omega

/-! ## One byte -/

theorem toNat_add16 {n : UInt32} (small : n.toNat < 4294967280) : (n + 16).toNat = n.toNat + 16 := by
  have step : (16 : UInt32).toNat = 16 := rfl
  rw [UInt32.toNat_add, step, Nat.mod_eq_of_lt (by omega)]

theorem toNat_sub16 {n : UInt32} (enough : 16 ≤ n) : (n - 16).toNat = n.toNat - 16 :=
  UInt32.toNat_sub_of_le _ _ enough

/-- What one byte does to a cursor on the grid: it stays on the screen, and it stays on the grid with
the cell drawn inside exactly when the byte fits. -/
structure StepsWell (f : Framebuffer) (cursorX cursorY : UInt32) (c : UInt8) (next : Option Cell × UInt32 × UInt32) :
    Prop where
  placed : Placed f next.2.1 next.2.2
  inside : 16 ∣ cursorX.toNat → ((∀ cell, next.1 = some cell → cell.Inside f) ↔ Fits f cursorX cursorY c)
  column : 16 ∣ cursorX.toNat → Fits f cursorX cursorY c → 16 ∣ next.2.1.toNat

/-- A byte that draws nothing and does not move the cursor to another column fits. -/
theorem StepsWell.silent {x' y' : UInt32} (ascii : c < 0x80)
    (stays : ¬ ((c = 0x08 ∨ c = 0x7F) ∧ cursorX < 16 ∧ 16 ≤ cursorY)) (placed : Placed f x' y')
    (column : 16 ∣ cursorX.toNat → 16 ∣ x'.toNat) : StepsWell f cursorX cursorY c (none, x', y') where
  placed := placed
  inside _ := iff_of_true (fun _ drawn => nomatch drawn) ⟨ascii, Or.inr stays⟩
  column aligned _ := column aligned

/-- A byte that draws a cell inside the screen. -/
theorem StepsWell.drawn {ch : UInt8} {x' y' x'' : UInt32} (placed : Placed f x'' y')
    (aligned : 16 ∣ cursorX.toNat → Fits f cursorX cursorY c → 16 ∣ x'.toNat)
    (fits : ch.toNat < 128 → 16 ∣ x'.toNat → Fits f cursorX cursorY c)
    (glyph : Fits f cursorX cursorY c → ch.toNat < 128)
    (row : 16 ∣ y'.toNat) (right : x'.toNat + 16 ≤ f.width.toNat) (bottom : y'.toNat + 16 ≤ f.height.toNat)
    (column : 16 ∣ x'.toNat → 16 ∣ x''.toNat) : StepsWell f cursorX cursorY c (some ⟨ch, x', y'⟩, x'', y') where
  placed := placed
  inside grid := by
    constructor
    · intro inside
      have cell := inside _ rfl
      exact fits (font8x8Basic_length ▸ cell.glyph) cell.column
    · rintro fits' cell drawn
      cases drawn
      exact ⟨font8x8Basic_length ▸ glyph fits', aligned grid fits', row, right, bottom⟩
  column grid fits' := column (aligned grid fits')

theorem toNat_lt_of_ascii : c < 0x80 ↔ c.toNat < 128 := UInt8.lt_iff_toNat_lt

/-- **One byte.**  The case split is the one of `term_putc`. -/
theorem putcCursor_steps (placed : Placed f cursorX cursorY) (wide : 16 ≤ f.width.toNat)
    (high : 16 ≤ f.height.toNat) (c : UInt8) : StepsWell f cursorX cursorY c (putcCursor f cursorX cursorY c) := by
  obtain ⟨right, bottom, row⟩ := placed
  have width := f.width_le
  have height := f.height_le wide
  have addX : (cursorX + 16).toNat = cursorX.toNat + 16 := toNat_add16 (by omega)
  have addY : (cursorY + 16).toNat = cursorY.toNat + 16 := toNat_add16 (by omega)
  have addY' : (cursorY + 16 + 16).toNat = cursorY.toNat + 32 := by rw [toNat_add16 (by omega), addY]
  have zero : (0 : UInt32).toNat = 0 := rfl
  have step : (16 : UInt32).toNat = 16 := rfl
  -- the row that a line feed leads to
  have lineFeed : Placed f 0 (if cursorY + 16 + 16 > f.height then 0 else cursorY + 16) := by
    split
    · exact ⟨Nat.zero_le _, high, dvd_zero 16⟩
    · rename_i room
      rw [gt_iff_lt, UInt32.lt_iff_toNat_lt, addY'] at room
      exact ⟨Nat.zero_le _, by omega, by omega⟩
  rw [putcCursor]
  by_cases newline : c = 0x0A
  · subst newline
    exact .silent (by decide) (fun erases => absurd erases.1 (by decide)) lineFeed fun _ => dvd_zero 16
  rw [if_neg newline]
  by_cases carriageReturn : c = 0x0D
  · subst carriageReturn
    exact .silent (by decide) (fun erases => absurd erases.1 (by decide)) ⟨Nat.zero_le _, bottom, row⟩
      fun _ => dvd_zero 16
  rw [if_neg carriageReturn]
  by_cases erase : c = 0x08 ∨ c = 0x7F
  · have ascii : c < 0x80 := by
      rcases erase with rfl | rfl
      · decide
      · decide
    rw [if_pos erase]
    by_cases inLine : cursorX ≥ 16
    · have left := toNat_sub16 inLine
      have enough := UInt32.le_iff_toNat_le.mp inLine
      have fits : Fits f cursorX cursorY c := ⟨ascii, Or.inr fun erases => UInt32.not_le.mpr erases.2.1 inLine⟩
      rw [if_pos inLine]
      exact .drawn ⟨by omega, bottom, row⟩ (fun grid _ => by omega) (fun _ _ => fits) (fun _ => by decide) row
        (by omega) bottom id
    rw [if_neg inLine]
    by_cases below : cursorY ≥ 16
    · have left : (f.width - 16).toNat = f.width.toNat - 16 := toNat_sub16 (UInt32.le_iff_toNat_le.mpr wide)
      have up := toNat_sub16 below
      have enough := UInt32.le_iff_toNat_le.mp below
      rw [if_pos below]
      -- this is the only branch that can leave the grid
      refine .drawn ⟨by omega, by omega, by omega⟩ (fun _ fits => ?_) (fun _ column => ⟨ascii, Or.inl (by omega)⟩)
        (fun _ => by decide) (by omega) (by omega) (by omega) id
      have aligned := fits.2.resolve_right fun goesBack => goesBack ⟨erase, UInt32.not_le.mp inLine, below⟩
      omega
    · rw [if_neg below]
      exact .silent ascii (fun erases => below erases.2.2) ⟨right, bottom, row⟩ id
  rw [if_neg erase]
  by_cases control : c < 32
  · rw [if_pos control]
    refine .silent (UInt8.lt_trans control (by decide)) (fun erases => erase erases.1) ⟨right, bottom, row⟩ id
  rw [if_neg control]
  have fits (glyph : c.toNat < 128) : Fits f cursorX cursorY c :=
    ⟨toNat_lt_of_ascii.mpr glyph, Or.inr fun erases => erase erases.1⟩
  have glyph (fits : Fits f cursorX cursorY c) : c.toNat < 128 := toNat_lt_of_ascii.mp fits.1
  by_cases wraps : cursorX + 16 > f.width
  · rw [if_pos wraps]
    exact .drawn ⟨wide, lineFeed.bottom, lineFeed.row⟩ (fun _ _ => dvd_zero 16) (fun glyph _ => fits glyph) glyph
      lineFeed.row wide lineFeed.bottom fun _ => dvd_refl 16
  · rw [if_neg wraps]
    have room : cursorX.toNat + 16 ≤ f.width.toNat := by
      rw [gt_iff_lt, UInt32.lt_iff_toNat_lt, addX] at wraps
      omega
    have stays : ¬ cursorY + 16 > f.height := by
      rw [gt_iff_lt, UInt32.lt_iff_toNat_lt, addY]
      omega
    dsimp only
    rw [if_neg stays]
    exact .drawn ⟨by omega, bottom, row⟩ (fun grid _ => grid) (fun glyph _ => fits glyph) glyph row room bottom
      fun _ => by omega

/-! ## Byte after byte -/

theorem written_append (f : Framebuffer) (beyond : Bytes) (s : ConsoleState) (q : List UInt8) (c : UInt8) :
    written f beyond s (q ++ [c]) = termPutc f beyond (written f beyond s q) c := by
  simp only [written, sysWrite, if_pos, List.foldl_append, List.foldl_cons, List.foldl_nil]

/-- The cursor stays on the screen whatever is written. -/
theorem written_placed (wide : 16 ≤ f.width.toNat) (high : 16 ≤ f.height.toNat) (bytes : List UInt8) :
    Placed f (written f beyond s bytes).cursorX (written f beyond s bytes).cursorY := by
  induction bytes using List.reverseRecOn with
  | nil => exact ⟨Nat.zero_le _, high, dvd_zero 16⟩
  | append_singleton q c ih =>
    rw [written_append]
    exact (putcCursor_steps ih wide high c).placed

/-- The bytes fit, each where the ones before it have moved the cursor. -/
def AllFit (f : Framebuffer) (beyond : Bytes) (s : ConsoleState) (bytes : List UInt8) : Prop :=
  ∀ q c, q ++ [c] <+: bytes → Fits f (written f beyond s q).cursorX (written f beyond s q).cursorY c

/-- Bytes that fit keep the cursor on the grid. -/
theorem AllFit.column (wide : 16 ≤ f.width.toNat) (high : 16 ≤ f.height.toNat) (fit : AllFit f beyond s bytes)
    (part : q <+: bytes) : 16 ∣ (written f beyond s q).cursorX.toNat := by
  induction q using List.reverseRecOn with
  | nil => exact dvd_zero 16
  | append_singleton q c ih =>
    have grid := ih ((List.prefix_append q [c]).trans part)
    rw [written_append]
    exact (putcCursor_steps (written_placed wide high q) wide high c).column grid (fit q c part)

/-- **When the console survives its output.**  The bytes must be below 128, and where the width is no
multiple of a cell's, no backspace may go back over the start of a line. -/
theorem survives_iff (wide : 16 ≤ f.width.toNat) (high : 16 ≤ f.height.toNat) (beyond : Bytes) (s : ConsoleState)
    (bytes : List UInt8) : Survives f beyond s bytes ↔ AllFit f beyond s bytes := by
  have steps (q : List UInt8) (c : UInt8) : StepsWell f (written f beyond s q).cursorX (written f beyond s q).cursorY c
      (putcCursor f (written f beyond s q).cursorX (written f beyond s q).cursorY c) :=
    putcCursor_steps (written_placed wide high q) wide high c
  constructor
  · -- the grid is kept up to the first byte that does not fit
    intro survives
    induction bytes using List.reverseRecOn with
    | nil => exact fun q c part => absurd (List.prefix_nil.mp part) (by simp)
    | append_singleton bytes d ih =>
      have fit := ih ⟨fun q part => survives.cursor q (part.trans (List.prefix_append bytes [d])),
        fun q c part => survives.cells q c (part.trans (List.prefix_append bytes [d]))⟩
      intro q c part
      obtain whole | earlier := List.prefix_concat_iff.mp part
      · obtain ⟨rfl, last⟩ := List.append_inj' whole rfl
        cases last
        exact ((steps q d).inside (fit.column wide high (List.prefix_refl q))).mp (survives.cells q d part)
      · exact fit q c earlier
  · intro fit
    refine ⟨fun q _ => ?_, fun q c part => ?_⟩
    · have placed : Placed f (written f beyond s q).cursorX (written f beyond s q).cursorY :=
        written_placed wide high q
      exact ⟨UInt32.le_iff_toNat_le.mpr placed.right, UInt32.lt_iff_toNat_lt.mpr (by have := placed.bottom; omega)⟩
    · have before := fit.column wide high ((List.prefix_append q [c]).trans part)
      exact ((steps q c).inside before).mpr (fit q c part)

/-- A screen of 640 by 480 pixels. -/
def vga : Framebuffer := ⟨640, 480, 2560, 32, by decide, by decide, by decide⟩

/-- A console before anything is drawn. -/
def blank : ConsoleState := ⟨fun _ => 0, 0, 0, 0x00FFD9E0, fun _ => 0, -1, -1⟩

theorem survives_iff_vga : Survives vga (fun _ => 0) blank [0x41, 0x0A, 0x08] ↔
    AllFit vga (fun _ => 0) blank [0x41, 0x0A, 0x08] :=
  survives_iff (by decide) (by decide) _ _ _

/-- The byte 0xE9: its glyph is looked for behind the table. -/
theorem latin_outside_table : ¬ Survives vga (fun _ => 0) blank [0xE9] := by
  intro survives
  have cell := survives.cells [] 0xE9 (List.prefix_refl _) ⟨0xE9, 0, 0⟩ rfl
  exact absurd cell.glyph (by rw [font8x8Basic_length]; decide)

end QuantumKernel.Console
