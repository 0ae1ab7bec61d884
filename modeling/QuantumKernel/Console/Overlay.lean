import QuantumKernel.Console.Pixels

/-! # The mouse cursor over the text

Each timer tick writes back the pixels under the old cursor, saves the pixels under the new one and draws
the cursor.  The invariant is `Overlay`: outside the square of the cursor the screen is the one without
ticks, and the saved pixels are the ones of that screen.  Text drawn over the cursor breaks it unless
it leaves the saved pixels as they are.
-/

namespace QuantumKernel.Console

open ByteStore

/-- `for (int dy = 0; dy < CURSOR_SIZE; dy++) for (int dx = 0; dx < CURSOR_SIZE; dx++)`: the pairs `(dx, dy)`. -/
def cursorSquare : List (Nat × Nat) := (List.range 11).flatMap fun dy => (List.range 11).map fun dx => (dx, dy)

/-- `x + dx`, converted for `putpixel` and `getpixel`. -/
def shifted (x : Int32) (dx : Nat) : UInt32 := (x + Int32.ofNat dx).toUInt32

/-- The index of a pixel in `cursor_buffer`. -/
def bufferIndex (d : Nat × Nat) : Nat := d.2 * 11 + d.1

/-- `save_cursor_background`: `cursor_buffer` after the call. -/
def saveCursorBackground (f : Framebuffer) (s : ConsoleState) (x y : Int32) : Nat → UInt32 :=
  cursorSquare.foldl (fun buffer d =>
    Function.update buffer (bufferIndex d) (getpixel f s.fb (shifted x d.1) (shifted y d.2))) s.cursorBuffer

/-- The pixels that `restore_cursor_background` plots. -/
def savedPixels (s : ConsoleState) (x y : Int32) : List Pixel :=
  cursorSquare.map fun d => ⟨shifted x d.1, shifted y d.2, s.cursorBuffer (bufferIndex d)⟩

/-- `restore_cursor_background`: the framebuffer after the call. -/
def restoreCursorBackground (f : Framebuffer) (s : ConsoleState) (x y : Int32) : Bytes :=
  if x < 0 ∨ y < 0 then s.fb else plot f s.fb (savedPixels s x y)

def cursorPattern : List (List UInt8) :=
  [[0, 0, 0, 0, 0, 0, 0, 0, 0, 0, 0],
   [0, 1, 0, 0, 0, 0, 0, 0, 0, 0, 0],
   [0, 1, 2, 0, 0, 0, 0, 0, 0, 0, 0],
   [0, 1, 2, 2, 0, 0, 0, 0, 0, 0, 0],
   [0, 1, 2, 2, 2, 0, 0, 0, 0, 0, 0],
   [0, 1, 2, 2, 2, 2, 0, 0, 0, 0, 0],
   [0, 1, 2, 2, 2, 2, 2, 0, 0, 0, 0],
   [0, 1, 2, 2, 2, 2, 2, 2, 0, 0, 0],
   [0, 1, 2, 2, 2, 2, 2, 2, 2, 0, 0],
   [0, 1, 2, 2, 2, 1, 1, 1, 1, 1, 0],
   [0, 1, 2, 0, 1, 2, 1, 0, 0, 0, 0]]

/-- `switch (cursor_pattern[dy][dx])`: the colour, where there is one. -/
def cursorColor (d : Nat × Nat) : Option UInt32 :=
  let code := (cursorPattern.getD d.2 []).getD d.1 0
  if code = 1 then some 0x000000 else if code = 2 then some 0xFF44FF else none

/-- The pixels that `draw_cursor_shape` plots. -/
def shapePixels (x y : Int32) : List Pixel :=
  cursorSquare.filterMap fun d => (cursorColor d).map fun color => ⟨shifted x d.1, shifted y d.2, color⟩

/-- `draw_mouse` with the variables of the mouse. -/
def drawMouse (f : Framebuffer) (s : ConsoleState) (mouseX mouseY : Int32) : ConsoleState :=
  let s :=
    if s.lastMouseX ≥ 0 ∧ s.lastMouseY ≥ 0 then
      { s with fb := restoreCursorBackground f s s.lastMouseX s.lastMouseY }
    else s
  let s := { s with cursorBuffer := saveCursorBackground f s mouseX mouseY }
  let s := { s with fb := plot f s.fb (shapePixels mouseX mouseY) }
  { s with lastMouseX := mouseX, lastMouseY := mouseY }

/-! ## Calls and ticks -/

/-- A position of the mouse on the screen. -/
structure MousePosition (f : Framebuffer) where
  x : Int32
  y : Int32
  column : 0 ≤ x.toInt ∧ x.toInt < f.width.toNat
  row : 0 ≤ y.toInt ∧ y.toInt < f.height.toNat

/-- A call of the terminal, or a timer tick. -/
inductive ScreenCall (f : Framebuffer)
  | putc (c : UInt8)
  | clear
  | tick (mouse : MousePosition f)

def ScreenCall.isText {f : Framebuffer} : ScreenCall f → Bool
  | tick _ => false
  | _ => true

def ConsoleState.step (f : Framebuffer) (beyond : Bytes) (s : ConsoleState) : ScreenCall f → ConsoleState
  | .putc c => termPutc f beyond s c
  | .clear => termClear f s
  | .tick mouse => drawMouse f s mouse.x mouse.y

/-- The console after calls and ticks, from a cleared screen on. -/
def screen (f : Framebuffer) (beyond : Bytes) (s : ConsoleState) (calls : List (ScreenCall f)) : ConsoleState :=
  calls.foldl (ConsoleState.step f beyond) (termClear f s)

/-- The framebuffer without the cursor. -/
def uncovered (f : Framebuffer) (s : ConsoleState) : Bytes := restoreCursorBackground f s s.lastMouseX s.lastMouseY

/-- At any time the framebuffer without the cursor is the one that the terminal calls alone lead to. -/
def Transparent (f : Framebuffer) (beyond : Bytes) (s : ConsoleState) (calls : List (ScreenCall f)) : Prop :=
  ∀ q, q <+: calls → uncovered f (screen f beyond s q) = (screen f beyond s (q.filter ScreenCall.isText)).fb

/-- The colours look the same in this framebuffer. -/
def SameColor (f : Framebuffer) (color color' : UInt32) : Prop :=
  ∀ k < f.bpp.toNat / 8, channel color k = channel color' k

/-- While the cursor is on the screen, what the byte draws over it is what is saved there. -/
def LeavesCursor (f : Framebuffer) (beyond : Bytes) (s : ConsoleState) (c : UInt8) : Prop :=
  0 ≤ s.lastMouseX ∧ 0 ≤ s.lastMouseY → ∀ p ∈ putcPixels f beyond s c, ∀ d ∈ cursorSquare,
    p.x = shifted s.lastMouseX d.1 → p.y = shifted s.lastMouseY d.2 → p.x < f.width → p.y < f.height →
    SameColor f p.color (s.cursorBuffer (bufferIndex d))

variable {f : Framebuffer} {beyond fb : Bytes} {s t : ConsoleState} {x y : Int32} {i k : Nat} {p q : Pixel}
  {d e : Nat × Nat} {c : UInt8} {cell : Cell} {color : UInt32} {calls before : List (ScreenCall f)}

/-! ## Which pixels are plotted -/

theorem mem_cursorSquare : d ∈ cursorSquare ↔ d.1 < 11 ∧ d.2 < 11 := by
  obtain ⟨dx, dy⟩ := d
  simp [cursorSquare, and_comm]

/-- Different steps lead to different columns and rows. -/
theorem shifted_inj {a b : Nat} (small : a < 11) (small' : b < 11) (same : shifted x a = shifted x b) : a = b := by
  have steps : ∀ a < 11, ∀ b < 11, (Int32.ofNat a).toUInt32 = (Int32.ofNat b).toUInt32 → a = b := by decide
  exact steps a small b small' ((UInt32.add_right_inj x.toUInt32).mp same)

theorem bufferIndex_inj (inside : d ∈ cursorSquare) (inside' : e ∈ cursorSquare)
    (same : bufferIndex d = bufferIndex e) : d = e := by
  rw [mem_cursorSquare] at inside inside'
  rw [bufferIndex, bufferIndex] at same
  exact Prod.ext (by omega) (by omega)

theorem mem_pixels : p ∈ cell.pixels beyond color ↔ ∃ row < 8, ∃ col < 8, ∃ sy < 2, ∃ sx < 2,
    p = ⟨cell.x + UInt32.ofNat (col * 2 + sx), cell.y + UInt32.ofNat (row * 2 + sy),
      glyphColor beyond color cell.ch row col⟩ := by
  simp only [Cell.pixels, List.mem_flatMap, List.mem_map, List.mem_range, eq_comm (a := p)]

/-- A character has one colour in each place. -/
theorem pixels_color (found : p ∈ cell.pixels beyond color) (found' : q ∈ cell.pixels beyond color)
    (sameX : p.x = q.x) (sameY : p.y = q.y) : p.color = q.color := by
  have step {a b : Nat} (small : a < 16) (small' : b < 16) (same : UInt32.ofNat a = UInt32.ofNat b) : a = b := by
    have numbers := congrArg UInt32.toNat same
    rwa [UInt32.toNat_ofNat', UInt32.toNat_ofNat', Nat.mod_eq_of_lt (by omega), Nat.mod_eq_of_lt (by omega)] at numbers
  obtain ⟨row, rowBound, col, colBound, sy, syBound, sx, sxBound, rfl⟩ := mem_pixels.mp found
  obtain ⟨row', rowBound', col', colBound', sy', syBound', sx', sxBound', rfl⟩ := mem_pixels.mp found'
  have columns := step (by omega) (by omega) ((UInt32.add_right_inj cell.x).mp sameX)
  have rows := step (by omega) (by omega) ((UInt32.add_right_inj cell.y).mp sameY)
  obtain rfl : col = col' := by omega
  obtain rfl : row = row' := by omega
  rfl

theorem putcPixels_color (found : p ∈ putcPixels f beyond s c) (found' : q ∈ putcPixels f beyond s c)
    (sameX : p.x = q.x) (sameY : p.y = q.y) : p.color = q.color := by
  rw [putcPixels] at found found'
  cases drawn : (putcCursor f s.cursorX s.cursorY c).1 with
  | none =>
    rw [drawn] at found
    cases found
  | some cell =>
    rw [drawn] at found found'
    exact pixels_color found found' sameX sameY

/-- `term_clear` plots every pixel on the screen. -/
theorem mem_clearPixels {x y : UInt32} (inside : x < f.width ∧ y < f.height) : ⟨x, y, termColorBg⟩ ∈ clearPixels f := by
  refine List.mem_flatMap.mpr ⟨y.toNat, List.mem_range.mpr (UInt32.lt_iff_toNat_lt.mp inside.2), ?_⟩
  refine List.mem_map.mpr ⟨x.toNat, List.mem_range.mpr (UInt32.lt_iff_toNat_lt.mp inside.1), ?_⟩
  rw [UInt32.ofNat_toNat, UInt32.ofNat_toNat]

/-- The cursor is drawn inside its square. -/
theorem mem_shapePixels (found : p ∈ shapePixels x y) :
    ∃ d ∈ cursorSquare, p.x = shifted x d.1 ∧ p.y = shifted y d.2 := by
  obtain ⟨d, inside, drawn⟩ := List.mem_filterMap.mp found
  obtain ⟨color, -, rfl⟩ := Option.map_eq_some_iff.mp drawn
  exact ⟨d, inside, rfl, rfl⟩

/-! ## The saved pixels -/

section Fold

variable {ι β : Type} {idx : ι → Nat} {g : ι → β} {l : List ι} {n : Nat} {a : ι}

theorem foldl_update_kept (outside : ∀ b ∈ l, idx b ≠ n) (buffer : Nat → β) :
    l.foldl (fun buffer b => Function.update buffer (idx b) (g b)) buffer n = buffer n := by
  induction l generalizing buffer with
  | nil => rfl
  | cons b l ih =>
    rw [List.foldl_cons, ih fun c found => outside c (List.mem_cons_of_mem b found)]
    exact Function.update_of_ne (outside b List.mem_cons_self).symm _ _

theorem foldl_update_found {v : β} (agree : ∀ b ∈ l, idx b = n → g b = v) (found : ∃ b ∈ l, idx b = n)
    (buffer : Nat → β) : l.foldl (fun buffer b => Function.update buffer (idx b) (g b)) buffer n = v := by
  induction l generalizing buffer with
  | nil => simp at found
  | cons b l ih =>
    rw [List.foldl_cons]
    by_cases later : ∃ c ∈ l, idx c = n
    · exact ih (fun c found => agree c (List.mem_cons_of_mem b found)) later _
    · have here : idx b = n := by
        obtain ⟨c, found, index⟩ := found
        rcases List.mem_cons.mp found with rfl | behind
        · exact index
        · exact absurd ⟨c, behind, index⟩ later
      rw [foldl_update_kept fun c found index => later ⟨c, found, index⟩, ← here, Function.update_self]
      exact agree b List.mem_cons_self here

end Fold

/-- Each pixel of the square is saved at its index. -/
theorem saveCursorBackground_eq (f : Framebuffer) (s : ConsoleState) (x y : Int32) (inside : d ∈ cursorSquare) :
    saveCursorBackground f s x y (bufferIndex d) = getpixel f s.fb (shifted x d.1) (shifted y d.2) :=
  foldl_update_found (fun _ other same => by rw [bufferIndex_inj other inside same]) ⟨d, inside, rfl⟩ s.cursorBuffer

/-! ## The invariant -/

/-- The cursor is on the screen. -/
def ConsoleState.ShowsCursor (s : ConsoleState) : Prop := 0 ≤ s.lastMouseX ∧ 0 ≤ s.lastMouseY

/-- The byte `i` is in the square of the cursor. -/
def ConsoleState.UnderCursor (f : Framebuffer) (s : ConsoleState) (d : Nat × Nat) (i : Nat) : Prop :=
  Covers f (shifted s.lastMouseX d.1) (shifted s.lastMouseY d.2) i

/-- The console `s` is the console `t` with the cursor laid over it. -/
structure Overlay (f : Framebuffer) (s t : ConsoleState) : Prop where
  cursorX : s.cursorX = t.cursorX
  cursorY : s.cursorY = t.cursorY
  termFg : s.termFg = t.termFg
  apart : ∀ i, (s.ShowsCursor → ∀ d ∈ cursorSquare, ¬ s.UnderCursor f d i) → s.fb i = t.fb i
  saved : s.ShowsCursor → ∀ d ∈ cursorSquare, ∀ i, s.UnderCursor f d i →
    channel (s.cursorBuffer (bufferIndex d))
      (i - f.offset (shifted s.lastMouseX d.1) (shifted s.lastMouseY d.2)) = t.fb i

theorem mem_savedPixels : p ∈ savedPixels s x y ↔
    ∃ d ∈ cursorSquare, p = ⟨shifted x d.1, shifted y d.2, s.cursorBuffer (bufferIndex d)⟩ := by
  simp only [savedPixels, List.mem_map, eq_comm (a := p)]

theorem not_showsCursor_iff : s.lastMouseX < 0 ∨ s.lastMouseY < 0 ↔ ¬ s.ShowsCursor := by
  rw [ConsoleState.ShowsCursor, not_and_or, Int32.not_le, Int32.not_le]

theorem uncovered_of_shows (shows : s.ShowsCursor) :
    uncovered f s = plot f s.fb (savedPixels s s.lastMouseX s.lastMouseY) :=
  if_neg fun hidden => not_showsCursor_iff.mp hidden shows

theorem uncovered_of_hidden (hidden : ¬ s.ShowsCursor) : uncovered f s = s.fb :=
  if_pos (not_showsCursor_iff.mpr hidden)

/-- Writing the saved pixels back uncovers the screen. -/
theorem Overlay.uncovered (overlay : Overlay f s t) : uncovered f s = t.fb := by
  funext i
  by_cases shows : s.ShowsCursor
  · rw [uncovered_of_shows shows]
    by_cases covered : ∃ p ∈ savedPixels s s.lastMouseX s.lastMouseY, Covers f p.x p.y i
    · refine plot_covered (fun p found covers => ?_) covered
      obtain ⟨d, inside, rfl⟩ := mem_savedPixels.mp found
      exact overlay.saved shows d inside i covers
    · rw [plot_kept fun p found covers => covered ⟨p, found, covers⟩]
      exact overlay.apart i fun _ d inside under =>
        covered ⟨_, mem_savedPixels.mpr ⟨d, inside, rfl⟩, under⟩
  · rw [uncovered_of_hidden shows]
    exact overlay.apart i fun shown => absurd shown shows

theorem Overlay.putcPixels_eq (overlay : Overlay f s t) (c : UInt8) :
    putcPixels f beyond s c = putcPixels f beyond t c := by
  rw [putcPixels, putcPixels, overlay.cursorX, overlay.cursorY, overlay.termFg]

/-- A byte belongs to one pixel of the square only. -/
theorem savedPixel_unique (inside : d ∈ cursorSquare) (inside' : e ∈ cursorSquare)
    (covers : Covers f (shifted x d.1) (shifted y d.2) i) (covers' : Covers f (shifted x e.1) (shifted y e.2) i) :
    e = d := by
  obtain ⟨column, row⟩ := covers'.unique covers
  rw [mem_cursorSquare] at inside inside'
  exact Prod.ext (shifted_inj inside'.1 inside.1 column) (shifted_inj inside'.2 inside.2 row)

/-- Text that leaves the saved pixels as they are. -/
theorem Overlay.putc (overlay : Overlay f s t) (leaves : LeavesCursor f beyond s c) :
    Overlay f (termPutc f beyond s c) (termPutc f beyond t c) where
  cursorX := by rw [termPutc, termPutc, overlay.cursorX, overlay.cursorY]
  cursorY := by rw [termPutc, termPutc, overlay.cursorX, overlay.cursorY]
  termFg := overlay.termFg
  apart i outside := by
    change plot f s.fb (putcPixels f beyond s c) i = plot f t.fb (putcPixels f beyond t c) i
    rw [overlay.putcPixels_eq]
    exact plot_congr (Or.inl (overlay.apart i outside))
  saved shows d inside i under := by
    change _ = plot f t.fb (putcPixels f beyond t c) i
    have saved := overlay.saved shows d inside i under
    refine Eq.trans saved (Eq.symm ?_)
    rw [← overlay.putcPixels_eq]
    refine plot_same fun p found covers => ?_
    obtain ⟨sameX, sameY⟩ := covers.unique under
    have sameColor := leaves shows p found d inside sameX sameY covers.1.1 covers.1.2
    rw [sameColor _ (by have := covers.2; omega), sameX, sameY]
    exact saved

/-- A byte that draws over the cursor what is not saved there makes a difference. -/
theorem Overlay.leaves (uncovers : Console.uncovered f (termPutc f beyond s c) = (termPutc f beyond t c).fb)
    (overlay : Overlay f s t) : LeavesCursor f beyond s c := by
  intro shows p found d inside sameX sameY insideX insideY k bound
  have covers : Covers f p.x p.y (f.offset p.x p.y + k) :=
    ⟨⟨insideX, insideY⟩, Nat.le_add_right _ k, Nat.add_lt_add_left bound _⟩
  have drawn : (termPutc f beyond t c).fb (f.offset p.x p.y + k) = channel p.color k := by
    change plot f t.fb (putcPixels f beyond t c) _ = _
    rw [← overlay.putcPixels_eq]
    refine plot_covered (fun q found' covers' => ?_) ⟨p, found, covers⟩
    obtain ⟨sameX, sameY⟩ := covers'.unique covers
    rw [putcPixels_color found' found sameX sameY, sameX, sameY, Nat.add_sub_cancel_left]
  have restored : Console.uncovered f (termPutc f beyond s c) (f.offset p.x p.y + k) =
      channel (s.cursorBuffer (bufferIndex d)) k := by
    rw [uncovered_of_shows (show (termPutc f beyond s c).ShowsCursor from shows)]
    rw [sameX, sameY] at covers ⊢
    refine plot_covered (fun q found' covers' => ?_) ⟨_, mem_savedPixels.mpr ⟨d, inside, rfl⟩, covers⟩
    obtain ⟨e, inside', rfl⟩ := mem_savedPixels.mp found'
    obtain rfl := savedPixel_unique inside inside' covers covers'
    exact congrArg _ (Nat.add_sub_cancel_left _ k)
  rw [← drawn, ← restored, uncovers]

theorem not_showsCursor_clear : ¬ (termClear f s).ShowsCursor := fun shows =>
  absurd shows.1 (show ¬ (0 : Int32) ≤ -1 by decide)

/-- A cleared screen. -/
theorem Overlay.clear (overlay : Overlay f s t) : Overlay f (termClear f s) (termClear f t) where
  cursorX := rfl
  cursorY := rfl
  termFg := overlay.termFg
  apart i _ := by
    refine plot_congr (Classical.or_iff_not_imp_right.mpr fun outside => overlay.apart i fun _ d _ under => outside ?_)
    exact ⟨_, mem_clearPixels under.1, under⟩
  saved shows := absurd shows not_showsCursor_clear

/-- `draw_mouse` starts from the uncovered screen. -/
theorem Overlay.drawMouse_eq (overlay : Overlay f s t) (x y : Int32) : drawMouse f s x y =
    { s with
      fb := plot f t.fb (shapePixels x y)
      cursorBuffer := saveCursorBackground f { s with fb := t.fb } x y
      lastMouseX := x
      lastMouseY := y } := by
  have restored := overlay.uncovered
  by_cases shows : s.ShowsCursor
  · have shown : s.lastMouseX ≥ 0 ∧ s.lastMouseY ≥ 0 := shows
    rw [Console.uncovered] at restored
    simp only [drawMouse, if_pos shown, restored]
  · have hidden : ¬ (s.lastMouseX ≥ 0 ∧ s.lastMouseY ≥ 0) := shows
    rw [uncovered_of_hidden shows] at restored
    rw [← restored]
    simp only [drawMouse, if_neg hidden]

/-- A timer tick. -/
theorem Overlay.tick (overlay : Overlay f s t) (mouse : MousePosition f) :
    Overlay f (drawMouse f s mouse.x mouse.y) t := by
  have shows : 0 ≤ mouse.x ∧ 0 ≤ mouse.y :=
    ⟨Int32.le_iff_toInt_le.mpr mouse.column.1, Int32.le_iff_toInt_le.mpr mouse.row.1⟩
  rw [overlay.drawMouse_eq]
  refine ⟨overlay.cursorX, overlay.cursorY, overlay.termFg, fun i outside => ?_, fun _ d inside i under => ?_⟩
  · refine plot_kept fun p found covers => ?_
    obtain ⟨d, inside, sameX, sameY⟩ := mem_shapePixels found
    rw [sameX, sameY] at covers
    exact outside shows d inside covers
  · dsimp only
    rw [saveCursorBackground_eq _ _ _ _ inside]
    exact channel_getpixel under

/-- Every console is its cursor laid over what is under it. -/
theorem Overlay.self (f : Framebuffer) (s : ConsoleState) : Overlay f s { s with fb := Console.uncovered f s } where
  cursorX := rfl
  cursorY := rfl
  termFg := rfl
  apart i outside := by
    by_cases shows : s.ShowsCursor
    · dsimp only
      rw [uncovered_of_shows shows, plot_kept]
      intro p found covers
      obtain ⟨d, inside, rfl⟩ := mem_savedPixels.mp found
      exact outside shows d inside covers
    · exact (congrFun (uncovered_of_hidden shows) i).symm
  saved shows d inside i under := by
    dsimp only
    rw [uncovered_of_shows shows]
    refine (plot_covered (fun q found covers => ?_) ⟨_, mem_savedPixels.mpr ⟨d, inside, rfl⟩, under⟩).symm
    obtain ⟨e, inside', rfl⟩ := mem_savedPixels.mp found
    rw [savedPixel_unique inside inside' under covers]

/-- A tick does not change what is under the cursor. -/
theorem uncovered_tick (s : ConsoleState) (mouse : MousePosition f) :
    uncovered f (drawMouse f s mouse.x mouse.y) = uncovered f s :=
  ((Overlay.self f s).tick mouse).uncovered

/-- A cleared screen is its own overlay. -/
theorem Overlay.start (f : Framebuffer) (s : ConsoleState) : Overlay f (termClear f s) (termClear f s) :=
  ⟨rfl, rfl, rfl, fun _ _ => rfl, fun shows => absurd shows not_showsCursor_clear⟩

/-! ## Call after call -/

theorem screen_append (calls : List (ScreenCall f)) (call : ScreenCall f) :
    screen f beyond s (calls ++ [call]) = (screen f beyond s calls).step f beyond call := by
  rw [screen, List.foldl_append]
  rfl

theorem screen_putc (calls : List (ScreenCall f)) (c : UInt8) :
    screen f beyond s ((calls ++ [ScreenCall.putc c]).filter ScreenCall.isText) =
      termPutc f beyond (screen f beyond s (calls.filter ScreenCall.isText)) c := by
  rw [List.filter_append]
  exact screen_append _ _

theorem screen_clear (calls : List (ScreenCall f)) :
    screen f beyond s ((calls ++ [ScreenCall.clear]).filter ScreenCall.isText) =
      termClear f (screen f beyond s (calls.filter ScreenCall.isText)) := by
  rw [List.filter_append]
  exact screen_append _ _

theorem screen_tick (calls : List (ScreenCall f)) (mouse : MousePosition f) :
    screen f beyond s ((calls ++ [ScreenCall.tick mouse]).filter ScreenCall.isText) =
      screen f beyond s (calls.filter ScreenCall.isText) := by
  rw [List.filter_append]
  exact congrArg _ (List.append_nil _)

/-- The bytes drawn over the cursor leave it transparent. -/
def AllLeaveCursor (f : Framebuffer) (beyond : Bytes) (s : ConsoleState) (calls : List (ScreenCall f)) : Prop :=
  ∀ q c, q ++ [.putc c] <+: calls → LeavesCursor f beyond (screen f beyond s q) c

/-- The run with ticks lays the cursor over the run without. -/
theorem AllLeaveCursor.overlay (leave : AllLeaveCursor f beyond s calls) :
    Overlay f (screen f beyond s calls) (screen f beyond s (calls.filter ScreenCall.isText)) := by
  induction calls using List.reverseRecOn with
  | nil => exact Overlay.start f s
  | append_singleton q call ih =>
    have earlier := ih fun q' c part => leave q' c (part.trans (List.prefix_append q [call]))
    rw [screen_append]
    cases call with
    | putc c =>
      rw [screen_putc]
      exact earlier.putc (leave q c (List.prefix_refl _))
    | clear =>
      rw [screen_clear]
      exact earlier.clear
    | tick mouse =>
      rw [screen_tick]
      exact earlier.tick mouse

/-- **When the mouse cursor is a transparent overlay.**  No byte may draw over the cursor anything but what
is saved under it. -/
theorem transparent_iff (f : Framebuffer) (beyond : Bytes) (s : ConsoleState) (calls : List (ScreenCall f)) :
    Transparent f beyond s calls ↔ AllLeaveCursor f beyond s calls := by
  constructor
  · intro transparent
    induction calls using List.reverseRecOn with
    | nil => exact fun q c part => absurd (List.prefix_nil.mp part) (by simp)
    | append_singleton calls call ih =>
      have leave := ih fun q part => transparent q (part.trans (List.prefix_append calls [call]))
      intro q c part
      obtain whole | earlier := List.prefix_concat_iff.mp part
      · obtain ⟨rfl, last⟩ := List.append_inj' whole rfl
        cases last
        have uncovers := transparent _ part
        rw [screen_append, screen_putc] at uncovers
        exact Overlay.leaves uncovers leave.overlay
      · exact leave q c earlier
  · intro leave q part
    have overlay := AllLeaveCursor.overlay fun q' c part' => leave q' c (part'.trans part)
    exact overlay.uncovered

/-- A cleared screen has the background everywhere. -/
theorem termClear_fb {x y : UInt32} (covers : Covers f x y i) :
    (termClear f s).fb i = channel termColorBg (i - f.offset x y) := by
  refine plot_covered (fun p found covers' => ?_) ⟨_, mem_clearPixels covers.1, covers⟩
  obtain ⟨sameX, sameY⟩ := covers'.unique covers
  obtain ⟨_, -, row⟩ := List.mem_flatMap.mp found
  obtain ⟨_, -, rfl⟩ := List.mem_map.mp row
  rw [sameX, sameY]

/-- The mouse in the corner, the letter `A` under it, and a tick elsewhere: the letter is lost. -/
theorem text_under_cursor_lost :
    uncovered vga (screen vga (fun _ => 0) blank
        [.tick ⟨0, 0, by decide, by decide⟩, .putc 0x41, .tick ⟨100, 100, by decide, by decide⟩]) ≠
      (screen vga (fun _ => 0) blank [.putc 0x41]).fb := by
  intro same
  have start : Overlay vga (screen vga (fun _ => 0) blank [.tick ⟨0, 0, by decide, by decide⟩]) (termClear vga blank) :=
    (Overlay.start vga blank).tick ⟨0, 0, by decide, by decide⟩
  have leaves := Overlay.leaves (c := 0x41) ((uncovered_tick _ ⟨100, 100, by decide, by decide⟩).symm.trans same) start
  -- the pixel (6, 0) belongs to the letter, and the background is saved for it
  have inside : (6, 0) ∈ cursorSquare := mem_cursorSquare.mpr (by decide)
  have shows : (screen vga (fun _ => 0) blank [.tick ⟨0, 0, by decide, by decide⟩]).ShowsCursor :=
    show (0 : Int32) ≤ 0 ∧ (0 : Int32) ≤ 0 by decide
  have letter : ⟨6, 0, 0x00FFD9E0⟩ ∈ (Cell.mk 0x41 0 0).pixels (fun _ => 0) 0x00FFD9E0 :=
    mem_pixels.mpr ⟨0, by decide, 3, by decide, 0, by decide, 0, by decide, by decide +kernel⟩
  have found : ⟨6, 0, 0x00FFD9E0⟩ ∈ putcPixels vga (fun _ => 0)
      (screen vga (fun _ => 0) blank [.tick ⟨0, 0, by decide, by decide⟩]) 0x41 := by
    rw [start.putcPixels_eq]
    exact letter
  have sameColor := leaves shows _ found (6, 0) inside rfl rfl (by decide) (by decide) 0 (by decide)
  have covers : Covers vga 6 0 (vga.offset 6 0) := ⟨⟨by decide, by decide⟩, le_refl _, by decide⟩
  have saved := start.saved shows (6, 0) inside (vga.offset 6 0) covers
  rw [termClear_fb covers] at saved
  have background : channel 0x00FFD9E0 0 = channel termColorBg 0 := sameColor.trans saved
  exact absurd background (by decide)

end QuantumKernel.Console
