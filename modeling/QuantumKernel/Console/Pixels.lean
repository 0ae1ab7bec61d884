import QuantumKernel.Console.Terminal

/-! # The bytes of the pixels

A pixel on the screen covers three or four bytes of the framebuffer, and no byte belongs to two pixels.
`putpixel` stores the bytes of the colour there, `getpixel` reads them back, and a loop of `putpixel`
calls leaves the last colour stored.
-/

namespace QuantumKernel.Console

open ByteStore

/-- The byte `k` of a pixel's colour in the framebuffer. -/
def channel (color : UInt32) (k : Nat) : UInt8 :=
  (if k = 0 then color >>> 16 else if k = 1 then color >>> 8 else if k = 2 then color else color >>> 24).toUInt8

/-- The byte `i` is one of the pixel's. -/
def Covers (f : Framebuffer) (x y : UInt32) (i : Nat) : Prop :=
  (x < f.width ∧ y < f.height) ∧ f.offset x y ≤ i ∧ i < f.offset x y + f.bpp.toNat / 8

instance (f : Framebuffer) (x y : UInt32) (i : Nat) : Decidable (Covers f x y i) :=
  inferInstanceAs (Decidable (_ ∧ _))

variable {f : Framebuffer} {fb fb' : Bytes} {x y x' y' color : UInt32} {i k : Nat} {pixels : List Pixel} {v : UInt8}

/-! ## One pixel -/

/-- The offset of a pixel on the screen does not overflow. -/
theorem Framebuffer.offset_eq (inside : x < f.width ∧ y < f.height) :
    f.offset x y = y.toNat * f.pitch.toNat + x.toNat * (f.bpp.toNat / 8) ∧
      x.toNat * (f.bpp.toNat / 8) + f.bpp.toNat / 8 ≤ f.pitch.toNat := by
  obtain ⟨insideX, insideY⟩ := inside
  have bytes := f.bytes_range
  have column : x.toNat * (f.bpp.toNat / 8) + f.bpp.toNat / 8 ≤ f.pitch.toNat :=
    calc x.toNat * (f.bpp.toNat / 8) + f.bpp.toNat / 8 = (x.toNat + 1) * (f.bpp.toNat / 8) := (Nat.succ_mul _ _).symm
      _ ≤ f.width.toNat * (f.bpp.toNat / 8) := Nat.mul_le_mul_right _ (UInt32.lt_iff_toNat_lt.mp insideX)
      _ ≤ f.pitch.toNat := f.row
  have rows : y.toNat * f.pitch.toNat + f.pitch.toNat ≤ 4294967296 :=
    calc y.toNat * f.pitch.toNat + f.pitch.toNat = (y.toNat + 1) * f.pitch.toNat := (Nat.succ_mul _ _).symm
      _ ≤ f.height.toNat * f.pitch.toNat := Nat.mul_le_mul_right _ (UInt32.lt_iff_toNat_lt.mp insideY)
      _ ≤ 4294967296 := by rw [Nat.mul_comm]; exact f.memory
  refine ⟨?_, column⟩
  have eight : (8 : UInt32).toNat = 8 := rfl
  rw [Framebuffer.offset, UInt32.toNat_add, UInt32.toNat_mul, UInt32.toNat_mul, UInt32.toNat_div, eight,
    Nat.mod_eq_of_lt (a := y.toNat * f.pitch.toNat) (by omega),
    Nat.mod_eq_of_lt (a := x.toNat * (f.bpp.toNat / 8)) (by omega), Nat.mod_eq_of_lt (by omega)]

/-- Pixels do not share bytes. -/
theorem Covers.unique (covers : Covers f x y i) (covers' : Covers f x' y' i) : x = x' ∧ y = y' := by
  obtain ⟨inside, low, high⟩ := covers
  obtain ⟨inside', low', high'⟩ := covers'
  obtain ⟨offset, row⟩ := Framebuffer.offset_eq inside
  obtain ⟨offset', row'⟩ := Framebuffer.offset_eq inside'
  rw [offset] at low high
  rw [offset'] at low' high'
  have bytes := f.bytes_range
  generalize f.bpp.toNat / 8 = n at *
  generalize f.pitch.toNat = m at *
  -- the row is `i / pitch`, and in the row the column is determined the same way
  have rowOf : i / m = y.toNat := Nat.div_eq_of_lt_le (by omega) (by rw [Nat.succ_mul]; omega)
  have rowOf' : i / m = y'.toNat := Nat.div_eq_of_lt_le (by omega) (by rw [Nat.succ_mul]; omega)
  have sameRow : y.toNat = y'.toNat := rowOf.symm.trans rowOf'
  rw [← sameRow] at low' high'
  have columnOf : (i - y.toNat * m) / n = x.toNat := Nat.div_eq_of_lt_le (by omega) (by rw [Nat.succ_mul]; omega)
  have columnOf' : (i - y.toNat * m) / n = x'.toNat := Nat.div_eq_of_lt_le (by omega) (by rw [Nat.succ_mul]; omega)
  exact ⟨UInt32.toNat_inj.mp (columnOf.symm.trans columnOf'), UInt32.toNat_inj.mp sameRow⟩

/-- The bytes of a pixel are numbered from its offset on. -/
theorem Covers.index (covers : Covers f x y i) : ∃ k < f.bpp.toNat / 8, i = f.offset x y + k :=
  ⟨i - f.offset x y, by have := covers.2; omega, by have := covers.2; omega⟩

theorem putpixel_eq (f : Framebuffer) (fb : Bytes) (x y color : UInt32) (i : Nat) :
    putpixel f fb x y color i = if Covers f x y i then channel color (i - f.offset x y) else fb i := by
  rw [putpixel]
  by_cases outside : x ≥ f.width ∨ y ≥ f.height
  · rw [if_pos outside, if_neg fun covers => ?_]
    rcases outside with right | below
    · exact UInt32.not_le.mpr covers.1.1 right
    · exact UInt32.not_le.mpr covers.1.2 below
  have inside : x < f.width ∧ y < f.height := by
    rw [not_or, ge_iff_le, ge_iff_le, UInt32.not_le, UInt32.not_le] at outside
    exact outside
  rw [if_neg outside]
  by_cases covers : Covers f x y i
  · rw [if_pos covers]
    obtain ⟨k, bound, rfl⟩ := covers.index
    rw [Nat.add_sub_cancel_left]
    rcases f.depth with depth | depth
    · rw [depth] at bound ⊢
      obtain rfl | rfl | rfl : k = 0 ∨ k = 1 ∨ k = 2 := by
        have three : (24 : UInt32).toNat / 8 = 3 := rfl
        omega
      all_goals simp [channel]
    · rw [depth] at bound ⊢
      obtain rfl | rfl | rfl | rfl : k = 0 ∨ k = 1 ∨ k = 2 ∨ k = 3 := by
        have four : (32 : UInt32).toNat / 8 = 4 := rfl
        omega
      all_goals simp [channel]
  · rw [if_neg covers]
    have apart (k : Nat) (bound : k < f.bpp.toNat / 8) : i ≠ f.offset x y + k := fun here =>
      covers ⟨inside, by omega, by omega⟩
    have first : i ≠ f.offset x y := apart 0 (by rcases f.depth with depth | depth <;> rw [depth] <;> decide)
    rcases f.depth with depth | depth
    · rw [depth] at apart ⊢
      rw [if_neg (by decide), if_pos rfl, Function.update_of_ne (apart 2 (by decide)),
        Function.update_of_ne (apart 1 (by decide)), Function.update_of_ne first]
    · rw [depth] at apart ⊢
      rw [if_pos rfl, Function.update_of_ne (apart 3 (by decide)), Function.update_of_ne (apart 2 (by decide)),
        Function.update_of_ne (apart 1 (by decide)), Function.update_of_ne first]

/-- The bytes of a colour put together from bytes. -/
theorem channel_join (a b c d : UInt8) :
    channel (a.toUInt32 <<< 24 ||| b.toUInt32 <<< 16 ||| c.toUInt32 <<< 8 ||| d.toUInt32) 0 = b ∧
      channel (a.toUInt32 <<< 24 ||| b.toUInt32 <<< 16 ||| c.toUInt32 <<< 8 ||| d.toUInt32) 1 = c ∧
      channel (a.toUInt32 <<< 24 ||| b.toUInt32 <<< 16 ||| c.toUInt32 <<< 8 ||| d.toUInt32) 2 = d ∧
      channel (a.toUInt32 <<< 24 ||| b.toUInt32 <<< 16 ||| c.toUInt32 <<< 8 ||| d.toUInt32) 3 = a := by
  refine ⟨?_, ?_, ?_, ?_⟩ <;>
  · apply UInt8.toBitVec_inj.mp
    apply BitVec.eq_of_getLsbD_eq
    intro i bound
    simp only [channel]
    interval_cases i <;> simp

/-- The bytes that `getpixel` has read. -/
theorem channel_getpixel (covers : Covers f x y i) : channel (getpixel f fb x y) (i - f.offset x y) = fb i := by
  obtain ⟨k, bound, rfl⟩ := covers.index
  have onScreen : ¬ (x ≥ f.width ∨ y ≥ f.height) := by
    rw [not_or, ge_iff_le, ge_iff_le, UInt32.not_le, UInt32.not_le]
    exact covers.1
  rw [Nat.add_sub_cancel_left, getpixel, if_neg onScreen]
  generalize f.offset x y = p
  rcases f.depth with depth | depth
  · rw [depth] at bound ⊢
    obtain ⟨first, second, third, -⟩ := channel_join 0 (fb p) (fb (p + 1)) (fb (p + 2))
    have none : (0 : UInt8).toUInt32 <<< 24 ||| (fb p).toUInt32 <<< 16 = (fb p).toUInt32 <<< 16 := UInt32.zero_or
    rw [none] at first second third
    rw [if_neg (by decide), if_pos rfl]
    obtain rfl | rfl | rfl : k = 0 ∨ k = 1 ∨ k = 2 := by
      have three : (24 : UInt32).toNat / 8 = 3 := rfl
      omega
    · exact first
    · exact second
    · exact third
  · rw [depth] at bound ⊢
    obtain ⟨first, second, third, fourth⟩ := channel_join (fb (p + 3)) (fb p) (fb (p + 1)) (fb (p + 2))
    rw [if_pos rfl]
    obtain rfl | rfl | rfl | rfl : k = 0 ∨ k = 1 ∨ k = 2 ∨ k = 3 := by
      have four : (32 : UInt32).toNat / 8 = 4 := rfl
      omega
    · exact first
    · exact second
    · exact third
    · exact fourth

/-! ## Many pixels -/

theorem plot_cons (f : Framebuffer) (fb : Bytes) (p : Pixel) (pixels : List Pixel) :
    plot f fb (p :: pixels) = plot f (putpixel f fb p.x p.y p.color) pixels := rfl

/-- A byte that no pixel covers is kept. -/
theorem plot_kept (outside : ∀ p ∈ pixels, ¬ Covers f p.x p.y i) : plot f fb pixels i = fb i := by
  induction pixels generalizing fb with
  | nil => rfl
  | cons p pixels ih =>
    rw [plot_cons, ih fun q found => outside q (List.mem_cons_of_mem p found), putpixel_eq,
      if_neg (outside p List.mem_cons_self)]

/-- A byte that is covered by pixels that agree on it. -/
theorem plot_covered (agree : ∀ p ∈ pixels, Covers f p.x p.y i → channel p.color (i - f.offset p.x p.y) = v)
    (covered : ∃ p ∈ pixels, Covers f p.x p.y i) : plot f fb pixels i = v := by
  induction pixels generalizing fb with
  | nil => simp at covered
  | cons p pixels ih =>
    rw [plot_cons]
    by_cases later : ∃ q ∈ pixels, Covers f q.x q.y i
    · exact ih (fun q found => agree q (List.mem_cons_of_mem p found)) later
    · have here : Covers f p.x p.y i := by
        obtain ⟨q, found, covers⟩ := covered
        rcases List.mem_cons.mp found with rfl | behind
        · exact covers
        · exact absurd ⟨q, behind, covers⟩ later
      rw [plot_kept fun q found covers => later ⟨q, found, covers⟩, putpixel_eq, if_pos here]
      exact agree p List.mem_cons_self here

/-- A byte that already has what is stored there. -/
theorem plot_same (agree : ∀ p ∈ pixels, Covers f p.x p.y i → channel p.color (i - f.offset p.x p.y) = fb i) :
    plot f fb pixels i = fb i := by
  by_cases covered : ∃ p ∈ pixels, Covers f p.x p.y i
  · exact plot_covered agree covered
  · exact plot_kept fun p found covers => covered ⟨p, found, covers⟩

/-- What was there before does not matter where pixels are stored. -/
theorem plot_congr (same : fb i = fb' i ∨ ∃ p ∈ pixels, Covers f p.x p.y i) :
    plot f fb pixels i = plot f fb' pixels i := by
  induction pixels generalizing fb fb' with
  | nil => exact same.resolve_right fun ⟨_, found, _⟩ => List.not_mem_nil found
  | cons p pixels ih =>
    rw [plot_cons, plot_cons]
    apply ih
    rw [putpixel_eq, putpixel_eq]
    by_cases here : Covers f p.x p.y i
    · rw [if_pos here, if_pos here]
      exact Or.inl rfl
    · rw [if_neg here, if_neg here]
      refine same.imp_right fun ⟨q, found, covers⟩ => ?_
      rcases List.mem_cons.mp found with rfl | behind
      · exact absurd covers here
      · exact ⟨q, behind, covers⟩

end QuantumKernel.Console
