import Mathlib.Tactic

/-! # The font of the console -/

namespace QuantumKernel.Console

/-- The rows of `font8x8_basic` from the space on. -/
def printableGlyphs : List (List UInt8) :=
  [[0x00, 0x00, 0x00, 0x00, 0x00, 0x00, 0x00, 0x00], [0x10, 0x38, 0x38, 0x10, 0x10, 0x00, 0x10, 0x00],
   [0x24, 0x24, 0x24, 0x00, 0x00, 0x00, 0x00, 0x00], [0x24, 0x24, 0x7e, 0x24, 0x7e, 0x24, 0x24, 0x00],
   [0x18, 0x3e, 0x40, 0x3c, 0x02, 0x7c, 0x18, 0x00], [0x00, 0x62, 0x64, 0x08, 0x10, 0x26, 0x46, 0x00],
   [0x30, 0x48, 0x30, 0x56, 0x88, 0x88, 0x76, 0x00], [0x10, 0x10, 0x20, 0x00, 0x00, 0x00, 0x00, 0x00],
   [0x10, 0x20, 0x40, 0x40, 0x40, 0x20, 0x10, 0x00], [0x20, 0x10, 0x08, 0x08, 0x08, 0x10, 0x20, 0x00],
   [0x00, 0x44, 0x38, 0xfe, 0x38, 0x44, 0x00, 0x00], [0x00, 0x10, 0x10, 0x7c, 0x10, 0x10, 0x00, 0x00],
   [0x00, 0x00, 0x00, 0x00, 0x00, 0x10, 0x10, 0x20], [0x00, 0x00, 0x00, 0x7e, 0x00, 0x00, 0x00, 0x00],
   [0x00, 0x00, 0x00, 0x00, 0x00, 0x10, 0x10, 0x00], [0x00, 0x02, 0x04, 0x08, 0x10, 0x20, 0x40, 0x00],
   [0x3c, 0x42, 0x46, 0x4a, 0x52, 0x62, 0x3c, 0x00], [0x10, 0x30, 0x50, 0x10, 0x10, 0x10, 0x7c, 0x00],
   [0x3c, 0x42, 0x02, 0x0c, 0x30, 0x42, 0x7e, 0x00], [0x3c, 0x42, 0x02, 0x1c, 0x02, 0x42, 0x3c, 0x00],
   [0x08, 0x18, 0x28, 0x48, 0xfe, 0x08, 0x1c, 0x00], [0x7e, 0x40, 0x7c, 0x02, 0x02, 0x42, 0x3c, 0x00],
   [0x1c, 0x20, 0x40, 0x7c, 0x42, 0x42, 0x3c, 0x00], [0x7e, 0x42, 0x04, 0x08, 0x10, 0x10, 0x10, 0x00],
   [0x3c, 0x42, 0x42, 0x3c, 0x42, 0x42, 0x3c, 0x00], [0x3c, 0x42, 0x42, 0x3e, 0x02, 0x04, 0x38, 0x00],
   [0x00, 0x10, 0x10, 0x00, 0x00, 0x10, 0x10, 0x00], [0x00, 0x10, 0x10, 0x00, 0x00, 0x10, 0x10, 0x20],
   [0x08, 0x10, 0x20, 0x40, 0x20, 0x10, 0x08, 0x00], [0x00, 0x00, 0x7e, 0x00, 0x00, 0x7e, 0x00, 0x00],
   [0x10, 0x08, 0x04, 0x02, 0x04, 0x08, 0x10, 0x00], [0x3c, 0x42, 0x02, 0x04, 0x08, 0x00, 0x08, 0x00],
   [0x3c, 0x42, 0x5e, 0x52, 0x5e, 0x40, 0x3c, 0x00], [0x18, 0x24, 0x42, 0x42, 0x7e, 0x42, 0x42, 0x00],
   [0x7c, 0x22, 0x22, 0x3c, 0x22, 0x22, 0x7c, 0x00], [0x1c, 0x22, 0x40, 0x40, 0x40, 0x22, 0x1c, 0x00],
   [0x78, 0x24, 0x22, 0x22, 0x22, 0x24, 0x78, 0x00], [0x7e, 0x22, 0x28, 0x38, 0x28, 0x22, 0x7e, 0x00],
   [0x7e, 0x22, 0x28, 0x38, 0x28, 0x20, 0x70, 0x00], [0x1c, 0x22, 0x40, 0x40, 0x4e, 0x22, 0x1e, 0x00],
   [0x42, 0x42, 0x42, 0x7e, 0x42, 0x42, 0x42, 0x00], [0x38, 0x10, 0x10, 0x10, 0x10, 0x10, 0x38, 0x00],
   [0x0e, 0x04, 0x04, 0x04, 0x44, 0x44, 0x38, 0x00], [0x62, 0x24, 0x28, 0x30, 0x28, 0x24, 0x63, 0x00],
   [0x70, 0x20, 0x20, 0x20, 0x20, 0x22, 0x7e, 0x00], [0x63, 0x55, 0x49, 0x41, 0x41, 0x41, 0x41, 0x00],
   [0x62, 0x52, 0x4a, 0x46, 0x42, 0x42, 0x42, 0x00], [0x18, 0x24, 0x42, 0x42, 0x42, 0x24, 0x18, 0x00],
   [0x7c, 0x22, 0x22, 0x3c, 0x20, 0x20, 0x70, 0x00], [0x3c, 0x42, 0x42, 0x42, 0x4a, 0x3c, 0x03, 0x00],
   [0x7c, 0x22, 0x22, 0x3c, 0x28, 0x24, 0x72, 0x00], [0x3c, 0x42, 0x40, 0x3c, 0x02, 0x42, 0x3c, 0x00],
   [0x7f, 0x49, 0x08, 0x08, 0x08, 0x08, 0x1c, 0x00], [0x42, 0x42, 0x42, 0x42, 0x42, 0x42, 0x3c, 0x00],
   [0x41, 0x41, 0x41, 0x41, 0x22, 0x14, 0x08, 0x00], [0x41, 0x41, 0x41, 0x49, 0x49, 0x49, 0x36, 0x00],
   [0x41, 0x22, 0x14, 0x08, 0x14, 0x22, 0x41, 0x00], [0x41, 0x22, 0x14, 0x08, 0x08, 0x08, 0x1c, 0x00],
   [0x7f, 0x42, 0x04, 0x08, 0x10, 0x21, 0x7f, 0x00], [0x78, 0x40, 0x40, 0x40, 0x40, 0x40, 0x78, 0x00],
   [0x80, 0x40, 0x20, 0x10, 0x08, 0x04, 0x02, 0x00], [0x78, 0x08, 0x08, 0x08, 0x08, 0x08, 0x78, 0x00],
   [0x10, 0x28, 0x44, 0x82, 0x00, 0x00, 0x00, 0x00], [0x00, 0x00, 0x00, 0x00, 0x00, 0x00, 0x00, 0xff],
   [0x10, 0x10, 0x08, 0x00, 0x00, 0x00, 0x00, 0x00], [0x00, 0x00, 0x3c, 0x02, 0x3e, 0x42, 0x3f, 0x00],
   [0x60, 0x20, 0x20, 0x2e, 0x31, 0x31, 0x2e, 0x00], [0x00, 0x00, 0x3c, 0x42, 0x40, 0x42, 0x3c, 0x00],
   [0x06, 0x02, 0x02, 0x3a, 0x46, 0x46, 0x3b, 0x00], [0x00, 0x00, 0x3c, 0x42, 0x7e, 0x40, 0x3c, 0x00],
   [0x0c, 0x12, 0x10, 0x38, 0x10, 0x10, 0x38, 0x00], [0x00, 0x00, 0x3d, 0x42, 0x42, 0x3e, 0x02, 0x7c],
   [0x60, 0x20, 0x2c, 0x32, 0x22, 0x22, 0x62, 0x00], [0x10, 0x00, 0x30, 0x10, 0x10, 0x10, 0x38, 0x00],
   [0x02, 0x00, 0x06, 0x02, 0x02, 0x42, 0x42, 0x3c], [0x60, 0x20, 0x24, 0x28, 0x30, 0x28, 0x26, 0x00],
   [0x30, 0x10, 0x10, 0x10, 0x10, 0x10, 0x38, 0x00], [0x00, 0x00, 0x76, 0x49, 0x49, 0x49, 0x49, 0x00],
   [0x00, 0x00, 0x5c, 0x62, 0x42, 0x42, 0x42, 0x00], [0x00, 0x00, 0x3c, 0x42, 0x42, 0x42, 0x3c, 0x00],
   [0x00, 0x00, 0x6c, 0x32, 0x32, 0x2c, 0x20, 0x70], [0x00, 0x00, 0x36, 0x4c, 0x4c, 0x34, 0x04, 0x0e],
   [0x00, 0x00, 0x6c, 0x32, 0x22, 0x20, 0x70, 0x00], [0x00, 0x00, 0x3e, 0x40, 0x3c, 0x02, 0x7c, 0x00],
   [0x10, 0x10, 0x7c, 0x10, 0x10, 0x12, 0x0c, 0x00], [0x00, 0x00, 0x42, 0x42, 0x42, 0x46, 0x3a, 0x00],
   [0x00, 0x00, 0x41, 0x41, 0x22, 0x14, 0x08, 0x00], [0x00, 0x00, 0x41, 0x49, 0x49, 0x49, 0x36, 0x00],
   [0x00, 0x00, 0x44, 0x28, 0x10, 0x28, 0x44, 0x00], [0x00, 0x00, 0x42, 0x42, 0x42, 0x3e, 0x02, 0x7c],
   [0x00, 0x00, 0x7c, 0x08, 0x10, 0x20, 0x7c, 0x00], [0x0c, 0x10, 0x10, 0x60, 0x10, 0x10, 0x0c, 0x00],
   [0x10, 0x10, 0x10, 0x00, 0x10, 0x10, 0x10, 0x00], [0x30, 0x08, 0x08, 0x06, 0x08, 0x08, 0x30, 0x00],
   [0x32, 0x4c, 0x00, 0x00, 0x00, 0x00, 0x00, 0x00], [0x00, 0x08, 0x14, 0x22, 0x41, 0x41, 0x7f, 0x00]]

/-- `font8x8_basic[128][8]`: the first 32 characters are blank. -/
def font8x8Basic : List (List UInt8) := List.replicate 32 (List.replicate 8 0) ++ printableGlyphs

theorem font8x8Basic_length : font8x8Basic.length = 128 := by
  rw [font8x8Basic, List.length_append, List.length_replicate]
  rfl

/-- Every glyph has `FONT_HEIGHT` rows. -/
theorem font8x8Basic_rows : ∀ glyph ∈ font8x8Basic, glyph.length = 8 := by decide +kernel

end QuantumKernel.Console
