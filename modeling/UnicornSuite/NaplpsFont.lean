import Mathlib.Tactic.Common

/-! The glyphs of `naplps_font_data.c`: seven rows for each character from `0x20` to `0x7E`, top row
first, bit 0 the leftmost column. -/

namespace UnicornSuite.Naplps

/-- `NAPLPS_GLYPH_W` and `NAPLPS_GLYPH_H`. -/
abbrev glyphW : Nat := 5

abbrev glyphH : Nat := 7

/-- `NAPLPS_GLYPH_FIRST` and `NAPLPS_GLYPH_COUNT`. -/
abbrev glyphFirst : Nat := 0x20

abbrev glyphCount : Nat := 95

def font5x7 : List (List Nat) := [
  [0x00, 0x00, 0x00, 0x00, 0x00, 0x00, 0x00],
  [0x04, 0x04, 0x04, 0x04, 0x04, 0x00, 0x04],
  [0x0A, 0x0A, 0x00, 0x00, 0x00, 0x00, 0x00],
  [0x0A, 0x0A, 0x1F, 0x0A, 0x1F, 0x0A, 0x0A],
  [0x04, 0x1E, 0x05, 0x0E, 0x14, 0x0F, 0x04],
  [0x03, 0x13, 0x08, 0x04, 0x02, 0x19, 0x18],
  [0x06, 0x09, 0x05, 0x02, 0x15, 0x09, 0x16],
  [0x04, 0x04, 0x00, 0x00, 0x00, 0x00, 0x00],
  [0x08, 0x04, 0x02, 0x02, 0x02, 0x04, 0x08],
  [0x02, 0x04, 0x08, 0x08, 0x08, 0x04, 0x02],
  [0x00, 0x04, 0x15, 0x0E, 0x15, 0x04, 0x00],
  [0x00, 0x04, 0x04, 0x1F, 0x04, 0x04, 0x00],
  [0x00, 0x00, 0x00, 0x00, 0x04, 0x04, 0x02],
  [0x00, 0x00, 0x00, 0x1F, 0x00, 0x00, 0x00],
  [0x00, 0x00, 0x00, 0x00, 0x00, 0x06, 0x06],
  [0x10, 0x10, 0x08, 0x04, 0x02, 0x01, 0x01],
  [0x0E, 0x11, 0x19, 0x15, 0x13, 0x11, 0x0E],
  [0x04, 0x06, 0x04, 0x04, 0x04, 0x04, 0x0E],
  [0x0E, 0x11, 0x10, 0x08, 0x04, 0x02, 0x1F],
  [0x1F, 0x08, 0x04, 0x08, 0x10, 0x11, 0x0E],
  [0x08, 0x0C, 0x0A, 0x09, 0x1F, 0x08, 0x08],
  [0x1F, 0x01, 0x0F, 0x10, 0x10, 0x11, 0x0E],
  [0x0C, 0x02, 0x01, 0x0F, 0x11, 0x11, 0x0E],
  [0x1F, 0x10, 0x08, 0x04, 0x02, 0x02, 0x02],
  [0x0E, 0x11, 0x11, 0x0E, 0x11, 0x11, 0x0E],
  [0x0E, 0x11, 0x11, 0x1E, 0x10, 0x08, 0x06],
  [0x00, 0x04, 0x04, 0x00, 0x04, 0x04, 0x00],
  [0x00, 0x04, 0x04, 0x00, 0x04, 0x04, 0x02],
  [0x08, 0x04, 0x02, 0x01, 0x02, 0x04, 0x08],
  [0x00, 0x00, 0x1F, 0x00, 0x1F, 0x00, 0x00],
  [0x02, 0x04, 0x08, 0x10, 0x08, 0x04, 0x02],
  [0x0E, 0x11, 0x10, 0x08, 0x04, 0x00, 0x04],
  [0x0E, 0x11, 0x1D, 0x15, 0x1D, 0x01, 0x0E],
  [0x0E, 0x11, 0x11, 0x1F, 0x11, 0x11, 0x11],
  [0x0F, 0x11, 0x11, 0x0F, 0x11, 0x11, 0x0F],
  [0x0E, 0x11, 0x01, 0x01, 0x01, 0x11, 0x0E],
  [0x07, 0x09, 0x11, 0x11, 0x11, 0x09, 0x07],
  [0x1F, 0x01, 0x01, 0x0F, 0x01, 0x01, 0x1F],
  [0x1F, 0x01, 0x01, 0x0F, 0x01, 0x01, 0x01],
  [0x0E, 0x11, 0x01, 0x1D, 0x11, 0x11, 0x1E],
  [0x11, 0x11, 0x11, 0x1F, 0x11, 0x11, 0x11],
  [0x0E, 0x04, 0x04, 0x04, 0x04, 0x04, 0x0E],
  [0x1C, 0x08, 0x08, 0x08, 0x08, 0x09, 0x06],
  [0x11, 0x09, 0x05, 0x03, 0x05, 0x09, 0x11],
  [0x01, 0x01, 0x01, 0x01, 0x01, 0x01, 0x1F],
  [0x11, 0x1B, 0x15, 0x15, 0x11, 0x11, 0x11],
  [0x11, 0x11, 0x13, 0x15, 0x19, 0x11, 0x11],
  [0x0E, 0x11, 0x11, 0x11, 0x11, 0x11, 0x0E],
  [0x0F, 0x11, 0x11, 0x0F, 0x01, 0x01, 0x01],
  [0x0E, 0x11, 0x11, 0x11, 0x15, 0x09, 0x16],
  [0x0F, 0x11, 0x11, 0x0F, 0x05, 0x09, 0x11],
  [0x1E, 0x01, 0x01, 0x0E, 0x10, 0x10, 0x0F],
  [0x1F, 0x04, 0x04, 0x04, 0x04, 0x04, 0x04],
  [0x11, 0x11, 0x11, 0x11, 0x11, 0x11, 0x0E],
  [0x11, 0x11, 0x11, 0x11, 0x11, 0x0A, 0x04],
  [0x11, 0x11, 0x11, 0x15, 0x15, 0x1B, 0x11],
  [0x11, 0x11, 0x0A, 0x04, 0x0A, 0x11, 0x11],
  [0x11, 0x11, 0x0A, 0x04, 0x04, 0x04, 0x04],
  [0x1F, 0x10, 0x08, 0x04, 0x02, 0x01, 0x1F],
  [0x0E, 0x02, 0x02, 0x02, 0x02, 0x02, 0x0E],
  [0x01, 0x01, 0x02, 0x04, 0x08, 0x10, 0x10],
  [0x0E, 0x08, 0x08, 0x08, 0x08, 0x08, 0x0E],
  [0x04, 0x0A, 0x11, 0x00, 0x00, 0x00, 0x00],
  [0x00, 0x00, 0x00, 0x00, 0x00, 0x00, 0x1F],
  [0x02, 0x04, 0x00, 0x00, 0x00, 0x00, 0x00],
  [0x00, 0x00, 0x0E, 0x10, 0x1E, 0x11, 0x1E],
  [0x01, 0x01, 0x0F, 0x11, 0x11, 0x11, 0x0F],
  [0x00, 0x00, 0x0E, 0x01, 0x01, 0x01, 0x0E],
  [0x10, 0x10, 0x1E, 0x11, 0x11, 0x11, 0x1E],
  [0x00, 0x00, 0x0E, 0x11, 0x1F, 0x01, 0x0E],
  [0x0C, 0x02, 0x0F, 0x02, 0x02, 0x02, 0x02],
  [0x00, 0x1E, 0x11, 0x11, 0x1E, 0x10, 0x0E],
  [0x01, 0x01, 0x0F, 0x11, 0x11, 0x11, 0x11],
  [0x04, 0x00, 0x06, 0x04, 0x04, 0x04, 0x0E],
  [0x08, 0x00, 0x08, 0x08, 0x08, 0x09, 0x06],
  [0x01, 0x01, 0x09, 0x05, 0x03, 0x05, 0x09],
  [0x06, 0x04, 0x04, 0x04, 0x04, 0x04, 0x0E],
  [0x00, 0x00, 0x0B, 0x15, 0x15, 0x11, 0x11],
  [0x00, 0x00, 0x0F, 0x11, 0x11, 0x11, 0x11],
  [0x00, 0x00, 0x0E, 0x11, 0x11, 0x11, 0x0E],
  [0x00, 0x0F, 0x11, 0x11, 0x0F, 0x01, 0x01],
  [0x00, 0x1E, 0x11, 0x11, 0x1E, 0x10, 0x10],
  [0x00, 0x00, 0x0D, 0x13, 0x01, 0x01, 0x01],
  [0x00, 0x00, 0x1E, 0x01, 0x0E, 0x10, 0x0F],
  [0x02, 0x02, 0x0F, 0x02, 0x02, 0x12, 0x0C],
  [0x00, 0x00, 0x11, 0x11, 0x11, 0x19, 0x16],
  [0x00, 0x00, 0x11, 0x11, 0x11, 0x0A, 0x04],
  [0x00, 0x00, 0x11, 0x11, 0x15, 0x15, 0x0A],
  [0x00, 0x00, 0x11, 0x0A, 0x04, 0x0A, 0x11],
  [0x00, 0x11, 0x11, 0x11, 0x1E, 0x10, 0x0E],
  [0x00, 0x00, 0x1F, 0x08, 0x04, 0x02, 0x1F],
  [0x18, 0x04, 0x04, 0x02, 0x04, 0x04, 0x18],
  [0x04, 0x04, 0x04, 0x04, 0x04, 0x04, 0x04],
  [0x03, 0x04, 0x04, 0x08, 0x04, 0x04, 0x03],
  [0x00, 0x00, 0x12, 0x15, 0x09, 0x00, 0x00]]

/-- Row `row` of glyph `gi`. -/
def glyphRow (gi row : Nat) : Nat := (font5x7.getD gi []).getD row 0

end UnicornSuite.Naplps
