import Mathlib.Data.Int.Basic

/-!
# The font

The table `font8x8_basic` of `lib/font.c`: the eight rows of each of the 128 characters, whose bits
are the pixels of the row, the lowest one first. Up to the space all are blank.
-/

namespace OsLab

/-- `font8x8_basic` -/
def font8x8Basic : List (List UInt8) :=
  List.replicate 33 (List.replicate 8 0) ++ [
    [0x18, 0x3C, 0x3C, 0x18, 0x18, 0x00, 0x18, 0x00],  -- U+0021
    [0x36, 0x36, 0x00, 0x00, 0x00, 0x00, 0x00, 0x00],  -- U+0022
    [0x36, 0x36, 0x7F, 0x36, 0x7F, 0x36, 0x36, 0x00],  -- U+0023
    [0x0C, 0x3E, 0x03, 0x1E, 0x30, 0x1F, 0x0C, 0x00],  -- U+0024
    [0x00, 0x63, 0x33, 0x18, 0x0C, 0x66, 0x63, 0x00],  -- U+0025
    [0x1C, 0x36, 0x1C, 0x6E, 0x3B, 0x33, 0x6E, 0x00],  -- U+0026
    [0x06, 0x06, 0x03, 0x00, 0x00, 0x00, 0x00, 0x00],  -- U+0027
    [0x18, 0x0C, 0x06, 0x06, 0x06, 0x0C, 0x18, 0x00],  -- U+0028
    [0x06, 0x0C, 0x18, 0x18, 0x18, 0x0C, 0x06, 0x00],  -- U+0029
    [0x00, 0x66, 0x3C, 0xFF, 0x3C, 0x66, 0x00, 0x00],  -- U+002A
    [0x00, 0x0C, 0x0C, 0x3F, 0x0C, 0x0C, 0x00, 0x00],  -- U+002B
    [0x00, 0x00, 0x00, 0x00, 0x00, 0x0C, 0x0C, 0x06],  -- U+002C
    [0x00, 0x00, 0x00, 0x3F, 0x00, 0x00, 0x00, 0x00],  -- U+002D
    [0x00, 0x00, 0x00, 0x00, 0x00, 0x0C, 0x0C, 0x00],  -- U+002E
    [0x60, 0x30, 0x18, 0x0C, 0x06, 0x03, 0x01, 0x00],  -- U+002F
    [0x3E, 0x63, 0x73, 0x7B, 0x6F, 0x67, 0x3E, 0x00],  -- U+0030
    [0x0C, 0x0E, 0x0C, 0x0C, 0x0C, 0x0C, 0x3F, 0x00],  -- U+0031
    [0x1E, 0x33, 0x30, 0x1C, 0x06, 0x33, 0x3F, 0x00],  -- U+0032
    [0x1E, 0x33, 0x30, 0x1C, 0x30, 0x33, 0x1E, 0x00],  -- U+0033
    [0x38, 0x3C, 0x36, 0x33, 0x7F, 0x30, 0x78, 0x00],  -- U+0034
    [0x3F, 0x03, 0x1F, 0x30, 0x30, 0x33, 0x1E, 0x00],  -- U+0035
    [0x1C, 0x06, 0x03, 0x1F, 0x33, 0x33, 0x1E, 0x00],  -- U+0036
    [0x3F, 0x33, 0x30, 0x18, 0x0C, 0x0C, 0x0C, 0x00],  -- U+0037
    [0x1E, 0x33, 0x33, 0x1E, 0x33, 0x33, 0x1E, 0x00],  -- U+0038
    [0x1E, 0x33, 0x33, 0x3E, 0x30, 0x18, 0x0E, 0x00],  -- U+0039
    [0x00, 0x0C, 0x0C, 0x00, 0x00, 0x0C, 0x0C, 0x00],  -- U+003A
    [0x00, 0x0C, 0x0C, 0x00, 0x00, 0x0C, 0x0C, 0x06],  -- U+003B
    [0x18, 0x0C, 0x06, 0x03, 0x06, 0x0C, 0x18, 0x00],  -- U+003C
    [0x00, 0x00, 0x3F, 0x00, 0x00, 0x3F, 0x00, 0x00],  -- U+003D
    [0x06, 0x0C, 0x18, 0x30, 0x18, 0x0C, 0x06, 0x00],  -- U+003E
    [0x1E, 0x33, 0x30, 0x18, 0x0C, 0x00, 0x0C, 0x00],  -- U+003F
    [0x3E, 0x63, 0x7B, 0x7B, 0x7B, 0x03, 0x1E, 0x00],  -- U+0040
    [0x0C, 0x1E, 0x33, 0x33, 0x3F, 0x33, 0x33, 0x00],  -- U+0041
    [0x3F, 0x66, 0x66, 0x3E, 0x66, 0x66, 0x3F, 0x00],  -- U+0042
    [0x3C, 0x66, 0x03, 0x03, 0x03, 0x66, 0x3C, 0x00],  -- U+0043
    [0x1F, 0x36, 0x66, 0x66, 0x66, 0x36, 0x1F, 0x00],  -- U+0044
    [0x7F, 0x46, 0x16, 0x1E, 0x16, 0x46, 0x7F, 0x00],  -- U+0045
    [0x7F, 0x46, 0x16, 0x1E, 0x16, 0x06, 0x0F, 0x00],  -- U+0046
    [0x3C, 0x66, 0x03, 0x03, 0x73, 0x66, 0x7C, 0x00],  -- U+0047
    [0x33, 0x33, 0x33, 0x3F, 0x33, 0x33, 0x33, 0x00],  -- U+0048
    [0x1E, 0x0C, 0x0C, 0x0C, 0x0C, 0x0C, 0x1E, 0x00],  -- U+0049
    [0x78, 0x30, 0x30, 0x30, 0x33, 0x33, 0x1E, 0x00],  -- U+004A
    [0x67, 0x66, 0x36, 0x1E, 0x36, 0x66, 0x67, 0x00],  -- U+004B
    [0x0F, 0x06, 0x06, 0x06, 0x46, 0x66, 0x7F, 0x00],  -- U+004C
    [0x63, 0x77, 0x7F, 0x7F, 0x6B, 0x63, 0x63, 0x00],  -- U+004D
    [0x63, 0x67, 0x6F, 0x7B, 0x73, 0x63, 0x63, 0x00],  -- U+004E
    [0x1C, 0x36, 0x63, 0x63, 0x63, 0x36, 0x1C, 0x00],  -- U+004F
    [0x3F, 0x66, 0x66, 0x3E, 0x06, 0x06, 0x0F, 0x00],  -- U+0050
    [0x1E, 0x33, 0x33, 0x33, 0x3B, 0x1E, 0x38, 0x00],  -- U+0051
    [0x3F, 0x66, 0x66, 0x3E, 0x36, 0x66, 0x67, 0x00],  -- U+0052
    [0x1E, 0x33, 0x07, 0x0E, 0x38, 0x33, 0x1E, 0x00],  -- U+0053
    [0x3F, 0x2D, 0x0C, 0x0C, 0x0C, 0x0C, 0x1E, 0x00],  -- U+0054
    [0x33, 0x33, 0x33, 0x33, 0x33, 0x33, 0x3F, 0x00],  -- U+0055
    [0x33, 0x33, 0x33, 0x33, 0x33, 0x1E, 0x0C, 0x00],  -- U+0056
    [0x63, 0x63, 0x63, 0x6B, 0x7F, 0x77, 0x63, 0x00],  -- U+0057
    [0x63, 0x63, 0x36, 0x1C, 0x1C, 0x36, 0x63, 0x00],  -- U+0058
    [0x33, 0x33, 0x33, 0x1E, 0x0C, 0x0C, 0x1E, 0x00],  -- U+0059
    [0x7F, 0x63, 0x31, 0x18, 0x4C, 0x66, 0x7F, 0x00],  -- U+005A
    [0x1E, 0x06, 0x06, 0x06, 0x06, 0x06, 0x1E, 0x00],  -- U+005B
    [0x03, 0x06, 0x0C, 0x18, 0x30, 0x60, 0x40, 0x00],  -- U+005C
    [0x1E, 0x18, 0x18, 0x18, 0x18, 0x18, 0x1E, 0x00],  -- U+005D
    [0x08, 0x1C, 0x36, 0x63, 0x00, 0x00, 0x00, 0x00],  -- U+005E
    [0x00, 0x00, 0x00, 0x00, 0x00, 0x00, 0x00, 0xFF],  -- U+005F
    [0x0C, 0x0C, 0x18, 0x00, 0x00, 0x00, 0x00, 0x00],  -- U+0060
    [0x00, 0x00, 0x1E, 0x30, 0x3E, 0x33, 0x6E, 0x00],  -- U+0061
    [0x07, 0x06, 0x06, 0x3E, 0x66, 0x66, 0x3B, 0x00],  -- U+0062
    [0x00, 0x00, 0x1E, 0x33, 0x03, 0x33, 0x1E, 0x00],  -- U+0063
    [0x38, 0x30, 0x30, 0x3E, 0x33, 0x33, 0x6E, 0x00],  -- U+0064
    [0x00, 0x00, 0x1E, 0x33, 0x3F, 0x03, 0x1E, 0x00],  -- U+0065
    [0x1C, 0x36, 0x06, 0x0F, 0x06, 0x06, 0x0F, 0x00],  -- U+0066
    [0x00, 0x00, 0x6E, 0x33, 0x33, 0x3E, 0x30, 0x1F],  -- U+0067
    [0x07, 0x06, 0x36, 0x6E, 0x66, 0x66, 0x67, 0x00],  -- U+0068
    [0x0C, 0x00, 0x0E, 0x0C, 0x0C, 0x0C, 0x1E, 0x00],  -- U+0069
    [0x30, 0x00, 0x30, 0x30, 0x30, 0x33, 0x33, 0x1E],  -- U+006A
    [0x07, 0x06, 0x66, 0x36, 0x1E, 0x36, 0x67, 0x00],  -- U+006B
    [0x0E, 0x0C, 0x0C, 0x0C, 0x0C, 0x0C, 0x1E, 0x00],  -- U+006C
    [0x00, 0x00, 0x33, 0x7F, 0x7F, 0x6B, 0x63, 0x00],  -- U+006D
    [0x00, 0x00, 0x1F, 0x33, 0x33, 0x33, 0x33, 0x00],  -- U+006E
    [0x00, 0x00, 0x1E, 0x33, 0x33, 0x33, 0x1E, 0x00],  -- U+006F
    [0x00, 0x00, 0x3B, 0x66, 0x66, 0x3E, 0x06, 0x0F],  -- U+0070
    [0x00, 0x00, 0x6E, 0x33, 0x33, 0x3E, 0x30, 0x78],  -- U+0071
    [0x00, 0x00, 0x3B, 0x6E, 0x66, 0x06, 0x0F, 0x00],  -- U+0072
    [0x00, 0x00, 0x3E, 0x03, 0x1E, 0x30, 0x1F, 0x00],  -- U+0073
    [0x08, 0x0C, 0x3E, 0x0C, 0x0C, 0x2C, 0x18, 0x00],  -- U+0074
    [0x00, 0x00, 0x33, 0x33, 0x33, 0x33, 0x6E, 0x00],  -- U+0075
    [0x00, 0x00, 0x33, 0x33, 0x33, 0x1E, 0x0C, 0x00],  -- U+0076
    [0x00, 0x00, 0x63, 0x6B, 0x7F, 0x7F, 0x36, 0x00],  -- U+0077
    [0x00, 0x00, 0x63, 0x36, 0x1C, 0x36, 0x63, 0x00],  -- U+0078
    [0x00, 0x00, 0x33, 0x33, 0x33, 0x3E, 0x30, 0x1F],  -- U+0079
    [0x00, 0x00, 0x3F, 0x19, 0x0C, 0x26, 0x3F, 0x00],  -- U+007A
    [0x38, 0x0C, 0x0C, 0x07, 0x0C, 0x0C, 0x38, 0x00],  -- U+007B
    [0x18, 0x18, 0x18, 0x00, 0x18, 0x18, 0x18, 0x00],  -- U+007C
    [0x07, 0x0C, 0x0C, 0x38, 0x0C, 0x0C, 0x07, 0x00],  -- U+007D
    [0x6E, 0x3B, 0x00, 0x00, 0x00, 0x00, 0x00, 0x00],  -- U+007E
    [0x00, 0x00, 0x00, 0x00, 0x00, 0x00, 0x00, 0x00]  -- U+007F
  ]

/-- `font8x8_basic[ch][i]`; `stray` is what lies around the table. -/
def fontRow (stray : ℤ → ℕ → UInt8) (ch : ℤ) (i : ℕ) : UInt8 :=
  if 0 ≤ ch ∧ ch < 128 then (font8x8Basic.getD ch.toNat []).getD i 0 else stray ch i

end OsLab
