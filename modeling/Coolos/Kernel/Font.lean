import Mathlib.Init

/-!
# The 8x16 font (`font.c`)

Sixteen rows a glyph, the leftmost pixel in the top bit. Characters without an
entry, as well as NUL and the space, are blank.
-/

namespace Coolos

/-- `font8x16`. -/
def font8x16 (c : BitVec 8) : List (BitVec 8) :=
  match c.toNat with
  | 65 => -- A
    [0x00, 0x00, 0x10, 0x38, 0x6C, 0xC6, 0xC6, 0xFE,
      0xC6, 0xC6, 0xC6, 0xC6, 0x00, 0x00, 0x00, 0x00]
  | 66 => -- B
    [0x00, 0x00, 0xFC, 0x66, 0x66, 0x66, 0x7C, 0x66,
      0x66, 0x66, 0x66, 0xFC, 0x00, 0x00, 0x00, 0x00]
  | 67 => -- C
    [0x00, 0x00, 0x3C, 0x66, 0x66, 0xC0, 0xC0, 0xC0,
      0x66, 0x66, 0x3C, 0x00, 0x00, 0x00, 0x00, 0x00]
  | 68 => -- D
    [0x00, 0x00, 0xF8, 0x6C, 0x66, 0x66, 0x66, 0x66,
      0x66, 0x6C, 0xF8, 0x00, 0x00, 0x00, 0x00, 0x00]
  | 69 => -- E
    [0x00, 0x00, 0xFE, 0x62, 0x60, 0x64, 0x7C, 0x64,
      0x60, 0x62, 0xFE, 0x00, 0x00, 0x00, 0x00, 0x00]
  | 70 => -- F
    [0x00, 0x00, 0xFE, 0x62, 0x60, 0x64, 0x7C, 0x64,
      0x60, 0x60, 0xF0, 0x00, 0x00, 0x00, 0x00, 0x00]
  | 71 => -- G
    [0x00, 0x00, 0x3C, 0x66, 0x66, 0xC0, 0xCE, 0xC6,
      0x66, 0x66, 0x3C, 0x00, 0x00, 0x00, 0x00, 0x00]
  | 72 => -- H
    [0x00, 0x00, 0xC6, 0xC6, 0xC6, 0xC6, 0xFE, 0xC6,
      0xC6, 0xC6, 0xC6, 0xC6, 0x00, 0x00, 0x00, 0x00]
  | 73 => -- I
    [0x00, 0x00, 0x3C, 0x18, 0x18, 0x18, 0x18, 0x18,
      0x18, 0x18, 0x3C, 0x00, 0x00, 0x00, 0x00, 0x00]
  | 74 => -- J
    [0x00, 0x00, 0x1E, 0x0C, 0x0C, 0x0C, 0x0C, 0x0C,
      0x0C, 0xCC, 0x78, 0x00, 0x00, 0x00, 0x00, 0x00]
  | 75 => -- K
    [0x00, 0x00, 0xC6, 0xCC, 0xD8, 0xF0, 0xE0, 0xF0,
      0xD8, 0xCC, 0xC6, 0xC6, 0x00, 0x00, 0x00, 0x00]
  | 76 => -- L
    [0x00, 0x00, 0xF0, 0x60, 0x60, 0x60, 0x60, 0x60,
      0x60, 0x62, 0xFE, 0x00, 0x00, 0x00, 0x00, 0x00]
  | 77 => -- M
    [0x00, 0x00, 0xC6, 0xEE, 0xFE, 0xFE, 0xD6, 0xC6,
      0xC6, 0xC6, 0xC6, 0xC6, 0x00, 0x00, 0x00, 0x00]
  | 78 => -- N
    [0x00, 0x00, 0xC6, 0xE6, 0xF6, 0xFE, 0xDE, 0xCE,
      0xC6, 0xC6, 0xC6, 0xC6, 0x00, 0x00, 0x00, 0x00]
  | 79 => -- O
    [0x00, 0x00, 0x3C, 0x66, 0x66, 0xC3, 0xC3, 0xC3,
      0x66, 0x66, 0x3C, 0x00, 0x00, 0x00, 0x00, 0x00]
  | 80 => -- P
    [0x00, 0x00, 0xFC, 0x66, 0x66, 0x66, 0x7C, 0x60,
      0x60, 0x60, 0xF0, 0x00, 0x00, 0x00, 0x00, 0x00]
  | 81 => -- Q
    [0x00, 0x00, 0x3C, 0x66, 0x66, 0xC3, 0xC3, 0xDB,
      0x6E, 0x66, 0x3C, 0x06, 0x07, 0x00, 0x00, 0x00]
  | 82 => -- R
    [0x00, 0x00, 0xFC, 0x66, 0x66, 0x66, 0x7C, 0x6C,
      0x66, 0x66, 0xC6, 0xC6, 0x00, 0x00, 0x00, 0x00]
  | 83 => -- S
    [0x00, 0x00, 0x3C, 0x66, 0x66, 0x30, 0x1C, 0x06,
      0x66, 0x66, 0x3C, 0x00, 0x00, 0x00, 0x00, 0x00]
  | 84 => -- T
    [0x00, 0x00, 0x7E, 0x18, 0x18, 0x18, 0x18, 0x18,
      0x18, 0x18, 0x3C, 0x00, 0x00, 0x00, 0x00, 0x00]
  | 85 => -- U
    [0x00, 0x00, 0xC6, 0xC6, 0xC6, 0xC6, 0xC6, 0xC6,
      0xC6, 0xC6, 0x7C, 0x00, 0x00, 0x00, 0x00, 0x00]
  | 86 => -- V
    [0x00, 0x00, 0xC6, 0xC6, 0xC6, 0xC6, 0xC6, 0x6C,
      0x6C, 0x38, 0x10, 0x00, 0x00, 0x00, 0x00, 0x00]
  | 87 => -- W
    [0x00, 0x00, 0xC6, 0xC6, 0xC6, 0xC6, 0xD6, 0xFE,
      0xFE, 0xEE, 0xC6, 0xC6, 0x00, 0x00, 0x00, 0x00]
  | 88 => -- X
    [0x00, 0x00, 0xC6, 0xC6, 0x6C, 0x38, 0x10, 0x38,
      0x6C, 0xC6, 0xC6, 0xC6, 0x00, 0x00, 0x00, 0x00]
  | 89 => -- Y
    [0x00, 0x00, 0xC6, 0xC6, 0x6C, 0x38, 0x10, 0x10,
      0x10, 0x10, 0x38, 0x00, 0x00, 0x00, 0x00, 0x00]
  | 90 => -- Z
    [0x00, 0x00, 0xFE, 0xC6, 0x8C, 0x18, 0x30, 0x60,
      0xC2, 0xC6, 0xFE, 0x00, 0x00, 0x00, 0x00, 0x00]
  | 33 => -- !
    [0x00, 0x00, 0x18, 0x18, 0x18, 0x18, 0x18, 0x18,
      0x00, 0x18, 0x18, 0x00, 0x00, 0x00, 0x00, 0x00]
  | 63 => -- ?
    [0x00, 0x00, 0x3C, 0x66, 0x66, 0x06, 0x0C, 0x18,
      0x18, 0x00, 0x18, 0x18, 0x00, 0x00, 0x00, 0x00]
  | 58 => -- :
    [0x00, 0x00, 0x00, 0x00, 0x30, 0x30, 0x00, 0x00,
      0x30, 0x30, 0x00, 0x00, 0x00, 0x00, 0x00, 0x00]
  | 44 => -- ,
    [0x00, 0x00, 0x00, 0x00, 0x00, 0x00, 0x00, 0x00,
      0x00, 0x30, 0x30, 0x10, 0x20, 0x00, 0x00, 0x00]
  | 46 => -- .
    [0x00, 0x00, 0x00, 0x00, 0x00, 0x00, 0x00, 0x00,
      0x00, 0x30, 0x30, 0x00, 0x00, 0x00, 0x00, 0x00]
  | 48 => -- 0
    [0x00, 0x00, 0x3E, 0x61, 0x61, 0x61, 0x61, 0x61,
      0x61, 0x61, 0x3E, 0x00, 0x00, 0x00, 0x00, 0x00]
  | 49 => -- 1
    [0x00, 0x00, 0x18, 0x38, 0x18, 0x18, 0x18, 0x18,
      0x18, 0x18, 0x7E, 0x00, 0x00, 0x00, 0x00, 0x00]
  | 50 => -- 2
    [0x00, 0x00, 0x3E, 0x61, 0x01, 0x01, 0x06, 0x18,
      0x20, 0x40, 0x7F, 0x00, 0x00, 0x00, 0x00, 0x00]
  | 51 => -- 3
    [0x00, 0x00, 0x3E, 0x61, 0x01, 0x01, 0x1E, 0x01,
      0x01, 0x61, 0x3E, 0x00, 0x00, 0x00, 0x00, 0x00]
  | 52 => -- 4
    [0x00, 0x00, 0x06, 0x0E, 0x1E, 0x36, 0x66, 0x7F,
      0x06, 0x06, 0x0F, 0x00, 0x00, 0x00, 0x00, 0x00]
  | 53 => -- 5
    [0x00, 0x00, 0x7F, 0x60, 0x60, 0x60, 0x7E, 0x01,
      0x01, 0x61, 0x3E, 0x00, 0x00, 0x00, 0x00, 0x00]
  | 54 => -- 6
    [0x00, 0x00, 0x1E, 0x20, 0x40, 0x60, 0x7E, 0x61,
      0x61, 0x61, 0x3E, 0x00, 0x00, 0x00, 0x00, 0x00]
  | 55 => -- 7
    [0x00, 0x00, 0x7F, 0x01, 0x02, 0x04, 0x08, 0x10,
      0x10, 0x10, 0x10, 0x00, 0x00, 0x00, 0x00, 0x00]
  | 56 => -- 8
    [0x00, 0x00, 0x3E, 0x61, 0x61, 0x61, 0x3E, 0x61,
      0x61, 0x61, 0x3E, 0x00, 0x00, 0x00, 0x00, 0x00]
  | 57 => -- 9
    [0x00, 0x00, 0x3E, 0x61, 0x61, 0x61, 0x3F, 0x01,
      0x02, 0x04, 0x38, 0x00, 0x00, 0x00, 0x00, 0x00]
  | _ => List.replicate 16 0

end Coolos
