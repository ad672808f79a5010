import Coolos.Lib.Memory
import Coolos.Kernel.Font

/-!
# The frame buffer (`graphics.c`)

The screen geometry and the pixels stored so far, oldest first. A pixel is kept
by its coordinates; `index` is where in the frame buffer they land, computed in
32 bits as the source does.
-/

namespace Coolos

open Lib

/-- One store to the frame buffer. -/
structure PixelStore where
  x : BitVec 32
  y : BitVec 32
  color : BitVec 32
  deriving DecidableEq

structure Graphics where
  frameBuffer : Word
  screenWidth : BitVec 32
  screenHeight : BitVec 32
  pixelsPerScanline : BitVec 32
  stores : List PixelStore

namespace Graphics

/-- The bytes of a string constant, without the final NUL. -/
def ascii (s : String) : List (BitVec 8) := s.toList.map fun c => BitVec.ofNat 8 c.toNat

/-- `Graphics_Init`. -/
def init (g : Graphics) (fbBase : Word) (width height ppsl : BitVec 32) : Graphics :=
  { g with
    frameBuffer := fbBase, screenWidth := width, screenHeight := height
    pixelsPerScanline := ppsl }

/-- `y * pixels_per_scanline + x`, the index a store goes to. -/
def index (g : Graphics) (p : PixelStore) : BitVec 32 := p.y * g.pixelsPerScanline + p.x

/-- `Graphics_GetDimensions`. -/
def getDimensions (g : Graphics) : BitVec 32 × BitVec 32 := (g.screenWidth, g.screenHeight)

/-- The pixels of a glyph, row by row. -/
def glyph (x y : BitVec 32) (c : BitVec 8) (color : BitVec 32) : List PixelStore :=
  (List.range 16).flatMap fun dy =>
    (List.range 8).filterMap fun dx =>
      if (font8x16 c).getD dy 0 &&& ((0x80 : BitVec 8) >>> dx) ≠ 0 then
        some ⟨x + BitVec.ofNat 32 dx, y + BitVec.ofNat 32 dy, color⟩
      else none

/-- `Graphics_PutChar`. -/
def putChar (g : Graphics) (x y : BitVec 32) (c : BitVec 8) (color : BitVec 32) : Graphics :=
  { g with stores := g.stores ++ glyph x y c color }

/-- `Graphics_Print`. -/
def print (g : Graphics) (curX y : BitVec 32) : List (BitVec 8) → BitVec 32 → Graphics
  | [], _ => g
  | c :: str, color => print (g.putChar curX y c color) (curX + 8) y str color

/-- The digit for a nibble in `Graphics_PrintHex`. -/
def hexDigit (nibble : BitVec 8) : BitVec 8 :=
  if nibble < 10 then nibble + 0x30 else nibble - 10 + 0x41

/-- `Graphics_PrintHex`. -/
def printHex (g : Graphics) (x y : BitVec 32) (value : Word) (color : BitVec 32) : Graphics :=
  let digits := (List.range 16).map fun i =>
    hexDigit ((value >>> (60 - i * 4)).truncate 8 &&& 0xF)
  g.print x y (ascii "0x" ++ digits) color

/-- `Graphics_Clear`. -/
def clear (g : Graphics) (color : BitVec 32) : Graphics :=
  { g with
    stores := g.stores ++ (List.range g.screenHeight.toNat).flatMap fun y =>
      (List.range g.screenWidth.toNat).map fun x =>
        ⟨BitVec.ofNat 32 x, BitVec.ofNat 32 y, color⟩ }

end Graphics
end Coolos
