import Coolos.Logic.Messages

/-!
# Messages and the frame buffer

The messages stand where the source puts them, on every screen. `PageTable_Init` maps a frame
buffer of `pixels_per_scanline * height` pixels, and nothing compares the two: the lowest
message needs 672 scanlines.
-/

namespace Coolos.Theorems

open Lib Graphics

variable {g : Graphics} {t : Message} {p : PixelStore}

/-- The size that `KernelMain` gives `PageTable_Init`. -/
def frameBufferSize (g : Graphics) : Nat := g.pixelsPerScanline.toNat * g.screenHeight.toNat * 4

/-- Where a pixel is stored. -/
def pixelAddr (g : Graphics) (p : PixelStore) : Word :=
  g.frameBuffer + 4 * (g.index p).zeroExtend 64

def InFrameBuffer (g : Graphics) (p : PixelStore) : Prop :=
  (pixelAddr g p - g.frameBuffer).toNat < frameBufferSize g

/-- Whatever the kernel shows on the screen `g` is stored in the frame buffer. -/
def MessagesInside (g : Graphics) : Prop :=
  ∀ k k' : Kernel, k.graphics = g → Speaks k k' →
    ∀ p ∈ k'.graphics.stores.drop g.stores.length, InFrameBuffer g p

/-- The pixels beyond which nothing is written, below and to the right: four of
"NVME: DEFAULT NSID 1 SELECTED", and one of a model number that ends in its fortieth
character. -/
def outermost : List (Nat × Nat) := [(218, 671), (328, 670), (329, 669), (330, 668), (515, 652)]

/-- The outermost pixels are in the frame buffer. Where 672 scanlines have more pixels than
32 bits count, an index can come round, and it is every pixel that counts. -/
def RoomForMessages (g : Graphics) : Prop :=
  if g.pixelsPerScanline.toNat * 672 ≤ 2 ^ 32 then
    ∀ e ∈ outermost,
      e.2 * g.pixelsPerScanline.toNat + e.1 < g.pixelsPerScanline.toNat * g.screenHeight.toNat
  else
    ∀ t, Shown t → ∀ p ∈ t.pixels,
      (p.y.toNat * g.pixelsPerScanline.toNat + p.x.toNat) % 2 ^ 32 <
        g.pixelsPerScanline.toNat * g.screenHeight.toNat

theorem inFrameBuffer_iff : InFrameBuffer g p ↔
    (p.y.toNat * g.pixelsPerScanline.toNat + p.x.toNat) % 2 ^ 32 <
      g.pixelsPerScanline.toNat * g.screenHeight.toNat := by
  have index : (g.index p).toNat =
      (p.y.toNat * g.pixelsPerScanline.toNat + p.x.toNat) % 2 ^ 32 := by
    rw [Graphics.index, BitVec.toNat_add, BitVec.toNat_mul, Nat.mod_add_mod]
  have offset : (pixelAddr g p - g.frameBuffer).toNat = 4 * (g.index p).toNat := by
    have small : (g.index p).toNat < 2 ^ 32 := (g.index p).isLt
    rw [pixelAddr, BitVec.add_comm, BitVec.add_sub_cancel, BitVec.toNat_mul,
      BitVec.toNat_setWidth_of_le (by decide)]
    exact Nat.mod_eq_of_lt (by show 4 * _ < _; omega)
  rw [InFrameBuffer, frameBufferSize, offset, index]
  omega

/-- A pixel is inside if one further down and to the right would be, counted without the
wrap. -/
theorem inFrameBuffer_of_le {x y : Nat} (right : p.x.toNat ≤ x) (down : p.y.toNat ≤ y)
    (inside : y * g.pixelsPerScanline.toNat + x <
      g.pixelsPerScanline.toNat * g.screenHeight.toNat) : InFrameBuffer g p := by
  rw [inFrameBuffer_iff]
  have rows := Nat.mul_le_mul_right g.pixelsPerScanline.toNat down
  have wrapped := Nat.mod_le (p.y.toNat * g.pixelsPerScanline.toNat + p.x.toNat) (2 ^ 32)
  omega

/-- A pixel of the screen is in the frame buffer. -/
theorem inFrameBuffer_of_screen (wide : g.screenWidth.toNat ≤ g.pixelsPerScanline.toNat)
    (hx : p.x.toNat < g.screenWidth.toNat) (hy : p.y.toNat < g.screenHeight.toNat) :
    InFrameBuffer g p := by
  refine inFrameBuffer_of_le le_rfl le_rfl ?_
  have rows : (p.y.toNat + 1) * g.pixelsPerScanline.toNat ≤
      g.screenHeight.toNat * g.pixelsPerScanline.toNat := Nat.mul_le_mul_right _ hy
  rw [Nat.succ_mul] at rows
  rw [Nat.mul_comm g.pixelsPerScanline.toNat]
  omega

/-! ## The outermost pixels -/

/-- The text ends no further right than the longest model line, and stands no lower. -/
def Short (t : Message) : Prop := t.x.toNat + 8 * t.str.length ≤ 516 ∧ t.y.toNat ≤ 640

instance (t : Message) : Decidable (Short t) :=
  inferInstanceAs (Decidable (t.x.toNat + 8 * t.str.length ≤ 516 ∧ t.y.toNat ≤ 640))

/-- `p` is not beyond the outermost pixels. -/
def Within (p : PixelStore) : Prop := ∃ e ∈ outermost, p.x.toNat ≤ e.1 ∧ p.y.toNat ≤ e.2

instance (p : PixelStore) : Decidable (Within p) :=
  inferInstanceAs (Decidable (∃ e ∈ outermost, p.x.toNat ≤ e.1 ∧ p.y.toNat ≤ e.2))

theorem Short.within (short : Short t) (hp : p ∈ t.pixels) : Within p := by
  obtain ⟨right, down⟩ := short
  have cells := text_cells (by omega) t.str t.x (by omega) hp
  refine ⟨(515, 652), by decide, ?_, ?_⟩
  · show p.x.toNat ≤ 515
    omega
  · show p.y.toNat ≤ 652
    omega

theorem trimModel_length (m : List (BitVec 8)) : (Kernel.trimModel m).length ≤ m.length := by
  have trimmed : ((m.reverse.dropWhile (· = 0x20)).reverse).length ≤ m.length := by
    rw [List.length_reverse]
    exact (List.dropWhile_sublist _).length_le.trans_eq List.length_reverse
  exact (List.takeWhile_sublist _).length_le.trans trimmed

theorem short_model {m : List (BitVec 8)} (size : m.length = 40) :
    Short ⟨100, 640, ascii "NVME MODEL: " ++ Kernel.trimModel m, 0xCB4B16⟩ := by
  have heading : (ascii "NVME MODEL: ").length = 12 := by decide +kernel
  have trimmed := trimModel_length m
  refine ⟨?_, le_rfl⟩
  show 100 + 8 * (ascii "NVME MODEL: " ++ Kernel.trimModel m).length ≤ 516
  rw [List.length_append]
  omega

theorem short_key (ticks : Word) (c : BitVec 8) :
    Short ⟨100 + ((ticks % 50) * 8).truncate 32, 550, [c], 0xFFFFFF⟩ := by
  have place : (100 + ((ticks % 50) * 8).truncate 32 : BitVec 32).toNat =
      100 + ticks.toNat % 50 * 8 := by
    simp [BitVec.toNat_add, BitVec.toNat_mul, BitVec.toNat_umod]
    omega
  refine ⟨?_, by show 550 ≤ 640; omega⟩
  show (100 + ((ticks % 50) * 8).truncate 32 : BitVec 32).toNat + 8 * 1 ≤ 516
  omega

theorem short_hex {x y color : BitVec 32} {value : Word} (right : x.toNat ≤ 250)
    (down : y.toNat ≤ 640) : Short (.hex x y value color) := by
  have heading : (ascii "0x").length = 2 := by decide +kernel
  refine ⟨?_, down⟩
  simp only [Message.hex, List.length_append, List.length_map, List.length_range, heading]
  omega

theorem short_const {x y color : BitVec 32} {s : String}
    (right : x.toNat + 8 * s.utf8ByteSize ≤ 516) (down : y.toNat ≤ 640) :
    Short (.const x y s color) := by
  have length := ascii_length_le s
  refine ⟨?_, down⟩
  show x.toNat + 8 * (ascii s).length ≤ 516
  omega

/-- The names of the exceptions are short enough to stand at 250. -/
theorem short_exception (n : Nat) (color : BitVec 32) :
    Short (.const 250 130 (exceptionMessages.getD n "") color) := by
  have all : ∀ s ∈ exceptionMessages, s.utf8ByteSize ≤ 33 := by decide +kernel
  have one : (exceptionMessages.getD n "").utf8ByteSize ≤ 33 := by
    rw [List.getD_eq_getElem?_getD]
    rcases found : exceptionMessages[n]? with _ | s
    · decide +kernel
    · exact all s (List.mem_of_getElem? found)
  refine short_const ?_ (by decide)
  show 250 + 8 * (exceptionMessages.getD n "").utf8ByteSize ≤ 516
  omega

theorem short_report (f : InterruptFrame) (cr2 : Word) : ∀ t ∈ exceptionReport f cr2, Short t := by
  have hex : ∀ (y color : BitVec 32) (value : Word), y.toNat ≤ 640 →
      Short (.hex 250 y value color) := fun _ _ _ down => short_hex le_rfl down
  rw [exceptionReport]
  simp only [List.forall_mem_append, List.forall_mem_cons]
  refine ⟨⟨⟨by decide +kernel, by decide +kernel, by simp⟩, ?_⟩, ?_⟩
  · -- the vector, by its name or its number
    split
    · rw [List.forall_mem_cons]
      refine ⟨short_exception _ _, ?_⟩
      split
      · simp only [List.forall_mem_cons]
        exact ⟨by decide +kernel, hex 280 _ _ (by decide), by simp⟩
      · simp
    · rw [List.forall_mem_cons]
      exact ⟨hex 130 _ _ (by decide), by simp⟩
  · exact ⟨by decide +kernel, hex 160 _ _ (by decide), by decide +kernel, hex 190 _ _ (by decide),
      by decide +kernel, hex 220 _ _ (by decide), by decide +kernel, hex 250 _ _ (by decide),
      by simp⟩

/-- The pixels of the message at the bottom. -/
theorem selected_within :
    ∀ p ∈ (Message.const 100 660 "NVME: DEFAULT NSID 1 SELECTED" 0x859900).pixels, Within p := by
  decide +kernel

/-- A message is short, or it is the one at the bottom. -/
theorem shown_within (shown : Shown t) (hp : p ∈ t.pixels) : Within p := by
  cases shown with
  | model m size => exact (short_model size).within hp
  | defaultNsid => exact selected_within p hp
  | key ticks key => exact (short_key ticks _).within hp
  | exception f cr2 part => exact (short_report f cr2 t part).within hp
  | _ => exact Short.within (by decide +kernel) hp

/-- A set bit of a character is a pixel of the message. -/
theorem lit_shown (shown : Shown t) (i row bit : Nat) (hi : i < t.str.length)
    (inside : row < 16 ∧ bit < 8)
    (lit : (font8x16 (t.str.getD i 0)).getD row 0 &&& ((0x80 : BitVec 8) >>> bit) ≠ 0) :
    ∃ u, Shown u ∧ ∃ p ∈ u.pixels, p.x.toNat = (t.x.toNat + 8 * i + bit) % 2 ^ 32 ∧
      p.y.toNat = (t.y.toNat + row) % 2 ^ 32 := by
  have pixel : ⟨t.x + BitVec.ofNat 32 (8 * i) + BitVec.ofNat 32 bit, t.y + BitVec.ofNat 32 row,
      t.color⟩ ∈ t.pixels :=
    glyph_mem_text t.str hi (mem_glyph.mpr ⟨row, inside.1, bit, inside.2, lit, rfl⟩)
  refine ⟨t, shown, _, pixel, ?_, ?_⟩
  · simp
  · simp

/-- The outermost pixels belong to messages. -/
theorem outermost_shown : ∀ e ∈ outermost, ∃ t, Shown t ∧
    ∃ p ∈ t.pixels, p.x.toNat = e.1 ∧ p.y.toNat = e.2 := by
  simp only [outermost, List.forall_mem_cons]
  refine ⟨?_, ?_, ?_, ?_, ?_, by simp⟩
  -- the N of "NSID" and the last letter
  · exact lit_shown .defaultNsid 14 11 6 (by decide +kernel) (by decide) (by decide +kernel)
  · exact lit_shown .defaultNsid 28 10 4 (by decide +kernel) (by decide) (by decide +kernel)
  · exact lit_shown .defaultNsid 28 9 5 (by decide +kernel) (by decide) (by decide +kernel)
  · exact lit_shown .defaultNsid 28 8 6 (by decide +kernel) (by decide) (by decide +kernel)
  -- the character is one whose tail reaches into the last row and column
  · exact lit_shown (.model (List.replicate 40 81) rfl) 51 12 7 (by decide +kernel) (by decide)
      (by decide +kernel)

/-! ## The condition -/

/-- The messages inside are those of the list. -/
theorem messagesInside_shown (wide : g.screenWidth.toNat ≤ g.pixelsPerScanline.toNat) :
    MessagesInside g ↔ ∀ t, Shown t → ∀ p ∈ t.pixels, InFrameBuffer g p := by
  constructor
  · intro inside t shown p hp
    obtain ⟨k, k', same, speaks, draws⟩ := shown.spoken g
    exact inside k k' same speaks p (draws.mem hp)
  · intro inside k k' same speaks
    rw [← same] at wide inside ⊢
    refine (speaks.drawn.mono ?_).drop
    intro p drawn
    rcases drawn with ⟨hx, hy⟩ | ⟨t, shown, hp⟩
    · exact inFrameBuffer_of_screen wide hx hy
    · exact inside t shown p hp

/-- Where no index comes round, the outermost pixels decide. -/
theorem shown_inside_iff (small : g.pixelsPerScanline.toNat * 672 ≤ 2 ^ 32) :
    (∀ t, Shown t → ∀ p ∈ t.pixels, InFrameBuffer g p) ↔ ∀ e ∈ outermost,
      e.2 * g.pixelsPerScanline.toNat + e.1 <
        g.pixelsPerScanline.toNat * g.screenHeight.toNat := by
  constructor
  · intro inside e he
    obtain ⟨t, shown, p, hp, hx, hy⟩ := outermost_shown e he
    have stored := inFrameBuffer_iff.mp (inside t shown p hp)
    have corner : ∀ e ∈ outermost, e.1 ≤ 515 ∧ e.2 ≤ 671 := by decide
    obtain ⟨right, down⟩ := corner e he
    have rows := Nat.mul_le_mul_right g.pixelsPerScanline.toNat down
    rw [hx, hy, Nat.mod_eq_of_lt (by omega)] at stored
    exact stored
  · intro room t shown p hp
    obtain ⟨e, he, right, down⟩ := shown_within shown hp
    exact inFrameBuffer_of_le right down (room e he)

/-- From 219 pixels a scanline on, the lowest pixel decides. -/
theorem room_iff_height (small : g.pixelsPerScanline.toNat * 672 ≤ 2 ^ 32)
    (wide : 219 ≤ g.pixelsPerScanline.toNat) :
    RoomForMessages g ↔ 672 ≤ g.screenHeight.toNat := by
  rw [RoomForMessages, if_pos small]
  constructor
  · intro room
    have lowest := room (218, 671) (by decide)
    by_contra low
    have rows : g.pixelsPerScanline.toNat * g.screenHeight.toNat ≤
        g.pixelsPerScanline.toNat * 671 := Nat.mul_le_mul_left _ (by omega)
    omega
  · intro high
    have rows : g.pixelsPerScanline.toNat * 672 ≤
        g.pixelsPerScanline.toNat * g.screenHeight.toNat := Nat.mul_le_mul_left _ high
    simp only [outermost, List.forall_mem_cons]
    refine ⟨?_, ?_, ?_, ?_, ?_, by simp⟩
    all_goals omega

/-- The messages stay in the frame buffer exactly if there is room for them. -/
theorem messages_inside_iff (g : Graphics)
    (wide : g.screenWidth.toNat ≤ g.pixelsPerScanline.toNat) :
    MessagesInside g ↔ RoomForMessages g := by
  rw [messagesInside_shown wide, RoomForMessages]
  split
  · rename_i small
    exact shown_inside_iff small
  · simp only [inFrameBuffer_iff]

/-- A screen of 1024 by 768. -/
theorem messages_inside_1024 : MessagesInside ⟨0x80000000, 1024, 768, 1024, []⟩ :=
  (messages_inside_iff _ (by decide)).mpr
    ((room_iff_height (by decide) (by decide)).mpr (by decide))

/-- On a screen of 800 by 600 the messages at 640 and at 660 are behind the frame buffer. -/
theorem messages_not_inside : ¬ ∀ g : Graphics,
    g.screenWidth.toNat ≤ g.pixelsPerScanline.toNat → MessagesInside g := by
  intro claim
  have inside := claim ⟨0x80000000, 800, 600, 800, []⟩ (by decide)
  rw [messagesInside_shown (by decide), shown_inside_iff (by decide)] at inside
  exact absurd (inside (218, 671) (by decide)) (by decide)

end Coolos.Theorems
