import Coolos.Kernel.Graphics

/-!
# What is drawn

Drawing adds pixels to those stored before. A character stays in its cell, a text in the row
of cells from where it begins, and clearing stays on the screen.
-/

namespace Coolos.Graphics

open Lib

/-- Pixels are added, all of them with `P`. -/
def Adds (P : PixelStore → Prop) (g g' : Graphics) : Prop :=
  ∃ added, g' = { g with stores := g.stores ++ added } ∧ ∀ p ∈ added, P p

variable {P Q : PixelStore → Prop} {g g' g'' : Graphics}

theorem Adds.refl (g : Graphics) : Adds P g g := by
  refine ⟨[], ?_, ?_⟩
  · rw [List.append_nil]
  · intro p hp
    cases hp

theorem Adds.trans (h : Adds P g g') (h' : Adds P g' g'') : Adds P g g'' := by
  obtain ⟨added, rfl, all⟩ := h
  obtain ⟨added', rfl, all'⟩ := h'
  refine ⟨added ++ added', ?_, ?_⟩
  · simp only [List.append_assoc]
  · intro p hp
    rcases List.mem_append.mp hp with before | after
    · exact all p before
    · exact all' p after

theorem Adds.mono (h : Adds P g g') (weaker : ∀ p, P p → Q p) : Adds Q g g' := by
  obtain ⟨added, same, all⟩ := h
  exact ⟨added, same, fun p hp => weaker p (all p hp)⟩

/-- What was added is behind what was stored before. -/
theorem Adds.drop (h : Adds P g g') : ∀ p ∈ g'.stores.drop g.stores.length, P p := by
  obtain ⟨added, rfl, all⟩ := h
  intro p hp
  simp only [List.drop_left] at hp
  exact all p hp

/-! ## Characters and texts -/

/-- A constant has at most as many characters as bytes. -/
theorem ascii_length_le (s : String) : (ascii s).length ≤ s.utf8ByteSize := by
  rw [ascii, List.length_map]
  induction s using String.push_induction with
  | empty => simp
  | push s c ih =>
      have size : 0 < c.utf8Size := c.utf8Size_pos
      rw [String.toList_push, List.length_append, List.length_singleton, String.utf8ByteSize_push]
      omega

/-- The pixels of `Graphics_Print`. -/
def text (x y : BitVec 32) : List (BitVec 8) → BitVec 32 → List PixelStore
  | [], _ => []
  | c :: str, color => glyph x y c color ++ text (x + 8) y str color

theorem putChar_adds {x y color : BitVec 32} {c : BitVec 8} (all : ∀ p ∈ glyph x y c color, P p) :
    Adds P g (g.putChar x y c color) :=
  ⟨_, rfl, all⟩

theorem print_eq (y : BitVec 32) (str : List (BitVec 8)) (color : BitVec 32) : ∀ (g : Graphics) x,
    g.print x y str color = { g with stores := g.stores ++ text x y str color } := by
  induction str with
  | nil =>
      intro g x
      rw [print, text, List.append_nil]
  | cons c str ih =>
      intro g x
      rw [print, ih, text, putChar, ← List.append_assoc]

theorem print_adds {x y color : BitVec 32} {str : List (BitVec 8)}
    (all : ∀ p ∈ text x y str color, P p) : Adds P g (g.print x y str color) :=
  ⟨_, print_eq y str color g x, all⟩

/-- A pixel of a character belongs to a bit of the font. -/
theorem mem_glyph {x y color : BitVec 32} {c : BitVec 8} {p : PixelStore} :
    p ∈ glyph x y c color ↔ ∃ dy < 16, ∃ dx < 8,
      (font8x16 c).getD dy 0 &&& ((0x80 : BitVec 8) >>> dx) ≠ 0 ∧
        p = ⟨x + BitVec.ofNat 32 dx, y + BitVec.ofNat 32 dy, color⟩ := by
  simp only [glyph, List.mem_flatMap, List.mem_filterMap, List.mem_range]
  constructor
  · intro h
    obtain ⟨dy, hdy, dx, hdx, hp⟩ := h
    split at hp
    · rename_i set
      exact ⟨dy, hdy, dx, hdx, set, (Option.some.inj hp).symm⟩
    · cases hp
  · intro h
    obtain ⟨dy, hdy, dx, hdx, set, rfl⟩ := h
    exact ⟨dy, hdy, dx, hdx, if_pos set⟩

/-- The pixels of each character are among those of the text. -/
theorem glyph_mem_text {y color : BitVec 32} {p : PixelStore} (str : List (BitVec 8)) :
    ∀ {x : BitVec 32} {i : Nat}, i < str.length →
      p ∈ glyph (x + BitVec.ofNat 32 (8 * i)) y (str.getD i 0) color → p ∈ text x y str color := by
  induction str with
  | nil =>
      intro x i hi
      cases hi
  | cons c str ih =>
      intro x i hi hp
      cases i with
      | zero =>
          rw [Nat.mul_zero, BitVec.add_zero] at hp
          exact List.mem_append_left _ hp
      | succ i =>
          have shifted : x + BitVec.ofNat 32 (8 * (i + 1)) = x + 8 + BitVec.ofNat 32 (8 * i) := by
            rw [Nat.mul_succ, Nat.add_comm, BitVec.ofNat_add, ← BitVec.add_assoc]
            rfl
          rw [shifted] at hp
          exact List.mem_append_right _ (ih (Nat.lt_of_succ_lt_succ hi) hp)

/-- The last three rows of every character are blank. -/
theorem font_blank (c : BitVec 8) : (font8x16 c).drop 13 = [0, 0, 0] := by
  unfold font8x16
  split <;> rfl

theorem row_of_set {c : BitVec 8} {dy dx : Nat}
    (set : (font8x16 c).getD dy 0 &&& ((0x80 : BitVec 8) >>> dx) ≠ 0) : dy < 13 := by
  by_contra low
  have blank : (font8x16 c).getD dy 0 = 0 := by
    have behind : (font8x16 c).getD dy 0 = ((font8x16 c).drop 13).getD (dy - 13) 0 := by
      rw [List.getD_eq_getElem?_getD, List.getD_eq_getElem?_getD, List.getElem?_drop,
        Nat.add_sub_cancel' (Nat.not_lt.mp low)]
    rw [behind, font_blank]
    rcases dy - 13 with _ | _ | _ | _ <;> rfl
  rw [blank] at set
  exact set BitVec.zero_and

/-- A character stays in its cell. -/
theorem glyph_cell {x y color : BitVec 32} {c : BitVec 8} {p : PixelStore}
    (hp : p ∈ glyph x y c color) (hx : x.toNat + 8 ≤ 2 ^ 32) (hy : y.toNat + 16 ≤ 2 ^ 32) :
    p.x.toNat < x.toNat + 8 ∧ p.y.toNat < y.toNat + 13 := by
  obtain ⟨dy, hdy, dx, hdx, set, rfl⟩ := mem_glyph.mp hp
  have row := row_of_set set
  simp only [BitVec.toNat_add, BitVec.toNat_ofNat]
  omega

/-- A text stays in its row of cells. -/
theorem text_cells {y color : BitVec 32} {p : PixelStore} (hy : y.toNat + 16 ≤ 2 ^ 32)
    (str : List (BitVec 8)) : ∀ x : BitVec 32, x.toNat + 8 * str.length < 2 ^ 32 →
      p ∈ text x y str color → p.x.toNat < x.toNat + 8 * str.length ∧ p.y.toNat < y.toNat + 13 := by
  induction str with
  | nil =>
      intro x _ hp
      cases hp
  | cons c str ih =>
      intro x hx hp
      rw [List.length_cons] at hx ⊢
      have next : (x + 8).toNat = x.toNat + 8 := by
        rw [BitVec.toNat_add]
        exact Nat.mod_eq_of_lt (by show x.toNat + 8 < _; omega)
      rcases List.mem_append.mp hp with here | later
      · have cell := glyph_cell here (by omega) hy
        omega
      · have tail := ih (x + 8) (by omega) later
        omega

/-- Clearing stays on the screen. -/
theorem clear_adds (color : BitVec 32) (all : ∀ p : PixelStore,
      p.x.toNat < g.screenWidth.toNat → p.y.toNat < g.screenHeight.toNat → P p) :
    Adds P g (g.clear color) := by
  refine ⟨_, rfl, ?_⟩
  intro p hp
  simp only [List.mem_flatMap, List.mem_map, List.mem_range] at hp
  obtain ⟨y, hy, x, hx, rfl⟩ := hp
  have width : g.screenWidth.toNat < 2 ^ 32 := g.screenWidth.isLt
  have height : g.screenHeight.toNat < 2 ^ 32 := g.screenHeight.isLt
  apply all
  · rw [BitVec.toNat_ofNat, Nat.mod_eq_of_lt (by omega)]
    exact hx
  · rw [BitVec.toNat_ofNat, Nat.mod_eq_of_lt (by omega)]
    exact hy

end Coolos.Graphics
