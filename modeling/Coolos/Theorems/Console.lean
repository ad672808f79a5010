import Coolos.Kernel.Syscall
import Coolos.Logic.Graphics

/-!
# The console

`SYSCALL_PRINT` keeps a cursor from one call to the next. After each character the cursor is
where a whole cell fits on the screen, so the cell of the next one does.
-/

namespace Coolos.Theorems

open Lib Graphics

/-- A call of `SYSCALL_PRINT` or `SYSCALL_CLEAR`, with whatever is in memory then. -/
inductive ConsoleCall where
  | print (mem : Mem) (str color : Word)
  | clear (color : Word)

/-- One call. The arguments the two cases do not read are 0. -/
def consoleCall (k : Kernel) : ConsoleCall → Kernel
  | .print mem str color => ({ k with mem := mem }.syscallHandler syscallPrint str color 0 0 0 []).1
  | .clear color => (k.syscallHandler syscallClear color 0 0 0 0 []).1

/-- One call after the other. -/
def consoleRun (k : Kernel) (calls : List ConsoleCall) : Kernel := calls.foldl consoleCall k

/-- The pixel is on a screen of `width` and `height`. -/
def OnScreen (width height : BitVec 32) (p : PixelStore) : Prop :=
  p.x.toNat < width.toNat ∧ p.y.toNat < height.toNat

/-- The cell at the cursor is on the screen. -/
structure CursorInside (k : Kernel) : Prop where
  x : k.console.x.toNat + 8 ≤ k.graphics.screenWidth.toNat
  y : k.console.y.toNat + 16 ≤ k.graphics.screenHeight.toNat

/-- The screen is large enough for one cell at (10, 10). -/
structure Roomy (g : Graphics) : Prop where
  width : 18 ≤ g.screenWidth.toNat
  height : 26 ≤ g.screenHeight.toNat

/-- What each step of a call keeps: it adds pixels of the screen only, and leaves the cursor
inside. -/
structure Prints (k k' : Kernel) : Prop where
  adds : Adds (OnScreen k.graphics.screenWidth k.graphics.screenHeight) k.graphics k'.graphics
  cursor : CursorInside k'

variable {k k' k'' : Kernel}

theorem Prints.trans (h : Prints k k') (h' : Prints k' k'') : Prints k k'' := by
  obtain ⟨added, same, -⟩ := id h.adds
  have adds := h'.adds
  rw [same] at adds
  refine ⟨h.adds.trans ?_, h'.cursor⟩
  rw [same]
  exact adds

/-- The screen stays. -/
theorem Prints.screen (h : Prints k k') : k'.graphics.screenWidth = k.graphics.screenWidth ∧
    k'.graphics.screenHeight = k.graphics.screenHeight := by
  obtain ⟨added, same, -⟩ := h.adds
  rw [same]
  exact ⟨rfl, rfl⟩

theorem Prints.roomy (h : Prints k k') (roomy : Roomy k.graphics) : Roomy k'.graphics := by
  obtain ⟨width, height⟩ := h.screen
  constructor
  · rw [width]
    exact roomy.width
  · rw [height]
    exact roomy.height

/-- A character: the cursor may have left the screen at the bottom, where it is put back. -/
theorem printChar_step (roomy : Roomy k.graphics) (inside : CursorInside k) (c : BitVec 8)
    (color : BitVec 32) :
    Adds (OnScreen k.graphics.screenWidth k.graphics.screenHeight) k.graphics
        (k.printChar c color k.graphics.screenWidth).graphics ∧
      (k.printChar c color k.graphics.screenWidth).console.x.toNat + 8 ≤
        k.graphics.screenWidth.toNat ∧
      (k.printChar c color k.graphics.screenWidth).console.y.toNat ≤
        k.graphics.screenHeight.toNat := by
  obtain ⟨x, y⟩ := inside
  obtain ⟨width, height⟩ := roomy
  have height_lt : k.graphics.screenHeight.toNat < 2 ^ 32 := k.graphics.screenHeight.isLt
  have width_lt : k.graphics.screenWidth.toNat < 2 ^ 32 := k.graphics.screenWidth.isLt
  have down : (k.console.y + 16).toNat = k.console.y.toNat + 16 := by
    rw [BitVec.toNat_add]
    exact Nat.mod_eq_of_lt (by show k.console.y.toNat + 16 < _; omega)
  have right : (k.console.x + 8).toNat = k.console.x.toNat + 8 := by
    rw [BitVec.toNat_add]
    exact Nat.mod_eq_of_lt (by show k.console.x.toNat + 8 < _; omega)
  have margin : (k.graphics.screenWidth - 8).toNat = k.graphics.screenWidth.toNat - 8 :=
    BitVec.toNat_sub_of_le (BitVec.le_def.mpr (by show 8 ≤ _; omega))
  unfold Kernel.printChar
  split
  · -- a newline
    refine ⟨.refl _, width, ?_⟩
    show (k.console.y + 16).toNat ≤ _
    omega
  split
  · -- a carriage return
    exact ⟨.refl _, width, Nat.le_of_add_right_le y⟩
  · have cell : Adds (OnScreen k.graphics.screenWidth k.graphics.screenHeight) k.graphics
        (k.graphics.putChar k.console.x k.console.y c color) := by
      apply putChar_adds
      intro p hp
      have inCell := glyph_cell hp (by omega) (by omega)
      constructor
      · omega
      · omega
    dsimp only
    split
    · -- the row is full
      refine ⟨cell, width, ?_⟩
      show (k.console.y + 16).toNat ≤ _
      omega
    · rename_i more
      rw [BitVec.le_def, margin, right] at more
      refine ⟨cell, ?_, Nat.le_of_add_right_le y⟩
      show (k.console.x + 8).toNat + 8 ≤ _
      omega

/-- With the wrap behind it, a character leaves the cursor inside. -/
theorem printChar_prints (roomy : Roomy k.graphics) (inside : CursorInside k) (c : BitVec 8)
    (color : BitVec 32) : Prints k ((k.printChar c color k.graphics.screenWidth).printWrap
      k.graphics.screenHeight) := by
  obtain ⟨adds, x, y⟩ := printChar_step roomy inside c color
  obtain ⟨added, same, -⟩ := id adds
  generalize k.printChar c color k.graphics.screenWidth = k' at adds x y same
  have screen : k'.graphics.screenWidth = k.graphics.screenWidth ∧
      k'.graphics.screenHeight = k.graphics.screenHeight := by
    rw [same]
    exact ⟨rfl, rfl⟩
  have margin : (k.graphics.screenHeight - 16).toNat = k.graphics.screenHeight.toNat - 16 := by
    have height := roomy.height
    exact BitVec.toNat_sub_of_le (BitVec.le_def.mpr (by show 16 ≤ _; omega))
  unfold Kernel.printWrap
  split
  · refine ⟨adds.trans (clear_adds _ ?_), ?_, ?_⟩
    · intro p hx hy
      rw [screen.1] at hx
      rw [screen.2] at hy
      exact ⟨hx, hy⟩
    · show k'.console.x.toNat + 8 ≤ k'.graphics.screenWidth.toNat
      rw [screen.1]
      exact x
    · show (10 : BitVec 32).toNat + 16 ≤ k'.graphics.screenHeight.toNat
      rw [screen.2]
      exact roomy.height
  · rename_i above
    rw [BitVec.le_def, margin] at above
    refine ⟨adds, ?_, ?_⟩
    · rw [screen.1]
      exact x
    · rw [screen.2]
      omega

/-- The loop over a string. -/
theorem printLoop_prints (color : BitVec 32) (fuel : Nat) : ∀ (k : Kernel) (str : Word),
    Roomy k.graphics → CursorInside k → Prints k (Kernel.printLoop color k.graphics.screenWidth
      k.graphics.screenHeight fuel k str).1 := by
  induction fuel with
  | zero =>
      intro k str _ inside
      exact ⟨.refl _, inside⟩
  | succ fuel ih =>
      intro k str roomy inside
      rw [Kernel.printLoop]
      split
      · exact ⟨.refl _, inside⟩
      · have step := printChar_prints roomy inside (k.mem str) color
        obtain ⟨width, height⟩ := step.screen
        have tail := ih _ (str + 1) (step.roomy roomy) step.cursor
        rw [width, height] at tail
        exact step.trans tail

/-- A roomy screen has no dimension of 0, for which the source has a fallback. -/
theorem printCase_eq (roomy : Roomy k.graphics) (str color : Word) : k.printCase str color =
    Kernel.printLoop (color.truncate 32) k.graphics.screenWidth k.graphics.screenHeight (2 ^ 64) k
      str := by
  have wide : k.graphics.screenWidth ≠ 0 := by
    intro zero
    have width := roomy.width
    rw [zero] at width
    exact absurd width (by decide)
  have high : k.graphics.screenHeight ≠ 0 := by
    intro zero
    have height := roomy.height
    rw [zero] at height
    exact absurd height (by decide)
  rw [Kernel.printCase, getDimensions]
  simp only [if_neg wide, if_neg high]

/-- The two cases of the switch. -/
theorem consoleCall_print (mem : Mem) (str color : Word) :
    consoleCall k (.print mem str color) = ({ k with mem := mem }.printCase str color).1 := by
  rw [consoleCall, Kernel.syscallHandler, if_neg (by decide), if_pos rfl]

theorem consoleCall_clear (color : Word) :
    consoleCall k (.clear color) = (k.clearCase color).1 := by
  rw [consoleCall, Kernel.syscallHandler, if_pos rfl]

/-- A call. -/
theorem consoleCall_prints (roomy : Roomy k.graphics) (inside : CursorInside k)
    (call : ConsoleCall) : Prints k (consoleCall k call) := by
  cases call with
  | print mem str color =>
      let before : Kernel := { k with mem := mem }
      have loop := printLoop_prints (color.truncate 32) (2 ^ 64) before str roomy
        ⟨inside.x, inside.y⟩
      have roomy : Roomy before.graphics := roomy
      rw [← printCase_eq roomy] at loop
      rw [consoleCall_print]
      exact ⟨loop.adds, loop.cursor⟩
  | clear color =>
      rw [consoleCall_clear]
      refine ⟨clear_adds _ fun p hx hy => ⟨hx, hy⟩, ?_, ?_⟩
      · exact roomy.width
      · exact roomy.height

/-- All calls. -/
theorem consoleRun_prints (calls : List ConsoleCall) : ∀ k : Kernel,
    Roomy k.graphics → CursorInside k → Prints k (consoleRun k calls) := by
  induction calls with
  | nil =>
      intro k _ inside
      exact ⟨.refl _, inside⟩
  | cons call calls ih =>
      intro k roomy inside
      have step := consoleCall_prints roomy inside call
      exact step.trans (ih _ (step.roomy roomy) step.cursor)

/-- On a screen of at least 18 by 26 pixels, whatever is printed and cleared from the start on
stays on the screen. -/
theorem console_on_screen (k : Kernel) (start : k.console = ⟨10, 10⟩)
    (wide : 18 ≤ k.graphics.screenWidth.toNat) (high : 26 ≤ k.graphics.screenHeight.toNat)
    (calls : List ConsoleCall) :
    ∀ p ∈ (consoleRun k calls).graphics.stores.drop k.graphics.stores.length,
      OnScreen k.graphics.screenWidth k.graphics.screenHeight p := by
  have inside : CursorInside k := by
    constructor
    · rw [start]
      exact wide
    · rw [start]
      exact high
  exact (consoleRun_prints calls k ⟨wide, high⟩ inside).adds.drop

/-- The smallest such screen. -/
def smallestScreen : Kernel :=
  { Kernel.statics with graphics := Kernel.statics.graphics.init 0x80000000 18 26 18 }

/-- A string longer than a row of it: no pixel is off the screen. -/
theorem console_on_screen_smallest : ¬ ∃ p ∈ (consoleRun smallestScreen
      [.print (fun a => if a.toNat < 4 then 65 else 0) 0 0xFFFFFF, .clear 0]).graphics.stores.drop
        smallestScreen.graphics.stores.length, ¬ OnScreen 18 26 p := by
  intro off
  obtain ⟨p, hp, off⟩ := off
  exact off (console_on_screen smallestScreen rfl (by decide) (by decide) _ p hp)

end Coolos.Theorems
