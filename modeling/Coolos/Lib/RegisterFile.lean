import Mathlib.Logic.Function.Basic
import Mathlib.Data.List.Basic

/-!
# Registers behind a window

A device with more registers than addresses has a select register, which takes the number of a
register, and a window, through which that register is written. A driver that selects before
each write leaves in every register what it has last written there.
-/

namespace Lib

variable {ι α : Type} [DecidableEq ι]

structure RegisterFile (ι α : Type) where
  select : ι
  regs : ι → α

/-- A store to one of the two addresses. -/
inductive RegisterStore (ι α : Type) where
  | select (i : ι)
  | window (v : α)

namespace RegisterFile

def step (f : RegisterFile ι α) : RegisterStore ι α → RegisterFile ι α
  | .select i => { f with select := i }
  | .window v => { f with regs := Function.update f.regs f.select v }

/-- Select, then write. -/
def write (f : RegisterFile ι α) (a : ι × α) : RegisterFile ι α :=
  (f.step (.select a.1)).step (.window a.2)

theorem regs_write (f : RegisterFile ι α) (i : ι) (v : α) :
    (f.write (i, v)).regs = Function.update f.regs i v := rfl

/-- Registers that are not written stay as they are. -/
theorem regs_writes_of_not_mem {i : ι} (writes : List (ι × α))
    (others : ∀ a ∈ writes, a.1 ≠ i) : ∀ f : RegisterFile ι α,
      (writes.foldl write f).regs i = f.regs i := by
  induction writes with
  | nil => intro f; rfl
  | cons a writes ih =>
      intro f
      obtain ⟨first, rest⟩ := List.forall_mem_cons.mp others
      rw [List.foldl_cons, ih rest, regs_write, Function.update_of_ne first.symm]

/-- The last write is found. -/
theorem regs_last_write (before after : List (ι × α)) {i : ι} (v : α)
    (last : ∀ a ∈ after, a.1 ≠ i) (f : RegisterFile ι α) :
    ((before ++ (i, v) :: after).foldl write f).regs i = v := by
  rw [List.foldl_append, List.foldl_cons, regs_writes_of_not_mem after last, regs_write,
    Function.update_self]

end RegisterFile

end Lib
