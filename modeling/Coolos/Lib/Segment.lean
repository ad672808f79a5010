import Mathlib.Logic.Function.Basic
import Coolos.Lib.Memory

/-!
# Segment descriptors

What the processor makes of the entries of a descriptor table. An entry is eight bytes, here a
word; the descriptor of a system segment continues in the next one with the upper half of its
base. A selector names an entry in its upper bits and a privilege in the two lowest.
-/

namespace Lib.X86

/-- A descriptor taken apart. -/
structure Segment where
  base : Word
  limit : BitVec 20
  /-- Present, DPL, the S bit and the type. -/
  access : BitVec 8
  /-- Granularity, default size, long mode, and the bit left to the system. -/
  flags : BitVec 4
  deriving DecidableEq

namespace Segment

def present (s : Segment) : Bool := s.access.getLsbD 7
def dpl (s : Segment) : BitVec 2 := s.access.extractLsb' 5 2
/-- Code or data, no system segment. -/
def ordinary (s : Segment) : Bool := s.access.getLsbD 4
def executable (s : Segment) : Bool := s.access.getLsbD 3
/-- Of a data segment. -/
def writable (s : Segment) : Bool := s.access.getLsbD 1
/-- Code of 64 bits. -/
def long (s : Segment) : Bool := s.flags.getLsbD 1

/-- The entry of a code or data segment. -/
def ofEntry (w : Word) : Segment where
  base := (w.extractLsb' 56 8 ++ (w.extractLsb' 32 8 ++ w.extractLsb' 16 16)).zeroExtend 64
  limit := w.extractLsb' 48 4 ++ w.extractLsb' 0 16
  access := w.extractLsb' 40 8
  flags := w.extractLsb' 52 4

/-- The two entries of a system segment. -/
def ofEntries (w high : Word) : Segment :=
  { ofEntry w with base := high.extractLsb' 0 32 ++ (ofEntry w).base.extractLsb' 0 32 }

/-- The segment can be loaded into CS for code at privilege `p`. -/
def IsCode (s : Segment) (p : BitVec 2) : Prop :=
  s.present = true ∧ s.ordinary = true ∧ s.executable = true ∧ s.long = true ∧ s.dpl = p

/-- The segment can be loaded into SS at privilege `p`. -/
def IsStack (s : Segment) (p : BitVec 2) : Prop :=
  s.present = true ∧ s.ordinary = true ∧ s.executable = false ∧ s.writable = true ∧ s.dpl = p

/-- A task state segment that is not busy. -/
def IsTss (s : Segment) : Prop :=
  s.present = true ∧ s.ordinary = false ∧ s.access.extractLsb' 0 4 = 9

instance (s : Segment) (p : BitVec 2) : Decidable (s.IsCode p) :=
  inferInstanceAs (Decidable (_ ∧ _))
instance (s : Segment) (p : BitVec 2) : Decidable (s.IsStack p) :=
  inferInstanceAs (Decidable (_ ∧ _))
instance (s : Segment) : Decidable s.IsTss := inferInstanceAs (Decidable (_ ∧ _))

end Segment

/-! ## Selectors -/

/-- The entry a selector names. -/
def selectorIndex (sel : BitVec 16) : Nat := (sel.extractLsb' 3 13).toNat

/-- The privilege a selector asks for. -/
def selectorRpl (sel : BitVec 16) : BitVec 2 := sel.extractLsb' 0 2

/-- The selector is one of the table itself, not of a local one. -/
def selectorGlobal (sel : BitVec 16) : Prop := sel.getLsbD 2 = false

/-- CS and SS name code and a stack of the table, both at the privilege they ask for. -/
structure Selected (table : Nat → Word) (cs ss : BitVec 16) (p : BitVec 2) : Prop where
  global : selectorGlobal cs ∧ selectorGlobal ss
  rpl : selectorRpl cs = p ∧ selectorRpl ss = p
  code : (Segment.ofEntry (table (selectorIndex cs))).IsCode p
  stack : (Segment.ofEntry (table (selectorIndex ss))).IsStack p

end Lib.X86
