import Coolos.Kernel.Gdt
import Coolos.Kernel.Idt
import Coolos.Kernel.UserMode

/-!
# Descriptors and selectors

`GDT_SetEntry` takes a base and a limit apart, the processor puts them together again. After
any calls the table holds, at each place, what the last call for it was given. With the table
that `GDT_Init` sets up every selector the kernel loads names a segment of its privilege.
-/

namespace Coolos.Theorems

open Lib Lib.X86

/-! ## One entry -/

section Append

variable {n m : Nat} {a : BitVec n} {b : BitVec m} {start len : Nat}

theorem extract_low (h : start + len ≤ m) :
    (a ++ b).extractLsb' start len = b.extractLsb' start len := by
  apply BitVec.eq_of_getLsbD_eq
  intro i hi
  simp only [BitVec.getLsbD_extractLsb', BitVec.getLsbD_append]
  rw [if_pos (by omega)]

theorem extract_high (start : Nat) :
    (a ++ b).extractLsb' (m + start) len = a.extractLsb' start len := by
  apply BitVec.eq_of_getLsbD_eq
  intro i hi
  simp only [BitVec.getLsbD_extractLsb', BitVec.getLsbD_append]
  rw [if_neg (by omega), Nat.add_assoc, Nat.add_sub_cancel_left]

end Append

/-- The fields are where the processor looks for them. -/
theorem word_fields (e : GDTEntry) :
    e.word.extractLsb' 0 16 = e.limitLow ∧ e.word.extractLsb' 16 16 = e.baseLow ∧
      e.word.extractLsb' 32 8 = e.baseMiddle ∧ e.word.extractLsb' 40 8 = e.access ∧
      (∀ start len, e.word.extractLsb' (48 + start) len =
        (e.baseHigh ++ e.granularity).extractLsb' start len) := by
  have high (start len : Nat) : e.word.extractLsb' (48 + start) len =
      (e.baseHigh ++ e.granularity).extractLsb' start len := by
    apply BitVec.eq_of_getLsbD_eq
    intro i hi
    simp only [GDTEntry.word, BitVec.getLsbD_extractLsb', BitVec.getLsbD_append]
    grind
  refine ⟨?_, ?_, ?_, ?_, high⟩
  · rw [GDTEntry.word, extract_low (by decide), extract_low (by decide), extract_low (by decide),
      extract_low (by decide), extract_low (by decide), BitVec.extractLsb'_eq_self]
  · rw [GDTEntry.word, extract_low (by decide), extract_low (by decide), extract_low (by decide),
      extract_low (by decide)]
    exact (extract_high 0).trans BitVec.extractLsb'_eq_self
  · rw [GDTEntry.word, extract_low (by decide), extract_low (by decide), extract_low (by decide)]
    exact (extract_high 0).trans BitVec.extractLsb'_eq_self
  · rw [GDTEntry.word, extract_low (by decide), extract_low (by decide)]
    exact (extract_high 0).trans BitVec.extractLsb'_eq_self

theorem truncate_and_mask {w n : Nat} (x : BitVec w) {mask : BitVec w}
    (ones : mask.truncate n = BitVec.allOnes n) : (x &&& mask).truncate n = x.truncate n := by
  have both : (x &&& mask).truncate n = x.truncate n &&& mask.truncate n := BitVec.setWidth_and
  rw [both, ones, BitVec.and_allOnes]

/-- The three parts of a base. -/
theorem base_parts (base : BitVec 32) :
    (base >>> 24).truncate 8 ++ ((base >>> 16).truncate 8 ++ base.truncate 16) = base := by
  apply BitVec.eq_of_getLsbD_eq
  intro i hi
  simp only [BitVec.getLsbD_append, BitVec.truncate_eq_setWidth, BitVec.getLsbD_setWidth,
    BitVec.getLsbD_ushiftRight]
  grind

/-- The two halves of `granularity`: the top of the limit, and the flags. -/
theorem granularity_halves (limit : BitVec 32) (gran : BitVec 8) :
    let g : BitVec 8 := ((limit >>> 16) &&& 0x0F).truncate 8 ||| (gran &&& 0xF0)
    g.extractLsb' 0 4 ++ limit.truncate 16 = limit.truncate 20 ∧
      g.extractLsb' 4 4 = gran.extractLsb' 4 4 := by
  constructor
  · have low : (0xF0 : BitVec 8).extractLsb' 0 4 = 0 := by decide
    have ones : (0x0F : BitVec 32).extractLsb' 0 4 = BitVec.allOnes 4 := by decide
    rw [BitVec.extractLsb'_or, BitVec.extractLsb'_and, low, BitVec.truncate_eq_setWidth,
      BitVec.extractLsb'_setWidth_of_le (by decide), BitVec.extractLsb'_and, ones,
      BitVec.and_allOnes]
    apply BitVec.eq_of_getLsbD_eq
    intro i hi
    simp only [BitVec.getLsbD_append, BitVec.truncate_eq_setWidth, BitVec.getLsbD_setWidth,
      BitVec.getLsbD_or, BitVec.getLsbD_extractLsb', BitVec.getLsbD_ushiftRight, BitVec.getLsbD_and]
    grind
  · have ones : (0xF0 : BitVec 8).extractLsb' 4 4 = BitVec.allOnes 4 := by decide
    have high : (0x0F : BitVec 32).extractLsb' 4 4 = 0 := by decide
    rw [BitVec.extractLsb'_or, BitVec.extractLsb'_and, ones, BitVec.and_allOnes,
      BitVec.truncate_eq_setWidth, BitVec.extractLsb'_setWidth_of_le (by decide),
      BitVec.extractLsb'_and, high, show (0 : BitVec 4) = 0#4 from rfl, BitVec.and_zero]
    exact BitVec.zero_or

/-- What `GDT_SetEntry` packs, the processor unpacks. Of the limit 20 bits are kept. -/
theorem ofEntry_setEntry (gdt : Gdt) (i : Nat) (base limit : BitVec 32) (access gran : BitVec 8) :
    Segment.ofEntry ((gdt.setEntry i base limit access gran).table i) =
      ⟨base.zeroExtend 64, limit.truncate 20, access, gran.extractLsb' 4 4⟩ := by
  obtain ⟨e, he⟩ : ∃ e, e = gdt.setEntry i base limit access gran i := ⟨_, rfl⟩
  rw [Gdt.setEntry, Function.update_self] at he
  obtain ⟨limitLow, baseLow, baseMiddle, access', high⟩ := word_fields e
  have table : (gdt.setEntry i base limit access gran).table i = e.word := by
    rw [Gdt.table, Gdt.setEntry, Function.update_self, he]
  have baseHigh : e.word.extractLsb' 56 8 = e.baseHigh :=
    (high 8 8).trans ((extract_high 0).trans BitVec.extractLsb'_eq_self)
  rw [table, Segment.ofEntry, limitLow, baseLow, baseMiddle, access', baseHigh, high 0 4, high 4 4,
    extract_low (by decide), extract_low (by decide), he]
  obtain ⟨limit', flags⟩ := granularity_halves limit gran
  dsimp only
  rw [truncate_and_mask base (n := 16) (by decide), truncate_and_mask (base >>> 16) (by decide),
    truncate_and_mask (base >>> 24) (by decide), truncate_and_mask limit (by decide), base_parts,
    limit', flags]

/-- Bytes seen as an entry are the same bytes. -/
theorem word_ofWord (w : Word) : (GDTEntry.ofWord w).word = w := by
  have glue (start len len' : Nat) : w.extractLsb' (start + len') len ++ w.extractLsb' start len' =
      w.extractLsb' start (len + len') :=
    BitVec.extractLsb'_append_extractLsb'_eq_extractLsb' rfl
  rw [GDTEntry.word, GDTEntry.ofWord]
  dsimp only
  rw [glue 0 16 16, glue 0 8 (16 + 16), glue 0 8 (8 + (16 + 16)), glue 0 8 (8 + (8 + (16 + 16))),
    glue 0 8 (8 + (8 + (8 + (16 + 16))))]
  exact BitVec.extractLsb'_eq_self

/-- `GDT_SetSystemEntry` keeps all of the base. -/
theorem ofEntries_setSystemEntry (gdt : Gdt) (i : Nat) (base : Word) (limit : BitVec 32)
    (access gran : BitVec 8) :
    let gdt' := gdt.setSystemEntry i base limit access gran
    Segment.ofEntries (gdt'.table i) (gdt'.table (i + 1)) =
      ⟨base, limit.truncate 20, access, gran.extractLsb' 4 4⟩ := by
  intro gdt'
  have low : gdt'.table i = (gdt.setEntry i (base.truncate 32) limit access gran).table i := by
    rw [Gdt.table, Gdt.table]
    exact congrArg GDTEntry.word (Function.update_of_ne (Nat.ne_of_lt (Nat.lt_succ_self i)) ..)
  have high : gdt'.table (i + 1) = (0 : BitVec 32) ++ (base >>> 32).truncate 32 :=
    (congrArg GDTEntry.word (Function.update_self ..)).trans (word_ofWord _)
  have halves : (base >>> 32).truncate 32 ++ base.truncate 32 = base := by
    apply BitVec.eq_of_getLsbD_eq
    intro j hj
    simp only [BitVec.getLsbD_append, BitVec.truncate_eq_setWidth, BitVec.getLsbD_setWidth,
      BitVec.getLsbD_ushiftRight]
    grind
  have lower : ((base.truncate 32).zeroExtend 64).extractLsb' 0 32 = base.truncate 32 := by
    rw [BitVec.zeroExtend_eq_setWidth, BitVec.extractLsb'_setWidth_of_le (by decide),
      BitVec.extractLsb'_eq_self]
  rw [low, high, Segment.ofEntries, ofEntry_setEntry]
  dsimp only
  rw [extract_low (by decide), BitVec.extractLsb'_eq_self, lower, halves]

/-! ## Any calls -/

/-- A call of `GDT_SetEntry` or `GDT_SetSystemEntry`. -/
inductive GdtCall where
  | entry (index : Nat) (base limit : BitVec 32) (access gran : BitVec 8)
  | system (index : Nat) (base : Word) (limit : BitVec 32) (access gran : BitVec 8)

namespace GdtCall

def run (gdt : Gdt) : GdtCall → Gdt
  | entry index base limit access gran => gdt.setEntry index base limit access gran
  | system index base limit access gran => gdt.setSystemEntry index base limit access gran

/-- The places of the table a call is for. -/
def Places : GdtCall → Nat → Prop
  | entry index _ _ _ _, i => i = index
  | system index _ _ _ _, i => i = index ∨ i = index + 1

/-- The segment that was asked for. -/
def segment : GdtCall → Segment
  | entry _ base limit access gran =>
      ⟨base.zeroExtend 64, limit.truncate 20, access, gran.extractLsb' 4 4⟩
  | system _ base limit access gran => ⟨base, limit.truncate 20, access, gran.extractLsb' 4 4⟩

/-- What the processor finds where the call was for. -/
def found (gdt : Gdt) : GdtCall → Segment
  | entry index _ _ _ _ => .ofEntry (gdt.table index)
  | system index _ _ _ _ => .ofEntries (gdt.table index) (gdt.table (index + 1))

/-- A call finds what it has asked for. -/
theorem found_run (gdt : Gdt) (c : GdtCall) : c.found (c.run gdt) = c.segment := by
  cases c with
  | entry index base limit access gran => exact ofEntry_setEntry gdt index base limit access gran
  | system index base limit access gran =>
      exact ofEntries_setSystemEntry gdt index base limit access gran

/-- A call changes its own places only. -/
theorem run_of_not_places {gdt : Gdt} {d : GdtCall} {i : Nat} (other : ¬ d.Places i) :
    d.run gdt i = gdt i := by
  cases d with
  | entry index base limit access gran => exact Function.update_of_ne other ..
  | system index base limit access gran =>
      obtain ⟨first, second⟩ := not_or.mp other
      exact (Function.update_of_ne second ..).trans (Function.update_of_ne first ..)

theorem found_congr {gdt gdt' : Gdt} {c : GdtCall} (same : ∀ i, c.Places i → gdt' i = gdt i) :
    c.found gdt' = c.found gdt := by
  cases c with
  | entry index base limit access gran =>
      rw [found, found, Gdt.table, Gdt.table, same index rfl]
  | system index base limit access gran =>
      rw [found, found, Gdt.table, Gdt.table, Gdt.table, Gdt.table, same index (.inl rfl),
        same (index + 1) (.inr rfl)]

end GdtCall

/-- Calls for other places leave what is found. -/
theorem GdtCall.found_after {c : GdtCall} {after : List GdtCall}
    (others : ∀ d ∈ after, ∀ i, c.Places i → ¬ d.Places i) : ∀ gdt,
      c.found (after.foldl GdtCall.run gdt) = c.found gdt := by
  induction after with
  | nil => intro gdt; rfl
  | cons d after ih =>
      intro gdt
      obtain ⟨first, rest⟩ := List.forall_mem_cons.mp others
      rw [List.foldl_cons, ih rest]
      exact found_congr fun i hi => run_of_not_places (first i hi)

/-- After any calls, the last one for its places is what the processor finds there. -/
theorem gdt_round_trip (gdt : Gdt) (before after : List GdtCall) (c : GdtCall)
    (last : ∀ d ∈ after, ∀ i, c.Places i → ¬ d.Places i) :
    c.found ((before ++ c :: after).foldl GdtCall.run gdt) = c.segment := by
  rw [List.foldl_append, List.foldl_cons, GdtCall.found_after last, GdtCall.found_run]

/-- The table as it is loaded. -/
def emptyGdt : Gdt := fun _ => ⟨0, 0, 0, 0, 0, 0⟩

/-- A TSS above 4 GB is found with all of its base, whatever is set at another place. -/
theorem gdt_round_trip_tss :
    (GdtCall.system 5 0x180000000 103 0x89 0).found
      ([.system 5 0x1000 103 0x89 0, .system 5 0x180000000 103 0x89 0,
        .entry 4 0 0xFFFFFFFF 0xFA 0xAF].foldl GdtCall.run emptyGdt) =
      ⟨0x180000000, 103, 0x89, 0⟩ := by
  apply gdt_round_trip emptyGdt [.system 5 0x1000 103 0x89 0] [.entry 4 0 0xFFFFFFFF 0xFA 0xAF]
    (.system 5 0x180000000 103 0x89 0)
  intro d hd i here there
  obtain rfl := List.mem_singleton.mp hd
  obtain rfl : i = 4 := there
  rcases here with five | six
  · cases five
  · cases six

/-! ## `GDT_Init` -/

section Init

variable (gdt : Gdt) (tssAddr : Word)

theorem init_entries : (gdt.init tssAddr).1.table 1 = 0x00AF9A000000FFFF ∧
    (gdt.init tssAddr).1.table 2 = 0x00CF92000000FFFF ∧
    (gdt.init tssAddr).1.table 3 = 0x00CFF2000000FFFF ∧
    (gdt.init tssAddr).1.table 4 = 0x00AFFA000000FFFF := by
  refine ⟨?_, ?_, ?_, ?_⟩ <;>
    simp [Gdt.init, Gdt.setSystemEntry, Gdt.setEntry, Gdt.table, Function.update] <;> rfl

/-- The kernel's code and stack. -/
theorem init_kernel : Selected (gdt.init tssAddr).1.table (kernelCodeSel.truncate 16)
    (kernelDataSel.truncate 16) 0 := by
  obtain ⟨code, data, -⟩ := init_entries gdt tssAddr
  refine ⟨⟨rfl, rfl⟩, ⟨rfl, rfl⟩, ?_, ?_⟩
  · rw [show selectorIndex (kernelCodeSel.truncate 16) = 1 from rfl, code]
    decide
  · rw [show selectorIndex (kernelDataSel.truncate 16) = 2 from rfl, data]
    decide

/-- Those of the user. -/
theorem init_user : Selected (gdt.init tssAddr).1.table (userCodeSel.truncate 16)
    (userDataSel.truncate 16) 3 := by
  obtain ⟨-, -, data, code⟩ := init_entries gdt tssAddr
  refine ⟨⟨rfl, rfl⟩, ⟨rfl, rfl⟩, ?_, ?_⟩
  · rw [show selectorIndex (userCodeSel.truncate 16) = 4 from rfl, code]
    decide
  · rw [show selectorIndex (userDataSel.truncate 16) = 3 from rfl, data]
    decide

/-- The segment `LTR` loads is the TSS, to its last byte. -/
theorem init_tss : selectorIndex tssSel = 5 ∧
    Segment.ofEntries ((gdt.init tssAddr).1.table 5) ((gdt.init tssAddr).1.table 6) =
      ⟨tssAddr, 103, 0x89, 0⟩ :=
  ⟨rfl, ofEntries_setSystemEntry _ 5 tssAddr 103 0x89 0⟩

end Init

end Coolos.Theorems
