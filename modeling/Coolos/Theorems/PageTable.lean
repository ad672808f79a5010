import Coolos.Logic.PageTableRun

/-!
# Page tables refine a finite map

Whatever is mapped and unmapped, and whatever others do with their own pages,
the processor translates an address to what its page was last mapped to.
-/

namespace Coolos.Theorems

open Lib Lib.Paging

/-- The translation a mapping asks for. -/
def translation (mapping : Word × Word) : Translation where
  frame := mapping.1
  writable := mapping.2 &&& pageWritable ≠ 0
  user := mapping.2 &&& pageUser ≠ 0

/-- The walk gives for every address what the map says of its page, and a step
that is not about a page leaves its translation as it was. -/
structure RefinesMap (s : PageTableRun) : Prop where
  translates : ∀ v : Word, v.toNat < 2 ^ 48 →
    walk s.kernel.mem v 3 s.pml4 = (s.mapped (page v)).map translation
  apart : ∀ op s', PageTableRun.sys.next s op s' → ∀ v : Word, v.toNat < 2 ^ 48 →
    op.target ≠ some (page v) → walk s'.kernel.mem v 3 s'.pml4 = walk s.kernel.mem v 3 s.pml4

/-- The processor reads a leaf entry as the mapping it was made for. -/
theorem decode_leafEntry {p f : Word} (aligned : p.toNat % 4096 = 0) (small : p.toNat < 2 ^ 52)
    (flags : MapFlags f) : decode (leafEntry (some (p, f))) = some (translation (p, f)) := by
  have low : (f ||| pagePresent).toNat < 4096 := by
    rcases flags with rfl | rfl | rfl | rfl <;> decide
  have there : ¬ (f ||| pagePresent) &&& presentBit = 0 := by
    rcases flags with rfl | rfl | rfl | rfl <;> decide
  have writable : (f ||| pagePresent) &&& writableBit = f &&& pageWritable := by
    rcases flags with rfl | rfl | rfl | rfl <;> decide
  have user : (f ||| pagePresent) &&& userBit = f &&& pageUser := by
    rcases flags with rfl | rfl | rfl | rfl <;> decide
  rw [leafEntry, BitVec.or_assoc, decode, flags_of_entry aligned (by decide), if_neg there,
    addrMask_of_entry aligned small low, flags_of_entry aligned (by decide), writable,
    flags_of_entry aligned (by decide), user]
  rfl

theorem translates_of_inv {s : PageTableRun} (inv : PageTableInv s) {v : Word}
    (hv : v.toNat < 2 ^ 48) :
    walk s.kernel.mem v 3 s.pml4 = (s.mapped (page v)).map translation := by
  obtain ⟨⟨root, T, hroot, tables⟩, frames⟩ := inv
  rw [hroot, tables.holds.walk (by rw [page]; omega)]
  show decode (leafEntry (s.mapped (page v))) = _
  cases h : s.mapped (page v) with
  | none => rfl
  | some mapping =>
      obtain ⟨⟨aligned, small⟩, flags⟩ := frames _ _ _ h
      exact decode_leafEntry aligned small flags

/-- A step changes the map at the page it is about. -/
theorem mapped_of_target_ne (s : PageTableRun) {op : PageTableOp} {n : Nat}
    (other : op.target ≠ some n) : (s.step op).mapped n = s.mapped n := by
  cases op with
  | map virt phys flags => exact Function.update_of_ne (fun h => other (congrArg some h.symm)) ..
  | unMap virt => exact Function.update_of_ne (fun h => other (congrArg some h.symm)) ..
  | alloc pages => rfl
  | free ptr pages => rfl
  | write addr byte => rfl

theorem page_table_refines_map : PageTableRun.sys.Invariant RefinesMap := by
  intro s hs
  have inv := pageTable_invariant s hs
  refine ⟨fun v hv => translates_of_inv inv hv, ?_⟩
  rintro op s' next v hv other
  have inv' := pageTable_invariant s' (.step hs next)
  obtain ⟨-, rfl⟩ := next
  rw [translates_of_inv inv hv, translates_of_inv inv' hv, mapped_of_target_ne s other]

/-- Sixteen pages of memory, page 1 the root. -/
def freshTables : PageTableRun where
  kernel :=
    { Kernel.statics with
      pages := (PageAllocator.alloc ⟨fun _ => 0, 16, by decide⟩ 1).1
      mem := clearTable (fun _ => 0xFF) 0x1000 512 }
  pml4 := 0x1000
  owned := []
  mapped := fun _ => none

/-- One page mapped writable. -/
theorem page_table_refines_map_run :
    let s := freshTables.step (.map 0x400000 0x9000 pageWritable)
    walk s.kernel.mem 0x400000 3 s.pml4 = some ⟨0x9000, true, false⟩ := by
  intro s
  have start : PageTableRun.sys.Reachable freshTables :=
    .init ⟨{ Kernel.statics with pages := ⟨fun _ => 0, 16, by decide⟩, mem := fun _ => 0xFF }, _,
      0x1000, [], ⟨.nil, by simp, by simp⟩, Prod.ext rfl (by decide), by decide, rfl⟩
  have reach : PageTableRun.sys.Reachable s :=
    .step (e := .map 0x400000 0x9000 pageWritable) start
      ⟨⟨by decide, by decide, by decide, by decide +kernel⟩, rfl⟩
  exact (page_table_refines_map s reach).translates 0x400000 (by decide)

end Coolos.Theorems
