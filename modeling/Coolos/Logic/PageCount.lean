import Coolos.Logic.PageRun
import Mathlib.Algebra.BigOperators.Group.Finset.Basic
import Mathlib.Order.Interval.Finset.Nat
import Mathlib.Data.Finset.Card

/-!
# Counting the pages left

The pages `PageAllocator_Alloc` can still hand out, the pages marked used, and
how many of them an allocation and a release move.
-/

namespace Coolos
namespace PageAllocator

open Lib

/-- The clear pages in `[1, total_pages)`. -/
def clearPages (pa : PageAllocator) : Finset Nat :=
  (Finset.Ico 1 pa.totalPages.toNat).filter fun p => pa.Clear p

variable {pa pa' : PageAllocator} {pages ptr : Word}

/-- An allocation takes as many clear pages as it was asked for. -/
theorem card_clearPages_alloc (h : pa.alloc pages = (pa', ptr)) (hptr : ptr ≠ 0) :
    pa.clearPages.card = pages.toNat + pa'.clearPages.card := by
  obtain ⟨i, -, -, -, run, total, bits⟩ := alloc_success h hptr
  have low := run.low
  have high := run.high
  have split : pa.clearPages = Finset.Ico i (i + pages.toNat) ∪ pa'.clearPages := by
    ext p
    simp only [clearPages, Finset.mem_filter, Finset.mem_union, Finset.mem_Ico, total, bits]
    constructor
    · rintro ⟨range, clear⟩
      by_cases inside : i ≤ p ∧ p < i + pages.toNat
      · exact .inl inside
      · exact .inr ⟨range, clear, inside⟩
    · rintro (⟨hl, hh⟩ | ⟨range, clear, -⟩)
      · refine ⟨by omega, ?_⟩
        have := run.clear (p - i) (by omega)
        rwa [Nat.add_sub_cancel' hl] at this
      · exact ⟨range, clear⟩
  have apart : Disjoint (Finset.Ico i (i + pages.toNat)) pa'.clearPages := by
    refine Finset.disjoint_left.mpr fun p inside clear => ?_
    simp only [clearPages, Finset.mem_filter, bits] at clear
    exact clear.2.2 (Finset.mem_Ico.mp inside)
  rw [split, Finset.card_union_of_disjoint apart, Nat.card_Ico, Nat.add_sub_cancel_left]

/-- A single page is found exactly when one is left. -/
theorem alloc_one_ne_zero_iff (pa : PageAllocator) :
    (pa.alloc 1).2 ≠ 0 ↔ 0 < pa.clearPages.card := by
  rw [Finset.card_pos]
  constructor
  · intro ok
    rcases h : pa.alloc 1 with ⟨pa', ptr⟩
    rw [h] at ok
    obtain ⟨i, -, -, -, run, -⟩ := alloc_success h ok
    have low := run.low
    have high := run.high
    refine ⟨i, Finset.mem_filter.mpr ⟨Finset.mem_Ico.mpr ⟨low, Nat.lt_of_succ_le high⟩, ?_⟩⟩
    exact run.clear 0 (by decide)
  · rintro ⟨p, hp⟩ fail
    obtain ⟨range, clear⟩ := Finset.mem_filter.mp hp
    obtain ⟨low, high⟩ := Finset.mem_Ico.mp range
    rcases h : pa.alloc 1 with ⟨pa', ptr⟩
    rw [h] at fail
    obtain rfl : ptr = 0 := fail
    rcases (alloc_null h).2 with zero | none
    · exact absurd zero (by decide)
    · refine none ⟨p, low, high, fun j hj => ?_⟩
      obtain rfl : j = 0 := by simpa using hj
      exact clear

/-- A successful allocation changes the bitmap. -/
theorem alloc_bitmap_ne (h : pa.alloc pages = (pa', ptr)) (hptr : ptr ≠ 0) :
    pa'.bitmap ≠ pa.bitmap := by
  intro same
  obtain ⟨i, pos, -, -, run, -, bits⟩ := alloc_success h hptr
  have taken : ¬ pa'.Clear i := fun clear => ((bits i).mp clear).2 ⟨le_rfl, by omega⟩
  refine taken ?_
  rw [Clear, same]
  exact run.clear 0 pos

/-- The pages marked used in the bitmap. -/
def usedPages (pa : PageAllocator) : Finset Nat :=
  (Finset.range maxPages).filter fun p => ¬ pa.Clear p

/-- The pages of a range. -/
def rangePages (a : Word × Word) : Finset Nat :=
  Finset.Ico (a.1.toNat / 4096) (a.1.toNat / 4096 + a.2.toNat)

theorem mem_rangePages {a : Word × Word} {p : Nat} : p ∈ rangePages a ↔ InRange a p :=
  Finset.mem_Ico

theorem card_rangePages (a : Word × Word) : (rangePages a).card = a.2.toNat := by
  rw [rangePages, Nat.card_Ico, Nat.add_sub_cancel_left]

/-- An allocation marks as many pages as it was asked for. -/
theorem card_usedPages_alloc (h : pa.alloc pages = (pa', ptr)) (hptr : ptr ≠ 0) :
    pa'.usedPages.card = pa.usedPages.card + pages.toNat := by
  obtain ⟨-, bits, range⟩ := alloc_range h hptr
  have split : pa'.usedPages = pa.usedPages ∪ rangePages (ptr, pages) := by
    ext p
    simp only [usedPages, Finset.mem_filter, Finset.mem_union, Finset.mem_range, mem_rangePages,
      bits, not_and_not_right]
    constructor
    · rintro ⟨hp, taken⟩
      by_cases clear : pa.Clear p
      · exact .inr (taken clear)
      · exact .inl ⟨hp, clear⟩
    · rintro (⟨hp, used⟩ | taken)
      · exact ⟨hp, fun clear => absurd clear used⟩
      · exact ⟨(range p taken).2.1.trans pa.bounded, fun _ => taken⟩
  have apart : Disjoint pa.usedPages (rangePages (ptr, pages)) := by
    apply Finset.disjoint_left.mpr
    intro p used taken
    exact (Finset.mem_filter.mp used).2 (range p (mem_rangePages.mp taken)).2.2
  rw [split, Finset.card_union_of_disjoint apart, card_rangePages]

/-- A release of used pages gives back as many as it names. -/
theorem card_usedPages_free (inside : ptr.toNat / 4096 + pages.toNat ≤ maxPages)
    (used : ∀ p, InRange (ptr, pages) p → ¬ pa.Clear p) :
    (pa.free ptr pages).usedPages.card + pages.toNat = pa.usedPages.card := by
  have small : maxPages = 1048576 := rfl
  have split : pa.usedPages = (pa.free ptr pages).usedPages ∪ rangePages (ptr, pages) := by
    ext p
    simp only [usedPages, Finset.mem_filter, Finset.mem_union, Finset.mem_range, mem_rangePages,
      clear_free_range (show ptr.toNat / 4096 + pages.toNat ≤ 2 ^ 64 by omega), not_or, not_and]
    constructor
    · rintro ⟨hp, old⟩
      by_cases here : InRange (ptr, pages) p
      · exact .inr here
      · exact .inl ⟨hp, old, fun _ => here⟩
    · rintro (⟨hp, old, -⟩ | here)
      · exact ⟨hp, old⟩
      · exact ⟨Nat.lt_of_lt_of_le here.2 inside, used p here⟩
  have apart : Disjoint (pa.free ptr pages).usedPages (rangePages (ptr, pages)) := by
    apply Finset.disjoint_left.mpr
    intro p old here
    have here := mem_rangePages.mp here
    refine (Finset.mem_filter.mp old).2 ((clear_free_range (by omega)).mpr (.inr ⟨?_, here⟩))
    exact Nat.lt_of_lt_of_le here.2 inside
  rw [split, Finset.card_union_of_disjoint apart, card_rangePages]

end PageAllocator

/-- A sum in which one term changes. -/
theorem sum_change {f g : Nat → Nat} {s : Finset Nat} {i : Nat} (hi : i ∈ s)
    (same : ∀ j, j ≠ i → g j = f j) : ∑ j ∈ s, g j + f i = ∑ j ∈ s, f j + g i := by
  have rest : ∑ j ∈ s.erase i, g j = ∑ j ∈ s.erase i, f j := by
    apply Finset.sum_congr rfl
    intro j hj
    exact same j (Finset.ne_of_mem_erase hj)
  rw [← Finset.add_sum_erase s g hi, ← Finset.add_sum_erase s f hi, rest]
  omega

end Coolos
