import Coolos.Kernel.PageAllocator

/-!
# What the page allocator does to the bitmap

Each loop as a statement about single bits, and from these one specification
for each function: `PageAllocator_Alloc` takes the first run of clear pages in
`[1, total_pages)`, `PageAllocator_Free` clears the pages it is given, and a
release right after an allocation restores the bitmap.
-/

namespace Coolos
namespace PageAllocator

open Lib BitTable

/-- Page `p` is among the `n` pages from `startPage` on, page numbers wrapping
as `uint64_t` does. -/
def Covers (startPage : Word) (n p : Nat) : Prop := ∃ i < n, (startPage + loc i).toNat = p

theorem covers_iff {startPage : Word} {n p : Nat} (top : startPage.toNat + n ≤ 2 ^ 64) :
    Covers startPage n p ↔ startPage.toNat ≤ p ∧ p < startPage.toNat + n := by
  have place : ∀ i < n, (startPage + loc i).toNat = startPage.toNat + i := fun i hi => by
    rw [BitVec.toNat_add, toNat_loc (by omega), Nat.mod_eq_of_lt (by omega)]
  constructor
  · rintro ⟨i, hi, rfl⟩
    rw [place i hi]
    omega
  · rintro ⟨low, high⟩
    refine ⟨p - startPage.toNat, by omega, ?_⟩
    rw [place _ (by omega)]
    omega

/-! ## The loops, bit by bit -/

section Loops

variable {t : BitTable 8} {startPage : Word} {p : Nat}

theorem covers_succ {n : Nat} :
    Covers startPage (n + 1) p ↔ Covers startPage n p ∨ (startPage + loc n).toNat = p := by
  constructor
  · rintro ⟨i, hi, h⟩
    rcases Nat.lt_succ_iff_lt_or_eq.mp hi with lt | rfl
    · exact .inl ⟨i, lt, h⟩
    · exact .inr h
  · rintro (⟨i, hi, h⟩ | h)
    · exact ⟨i, by omega, h⟩
    · exact ⟨n, by omega, h⟩

theorem testBit_forPages_setBit : ∀ n, (forPages setBit t startPage n).testBit p = true ↔
    t.testBit p = true ∨ p < maxPages ∧ Covers startPage n p := by
  intro n
  induction n with
  | zero => simp [forPages, Covers]
  | succ n ih =>
      rw [covers_succ]
      simp only [forPages]
      split
      · rename_i inside
        rw [testBit_setBit (by decide), Bool.or_eq_true, decide_eq_true_eq, ih]
        constructor
        · rintro (rfl | old | ⟨hp, hc⟩)
          · exact .inr ⟨inside, .inr rfl⟩
          · exact .inl old
          · exact .inr ⟨hp, .inl hc⟩
        · rintro (old | ⟨hp, hc | rfl⟩)
          · exact .inr (.inl old)
          · exact .inr (.inr ⟨hp, hc⟩)
          · exact .inl rfl
      · rename_i outside
        rw [ih]
        constructor
        · rintro (old | ⟨hp, hc⟩)
          · exact .inl old
          · exact .inr ⟨hp, .inl hc⟩
        · rintro (old | ⟨hp, hc | rfl⟩)
          · exact .inl old
          · exact .inr ⟨hp, hc⟩
          · exact absurd hp outside

theorem testBit_forPages_clearBit : ∀ n, (forPages clearBit t startPage n).testBit p = true ↔
    t.testBit p = true ∧ ¬ (p < maxPages ∧ Covers startPage n p) := by
  intro n
  induction n with
  | zero => simp [forPages, Covers]
  | succ n ih =>
      rw [covers_succ]
      simp only [forPages]
      split
      · rename_i inside
        rw [testBit_clearBit (by decide), Bool.and_eq_true, Bool.not_eq_true',
          decide_eq_false_iff_not,
          ih]
        constructor
        · rintro ⟨other, old, kept⟩
          exact ⟨old, fun ⟨hp, hc⟩ => hc.elim (fun hc => kept ⟨hp, hc⟩) fun h => other h.symm⟩
        · rintro ⟨old, kept⟩
          exact ⟨fun h => kept ⟨h ▸ inside, .inr h.symm⟩, old,
            fun ⟨hp, hc⟩ => kept ⟨hp, .inl hc⟩⟩
      · rename_i outside
        rw [ih]
        refine and_congr_right fun _ => not_congr ⟨fun ⟨hp, hc⟩ => ⟨hp, .inl hc⟩, ?_⟩
        rintro ⟨hp, hc | rfl⟩
        · exact ⟨hp, hc⟩
        · exact absurd hp outside

theorem testBit_setPages {i : Nat} : ∀ n, (setPages t i n).testBit p = true ↔
    t.testBit p = true ∨ i ≤ p ∧ p < i + n := by
  intro n
  induction n with
  | zero =>
      simp only [setPages, Nat.add_zero]
      exact ⟨.inl, fun h => h.resolve_right fun h => absurd h.2 (Nat.not_lt.mpr h.1)⟩
  | succ n ih =>
      simp only [setPages]
      rw [testBit_setBit (by decide), Bool.or_eq_true, decide_eq_true_eq, ih]
      constructor
      · rintro (rfl | old | range)
        · exact .inr (by omega)
        · exact .inl old
        · exact .inr (by omega)
      · rintro (old | range)
        · exact .inr (.inl old)
        · by_cases last : p = i + n
          · exact .inl last
          · exact .inr (.inr (by omega))

/-- All `n` pages are found exactly when all are clear. -/
theorem found_eq_iff : ∀ {n q : Nat}, found t q n = n ↔ ∀ j < n, t.testBit (q + j) = false := by
  intro n
  induction n with
  | zero => intro q; simp [found]
  | succ n ih =>
      intro q
      have shift : (∀ j < n + 1, t.testBit (q + j) = false) ↔
          t.testBit q = false ∧ ∀ j < n, t.testBit (q + 1 + j) = false := by
        constructor
        · intro h
          refine ⟨h 0 (by omega), fun j hj => ?_⟩
          rw [Nat.add_assoc, Nat.add_comm 1 j]
          exact h (j + 1) (by omega)
        · rintro ⟨h0, h⟩ j hj
          cases j with
          | zero => exact h0
          | succ j =>
              have := h j (by omega)
              rwa [Nat.add_assoc, Nat.add_comm 1 j] at this
      rw [shift, ← ih]
      simp only [found]
      cases t.testBit q <;> simp

end Loops

/-! ## `PageAllocator_Alloc` -/

/-- Page `p` is clear in the bitmap. -/
def Clear (pa : PageAllocator) (p : Nat) : Prop := pa.bitmap.testBit p = false

instance (pa : PageAllocator) (p : Nat) : Decidable (pa.Clear p) :=
  inferInstanceAs (Decidable (_ = _))

/-- A run of `n` clear pages from `i` on, within `[1, total_pages)`. -/
structure ClearRun (pa : PageAllocator) (i n : Nat) : Prop where
  low : 1 ≤ i
  high : i + n ≤ pa.totalPages.toNat
  clear : ∀ j < n, pa.Clear (i + j)

/-- The search finds the first candidate whose pages are all clear. -/
theorem search_spec {t : BitTable 8} {pages : Nat} : ∀ n i,
    (∃ k, search t pages n i = some k ∧ i ≤ k ∧ k < i + n ∧
      (∀ j < pages, t.testBit (k + j) = false) ∧
      ∀ q, i ≤ q → q < k → ∃ j < pages, t.testBit (q + j) = true) ∨
    (search t pages n i = none ∧
      ∀ q, i ≤ q → q < i + n → ∃ j < pages, t.testBit (q + j) = true) := by
  intro n
  -- on the candidates left: one is passed only when a page of it is used
  induction n with
  | zero => intro i; exact .inr ⟨rfl, fun q low high => absurd high (by omega)⟩
  | succ n ih =>
      intro i
      simp only [search]
      by_cases all : found t i pages = pages
      · rw [if_pos all]
        refine .inl ⟨i, rfl, le_rfl, by omega, found_eq_iff.mp all, ?_⟩
        intro q low high
        exact absurd high (Nat.not_lt.mpr low)
      · rw [if_neg all]
        have here : ∃ j < pages, t.testBit (i + j) = true := by
          rw [found_eq_iff] at all
          push Not at all
          obtain ⟨j, hj, used⟩ := all
          exact ⟨j, hj, by simpa using used⟩
        have pass : ∀ q, i ≤ q → q = i ∨ i + 1 ≤ q := fun q low => by omega
        rcases ih (i + 1) with ⟨k, hk, low, high, clear, first⟩ | ⟨none, blocked⟩
        · refine .inl ⟨k, hk, by omega, by omega, clear, ?_⟩
          intro q low high
          rcases pass q low with rfl | later
          · exact here
          · exact first q later high
        · refine .inr ⟨none, ?_⟩
          intro q low high
          rcases pass q low with rfl | later
          · exact here
          · exact blocked q later (by omega)

/-- Page numbers below `MAX_PAGES` survive the trip through an address. -/
theorem page_of_addr {i : Nat} (h : i < maxPages) :
    loc i * pageSize / pageSize = loc i ∧ (loc i * pageSize).toNat = i * 4096 := by
  have hi : i < 1048576 := h
  have addr : (loc i * pageSize).toNat = i * 4096 := by
    rw [BitVec.toNat_mul, toNat_loc (by omega), show pageSize.toNat = 4096 from rfl]
    omega
  refine ⟨BitVec.eq_of_toNat_eq ?_, addr⟩
  rw [BitVec.toNat_udiv, addr, toNat_loc (by omega), show pageSize.toNat = 4096 from rfl]
  omega

/-- The address of a clear run. -/
theorem ClearRun.addr {pa : PageAllocator} {i n : Nat} (run : pa.ClearRun i n) :
    loc i * pageSize / pageSize = loc i ∧ (loc i * pageSize).toNat = i * 4096 := by
  have high := run.high
  have bound := pa.bounded
  exact page_of_addr (by omega)

/-- `PageAllocator_Alloc` takes the lowest clear run or, when there is none, fails
and changes nothing. -/
theorem alloc_spec (pa : PageAllocator) (pages : Word) :
    (∃ i, 0 < pages.toNat ∧ pa.ClearRun i pages.toNat ∧
      (∀ k, pa.ClearRun k pages.toNat → i ≤ k) ∧
      pa.alloc pages =
        ({ pa with bitmap := setPages pa.bitmap i pages.toNat }, loc i * pageSize)) ∨
    ((pages = 0 ∨ ¬ ∃ i, pa.ClearRun i pages.toNat) ∧ pa.alloc pages = (pa, 0)) := by
  by_cases zero : pages = 0
  · exact .inr ⟨.inl zero, by rw [alloc, if_pos (.inl zero)]⟩
  by_cases large : pa.totalPages < pages
  · refine .inr ⟨.inr ?_, by rw [alloc, if_pos (.inr large)]⟩
    rintro ⟨i, run⟩
    have := run.high
    rw [BitVec.lt_def] at large
    omega
  have pos : 0 < pages.toNat :=
    Nat.pos_of_ne_zero fun h => zero (BitVec.eq_of_toNat_eq h)
  have le : pages.toNat ≤ pa.totalPages.toNat := by
    rw [BitVec.lt_def] at large
    omega
  have count : (pa.totalPages - pages).toNat = pa.totalPages.toNat - pages.toNat :=
    BitVec.toNat_sub_of_le (BitVec.le_def.mpr le)
  have step : ¬ (pages = 0 ∨ pa.totalPages < pages) := not_or.mpr ⟨zero, large⟩
  -- a candidate with a used page is no run
  have blocks : ∀ k, (∃ j < pages.toNat, pa.bitmap.testBit (k + j) = true) →
      ¬ pa.ClearRun k pages.toNat := by
    rintro k ⟨j, hj, used⟩ run
    exact absurd (run.clear j hj) (by simp [Clear, used])
  rcases search_spec (t := pa.bitmap) (pa.totalPages - pages).toNat 1 with
    ⟨k, hit, low, high, clear, first⟩ | ⟨miss, blocked⟩
  · refine .inl ⟨k, pos, ⟨low, by omega, clear⟩, ?_, ?_⟩
    · intro q run
      by_contra less
      exact blocks q (first q run.low (Nat.not_le.mp less)) run
    · rw [alloc, if_neg step, hit]
  · refine .inr ⟨.inr ?_, by rw [alloc, if_neg step, miss]⟩
    rintro ⟨i, run⟩
    have := run.high
    exact blocks i (blocked i run.low (by omega)) run

/-- The address of an allocation that succeeds, its run, and the bitmap left. -/
theorem alloc_success {pa pa' : PageAllocator} {pages ptr : Word}
    (h : pa.alloc pages = (pa', ptr)) (hptr : ptr ≠ 0) :
    ∃ i, 0 < pages.toNat ∧ ptr.toNat = i * 4096 ∧ ptr / pageSize = loc i ∧
      pa.ClearRun i pages.toNat ∧ pa'.totalPages = pa.totalPages ∧
      ∀ p, pa'.Clear p ↔ pa.Clear p ∧ ¬ (i ≤ p ∧ p < i + pages.toNat) := by
  rcases alloc_spec pa pages with ⟨i, pos, run, -, eq⟩ | ⟨_, eq⟩
  · obtain ⟨rfl, rfl⟩ := Prod.mk.inj (h.symm.trans eq)
    obtain ⟨page, addr⟩ := run.addr
    refine ⟨i, pos, addr, page, run, rfl, fun p => ?_⟩
    simp only [Clear, ← Bool.not_eq_true]
    rw [testBit_setPages, not_or]
  · exact absurd (Prod.mk.inj (h.symm.trans eq)).2 hptr

/-- The run an allocation takes is the lowest there is. -/
theorem alloc_lowest {pa pa' : PageAllocator} {pages ptr : Word} {i : Nat}
    (h : pa.alloc pages = (pa', ptr)) (hptr : ptr ≠ 0) (place : ptr.toNat = i * 4096) {k : Nat}
    (run : pa.ClearRun k pages.toNat) : i ≤ k := by
  rcases alloc_spec pa pages with ⟨c, -, taken, lowest, eq⟩ | ⟨-, eq⟩
  · have addr := taken.addr.2
    rw [← (Prod.mk.inj (h.symm.trans eq)).2, place] at addr
    have := lowest k run
    omega
  · exact absurd (Prod.mk.inj (h.symm.trans eq)).2 hptr

/-- An allocation fails only for want of a run, and then changes nothing. -/
theorem alloc_null {pa pa' : PageAllocator} {pages : Word} (h : pa.alloc pages = (pa', 0)) :
    pa' = pa ∧ (pages = 0 ∨ ¬ ∃ i, pa.ClearRun i pages.toNat) := by
  rcases alloc_spec pa pages with ⟨i, _, run, -, eq⟩ | ⟨why, eq⟩
  · have low := run.low
    have addr := run.addr.2
    rw [← (Prod.mk.inj (h.symm.trans eq)).2, show (0 : Word).toNat = 0 from rfl] at addr
    omega
  · exact ⟨(Prod.mk.inj (h.symm.trans eq)).1, why⟩

/-- `PageAllocator_Free` clears the pages it is given. -/
theorem clear_free {pa : PageAllocator} {ptr pages : Word} {p : Nat} :
    (pa.free ptr pages).Clear p ↔
      pa.Clear p ∨ p < maxPages ∧ Covers (ptr / pageSize) pages.toNat p := by
  simp only [Clear, free, ← Bool.not_eq_true]
  rw [testBit_forPages_clearBit, not_and_not_right, imp_iff_not_or]

/-- `PageAllocator_MarkUsed` sets the pages it is given. -/
theorem clear_markUsed {pa : PageAllocator} {ptr pages : Word} {p : Nat} :
    (pa.markUsed ptr pages).Clear p ↔
      pa.Clear p ∧ ¬ (p < maxPages ∧ Covers (ptr / pageSize) pages.toNat p) := by
  simp only [Clear, markUsed, ← Bool.not_eq_true]
  rw [testBit_forPages_setBit, not_or]

/-- The bits and `total_pages` are the whole state. -/
theorem eq_of_clear {pa pa' : PageAllocator} (pages : pa'.totalPages = pa.totalPages)
    (bits : ∀ p, pa'.Clear p ↔ pa.Clear p) : pa' = pa := by
  have tables : pa'.bitmap = pa.bitmap := by
    refine ext_testBit (by decide) fun p => ?_
    have := bits p
    simp only [Clear] at this
    cases h : pa.bitmap.testBit p <;> cases h' : pa'.bitmap.testBit p <;> simp_all
  obtain ⟨t, n, b⟩ := pa
  obtain ⟨t', n', b'⟩ := pa'
  obtain rfl : n' = n := pages
  obtain rfl : t' = t := tables
  rfl

/-- Releasing what was just allocated restores the allocator. -/
theorem free_alloc {pa pa' : PageAllocator} {pages ptr : Word}
    (h : pa.alloc pages = (pa', ptr)) (hptr : ptr ≠ 0) : pa'.free ptr pages = pa := by
  obtain ⟨i, pos, addr, page, run, total, bits⟩ := alloc_success h hptr
  refine eq_of_clear total fun p => ?_
  have high := run.high
  have bound := pa.bounded
  have small : maxPages = 1048576 := rfl
  rw [clear_free, bits, page, covers_iff (by rw [toNat_loc (by omega)]; omega),
    toNat_loc (by omega)]
  constructor
  · rintro (⟨clear, -⟩ | ⟨-, low, high⟩)
    · exact clear
    · have := run.clear (p - i) (by omega)
      rwa [Nat.add_sub_cancel' low] at this
  · intro clear
    by_cases inside : i ≤ p ∧ p < i + pages.toNat
    · exact .inr ⟨by omega, inside⟩
    · exact .inl ⟨clear, inside⟩

end PageAllocator
end Coolos
