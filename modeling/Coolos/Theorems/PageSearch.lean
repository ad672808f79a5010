import Coolos.Logic.BootRun
import Mathlib.Order.Bounds.Basic

/-!
# The search for free pages

`PageAllocator_Alloc` is first fit over the pages in `[1, total_pages)` and misses
none of them. What `PageAllocator_Init` leaves outside that range is lost: the bitmap
takes every page below `MAX_PAGES`, `total_pages` only descriptors that end below it.
-/

namespace Coolos.Theorems

open Lib PageAllocator

/-! ## First fit -/

/-- `r` is what `PageAllocator_Alloc(pages)` returns when it takes the lowest run of
clear pages: its address, and a bitmap with its bits set and no other changed. -/
def TakesLowest (pa : PageAllocator) (pages : Word) (r : PageAllocator × Word) : Prop :=
  ∃ i, IsLeast {k | pa.ClearRun k pages.toNat} i ∧ r.2.toNat = 4096 * i ∧
    r.1.totalPages = pa.totalPages ∧
    ∀ p, r.1.bitmap.testBit p = (pa.bitmap.testBit p || decide (i ≤ p ∧ p < i + pages.toNat))

/-- `PageAllocator_Alloc` fails, changing nothing, exactly when it is asked for no page
or there is no run of clear pages as long; otherwise it takes the lowest one. -/
theorem alloc_first_fit (pa : PageAllocator) (pages : Word) :
    (pa.alloc pages = (pa, 0) ↔ pages = 0 ∨ ¬ ∃ i, pa.ClearRun i pages.toNat) ∧
      (¬ (pages = 0 ∨ ¬ ∃ i, pa.ClearRun i pages.toNat) →
        TakesLowest pa pages (pa.alloc pages)) := by
  rcases alloc_spec pa pages with ⟨i, pos, run, lowest, eq⟩ | ⟨why, eq⟩
  · have possible : ¬ (pages = 0 ∨ ¬ ∃ i, pa.ClearRun i pages.toNat) := by
      rintro (zero | none)
      · rw [zero] at pos
        exact absurd pos (by decide)
      · exact none ⟨i, run⟩
    refine ⟨⟨?_, fun why => absurd why possible⟩, fun _ => ⟨i, ⟨run, ?_⟩, ?_, ?_, ?_⟩⟩
    · intro same
      have null : loc i * pageSize = 0 := (Prod.mk.inj (eq.symm.trans same)).2
      have addr := run.addr.2
      have low := run.low
      rw [null, show (0 : Word).toNat = 0 from rfl] at addr
      omega
    · intro k other
      exact lowest k other
    · rw [eq, Nat.mul_comm]
      exact run.addr.2
    · rw [eq]
    · intro p
      rw [eq, Bool.eq_iff_iff, testBit_setPages, Bool.or_eq_true, decide_eq_true_eq]
  · exact ⟨⟨fun _ => why, fun _ => eq⟩, fun possible => absurd why possible⟩

/-- The last run is not missed, and nothing behind it is taken. -/
example :
    let pa : PageAllocator := ⟨fun i => if i = 0 then 0x1F else 0, 8, by decide⟩
    (pa.alloc 3).2 = 5 * 4096 ∧ (pa.alloc 4).2 = 0 := by
  decide +kernel

/-! ## Pages handed out one at a time -/

/-- The allocator after `k` calls of `PageAllocator_Alloc(1)`. -/
def afterSingles (pa : PageAllocator) (k : Nat) : PageAllocator :=
  (fun pa => (pa.alloc 1).1)^[k] pa

/-- Some call in a sequence of calls of `PageAllocator_Alloc(1)` returns page `p`. -/
def EventuallyReturns (pa : PageAllocator) (p : Nat) : Prop :=
  ∃ k, ((afterSingles pa k).alloc 1).2.toNat = p * 4096

/-- Every clear page in range is returned: a call returns it, or a page before it. -/
theorem eventuallyReturns_of_clear {p : Nat} (low : 1 ≤ p) : ∀ {n : Nat} {pa : PageAllocator},
    pa.clearPages.card = n → pa.Clear p → p < pa.totalPages.toNat → EventuallyReturns pa p := by
  intro n
  -- on the clear pages left, of which each call takes one
  induction n with
  | zero =>
      intro pa none clear high
      have mem : p ∈ pa.clearPages :=
        Finset.mem_filter.mpr ⟨Finset.mem_Ico.mpr ⟨low, high⟩, clear⟩
      rw [Finset.card_eq_zero.mp none] at mem
      cases mem
  | succ n ih =>
      intro pa count clear high
      have some : (pa.alloc 1).2 ≠ 0 := (alloc_one_ne_zero_iff pa).mpr (by omega)
      rcases h : pa.alloc 1 with ⟨pa', ptr⟩
      rw [h] at some
      obtain ⟨i, -, addr, -, -, total, bits⟩ := alloc_success h some
      by_cases here : p = i
      · refine ⟨0, ?_⟩
        show (pa.alloc 1).2.toNat = p * 4096
        rw [h, here]
        exact addr
      · have taken := card_clearPages_alloc h some
        rw [show (1 : Word).toNat = 1 from rfl] at taken bits
        have clear' : pa'.Clear p := (bits p).mpr ⟨clear, by omega⟩
        obtain ⟨k, returned⟩ := ih (by omega) clear' (by rw [total]; exact high)
        refine ⟨k + 1, ?_⟩
        rw [afterSingles, Function.iterate_succ_apply, h]
        exact returned

/-! ## What initialisation loses -/

/-- Every page the allocator could manage is below `total_pages` and gets handed out. -/
def NothingLost (map : List MemoryDescriptor) : Prop :=
  ∀ p, 1 ≤ p → p < maxPages → Available map p →
    p < (PageAllocator.zero.init map).totalPages.toNat ∧
      EventuallyReturns (PageAllocator.zero.init map) p

theorem lt_totalPages_init {map : List MemoryDescriptor} {p : Nat} :
    p < (PageAllocator.zero.init map).totalPages.toNat ↔ BelowTotal map p := by
  rw [PageAllocator.init, lt_totalPages_foldl]
  exact or_iff_right (Nat.not_lt_zero p)

/-- Where a well-placed descriptor ends, for one that holds pages below `MAX_PAGES` and
not the last of them. -/
theorem lastPage_of_holds {d : MemoryDescriptor} (ok : d.WellPlaced) {p : Nat}
    (hp : p < maxPages) (holds : d.Holds p) (last : ¬ d.Holds (maxPages - 1)) :
    p < d.lastPage.toNat ∧ d.lastPage.toNat < maxPages := by
  obtain ⟨aligned, top⟩ := ok
  have small : maxPages = 1048576 := rfl
  simp only [MemoryDescriptor.Holds, small] at holds last hp ⊢
  have stop : (d.physicalStart + d.numberOfPages * pageSize + pageSize - 1).toNat =
      d.physicalStart.toNat + d.numberOfPages.toNat * 4096 + 4095 := by
    have size : (pageSize : Word).toNat = 4096 := rfl
    rw [BitVec.toNat_sub_of_le, BitVec.toNat_add, BitVec.toNat_add, BitVec.toNat_mul, size]
    · show _ - 1 = _
      omega
    · rw [BitVec.le_def, BitVec.toNat_add, BitVec.toNat_add, BitVec.toNat_mul, size]
      show 1 ≤ _
      omega
  rw [MemoryDescriptor.lastPage, BitVec.toNat_udiv, stop, show pageSize.toNat = 4096 from rfl]
  omega

/-- Nothing is lost exactly when the last page below `MAX_PAGES` is not usable. -/
theorem nothing_lost_iff {map : List MemoryDescriptor} (ok : ∀ d ∈ map, d.WellPlaced) :
    NothingLost map ↔ ¬ Available map (maxPages - 1) := by
  have small : maxPages = 1048576 := rfl
  constructor
  · -- `total_pages` never reaches `MAX_PAGES`
    intro kept last
    have below := (kept (maxPages - 1) (by decide) (by decide) last).1
    have bound := (PageAllocator.zero.init map).bounded
    omega
  · intro last p low high available
    obtain ⟨d, mem, use, holds⟩ := available
    have notLast : ¬ d.Holds (maxPages - 1) := fun h => last ⟨d, mem, use, h⟩
    have below : p < (PageAllocator.zero.init map).totalPages.toNat :=
      lt_totalPages_init.mpr ⟨d, mem, lastPage_of_holds (ok d mem) high holds notLast⟩
    have clear : (PageAllocator.zero.init map).Clear p :=
      (clear_init high ok _).mpr ⟨d, mem, use, holds⟩
    exact ⟨below, eventuallyReturns_of_clear low rfl clear below⟩

/-- 64 MiB in two descriptors. -/
theorem nothing_lost_64M : NothingLost [⟨7, 0x1000, 0x9F⟩, ⟨7, 0x100000, 0x3F00⟩] := by
  apply (nothing_lost_iff (by unfold MemoryDescriptor.WellPlaced; decide)).mpr
  rintro ⟨d, mem, -, holds⟩
  have below : ∀ d ∈ [(⟨7, 0x1000, 0x9F⟩ : MemoryDescriptor), ⟨7, 0x100000, 0x3F00⟩],
      ¬ d.Holds (maxPages - 1) := by
    unfold MemoryDescriptor.Holds
    decide
  exact below d mem holds

/-- One descriptor from 1 MiB to 4 GiB: `total_pages` stays 0. -/
theorem usable_pages_lost :
    ¬ ∀ map : List MemoryDescriptor, (∀ d ∈ map, d.WellPlaced) →
      (map.Pairwise fun d e => ∀ p, ¬ (d.Holds p ∧ e.Holds p)) → NothingLost map := by
  intro claim
  have ok : ∀ d ∈ [(⟨7, 0x100000, 0xFFF00⟩ : MemoryDescriptor)], d.WellPlaced := by
    unfold MemoryDescriptor.WellPlaced
    decide
  have kept := claim [⟨7, 0x100000, 0xFFF00⟩] ok (List.pairwise_singleton _ _)
  have usable : Available [⟨7, 0x100000, 0xFFF00⟩] 0x100 :=
    ⟨_, List.mem_singleton.mpr rfl, .inl rfl, by decide, by decide⟩
  obtain ⟨d, mem, below, bound⟩ :=
    lt_totalPages_init.mp (kept 0x100 (by decide) (by decide) usable).1
  obtain rfl := List.mem_singleton.mp mem
  exact absurd bound (by decide)

end Coolos.Theorems
