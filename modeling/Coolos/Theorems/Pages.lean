import Coolos.Logic.PageRun

/-!
# Physical page ownership

Over every run from `PageAllocator_Init` on a well-placed memory map the bitmap
says exactly who owns each page.
-/

namespace Coolos.Theorems

open Lib PageAllocator

/-- The bitmap is exact: a page is clear when it is available, was not marked
and is not live; live ranges are apart, inside `[1, total_pages)` and made of
available, unmarked pages; and a release undoes the allocation before it. -/
structure OwnershipExact (map : List MemoryDescriptor) (s : PageRun) : Prop where
  clear : ∀ p < maxPages, s.pages.Clear p ↔
    Available map p ∧ ¬ s.Marked p ∧ ¬ ∃ a ∈ s.live, InRange a p
  disjoint : s.live.Pairwise fun a b => ∀ p, ¬ (InRange a p ∧ InRange b p)
  inside : ∀ a ∈ s.live, ∀ p, InRange a p → 1 ≤ p ∧ p < s.pages.totalPages.toNat
  owned : ∀ a ∈ s.live, ∀ p, InRange a p → Available map p ∧ ¬ s.Marked p
  restores : ∀ n pa ptr, s.pages.alloc n = (pa, ptr) → ptr ≠ 0 →
    (pa.free ptr n).bitmap = s.pages.bitmap

theorem page_ownership_exact {map : List MemoryDescriptor} (ok : ∀ d ∈ map, d.WellPlaced) :
    (PageRun.sys map).Invariant (OwnershipExact map) := by
  intro s hs
  have inv := pageRun_invariant ok s hs
  refine ⟨inv.clear, inv.disjoint, fun a ha p hp => ?_, inv.owned, fun n pa ptr run hptr => ?_⟩
  · have bounds := inv.inside a ha
    obtain ⟨low, high⟩ := hp
    omega
  · rw [free_alloc run hptr]

/-- A map with 16 conventional pages of which the first is marked used and the
next three are handed out. -/
theorem page_ownership_exact_run :
    let map : List MemoryDescriptor := [⟨7, 0x1000, 16⟩, ⟨0, 0x11000, 4⟩]
    let s := ((⟨PageAllocator.zero.init map, [], []⟩ : PageRun).step (.markUsed 0x1000 1)).step
      (.alloc 3)
    s.live = [(0x2000, 3)] ∧ OwnershipExact map s := by
  intro map s
  refine ⟨by decide, ?_⟩
  exact page_ownership_exact (by unfold MemoryDescriptor.WellPlaced; decide) s
    (.step (e := .alloc 3) (.step (e := .markUsed 0x1000 1) (.init rfl) ⟨rfl, rfl⟩)
      ⟨trivial, rfl⟩)

end Coolos.Theorems
