import Coolos.Logic.PageAllocator
import Coolos.Lib.TSys
import Mathlib.Data.List.Basic

/-!
# Runs of the page allocator

Boot hands the allocator a memory map and marks pages used; from then on pages
are allocated and freed. The run records what was marked and what is live, and
`PageRunInv` says who owns each page.
-/

namespace Coolos

open Lib PageAllocator

namespace MemoryDescriptor

/-- Page-aligned and not wrapping round the address space. -/
def WellPlaced (d : MemoryDescriptor) : Prop :=
  d.physicalStart.toNat % 4096 = 0 ∧
    d.physicalStart.toNat + d.numberOfPages.toNat * 4096 ≤ 2 ^ 64

/-- Page `p` lies in the descriptor's range. -/
def Holds (d : MemoryDescriptor) (p : Nat) : Prop :=
  d.physicalStart.toNat ≤ p * 4096 ∧
    (p + 1) * 4096 ≤ d.physicalStart.toNat + d.numberOfPages.toNat * 4096

theorem WellPlaced.covers_iff {d : MemoryDescriptor} (ok : d.WellPlaced) {p : Nat} :
    Covers (d.physicalStart / pageSize) d.numberOfPages.toNat p ↔ d.Holds p := by
  obtain ⟨aligned, top⟩ := ok
  have first : (d.physicalStart / pageSize).toNat = d.physicalStart.toNat / 4096 := rfl
  have := d.physicalStart.isLt
  rw [PageAllocator.covers_iff (by rw [first]; omega), first, Holds]
  omega

end MemoryDescriptor

/-- Page `p` belongs to a descriptor of a usable type. -/
def Available (map : List MemoryDescriptor) (p : Nat) : Prop :=
  ∃ d ∈ map, usable d ∧ d.Holds p

/-! ## `PageAllocator_Init` -/

theorem clear_initEntry {pa : PageAllocator} {d : MemoryDescriptor} {p : Nat} :
    (initEntry pa d).Clear p ↔ pa.Clear p ∨
      usable d ∧ p < maxPages ∧ Covers (d.physicalStart / pageSize) d.numberOfPages.toNat p := by
  have raise : ∀ {pa pa' : PageAllocator}, pa'.bitmap = pa.bitmap →
      (pa'.Clear p ↔ pa.Clear p) := fun h => by rw [Clear, Clear, h]
  unfold initEntry
  by_cases use : usable d
  · simp only [use, if_true, true_and]
    simp only [Clear, ← Bool.not_eq_true]
    rw [testBit_forPages_clearBit, not_and_not_right, imp_iff_not_or]
    split <;> rfl
  · simp only [use, if_false, false_and, or_false]
    exact raise (by split <;> rfl)

theorem clear_foldl_initEntry {p : Nat} (hp : p < maxPages) (map : List MemoryDescriptor)
    (ok : ∀ d ∈ map, d.WellPlaced) : ∀ pa : PageAllocator,
    (map.foldl initEntry pa).Clear p ↔ pa.Clear p ∨ Available map p := by
  induction map with
  | nil => intro pa; simp [Available]
  | cons d map ih =>
      intro pa
      rw [List.foldl_cons, ih (fun e he => ok e (List.mem_cons_of_mem _ he)), clear_initEntry,
        (ok d List.mem_cons_self).covers_iff]
      simp only [Available, List.exists_mem_cons_iff, hp, true_and, or_assoc]

/-- After `PageAllocator_Init` exactly the available pages are clear. -/
theorem clear_init {p : Nat} (hp : p < maxPages) {map : List MemoryDescriptor}
    (ok : ∀ d ∈ map, d.WellPlaced) (pa : PageAllocator) :
    (pa.init map).Clear p ↔ Available map p := by
  rw [init, clear_foldl_initEntry hp map ok, or_iff_right]
  have inside : p / 8 < maxPages / 8 := by
    have : maxPages = 1048576 := rfl
    omega
  have ones : ∀ k < 8, (0xFF : BitVec 8).getLsbD k = true := by decide
  simp only [Clear, BitTable.testBit, inside, if_true]
  rw [ones _ (Nat.mod_lt _ (by decide))]
  simp

/-! ## Runs -/

/-- A call to the allocator. -/
inductive PageOp where
  | markUsed (ptr pages : Word)
  | alloc (pages : Word)
  | free (ptr pages : Word)

/-- The allocator, the ranges marked used and the ranges allocated and not yet
freed: address and number of pages. -/
structure PageRun where
  pages : PageAllocator
  marked : List (Word × Word)
  live : List (Word × Word)

namespace PageRun

/-- Pages are marked before any is handed out; what is freed is live. -/
def Allowed (s : PageRun) : PageOp → Prop
  | .markUsed _ _ => s.live = []
  | .alloc _ => True
  | .free ptr pages => (ptr, pages) ∈ s.live

def step (s : PageRun) : PageOp → PageRun
  | .markUsed ptr pages =>
      { s with pages := s.pages.markUsed ptr pages, marked := (ptr, pages) :: s.marked }
  | .alloc pages =>
      let (pa, ptr) := s.pages.alloc pages
      { s with pages := pa, live := if ptr = 0 then s.live else (ptr, pages) :: s.live }
  | .free ptr pages =>
      { s with pages := s.pages.free ptr pages, live := s.live.erase (ptr, pages) }

/-- Runs from `PageAllocator_Init` on `map`. -/
def sys (map : List MemoryDescriptor) : TSys PageRun PageOp where
  init s := s = ⟨PageAllocator.zero.init map, [], []⟩
  next s op s' := s.Allowed op ∧ s.step op = s'

/-- Page `p` was marked used. -/
def Marked (s : PageRun) (p : Nat) : Prop :=
  ∃ a ∈ s.marked, Covers (a.1 / pageSize) a.2.toNat p

end PageRun

/-- Page `p` is in the range `a`. -/
def InRange (a : Word × Word) (p : Nat) : Prop :=
  a.1.toNat / 4096 ≤ p ∧ p < a.1.toNat / 4096 + a.2.toNat

/-- An allocation takes its range, which was clear. -/
theorem alloc_range {pa pa' : PageAllocator} {ptr pages : Word}
    (h : pa.alloc pages = (pa', ptr)) (hptr : ptr ≠ 0) :
    pa'.totalPages = pa.totalPages ∧
      (∀ p, pa'.Clear p ↔ pa.Clear p ∧ ¬ InRange (ptr, pages) p) ∧
      ∀ p, InRange (ptr, pages) p → 1 ≤ p ∧ p < pa.totalPages.toNat ∧ pa.Clear p := by
  obtain ⟨i, -, addr, -, run, total, bits⟩ := alloc_success h hptr
  have first : ptr.toNat / 4096 = i := by omega
  refine ⟨total, fun p => by rw [bits, InRange, first], fun p hp => ?_⟩
  obtain ⟨low, high⟩ : i ≤ p ∧ p < i + pages.toNat := by rwa [InRange, first] at hp
  have := run.low
  have := run.high
  have clear := run.clear (p - i) (by omega)
  rw [Nat.add_sub_cancel' low] at clear
  exact ⟨by omega, by omega, clear⟩

/-- A release gives its range back. -/
theorem clear_free_range {pa : PageAllocator} {ptr pages : Word}
    (top : ptr.toNat / 4096 + pages.toNat ≤ 2 ^ 64) {p : Nat} :
    (pa.free ptr pages).Clear p ↔ pa.Clear p ∨ p < maxPages ∧ InRange (ptr, pages) p := by
  have first : (ptr / pageSize).toNat = ptr.toNat / 4096 := rfl
  rw [clear_free, PageAllocator.covers_iff (by rw [first]; exact top), first]
  rfl

/-- Who owns each page. -/
structure PageRunInv (map : List MemoryDescriptor) (s : PageRun) : Prop where
  clear : ∀ p < maxPages, s.pages.Clear p ↔
    Available map p ∧ ¬ s.Marked p ∧ ¬ ∃ a ∈ s.live, InRange a p
  disjoint : s.live.Pairwise fun a b => ∀ p, ¬ (InRange a p ∧ InRange b p)
  inside : ∀ a ∈ s.live, 1 ≤ a.1.toNat / 4096 ∧
    a.1.toNat / 4096 + a.2.toNat ≤ s.pages.totalPages.toNat
  owned : ∀ a ∈ s.live, ∀ p, InRange a p → Available map p ∧ ¬ s.Marked p

section Step

variable {map : List MemoryDescriptor} {s : PageRun}

theorem PageRunInv.markUsed (inv : PageRunInv map s) (none : s.live = []) (ptr pages : Word) :
    PageRunInv map (s.step (.markUsed ptr pages)) := by
  have live : (s.step (.markUsed ptr pages)).live = [] := none
  refine ⟨fun p hp => ?_, by simp [live], by simp [live], by simp [live]⟩
  have marks : (s.step (.markUsed ptr pages)).Marked p ↔
      Covers (ptr / pageSize) pages.toNat p ∨ s.Marked p := List.exists_mem_cons_iff _ _ _
  show (s.pages.markUsed ptr pages).Clear p ↔ _
  rw [clear_markUsed, inv.clear p hp, marks, live, none]
  simp only [hp, true_and, List.not_mem_nil, false_and, exists_false, not_false_eq_true, and_true,
    not_or, and_assoc]
  rw [and_comm (b := ¬ s.Marked p)]

theorem PageRunInv.alloc (inv : PageRunInv map s) (pages : Word) :
    PageRunInv map (s.step (.alloc pages)) := by
  rcases h : s.pages.alloc pages with ⟨pa, ptr⟩
  by_cases null : ptr = 0
  · -- nothing was allocated
    subst null
    obtain ⟨rfl, -⟩ := alloc_null h
    have same : s.step (.alloc pages) = s := by simp only [PageRun.step, h, if_true]
    rw [same]
    exact inv
  · obtain ⟨total, bits, range⟩ := alloc_range h null
    have step : s.step (.alloc pages) = { s with pages := pa, live := (ptr, pages) :: s.live } := by
      simp only [PageRun.step, h, null, if_false]
    rw [step]
    have avail : ∀ p, InRange (ptr, pages) p →
        Available map p ∧ ¬ s.Marked p ∧ ¬ ∃ a ∈ s.live, InRange a p := by
      intro p hp
      obtain ⟨-, below, clear⟩ := range p hp
      exact (inv.clear p (below.trans s.pages.bounded)).mp clear
    refine ⟨fun p hp => ?_, ?_, ?_, ?_⟩
    · show pa.Clear p ↔ Available map p ∧ ¬ s.Marked p ∧ ¬ ∃ a ∈ (ptr, pages) :: s.live, InRange a p
      rw [bits, inv.clear p hp, List.exists_mem_cons_iff, not_or, and_assoc, and_assoc,
        and_comm (a := ¬ InRange (ptr, pages) p)]
    · refine List.pairwise_cons.mpr ⟨fun b hb p both => ?_, inv.disjoint⟩
      exact (avail p both.1).2.2 ⟨b, hb, both.2⟩
    · refine List.forall_mem_cons.mpr ⟨?_, fun a ha => ?_⟩
      · obtain ⟨i, pos, addr, -, run, -, -⟩ := alloc_success h null
        have := run.low
        have := run.high
        simp only [total]
        omega
      · show _ ∧ _ ≤ pa.totalPages.toNat
        rw [total]
        exact inv.inside a ha
    · exact List.forall_mem_cons.mpr ⟨fun p hp => ⟨(avail p hp).1, (avail p hp).2.1⟩, inv.owned⟩

theorem PageRunInv.free (inv : PageRunInv map s) {ptr pages : Word}
    (live : (ptr, pages) ∈ s.live) : PageRunInv map (s.step (.free ptr pages)) := by
  have perm := List.perm_cons_erase live
  have sub : ∀ a ∈ s.live.erase (ptr, pages), a ∈ s.live := fun a => List.mem_of_mem_erase
  have symm : ∀ {a b : Word × Word}, (∀ p, ¬ (InRange a p ∧ InRange b p)) →
      ∀ p, ¬ (InRange b p ∧ InRange a p) := fun h p both => h p both.symm
  have apart := (perm.pairwise_iff symm).mp inv.disjoint
  obtain ⟨others, rest⟩ := List.pairwise_cons.mp apart
  have bounds := inv.inside _ live
  simp only at bounds
  have top := s.pages.totalPages.isLt
  refine ⟨fun p hp => ?_, rest, fun a ha => inv.inside a (sub a ha),
    fun a ha => inv.owned a (sub a ha)⟩
  show (s.pages.free ptr pages).Clear p ↔
    Available map p ∧ ¬ s.Marked p ∧ ¬ ∃ a ∈ s.live.erase (ptr, pages), InRange a p
  have held : (∃ a ∈ s.live, InRange a p) ↔
      InRange (ptr, pages) p ∨ ∃ a ∈ s.live.erase (ptr, pages), InRange a p := by
    simp only [perm.mem_iff, List.exists_mem_cons_iff]
  rw [clear_free_range (by omega), inv.clear p hp, held]
  constructor
  · rintro (⟨avail, unmarked, unheld⟩ | ⟨-, here⟩)
    · exact ⟨avail, unmarked, fun h => unheld (.inr h)⟩
    · obtain ⟨avail, unmarked⟩ := inv.owned _ live p here
      exact ⟨avail, unmarked, fun ⟨a, ha, h⟩ => others a ha p ⟨here, h⟩⟩
  · rintro ⟨avail, unmarked, unheld⟩
    by_cases here : InRange (ptr, pages) p
    · exact .inr ⟨hp, here⟩
    · exact .inl ⟨avail, unmarked, not_or.mpr ⟨here, unheld⟩⟩

end Step

/-- `PageRunInv` holds in every run over a well-placed map. -/
theorem pageRun_invariant {map : List MemoryDescriptor} (ok : ∀ d ∈ map, d.WellPlaced) :
    (PageRun.sys map).Invariant (PageRunInv map) := by
  refine TSys.Inductive.invariant ⟨?_, ?_⟩
  · rintro s rfl
    refine ⟨fun p hp => ?_, .nil, by simp, by simp⟩
    simp [clear_init hp ok, PageRun.Marked]
  · rintro s op s' inv ⟨allowed, rfl⟩
    cases op with
    | markUsed ptr pages => exact inv.markUsed allowed ptr pages
    | alloc pages => exact inv.alloc pages
    | free ptr pages => exact inv.free allowed

end Coolos
