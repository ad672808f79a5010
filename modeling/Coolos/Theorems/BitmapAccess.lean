import Coolos.Kernel.BitmapAccess
import Coolos.Logic.PageRun

/-!
# Every access to the bitmap is in range

The functions that record their accesses do what the page allocator does, whose
`total_pages` is below `MAX_PAGES` by construction. From that bound every sum `i + j`
in `PageAllocator_Alloc` is a page below `MAX_PAGES`; the other functions check theirs.
-/

namespace Coolos.Theorems

open Lib

/-- The statics `raw` are the allocator `pa`, and so far every access was in range. -/
structure Shows (raw : RawAllocator) (pa : PageAllocator) : Prop where
  bitmap : raw.bitmap = pa.bitmap
  totalPages : raw.totalPages = pa.totalPages
  within : ∀ b ∈ raw.accessed, b < maxPages / 8

theorem byte_lt {p : Nat} (h : p < maxPages) : p / 8 < maxPages / 8 := by
  have small : maxPages = 1048576 := rfl
  omega

namespace Shows

variable {raw : RawAllocator} {pa : PageAllocator}

/-! ## One bit -/

theorem readBit (shows : Shows raw pa) {page : Word} (inside : page.toNat < maxPages) :
    Shows (raw.readBit page).1 pa ∧
      (raw.readBit page).2 = pa.bitmap.testBit page.toNat := by
  refine ⟨⟨shows.bitmap, shows.totalPages, ?_⟩, congrArg (BitTable.testBit · _) shows.bitmap⟩
  exact List.forall_mem_cons.mpr ⟨byte_lt inside, shows.within⟩

theorem setBit (shows : Shows raw pa) {page : Word} (inside : page.toNat < maxPages) :
    Shows (raw.setBit page) { pa with bitmap := pa.bitmap.setBit page.toNat } := by
  refine ⟨congrArg (BitTable.setBit · _) shows.bitmap, shows.totalPages, ?_⟩
  exact List.forall_mem_cons.mpr ⟨byte_lt inside, shows.within⟩

theorem clearBit (shows : Shows raw pa) {page : Word} (inside : page.toNat < maxPages) :
    Shows (raw.clearBit page) { pa with bitmap := pa.bitmap.clearBit page.toNat } := by
  refine ⟨congrArg (BitTable.clearBit · _) shows.bitmap, shows.totalPages, ?_⟩
  exact List.forall_mem_cons.mpr ⟨byte_lt inside, shows.within⟩

/-! ## The loops -/

/-- A loop whose body is checked against `MAX_PAGES`. -/
theorem forPages (shows : Shows raw pa) {body : RawAllocator → Word → RawAllocator}
    {change : BitTable 8 → Nat → BitTable 8}
    (one : ∀ {raw : RawAllocator} {pa : PageAllocator} {page : Word}, Shows raw pa →
      page.toNat < maxPages →
      Shows (body raw page) { pa with bitmap := change pa.bitmap page.toNat })
    (startPage : Word) (n : Nat) :
    Shows (raw.forPages body startPage n)
      { pa with bitmap := PageAllocator.forPages change pa.bitmap startPage n } := by
  induction n with
  | zero => exact shows
  | succ n ih =>
      rw [RawAllocator.forPages, PageAllocator.forPages]
      by_cases inside : (startPage + loc n).toNat < maxPages
      · rw [if_pos inside, if_pos inside]
        exact one ih inside
      · rw [if_neg inside, if_neg inside]
        exact ih

theorem setPages (shows : Shows raw pa) {i : Word} (n : Nat) (inside : i.toNat + n ≤ maxPages) :
    Shows (raw.setPages i n)
      { pa with bitmap := PageAllocator.setPages pa.bitmap i.toNat n } := by
  have small : maxPages = 1048576 := rfl
  induction n with
  | zero => exact shows
  | succ n ih =>
      have page : (i + loc n).toNat = i.toNat + n := by
        rw [BitVec.toNat_add, toNat_loc (by omega)]
        omega
      have one := (ih (by omega)).setBit (show (i + loc n).toNat < maxPages by omega)
      rw [page] at one
      exact one

theorem found {i : Word} (n : Nat) : ∀ {raw : RawAllocator} {j : Word}, Shows raw pa →
    i.toNat + j.toNat + n ≤ maxPages →
    Shows (raw.found i n j).1 pa ∧
      (raw.found i n j).2 = PageAllocator.found pa.bitmap (i.toNat + j.toNat) n := by
  have small : maxPages = 1048576 := rfl
  induction n with
  | zero => intro raw j shows inside; exact ⟨shows, rfl⟩
  | succ n ih =>
      intro raw j shows inside
      have page : (i + j).toNat = i.toNat + j.toNat := by
        rw [BitVec.toNat_add]
        omega
      have next : (j + 1).toNat = j.toNat + 1 := by
        rw [BitVec.toNat_add, show (1 : Word).toNat = 1 from rfl]
        omega
      obtain ⟨read, bit⟩ := shows.readBit (show (i + j).toNat < maxPages by omega)
      obtain ⟨rest, count⟩ := ih (j := j + 1) read (by omega)
      rw [page] at bit
      rw [next, ← Nat.add_assoc] at count
      simp only [RawAllocator.found, PageAllocator.found, bit]
      by_cases used : pa.bitmap.testBit (i.toNat + j.toNat) = true
      · rw [if_pos used, if_pos used]
        exact ⟨read, rfl⟩
      · rw [if_neg used, if_neg used]
        exact ⟨rest, congrArg (· + 1) count⟩

theorem search {pages : Word} (n : Nat) : ∀ {raw : RawAllocator} {i : Word}, Shows raw pa →
    i.toNat + n + pages.toNat ≤ maxPages + 1 →
    Shows (raw.search pages n i).1 pa ∧
      (raw.search pages n i).2.map BitVec.toNat =
        PageAllocator.search pa.bitmap pages.toNat n i.toNat := by
  have small : maxPages = 1048576 := rfl
  induction n with
  | zero => intro raw i shows inside; exact ⟨shows, rfl⟩
  | succ n ih =>
      intro raw i shows inside
      have next : (i + 1).toNat = i.toNat + 1 := by
        rw [BitVec.toNat_add, show (1 : Word).toNat = 1 from rfl]
        omega
      obtain ⟨read, count⟩ := found (i := i) (j := 0) pages.toNat shows
        (show i.toNat + 0 + pages.toNat ≤ maxPages by omega)
      rw [show (0 : Word).toNat = 0 from rfl, Nat.add_zero] at count
      obtain ⟨rest, place⟩ := ih (i := i + 1) read (by omega)
      rw [next] at place
      simp only [RawAllocator.search, PageAllocator.search, count]
      by_cases all : PageAllocator.found pa.bitmap i.toNat pages.toNat = pages.toNat
      · rw [if_pos all, if_pos all]
        exact ⟨read, rfl⟩
      · rw [if_neg all, if_neg all]
        exact ⟨rest, place⟩

/-! ## The functions -/

theorem fill (shows : Shows raw pa) (n : Nat) (inside : n ≤ maxPages / 8) :
    Shows (raw.fill n)
      { pa with bitmap := fun i => if i < n then 0xFF else pa.bitmap i } := by
  induction n with
  | zero => exact shows
  | succ n ih =>
      have before := ih (by omega)
      refine ⟨?_, before.totalPages, List.forall_mem_cons.mpr ⟨inside, before.within⟩⟩
      funext i
      show (if i = n then 0xFF else (raw.fill n).bitmap i) = if i < n + 1 then 0xFF else _
      rw [before.bitmap]
      by_cases last : i = n
      · rw [if_pos last, if_pos (by omega)]
      · rw [if_neg last]
        exact if_congr (by omega) rfl rfl

/-- `total_pages` is raised to `lastPage` if that is below `MAX_PAGES`. -/
theorem raise (shows : Shows raw pa) (lastPage : Word) :
    Shows
      (if raw.totalPages < lastPage ∧ lastPage.toNat < maxPages then
        { raw with totalPages := lastPage } else raw)
      (if h : pa.totalPages < lastPage ∧ lastPage.toNat < maxPages then
        { pa with totalPages := lastPage, bounded := h.2 } else pa) := by
  rw [shows.totalPages]
  by_cases more : pa.totalPages < lastPage ∧ lastPage.toNat < maxPages
  · rw [if_pos more, dif_pos more]
    exact ⟨shows.bitmap, rfl, shows.within⟩
  · rw [if_neg more, dif_neg more]
    exact shows

theorem initEntry (shows : Shows raw pa) (entry : MemoryDescriptor) :
    Shows (raw.initEntry entry) (PageAllocator.initEntry pa entry) := by
  have first := shows.raise
    ((entry.physicalStart + entry.numberOfPages * pageSize + pageSize - 1) / pageSize)
  unfold RawAllocator.initEntry PageAllocator.initEntry
  by_cases use : PageAllocator.usable entry
  · rw [if_pos use, if_pos use]
    exact first.forPages (fun shows inside => shows.clearBit inside) _ _
  · rw [if_neg use, if_neg use]
    exact first

theorem init (shows : Shows raw pa) (map : List MemoryDescriptor) :
    Shows (raw.init map) (pa.init map) := by
  have entries : ∀ {raw pa}, Shows raw pa →
      Shows (map.foldl RawAllocator.initEntry raw) (map.foldl PageAllocator.initEntry pa) := by
    induction map with
    | nil => intro raw pa shows; exact shows
    | cons entry map ih => intro raw pa shows; exact ih (shows.initEntry entry)
  have filled := shows.fill (maxPages / 8) (Nat.le_refl _)
  exact entries filled

theorem markUsed (shows : Shows raw pa) (ptr pages : Word) :
    Shows (raw.markUsed ptr pages) (pa.markUsed ptr pages) :=
  shows.forPages (fun shows inside => shows.setBit inside) _ _

theorem free (shows : Shows raw pa) (ptr pages : Word) :
    Shows (raw.free ptr pages) (pa.free ptr pages) :=
  shows.forPages (fun shows inside => shows.clearBit inside) _ _

theorem alloc (shows : Shows raw pa) (pages : Word) :
    Shows (raw.alloc pages).1 (pa.alloc pages).1 ∧ (raw.alloc pages).2 = (pa.alloc pages).2 := by
  have small : maxPages = 1048576 := rfl
  have bound := pa.bounded
  unfold RawAllocator.alloc PageAllocator.alloc
  rw [shows.totalPages]
  by_cases fails : pages = 0 ∨ pa.totalPages < pages
  · rw [if_pos fails, if_pos fails]
    exact ⟨shows, rfl⟩
  · rw [if_neg fails, if_neg fails]
    have less : pages.toNat ≤ pa.totalPages.toNat := by
      rw [not_or, BitVec.lt_def] at fails
      omega
    have turns : (pa.totalPages - pages).toNat = pa.totalPages.toNat - pages.toNat :=
      BitVec.toNat_sub_of_le (BitVec.le_def.mpr less)
    -- the last candidate and its pages end at `total_pages`
    have last : 1 + (pa.totalPages - pages).toNat + pages.toNat ≤ maxPages + 1 := by omega
    obtain ⟨rest, place⟩ := search (i := 1) (pa.totalPages - pages).toNat shows last
    rw [show (1 : Word).toNat = 1 from rfl] at place
    generalize raw.search pages (pa.totalPages - pages).toNat 1 = result at rest place
    obtain ⟨raw', found⟩ := result
    cases found with
    | none =>
        rw [← place]
        exact ⟨rest, rfl⟩
    | some i =>
        have here := place.symm
        rw [Option.map_some] at here
        have inside : i.toNat + pages.toNat ≤ maxPages := by
          rcases @PageAllocator.search_spec pa.bitmap pages.toNat
            (pa.totalPages - pages).toNat 1 with ⟨k, hit, -, high, -⟩ | ⟨miss, -⟩
          · obtain rfl := Option.some.inj (here.symm.trans hit)
            omega
          · rw [here] at miss
            cases miss
        rw [here]
        refine ⟨rest.setPages _ inside, ?_⟩
        show i * pageSize = loc i.toNat * pageSize
        rw [loc_toNat]

end Shows

/-! ## Runs -/

/-- A call of the allocator. -/
def rawStep (s : RawAllocator) : PageOp → RawAllocator
  | .markUsed ptr pages => s.markUsed ptr pages
  | .alloc pages => (s.alloc pages).1
  | .free ptr pages => s.free ptr pages

/-- Calls with any arguments after `PageAllocator_Init` on any map. -/
def rawSys (map : List MemoryDescriptor) : TSys RawAllocator PageOp where
  init s := s = RawAllocator.zero.init map
  next s op s' := rawStep s op = s'

theorem shows_invariant (map : List MemoryDescriptor) :
    (rawSys map).Invariant fun s => ∃ pa, Shows s pa := by
  apply TSys.Inductive.invariant
  constructor
  · rintro s rfl
    have statics : Shows RawAllocator.zero PageAllocator.zero :=
      ⟨rfl, rfl, fun b hb => absurd hb List.not_mem_nil⟩
    exact ⟨_, statics.init map⟩
  · rintro s op s' ⟨pa, shows⟩ rfl
    cases op with
    | markUsed ptr pages => exact ⟨_, shows.markUsed ptr pages⟩
    | alloc pages => exact ⟨_, (shows.alloc pages).1⟩
    | free ptr pages => exact ⟨_, shows.free ptr pages⟩

/-- For any map and any calls, `total_pages` stays below `MAX_PAGES` and every byte of
the bitmap that is read or written exists. -/
theorem bitmap_accesses_in_range (map : List MemoryDescriptor) :
    (rawSys map).Invariant fun s =>
      s.totalPages.toNat < maxPages ∧ ∀ b ∈ s.accessed, b < maxPages / 8 := by
  intro s hs
  obtain ⟨pa, shows⟩ := shows_invariant map s hs
  refine ⟨?_, shows.within⟩
  rw [shows.totalPages]
  exact pa.bounded

end Coolos.Theorems
