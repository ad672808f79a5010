import Coolos.Kernel.PageAllocator

/-!
# Accesses to the bitmap (`memory.c`)

The functions of the page allocator once more, down to the loads and stores: each
records the index of the byte of `bitmap` it reads or writes. Page numbers are
`uint64_t` here and nothing is assumed of `total_pages`, so that indices wrap as the
source's do and `bitmap[(i + j) / 8]` may be any byte.
-/

namespace Coolos

open Lib

/-- `bitmap`, `total_pages`, and the bytes of `bitmap` accessed so far. -/
structure RawAllocator where
  bitmap : BitTable 8
  totalPages : Word
  accessed : List Nat

namespace RawAllocator

/-- The statics before `PageAllocator_Init`. -/
def zero : RawAllocator where
  bitmap := fun _ => 0
  totalPages := 0
  accessed := []

/-- `bitmap[page / 8] & (1 << (page % 8))`. -/
def readBit (pa : RawAllocator) (page : Word) : RawAllocator × Bool :=
  ({ pa with accessed := page.toNat / 8 :: pa.accessed }, pa.bitmap.testBit page.toNat)

/-- `bitmap[page / 8] |= (1 << (page % 8))`. -/
def setBit (pa : RawAllocator) (page : Word) : RawAllocator :=
  { pa with
    bitmap := pa.bitmap.setBit page.toNat
    accessed := page.toNat / 8 :: pa.accessed }

/-- `bitmap[page / 8] &= ~(1 << (page % 8))`. -/
def clearBit (pa : RawAllocator) (page : Word) : RawAllocator :=
  { pa with
    bitmap := pa.bitmap.clearBit page.toNat
    accessed := page.toNat / 8 :: pa.accessed }

/-- `bitmap[i] = 0xFF`. -/
def fillByte (pa : RawAllocator) (i : Nat) : RawAllocator :=
  { pa with
    bitmap := fun k => if k = i then 0xFF else pa.bitmap k
    accessed := i :: pa.accessed }

/-- `body` on each of `n` pages that is below `MAX_PAGES`. -/
def forPages (body : RawAllocator → Word → RawAllocator) (pa : RawAllocator) (startPage : Word) :
    Nat → RawAllocator
  | 0 => pa
  | i + 1 =>
      let pa := forPages body pa startPage i
      let page := startPage + loc i
      if page.toNat < maxPages then body pa page else pa

/-- The first loop of `PageAllocator_Init`, over `n` bytes. -/
def fill (pa : RawAllocator) : Nat → RawAllocator
  | 0 => pa
  | i + 1 => (fill pa i).fillByte i

/-- The body of the second loop of `PageAllocator_Init`. -/
def initEntry (pa : RawAllocator) (entry : MemoryDescriptor) : RawAllocator :=
  let lastPage :=
    (entry.physicalStart + entry.numberOfPages * pageSize + pageSize - 1) / pageSize
  let pa :=
    if pa.totalPages < lastPage ∧ lastPage.toNat < maxPages then
      { pa with totalPages := lastPage }
    else pa
  if PageAllocator.usable entry then
    forPages clearBit pa (entry.physicalStart / pageSize) entry.numberOfPages.toNat
  else pa

/-- `PageAllocator_Init`. -/
def init (pa : RawAllocator) (map : List MemoryDescriptor) : RawAllocator :=
  map.foldl initEntry (pa.fill (maxPages / 8))

/-- `PageAllocator_MarkUsed`. -/
def markUsed (pa : RawAllocator) (ptr pages : Word) : RawAllocator :=
  forPages setBit pa (ptr / pageSize) pages.toNat

/-- The inner loop of `PageAllocator_Alloc` from `j` on, with `n` turns left: how often
`found++` runs before a used page ends it. -/
def found (pa : RawAllocator) (i : Word) : Nat → Word → RawAllocator × Nat
  | 0, _ => (pa, 0)
  | n + 1, j =>
      let (pa, used) := pa.readBit (i + j)
      if used then (pa, 0)
      else
        let (pa, k) := found pa i n (j + 1)
        (pa, k + 1)

/-- The outer loop from `i` on, with `n` turns left. -/
def search (pa : RawAllocator) (pages : Word) : Nat → Word → RawAllocator × Option Word
  | 0, _ => (pa, none)
  | n + 1, i =>
      let (pa, k) := pa.found i pages.toNat 0
      if k = pages.toNat then (pa, some i) else search pa pages n (i + 1)

/-- "Mark as used". -/
def setPages (pa : RawAllocator) (i : Word) : Nat → RawAllocator
  | 0 => pa
  | j + 1 => (setPages pa i j).setBit (i + loc j)

/-- `PageAllocator_Alloc`. The outer loop runs while `i <= total_pages - pages`, from 1:
that difference is never the largest `uint64_t`, so it is the number of turns. -/
def alloc (pa : RawAllocator) (pages : Word) : RawAllocator × Word :=
  if pages = 0 ∨ pa.totalPages < pages then (pa, 0)
  else
    match search pa pages (pa.totalPages - pages).toNat 1 with
    | (pa, none) => (pa, 0)
    | (pa, some i) => (setPages pa i pages.toNat, i * pageSize)

/-- `PageAllocator_Free`. -/
def free (pa : RawAllocator) (ptr pages : Word) : RawAllocator :=
  forPages clearBit pa (ptr / pageSize) pages.toNat

end RawAllocator
end Coolos
