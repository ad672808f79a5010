import Coolos.Lib.Memory
import Coolos.Lib.PackedBits

/-!
# The physical page allocator (`memory.c`)

One bit for each page of the first 4 GiB, set when the page is used. The bitmap
and `total_pages` are the whole state. `total_pages` is only ever raised to a
page number below `MAX_PAGES`, which the type records: the sums `i + j` in
`PageAllocator_Alloc` index inside the bitmap.
-/

namespace Coolos

open Lib

/-- `PAGE_SIZE`. -/
def pageSize : Word := 4096

/-- `MAX_PAGES`. -/
def maxPages : Nat := 1024 * 1024

/-- `EFI_MEMORY_TYPE`. -/
inductive EfiMemoryType where
  | reservedMemoryType
  | loaderCode
  | loaderData
  | bootServicesCode
  | bootServicesData
  | runtimeServicesCode
  | runtimeServicesData
  | conventionalMemory
  | unusableMemory
  | acpiReclaimMemory
  | acpiMemoryNVS
  | memoryMappedIO
  | memoryMappedIOPortSpace
  | palCode
  | persistentMemory
  | maxMemoryType
  deriving DecidableEq

/-- The constant a type is declared as. -/
def EfiMemoryType.code (t : EfiMemoryType) : BitVec 32 := BitVec.ofNat 32 t.ctorIdx

/-- `EFI_MEMORY_DESCRIPTOR`, the fields that are read. -/
structure MemoryDescriptor where
  type : BitVec 32
  physicalStart : Word
  numberOfPages : Word

/-- The bitmap and `total_pages`. -/
structure PageAllocator where
  bitmap : BitTable 8
  totalPages : Word
  bounded : totalPages.toNat < maxPages

namespace PageAllocator

/-- The statics before `PageAllocator_Init`. -/
def zero : PageAllocator where
  bitmap := fun _ => 0
  totalPages := 0
  bounded := by decide

/-- The loop shared by `PageAllocator_Init`, `PageAllocator_MarkUsed` and
`PageAllocator_Free`: `body` on each of `n` pages that is below `MAX_PAGES`. -/
def forPages (body : BitTable 8 → Nat → BitTable 8) (t : BitTable 8) (startPage : Word) :
    Nat → BitTable 8
  | 0 => t
  | i + 1 =>
      let t := forPages body t startPage i
      let page := startPage + loc i
      if page.toNat < maxPages then body t page.toNat else t

/-- The types `PageAllocator_Init` hands to the allocator. -/
def usable (entry : MemoryDescriptor) : Prop :=
  entry.type = EfiMemoryType.conventionalMemory.code ∨
    entry.type = EfiMemoryType.bootServicesCode.code ∨
    entry.type = EfiMemoryType.bootServicesData.code

instance (entry : MemoryDescriptor) : Decidable (usable entry) :=
  inferInstanceAs (Decidable (_ ∨ _))

/-- The body of `PageAllocator_Init`'s loop. -/
def initEntry (pa : PageAllocator) (entry : MemoryDescriptor) : PageAllocator :=
  let lastPage :=
    (entry.physicalStart + entry.numberOfPages * pageSize + pageSize - 1) / pageSize
  let pa : PageAllocator :=
    if h : pa.totalPages < lastPage ∧ lastPage.toNat < maxPages then
      { pa with totalPages := lastPage, bounded := h.2 }
    else pa
  if usable entry then
    { pa with
      bitmap := forPages BitTable.clearBit pa.bitmap (entry.physicalStart / pageSize)
        entry.numberOfPages.toNat }
  else pa

/-- `PageAllocator_Init`. The map is the list of descriptors the walk by
`desc_size` meets. -/
def init (pa : PageAllocator) (map : List MemoryDescriptor) : PageAllocator :=
  map.foldl initEntry { pa with bitmap := fun i => if i < maxPages / 8 then 0xFF else pa.bitmap i }

/-- `PageAllocator_MarkUsed`. -/
def markUsed (pa : PageAllocator) (ptr pages : Word) : PageAllocator :=
  { pa with bitmap := forPages BitTable.setBit pa.bitmap (ptr / pageSize) pages.toNat }

/-- The inner loop of `PageAllocator_Alloc`: how many of the `n` pages from `p`
on are clear before one is used. -/
def found (t : BitTable 8) (p : Nat) : Nat → Nat
  | 0 => 0
  | n + 1 => if t.testBit p then 0 else found t (p + 1) n + 1

/-- The outer loop: the first of `n` candidates from `i` on. -/
def search (t : BitTable 8) (pages : Nat) : Nat → Nat → Option Nat
  | 0, _ => none
  | n + 1, i => if found t i pages = pages then some i else search t pages n (i + 1)

/-- "Mark as used". -/
def setPages (t : BitTable 8) (i : Nat) : Nat → BitTable 8
  | 0 => t
  | j + 1 => (setPages t i j).setBit (i + j)

/-- `PageAllocator_Alloc`: the new state and the address, 0 for `NULL`. -/
def alloc (pa : PageAllocator) (pages : Word) : PageAllocator × Word :=
  if pages = 0 ∨ pa.totalPages < pages then (pa, 0)
  else
    match search pa.bitmap pages.toNat (pa.totalPages - pages).toNat 1 with
    | none => (pa, 0)
    | some i => ({ pa with bitmap := setPages pa.bitmap i pages.toNat }, loc i * pageSize)

/-- `PageAllocator_Free`. -/
def free (pa : PageAllocator) (ptr pages : Word) : PageAllocator :=
  { pa with bitmap := forPages BitTable.clearBit pa.bitmap (ptr / pageSize) pages.toNat }

end PageAllocator
end Coolos
