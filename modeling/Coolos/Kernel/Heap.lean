import Coolos.Lib.Memory

/-!
# The kernel heap (`heap.c`)

Blocks are 32-byte headers in memory, linked both ways in address order, each
followed by its payload. The functions here act on the header bytes exactly as
the source does, field by field and in its order; every access goes through
the current memory, so aliasing headers behave as they would on the machine.

`kmalloc` walks the list. The walk gets one unit of fuel for each address, so
running out of it (`none`) is a walk round a cycle, which in the source never
returns.
-/

namespace Coolos

open Lib

/-- `sizeof(HeapBlock)`. -/
def sizeofHeapBlock : Word := 32

/-- The fields of a block header. -/
structure HeapBlock where
  size : Word
  next : Word
  prev : Word
  free : BitVec 32
  deriving DecidableEq

namespace HeapBlock

/-- The header at `p`: `size`, `next` and `prev` are 8 bytes each, `free` is a
4-byte `int` followed by padding. -/
def read (m : Mem) (p : Word) : HeapBlock where
  size := m.read64 p
  next := m.read64 (p + 8)
  prev := m.read64 (p + 16)
  free := m.read32 (p + 24)

def setSize (m : Mem) (p v : Word) : Mem := m.write64 p v
def setNext (m : Mem) (p v : Word) : Mem := m.write64 (p + 8) v
def setPrev (m : Mem) (p v : Word) : Mem := m.write64 (p + 16) v
def setFree (m : Mem) (p : Word) (v : BitVec 32) : Mem := m.write32 (p + 24) v

end HeapBlock

open HeapBlock

/-- The heap: the bytes of its arena and the list head `free_list`. -/
structure Heap where
  mem : Mem
  freeList : Word

namespace Heap

/-- `Heap_Init`: one free block spans the region. -/
def init (m : Mem) (start size : Word) : Heap :=
  let m := setSize m start (size - sizeofHeapBlock)
  let m := setNext m start 0
  let m := setPrev m start 0
  let m := setFree m start 1
  { mem := m, freeList := start }

/-- The body of `kmalloc`'s search loop for the block it settles on: split off
the rest when a header and 16 more bytes fit behind the request, then mark the
block used. The sum in the test wraps as `size_t` does. -/
def take (m : Mem) (current size : Word) : Mem :=
  let m :=
    if size + sizeofHeapBlock + 16 ≤ (read m current).size then
      let next := current + sizeofHeapBlock + size
      let m := setSize m next ((read m current).size - size - sizeofHeapBlock)
      let m := setNext m next (read m current).next
      let m := setPrev m next current
      let m := setFree m next 1
      let m := if (read m next).next ≠ 0 then setPrev m (read m next).next next else m
      let m := setSize m current size
      setNext m current next
    else m
  setFree m current 0

/-- `kmalloc`'s first-fit search from `current`. -/
def search (m : Mem) (size : Word) : Nat → Word → Option Word
  | 0, _ => none
  | fuel + 1, current =>
      if current = 0 then some 0
      else if (read m current).free ≠ 0 ∧ size ≤ (read m current).size then some current
      else search m size fuel (read m current).next

/-- `kmalloc`: the new heap and the payload address, 0 for `NULL`. -/
def kmalloc (h : Heap) (size : Word) : Option (Heap × Word) :=
  match search h.mem size (2 ^ 64) h.freeList with
  | none => none
  | some current =>
      if current = 0 then some (h, 0)
      else some ({ h with mem := take h.mem current size }, current + sizeofHeapBlock)

/-- "Coalesce with next". -/
def coalesceNext (m : Mem) (block : Word) : Mem :=
  if (read m block).next ≠ 0 ∧ (read m (read m block).next).free ≠ 0 then
    let m := setSize m block
      ((read m block).size + ((read m (read m block).next).size + sizeofHeapBlock))
    let m := setNext m block (read m (read m block).next).next
    if (read m block).next ≠ 0 then setPrev m (read m block).next block else m
  else m

/-- "Coalesce with prev". -/
def coalescePrev (m : Mem) (block : Word) : Mem :=
  if (read m block).prev ≠ 0 ∧ (read m (read m block).prev).free ≠ 0 then
    let m := setSize m (read m block).prev
      ((read m (read m block).prev).size + ((read m block).size + sizeofHeapBlock))
    let m := setNext m (read m block).prev (read m block).next
    if (read m block).next ≠ 0 then setPrev m (read m block).next (read m block).prev else m
  else m

/-- `kfree`. -/
def kfree (h : Heap) (ptr : Word) : Heap :=
  if ptr = 0 then h
  else
    let block := ptr - sizeofHeapBlock
    let m := setFree h.mem block 1
    let m := coalesceNext m block
    let m := coalescePrev m block
    { h with mem := m }

/-- The address `kmalloc_aligned` returns for the raw block at `raw`: room for
one more header, rounded up. -/
def alignedAddr (raw alignment : Word) : Word :=
  (raw + sizeofHeapBlock + alignment - 1) &&& ~~~(alignment - 1)

/-- The split in `kmalloc_aligned`: the aligned block takes the tail of the
original one, whose rest becomes free padding. -/
def splitAligned (m : Mem) (originalBlock alignedBlock : Word) : Mem :=
  let m := setSize m alignedBlock
    ((read m originalBlock).size - (alignedBlock - originalBlock))
  let m := setNext m alignedBlock (read m originalBlock).next
  let m := setPrev m alignedBlock originalBlock
  let m := setFree m alignedBlock 0
  let m := if (read m alignedBlock).next ≠ 0 then
      setPrev m (read m alignedBlock).next alignedBlock
    else m
  let m := setSize m originalBlock (alignedBlock - originalBlock - sizeofHeapBlock)
  let m := setNext m originalBlock alignedBlock
  setFree m originalBlock 1

/-- `kmalloc_aligned`. -/
def kmallocAligned (h : Heap) (size alignment : Word) : Option (Heap × Word) :=
  if alignment ≤ 16 then kmalloc h size
  else
    match kmalloc h (size + alignment + sizeofHeapBlock) with
    | none => none
    | some (h, ptr) =>
        if ptr = 0 then some (h, 0)
        else
          let alignedAddr := alignedAddr ptr alignment
          let originalBlock := ptr - sizeofHeapBlock
          let alignedBlock := alignedAddr - sizeofHeapBlock
          if alignedBlock ≠ originalBlock then
            let h := { h with mem := splitAligned h.mem originalBlock alignedBlock }
            some (kfree h (originalBlock + sizeofHeapBlock), alignedAddr)
          else some (h, alignedAddr)

end Heap
end Coolos
