import Coolos.Kernel.Syscall

/-!
# Stores of the heap (`heap.c`)

The functions that `SYSCALL_KMALLOC` and `SYSCALL_KFREE` call once more, recording where
they store. They take what they find for the header of a block, wherever it lies.
-/

namespace Coolos

open Lib HeapBlock

/-- Memory, and the address and size of each store so far. -/
structure RawHeap where
  mem : Mem
  stores : List (Word × Nat)

namespace RawHeap

def setSize (h : RawHeap) (p v : Word) : RawHeap :=
  ⟨HeapBlock.setSize h.mem p v, (p, 8) :: h.stores⟩

def setNext (h : RawHeap) (p v : Word) : RawHeap :=
  ⟨HeapBlock.setNext h.mem p v, (p + 8, 8) :: h.stores⟩

def setPrev (h : RawHeap) (p v : Word) : RawHeap :=
  ⟨HeapBlock.setPrev h.mem p v, (p + 16, 8) :: h.stores⟩

def setFree (h : RawHeap) (p : Word) (v : BitVec 32) : RawHeap :=
  ⟨HeapBlock.setFree h.mem p v, (p + 24, 4) :: h.stores⟩

/-- The header at `p`. -/
def block (h : RawHeap) (p : Word) : HeapBlock := read h.mem p

/-- The body of `kmalloc`'s search loop for the block it settles on. -/
def take (h : RawHeap) (current size : Word) : RawHeap :=
  let h :=
    if size + sizeofHeapBlock + 16 ≤ (h.block current).size then
      let next := current + sizeofHeapBlock + size
      let h := h.setSize next ((h.block current).size - size - sizeofHeapBlock)
      let h := h.setNext next (h.block current).next
      let h := h.setPrev next current
      let h := h.setFree next 1
      let h := if (h.block next).next ≠ 0 then h.setPrev (h.block next).next next else h
      let h := h.setSize current size
      h.setNext current next
    else h
  h.setFree current 0

/-- `kmalloc`. -/
def kmalloc (h : RawHeap) (freeList size : Word) : Option (RawHeap × Word) :=
  match Heap.search h.mem size (2 ^ 64) freeList with
  | none => none
  | some current =>
      if current = 0 then some (h, 0) else some (h.take current size, current + sizeofHeapBlock)

/-- "Coalesce with next". -/
def coalesceNext (h : RawHeap) (block : Word) : RawHeap :=
  if (h.block block).next ≠ 0 ∧ (h.block (h.block block).next).free ≠ 0 then
    let h := h.setSize block
      ((h.block block).size + ((h.block (h.block block).next).size + sizeofHeapBlock))
    let h := h.setNext block (h.block (h.block block).next).next
    if (h.block block).next ≠ 0 then h.setPrev (h.block block).next block else h
  else h

/-- "Coalesce with prev". -/
def coalescePrev (h : RawHeap) (block : Word) : RawHeap :=
  if (h.block block).prev ≠ 0 ∧ (h.block (h.block block).prev).free ≠ 0 then
    let h := h.setSize (h.block block).prev
      ((h.block (h.block block).prev).size + ((h.block block).size + sizeofHeapBlock))
    let h := h.setNext (h.block block).prev (h.block block).next
    if (h.block block).next ≠ 0 then h.setPrev (h.block block).next (h.block block).prev else h
  else h

/-- `kfree`. -/
def kfree (h : RawHeap) (ptr : Word) : RawHeap :=
  if ptr = 0 then h
  else
    let block := ptr - sizeofHeapBlock
    ((h.setFree block 1).coalesceNext block).coalescePrev block

end RawHeap

/-- Where system call `n` has the heap functions store. -/
def Kernel.heapStores (k : Kernel) (n a1 : Word) : List (Word × Nat) :=
  let h : RawHeap := ⟨k.heap.mem, []⟩
  if n = syscallKmalloc then
    match h.kmalloc k.heap.freeList a1 with
    | none => []
    | some (h, ptr) => (h.kfree ptr).stores
  else if n = syscallKfree then (h.kfree a1).stores
  else []

end Coolos
