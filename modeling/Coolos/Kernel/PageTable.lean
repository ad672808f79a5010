import Coolos.Kernel.State

/-!
# Page tables (`memory.c`)

Tables are pages of 512 entries in memory, reached by their physical address. A
failed allocation comes back as the address 0 and is used as a table like any
other, as in the source.
-/

namespace Coolos

open Lib

/-- `PAGE_PRESENT`. -/
def pagePresent : Word := 1
/-- `PAGE_WRITABLE`. -/
def pageWritable : Word := 2
/-- `PAGE_USER`. -/
def pageUser : Word := 4

/-- `&table->entries[index]`. -/
def entryAddr (table index : Word) : Word := table + 8 * index

/-- `pml4_idx`, `pdp_idx`, `pd_idx` and `pt_idx`. -/
def pml4Idx (v : Word) : Word := (v >>> 39) &&& 0x1FF
def pdpIdx (v : Word) : Word := (v >>> 30) &&& 0x1FF
def pdIdx (v : Word) : Word := (v >>> 21) &&& 0x1FF
def ptIdx (v : Word) : Word := (v >>> 12) &&& 0x1FF

/-- "Clear new table", the first `n` entries. -/
def clearTable (m : Mem) (table : Word) : Nat → Mem
  | 0 => m
  | i + 1 => (clearTable m table i).write64 (entryAddr table (loc i)) 0

namespace Kernel

/-- `GetOrCreateTable`. -/
def getOrCreateTable (k : Kernel) (table index : Word) : Kernel × Word :=
  if k.mem.read64 (entryAddr table index) &&& pagePresent ≠ 0 then
    (k, k.mem.read64 (entryAddr table index) &&& ~~~0xFFF)
  else
    let (pages, newTable) := k.pages.alloc 1
    let k := { k with pages := pages }
    if newTable = 0 then (k, 0)
    else
      let m := clearTable k.mem newTable 512
      let m := m.write64 (entryAddr table index)
        (newTable ||| pagePresent ||| pageWritable ||| pageUser)
      ({ k with mem := m }, newTable)

/-- `PageTable_Map`. -/
def pageTableMap (k : Kernel) (pml4 virt phys flags : Word) : Kernel :=
  let (k, pdp) := k.getOrCreateTable pml4 (pml4Idx virt)
  let (k, pd) := k.getOrCreateTable pdp (pdpIdx virt)
  let (k, pt) := k.getOrCreateTable pd (pdIdx virt)
  { k with mem := k.mem.write64 (entryAddr pt (ptIdx virt)) (phys ||| flags ||| pagePresent) }

/-- `PageTable_UnMap`. `invlpg` changes no memory. -/
def pageTableUnMap (k : Kernel) (pml4 virt : Word) : Kernel :=
  let pml4Entry := k.mem.read64 (entryAddr pml4 (pml4Idx virt))
  if pml4Entry &&& pagePresent = 0 then k
  else
    let pdp := pml4Entry &&& ~~~0xFFF
    let pdpEntry := k.mem.read64 (entryAddr pdp (pdpIdx virt))
    if pdpEntry &&& pagePresent = 0 then k
    else
      let pd := pdpEntry &&& ~~~0xFFF
      let pdEntry := k.mem.read64 (entryAddr pd (pdIdx virt))
      if pdEntry &&& pagePresent = 0 then k
      else
        let pt := pdEntry &&& ~~~0xFFF
        { k with mem := k.mem.write64 (entryAddr pt (ptIdx virt)) 0 }

end Kernel
end Coolos
