import Coolos.Kernel.Entry
import Coolos.Lib.Segment

/-!
# The global descriptor table (`gdt.c`)

Seven entries of eight bytes: the null descriptor, two segments of the kernel, two of the
user, and the task state segment, which takes two. The task state segment is there for one
word, `rsp0`.
-/

namespace Coolos

open Lib Lib.X86

/-- `GDTEntry`. -/
structure GDTEntry where
  limitLow : BitVec 16
  baseLow : BitVec 16
  baseMiddle : BitVec 8
  access : BitVec 8
  granularity : BitVec 8
  baseHigh : BitVec 8
  deriving DecidableEq

/-- The eight bytes of an entry, the first field lowest. -/
def GDTEntry.word (e : GDTEntry) : Word :=
  e.baseHigh ++ (e.granularity ++ (e.access ++ (e.baseMiddle ++ (e.baseLow ++ e.limitLow))))

/-- The entry that lies over eight bytes. -/
def GDTEntry.ofWord (w : Word) : GDTEntry where
  limitLow := w.extractLsb' 0 16
  baseLow := w.extractLsb' 16 16
  baseMiddle := w.extractLsb' 32 8
  access := w.extractLsb' 40 8
  granularity := w.extractLsb' 48 8
  baseHigh := w.extractLsb' 56 8

/-- `gdt`. Only entries 0 to 6 exist. -/
abbrev Gdt : Type := Nat → GDTEntry

/-- `TSS_SEL` of `gdt.h`. -/
def tssSel : BitVec 16 := 0x28

/-- `TSS`. -/
structure TSS where
  reserved1 : BitVec 32
  rsp0 : Word
  rsp1 : Word
  rsp2 : Word
  reserved2 : Word
  ist1 : Word
  ist2 : Word
  ist3 : Word
  ist4 : Word
  ist5 : Word
  ist6 : Word
  ist7 : Word
  reserved3 : Word
  reserved4 : BitVec 16
  iomapBase : BitVec 16
  deriving DecidableEq

namespace TSS

/-- `sizeof(TSS)`. -/
def size : Nat := 104

/-- The bytes of the segment, the first field lowest. -/
def bytes (t : TSS) : BitVec (8 * size) :=
  t.iomapBase ++ (t.reserved4 ++ (t.reserved3 ++ (t.ist7 ++ (t.ist6 ++ (t.ist5 ++ (t.ist4 ++
    (t.ist3 ++ (t.ist2 ++ (t.ist1 ++ (t.reserved2 ++ (t.rsp2 ++ (t.rsp1 ++ (t.rsp0 ++
      t.reserved1)))))))))))))

/-- `memset(&tss, 0, sizeof(TSS))`. -/
def zero : TSS := ⟨0, 0, 0, 0, 0, 0, 0, 0, 0, 0, 0, 0, 0, 0, 0⟩

/-- `TSS_SetStack`. -/
def setStack (t : TSS) (kstack : Word) : TSS := { t with rsp0 := kstack }

end TSS

namespace Gdt

/-- `GDT_SetEntry`. -/
def setEntry (gdt : Gdt) (index : Nat) (base limit : BitVec 32) (access gran : BitVec 8) : Gdt :=
  Function.update gdt index
    { baseLow := (base &&& 0xFFFF).truncate 16
      baseMiddle := ((base >>> 16) &&& 0xFF).truncate 8
      baseHigh := ((base >>> 24) &&& 0xFF).truncate 8
      limitLow := (limit &&& 0xFFFF).truncate 16
      granularity := ((limit >>> 16) &&& 0x0F).truncate 8 ||| (gran &&& 0xF0)
      access := access }

/-- `GDT_SetSystemEntry`. `SystemSegmentHigh` is the upper half of the base and a reserved
word, laid over the next entry. -/
def setSystemEntry (gdt : Gdt) (index : Nat) (base : Word) (limit : BitVec 32)
    (access gran : BitVec 8) : Gdt :=
  let gdt := gdt.setEntry index (base.truncate 32) limit access gran
  let baseHigh : BitVec 32 := (base >>> 32).truncate 32
  let reserved : BitVec 32 := 0
  Function.update gdt (index + 1) (.ofWord (reserved ++ baseHigh))

/-- What `GDT_Init` does to the two statics, for a `tss` at `tssAddr`. -/
def init (gdt : Gdt) (tssAddr : Word) : Gdt × TSS :=
  let tss := { TSS.zero with iomapBase := BitVec.ofNat 16 TSS.size }
  let gdt := gdt.setEntry 0 0 0 0 0
  let gdt := gdt.setEntry 1 0 0xFFFFFFFF 0x9A 0xAF
  let gdt := gdt.setEntry 2 0 0xFFFFFFFF 0x92 0xCF
  let gdt := gdt.setEntry 3 0 0xFFFFFFFF 0xF2 0xCF
  let gdt := gdt.setEntry 4 0 0xFFFFFFFF 0xFA 0xAF
  let gdt := gdt.setSystemEntry 5 tssAddr (BitVec.ofNat 32 (TSS.size - 1)) 0x89 0x00
  (gdt, tss)

/-- What the processor reads in the table. -/
def table (gdt : Gdt) (i : Nat) : Word := (gdt i).word

end Gdt

/-- `GDT_Init` loads the segment registers. Of the bases only that of GS is used later, and
the descriptor loaded makes it 0. -/
def Machine.gdtInit (m : Machine) : Machine :=
  { m with
    cpu := { m.cpu with
      cs := kernelCodeSel.truncate 16, ss := kernelDataSel.truncate 16, gsBase := 0 }
    rsp0 := 0 }

end Coolos
