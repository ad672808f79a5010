import Coolos.Lib.Memory

/-!
# Firmware tables (`acpi.c`, `main.c`)

`ACPI_FindTable`, and the loop of `KernelMain` over the entries of the MADT. A pointer into a
table is its offset from the start of the table, so that `ptr < end` compares offsets; the
bytes are read from the memory behind it.
-/

namespace Coolos

open Lib

namespace Acpi

/-- `sizeof(SDTHeader)`, and the offset of its field `Length`. -/
def sdtHeaderSize : Nat := 36
def lengthOffset : Nat := 4

/-- `Header.Length` of the table at `table`. -/
def length (m : Mem) (table : Word) : BitVec 32 := m.read32 (table + loc lengthOffset)

/-- `memcmp`. -/
def memcmp (m : Mem) : Word → Word → Nat → Int
  | _, _, 0 => 0
  | p1, p2, n + 1 =>
      if m p1 ≠ m p2 then (m p1).toNat - (m p2).toNat else memcmp m (p1 + 1) (p2 + 1) n

/-! ## The XSDT -/

/-- `num_tables`: the difference and the quotient are of type `size_t`, the variable is an
`int`. -/
def numTables (m : Mem) (xsdt : Word) : BitVec 32 :=
  (((length m xsdt).zeroExtend 64 - loc sdtHeaderSize) / 8).truncate 32

/-- `g_xsdt->Tables[i]`. -/
def tables (m : Mem) (xsdt : Word) (i : Nat) : Word := m.read64 (xsdt + loc (sdtHeaderSize + 8 * i))

/-- The loop of `ACPI_FindTable` with `left` turns to go: the entries it looks at and the
result. -/
def findFrom (m : Mem) (xsdt signature : Word) : (left i : Nat) → List Nat × Word
  | 0, _ => ([], 0)
  | left + 1, i =>
      let header := tables m xsdt i
      if memcmp m header signature 4 = 0 then ([i], header)
      else
        let (examined, result) := findFrom m xsdt signature left (i + 1)
        (i :: examined, result)

/-- `ACPI_FindTable`, where `g_xsdt` is `xsdt`. -/
def findTable (m : Mem) (xsdt signature : Word) : List Nat × Word :=
  if xsdt = 0 then ([], 0) else findFrom m xsdt signature (numTables m xsdt).toInt.toNat 0

/-! ## The MADT -/

/-- `MADT_TYPE_IOAPIC`. -/
def madtTypeIoApic : BitVec 8 := 1

/-- The offsets of `InterruptControllers` in a MADT and of `IoApicAddress` in a
`MADT_IoApic`. -/
def controllersOffset : Nat := 44
def ioApicAddressOffset : Nat := 4

/-- `h->Type` and `h->Length` of the entry at `ptr`. -/
def entryType (m : Mem) (madt : Word) (ptr : Nat) : BitVec 8 := m (madt + loc ptr)
def entryLength (m : Mem) (madt : Word) (ptr : Nat) : BitVec 8 := m (madt + loc (ptr + 1))

/-- A read of some bytes of the table. -/
structure TableRead where
  offset : Nat
  size : Nat
  deriving DecidableEq

/-- The loop of `KernelMain` over `InterruptControllers`: what it reads of the entries, and,
once it has ended, the entry whose `IoApicAddress` it passes to `IOAPIC_Init`, if any. It has
not ended after `fuel` turns if there is no result. -/
def madtWalk (m : Mem) (madt : Word) : (fuel ptr : Nat) → List TableRead × Option (Option Nat)
  | 0, _ => ([], none)
  | fuel + 1, ptr =>
      if ptr < (length m madt).toNat then
        if entryType m madt ptr = madtTypeIoApic then
          ([⟨ptr, 1⟩, ⟨ptr + ioApicAddressOffset, 4⟩], some (some ptr))
        else
          let (reads, result) := madtWalk m madt fuel (ptr + (entryLength m madt ptr).toNat)
          (⟨ptr, 1⟩ :: ⟨ptr + 1, 1⟩ :: reads, result)
      else ([], some none)

/-- `KernelMain` walks from `InterruptControllers` on. -/
def searchIoApic (m : Mem) (madt : Word) (fuel : Nat) : List TableRead × Option (Option Nat) :=
  madtWalk m madt fuel controllersOffset

/-! ## Where the tables are found -/

/-- The offsets of `Revision` and `XsdtAddress` in an `RSDP`, and of `LocalApicAddress` in a
MADT. -/
def revisionOffset : Nat := 15
def xsdtAddressOffset : Nat := 24
def localApicAddressOffset : Nat := 36

/-- What `ACPI_Init` leaves in `g_xsdt`, which was `xsdt`. -/
def init (m : Mem) (rsdp xsdt : Word) : Word :=
  if 2 ≤ m (rsdp + loc revisionOffset) then m.read64 (rsdp + loc xsdtAddressOffset) else xsdt

/-- `madt->LocalApicAddress`. -/
def localApicAddress (m : Mem) (madt : Word) : Word :=
  (m.read32 (madt + loc localApicAddressOffset)).zeroExtend 64

/-- `IoApicAddress` of the entry at `ptr`. -/
def ioApicAddress (m : Mem) (madt : Word) (ptr : Nat) : Word :=
  (m.read32 (madt + loc (ptr + ioApicAddressOffset))).zeroExtend 64

end Acpi
end Coolos
