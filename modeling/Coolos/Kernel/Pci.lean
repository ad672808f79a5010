import Mathlib.Data.List.Basic
import Coolos.Lib.Memory

/-!
# The PCI scan (`pci.c`)

Configuration space behind its two ports: one 32-bit register for each address that
`PCI_CONFIG_ADDRESS` is given. A register reads as what it held when the scan began, or
as what the scan has written to it.
-/

namespace Coolos

/-- `PCI_Device`, with the two of its BARs that the scan fills in. -/
structure PciDevice where
  bus : BitVec 8
  device : BitVec 8
  function : BitVec 8
  vendorID : BitVec 16
  deviceID : BitVec 16
  baseAddress0 : BitVec 32
  baseAddress1 : BitVec 32
  deriving DecidableEq

def pciClassStorage : BitVec 8 := 0x01
def pciSubclassNvme : BitVec 8 := 0x08
def pciProgIfNvme : BitVec 8 := 0x02

/-- The registers of configuration space, `g_nvme_device` and `g_nvme_found`. -/
structure Pci where
  config : BitVec 32 → BitVec 32
  nvmeDevice : PciDevice
  nvmeFound : Bool

namespace Pci

/-- The statics before `PCI_Init`. -/
def statics (config : BitVec 32 → BitVec 32) : Pci where
  config := config
  nvmeDevice := ⟨0, 0, 0, 0, 0, 0, 0⟩
  nvmeFound := false

/-- The address of a register. -/
def configAddress (bus device function offset : BitVec 8) : BitVec 32 :=
  bus.zeroExtend 32 <<< 16 ||| device.zeroExtend 32 <<< 11 ||| function.zeroExtend 32 <<< 8 |||
    (offset &&& 0xFC).zeroExtend 32 ||| 0x80000000

/-- `PCI_Read32`. -/
def read32 (p : Pci) (bus device function offset : BitVec 8) : BitVec 32 :=
  p.config (configAddress bus device function offset)

/-- `PCI_Read16`. -/
def read16 (p : Pci) (bus device function offset : BitVec 8) : BitVec 16 :=
  (p.read32 bus device function offset >>> ((offset &&& 2).toNat * 8)).truncate 16

/-- `PCI_Read8`. -/
def read8 (p : Pci) (bus device function offset : BitVec 8) : BitVec 8 :=
  (p.read32 bus device function offset >>> ((offset &&& 3).toNat * 8)).truncate 8

/-- `PCI_Write32`. -/
def write32 (p : Pci) (bus device function offset : BitVec 8) (value : BitVec 32) : Pci :=
  { p with config := Function.update p.config (configAddress bus device function offset) value }

/-- `PCI_CheckFunction`. -/
def checkFunction (p : Pci) (bus device function : BitVec 8) : Pci :=
  let classCode := p.read8 bus device function 0x0B
  let subClass := p.read8 bus device function 0x0A
  let progIF := p.read8 bus device function 0x09
  if classCode = pciClassStorage ∧ subClass = pciSubclassNvme ∧ progIF = pciProgIfNvme then
    let p := { p with
      nvmeDevice :=
        { bus := bus, device := device, function := function
          vendorID := p.read16 bus device function 0x00
          deviceID := p.read16 bus device function 0x02
          baseAddress0 := p.read32 bus device function 0x10
          baseAddress1 := p.read32 bus device function 0x14 }
      nvmeFound := true }
    -- memory space and bus master; the upper half of the register is the status
    let cmd := p.read16 bus device function 0x04 ||| 0x0006
    p.write32 bus device function 0x04 (cmd.zeroExtend 32)
  else p

/-- `PCI_CheckDevice`. -/
def checkDevice (p : Pci) (bus device : BitVec 8) : Pci :=
  if p.read16 bus device 0 0x00 = 0xFFFF then p
  else
    let p := p.checkFunction bus device 0
    if p.read8 bus device 0 0x0E &&& 0x80 ≠ 0 then
      (List.range' 1 7).foldl (fun p func =>
        if p.read16 bus device (BitVec.ofNat 8 func) 0x00 ≠ 0xFFFF then
          p.checkFunction bus device (BitVec.ofNat 8 func)
        else p) p
    else p

/-- `PCI_ScanBus`. -/
def scanBus (p : Pci) : Pci :=
  (List.range 256).foldl (fun p bus =>
    (List.range 32).foldl (fun p dev =>
      p.checkDevice (BitVec.ofNat 8 bus) (BitVec.ofNat 8 dev)) p) p

/-- `PCI_Init`. -/
def init (p : Pci) : Pci := p.scanBus

/-- `PCI_GetNVMeController`. -/
def getNVMeController (p : Pci) : Option PciDevice :=
  if p.nvmeFound then some p.nvmeDevice else none

/-- Where no device answers the scan changes nothing. -/
theorem scanBus_absent {p : Pci} (absent : ∀ bus device, p.read16 bus device 0 0x00 = 0xFFFF) :
    p.scanBus = p := by
  have device (bus dev : Nat) : p.checkDevice (BitVec.ofNat 8 bus) (BitVec.ofNat 8 dev) = p := by
    rw [checkDevice, if_pos (absent _ _)]
  apply List.foldl_fixed'
  intro bus
  apply List.foldl_fixed'
  intro dev
  exact device bus dev

end Pci
end Coolos
