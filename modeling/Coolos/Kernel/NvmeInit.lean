import Coolos.Kernel.Boot
import Coolos.Kernel.Pci

/-!
# Setting up the controller (`nvme.c`, `main.c`)

`NVMe_Init` and the decision of `KernelMain` to call it. What the controller answers is
given; a function has not returned, `none` here, when the answers run out before those it
waits for. The stores to the controller's own registers are not read back by anyone and
are left out.
-/

namespace Coolos

open Lib

/-- The static buffers of `nvme.c`. -/
structure NvmeBuffers where
  adminSq : Word
  adminCq : Word
  identify : Word
  ioSq : Word
  ioCq : Word

/-- What the controller answers `NVMe_Init`: CSTS each time it is read while it is
disabled and while it is enabled, the entries that each admin command finds at the head of
the admin completion queue, and the 40 bytes of the model number. -/
structure NvmeAnswers where
  disabling : List (BitVec 32)
  enabling : List (BitVec 32)
  identify : List NvmeCQEntry
  createCq : List NvmeCQEntry
  createSq : List NvmeCQEntry
  model : List (BitVec 8)

/-- BAR0, with BAR1 as its upper half. -/
def PciDevice.bar (device : PciDevice) : Word :=
  let bar := (device.baseAddress0 &&& 0xFFFFFFF0).zeroExtend 64
  if device.baseAddress1 ≠ 0 then bar ||| device.baseAddress1.zeroExtend 64 <<< 32 else bar

namespace NvmeQueue

/-- The admin queue as `NVMe_Init` fills it in. -/
def setupAdminQueue (regs sqBase cqBase : Word) : NvmeQueue :=
  let dbBase := regs + 0x1000
  { id := 0, head := 0, tail := 0, size := 64, phase := 1, sqBase := sqBase, cqBase := cqBase
    doorbellTail := dbBase, doorbellHead := dbBase + 4, stores := [] }

/-- `NVMe_SubmitCommand` and `NVMe_WaitForCompletion`, `none` while it waits. -/
def execute (q : NvmeQueue) (cmd : NvmeSQEntry) (cid : BitVec 16) (polls : List NvmeCQEntry) :
    Option NvmeQueue :=
  let (q, returned) := (q.submitCommand cmd).waitForCompletion cid polls
  if returned then some q else none

/-- `NVMe_SetupIOQueues`: the admin queue and the I/O queue. -/
def setupIOQueues (admin : NvmeQueue) (regs : Word) (buffers : NvmeBuffers)
    (answers : NvmeAnswers) : Option (NvmeQueue × NvmeQueue) := do
  -- 1. I/O completion queue
  let admin ← admin.execute { NvmeSQEntry.zero with
    opcode := 0x05, commandID := 2, prp1 := buffers.ioCq
    cdw10 := (64 - 1) <<< 16 ||| 1, cdw11 := 1 } 2 answers.createCq
  -- 2. I/O submission queue
  let admin ← admin.execute { NvmeSQEntry.zero with
    opcode := 0x01, commandID := 3, prp1 := buffers.ioSq
    cdw10 := (64 - 1) <<< 16 ||| 1, cdw11 := 1 <<< 16 ||| 1 } 3 answers.createSq
  some (admin, setupIOQueue regs buffers.ioSq buffers.ioCq)

end NvmeQueue

namespace Kernel

/-- The model number without the spaces behind it, up to a NUL. -/
def trimModel (model : List (BitVec 8)) : List (BitVec 8) :=
  ((model.reverse.dropWhile (· = 0x20)).reverse).takeWhile (· ≠ 0)

/-- `NVMe_IdentifyController`, on the admin queue. -/
def identifyController (k : Kernel) (admin : NvmeQueue) (buffers : NvmeBuffers)
    (answers : NvmeAnswers) : Option (Kernel × NvmeQueue) := do
  let admin ← admin.execute { NvmeSQEntry.zero with
    opcode := 0x06, commandID := 1, prp1 := buffers.identify, cdw10 := 1 } 1 answers.identify
  let msg := Graphics.ascii "NVME MODEL: " ++ trimModel answers.model
  some ({ k with graphics := k.graphics.print 100 640 msg 0xCB4B16 }, admin)

/-- `NVMe_IdentifyNamespace`. -/
def identifyNamespace (k : Kernel) : Kernel :=
  { k with
    graphics := k.graphics.print 100 660 (Graphics.ascii "NVME: DEFAULT NSID 1 SELECTED") 0x859900 }

/-- `NVMe_Init`. -/
def nvmeInit (k : Kernel) (gKernelPml4 : Word) (buffers : NvmeBuffers) (answers : NvmeAnswers)
    (device : Option PciDevice) : Option Kernel :=
  match device with
  | none => some k
  | some device => do
      let k ← k.memoryMapMmio gKernelPml4 device.bar 0x4000
      -- CSTS.RDY goes to 0, and to 1 once the controller is enabled again
      if answers.disabling.all (fun csts => csts &&& 0x1 ≠ 0) then none
      else if answers.enabling.all (fun csts => csts &&& 0x1 = 0) then none
      else
        let admin := NvmeQueue.setupAdminQueue device.bar buffers.adminSq buffers.adminCq
        let (k, admin) ← k.identifyController admin buffers answers
        let (_, ioQueue) ← admin.setupIOQueues device.bar buffers answers
        some { k with ioQueue := ioQueue }.identifyNamespace

/-- `KernelMain` sets up the controller it is given, or goes on without one. -/
def setupController (k : Kernel) (gKernelPml4 : Word) (buffers : NvmeBuffers)
    (answers : NvmeAnswers) : Option PciDevice → Option Kernel
  | some nvme => k.nvmeInit gKernelPml4 buffers answers (some nvme)
  | none =>
      some { k with
        graphics := k.graphics.print 100 600 (Graphics.ascii "PCI: NO NVME FOUND") 0xDC322F }

/-- `KernelMain` from `PCI_Init` on. -/
def nvmeSetup (k : Kernel) (gKernelPml4 : Word) (buffers : NvmeBuffers) (answers : NvmeAnswers)
    (config : BitVec 32 → BitVec 32) : Option Kernel :=
  k.setupController gKernelPml4 buffers answers (Pci.statics config).init.getNVMeController

end Kernel
end Coolos
