import Coolos.Kernel.NvmeInit
import Coolos.Lib.Driver

/-!
# `NVMe_Init` and the controller (`nvme.c`)

`NVMe_Init` once more, from `regs` on, with everything it does that the controller can see:
registers read and written, admin commands, doorbells, and the completion entries looked at.
-/

namespace Coolos

open Lib

inductive NvmeInitEvent where
  | readCc (value : BitVec 32)
  | writeCc (value : BitVec 32)
  | readCsts (value : BitVec 32)
  | writeAqa (value : BitVec 32)
  | writeAsq (value : Word)
  | writeAcq (value : Word)
  /-- The entry at the head of the admin completion queue is read. -/
  | poll (entry : NvmeCQEntry)
  | store (store : NvmeStore)
  deriving DecidableEq

abbrev NvmeDriver := Driver NvmeInitEvent

namespace NvmeDriver

/-- `NVMe_SubmitCommand`. -/
def submitCommand (q : NvmeQueue) (cmd : NvmeSQEntry) : NvmeDriver NvmeQueue := do
  let slot := q.sqBase + 64 * q.tail.zeroExtend 64
  Driver.emit (.store (.slot slot cmd))
  let q := q.submitCommand cmd
  Driver.emit (.store (.doorbell q.doorbellTail (q.tail.zeroExtend 32)))
  return q

/-- Consume the entry at the head and ring the head doorbell. -/
def consume (q : NvmeQueue) : NvmeDriver NvmeQueue := do
  let q := q.consume
  Driver.emit (.store (.doorbell q.doorbellHead (q.head.zeroExtend 32)))
  return q

/-- `NVMe_WaitForCompletion`. -/
def waitForCompletion (cid : BitVec 16) : List NvmeCQEntry → NvmeQueue → NvmeDriver NvmeQueue
  | [], _ => Driver.waits
  | entry :: polls, q => do
      Driver.emit (.poll entry)
      if entry.status &&& 0x1 = q.phase then
        let q ← consume q
        if entry.commandID = cid then return q
        waitForCompletion cid polls q
      else waitForCompletion cid polls q

/-- A command and its completion. -/
def execute (q : NvmeQueue) (cmd : NvmeSQEntry) (cid : BitVec 16) (polls : List NvmeCQEntry) :
    NvmeDriver NvmeQueue := do
  let q ← submitCommand q cmd
  waitForCompletion cid polls q

/-- `while (regs->Csts & 0x1)` for `rdy` false, `while (!(regs->Csts & 0x1))` for true. -/
def waitReady (rdy : Bool) : List (BitVec 32) → NvmeDriver Unit
  | [] => Driver.waits
  | csts :: polls => do
      Driver.emit (.readCsts csts)
      if (csts &&& 0x1 != 0) = rdy then return ()
      waitReady rdy polls

/-- "2. Disable Controller", for what CC reads the first and the second time. -/
def disable (cc cc' : BitVec 32) : NvmeDriver Unit := do
  Driver.emit (.readCc cc)
  if cc &&& 0x1 ≠ 0 then
    Driver.emit (.readCc cc')
    Driver.emit (.writeCc (cc' &&& ~~~0x1))

/-- The command of `NVMe_IdentifyController`. -/
def identify (buffer : Word) : NvmeSQEntry :=
  { NvmeSQEntry.zero with opcode := 0x06, commandID := 1, prp1 := buffer, cdw10 := 1 }

/-- "1. Create IO Completion Queue", with 64 entries. -/
def createCq (buffer : Word) : NvmeSQEntry :=
  { NvmeSQEntry.zero with
    opcode := 0x05, commandID := 2, prp1 := buffer
    cdw10 := (64 - 1 : BitVec 32) <<< 16 ||| 1, cdw11 := 1 }

/-- "2. Create IO Submission Queue", with 64 entries. -/
def createSq (buffer : Word) : NvmeSQEntry :=
  { NvmeSQEntry.zero with
    opcode := 0x01, commandID := 3, prp1 := buffer
    cdw10 := (64 - 1 : BitVec 32) <<< 16 ||| 1, cdw11 := (1 : BitVec 32) <<< 16 ||| 1 }

/-- `NVMe_IdentifyController`, the admin queue it leaves. -/
def identifyController (q : NvmeQueue) (buffers : NvmeBuffers) (answers : NvmeAnswers) :
    NvmeDriver NvmeQueue :=
  execute q (identify buffers.identify) 1 answers.identify

/-- `NVMe_SetupIOQueues`, the I/O queue. -/
def setupIOQueues (q : NvmeQueue) (regs : Word) (buffers : NvmeBuffers) (answers : NvmeAnswers) :
    NvmeDriver NvmeQueue := do
  let q ← execute q (createCq buffers.ioCq) 2 answers.createCq
  let _ ← execute q (createSq buffers.ioSq) 3 answers.createSq
  return NvmeQueue.setupIOQueue regs buffers.ioSq buffers.ioCq

/-- `NVMe_Init` behind `Memory_MapMMIO`: the I/O queue. -/
def init (regs : Word) (cc cc' : BitVec 32) (buffers : NvmeBuffers) (answers : NvmeAnswers) :
    NvmeDriver NvmeQueue := do
  disable cc cc'
  waitReady false answers.disabling
  -- 3. Configure Admin Queue
  let qSize : BitVec 32 := 64
  Driver.emit (.writeAqa ((qSize - 1) <<< 16 ||| (qSize - 1)))
  Driver.emit (.writeAsq buffers.adminSq)
  Driver.emit (.writeAcq buffers.adminCq)
  -- 5. Enable Controller
  Driver.emit (.writeCc (4 <<< 20 ||| 6 <<< 16 ||| 1))
  waitReady true answers.enabling
  let q ← identifyController (NvmeQueue.setupAdminQueue regs buffers.adminSq buffers.adminCq)
    buffers answers
  setupIOQueues q regs buffers answers

end NvmeDriver
end Coolos
