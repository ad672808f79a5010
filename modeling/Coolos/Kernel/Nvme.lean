import Coolos.Lib.Memory

/-!
# The NVMe I/O queue (`nvme.c`)

The queue record and what the driver stores through its pointers: command
slots and doorbells, oldest first. Completions are the controller's to post;
`waitForCompletion` is given the completion entry each of its polls finds at
the head of the queue, and has not returned when these run out.
-/

namespace Coolos

open Lib

/-- `NVMe_SQEntry`. -/
structure NvmeSQEntry where
  opcode : BitVec 8
  flags : BitVec 8
  commandID : BitVec 16
  nsid : BitVec 32
  reserved1 : Word
  metadataPtr : Word
  prp1 : Word
  prp2 : Word
  cdw10 : BitVec 32
  cdw11 : BitVec 32
  cdw12 : BitVec 32
  cdw13 : BitVec 32
  cdw14 : BitVec 32
  cdw15 : BitVec 32
  deriving DecidableEq

namespace NvmeSQEntry

/-- `memset(&cmd, 0, sizeof(cmd))`. -/
def zero : NvmeSQEntry := ⟨0, 0, 0, 0, 0, 0, 0, 0, 0, 0, 0, 0, 0, 0⟩

end NvmeSQEntry

/-- `NVMe_CQEntry`. -/
structure NvmeCQEntry where
  cdw0 : BitVec 32
  reserved : BitVec 32
  sqHead : BitVec 16
  sqId : BitVec 16
  commandID : BitVec 16
  status : BitVec 16
  deriving DecidableEq

/-- A store the controller can see. -/
inductive NvmeStore where
  | slot (addr : Word) (cmd : NvmeSQEntry)
  | doorbell (addr : Word) (value : BitVec 32)
  deriving DecidableEq

/-- `NVMe_Queue`, and the stores made through its pointers. -/
structure NvmeQueue where
  id : BitVec 16
  tail : BitVec 16
  head : BitVec 16
  size : BitVec 16
  phase : BitVec 16
  doorbellTail : Word
  doorbellHead : Word
  sqBase : Word
  cqBase : Word
  stores : List NvmeStore
  deriving DecidableEq

namespace NvmeQueue

/-- `NVMe_SubmitCommand`. -/
def submitCommand (q : NvmeQueue) (cmd : NvmeSQEntry) : NvmeQueue :=
  let slot := q.sqBase + 64 * q.tail.zeroExtend 64
  let tail := if q.size ≤ q.tail + 1 then 0 else q.tail + 1
  { q with
    tail := tail
    stores := q.stores ++ [.slot slot cmd, .doorbell q.doorbellTail (tail.zeroExtend 32)] }

/-- Consume the entry at the head and ring the head doorbell. -/
def consume (q : NvmeQueue) : NvmeQueue :=
  let wraps := q.size ≤ q.head + 1
  let head := if wraps then 0 else q.head + 1
  { q with
    head := head
    phase := if wraps then (if q.phase = 0 then 1 else 0) else q.phase
    stores := q.stores ++ [.doorbell q.doorbellHead (head.zeroExtend 32)] }

/-- `NVMe_WaitForCompletion`: the queue reached and whether it returned. -/
def waitForCompletion (q : NvmeQueue) (cid : BitVec 16) : List NvmeCQEntry → NvmeQueue × Bool
  | [] => (q, false)
  | entry :: polls =>
      if entry.status &&& 0x1 = q.phase then
        if entry.commandID = cid then (q.consume, true)
        else waitForCompletion q.consume cid polls
      else waitForCompletion q cid polls

/-- The command `NVMe_Read` and `NVMe_Write` build. -/
def ioCommand (opcode : BitVec 8) (cid : BitVec 16) (nsid : BitVec 32) (lba buffer : Word)
    (count : BitVec 32) : NvmeSQEntry :=
  { NvmeSQEntry.zero with
    opcode := opcode
    commandID := cid
    nsid := nsid
    prp1 := buffer
    cdw10 := lba.truncate 32
    cdw11 := (lba >>> 32).truncate 32
    cdw12 := (count - 1) &&& 0xFFFF }

/-- `NVMe_Read` on the I/O queue: the result is `none` while it waits. -/
def read (q : NvmeQueue) (nsid : BitVec 32) (lba buffer : Word) (count : BitVec 32)
    (polls : List NvmeCQEntry) : NvmeQueue × Option (BitVec 32) :=
  let q := q.submitCommand (ioCommand 0x02 100 nsid lba buffer count)
  let (q, returned) := q.waitForCompletion 100 polls
  (q, if returned then some 0 else none)

/-- `NVMe_Write` on the I/O queue. -/
def write (q : NvmeQueue) (nsid : BitVec 32) (lba buffer : Word) (count : BitVec 32)
    (polls : List NvmeCQEntry) : NvmeQueue × Option (BitVec 32) :=
  let q := q.submitCommand (ioCommand 0x01 101 nsid lba buffer count)
  let (q, returned) := q.waitForCompletion 101 polls
  (q, if returned then some 0 else none)

/-- The I/O queue as `NVMe_SetupIOQueues` fills it in. -/
def setupIOQueue (regs sqBase cqBase : Word) : NvmeQueue :=
  let dbBase := regs + 0x1000
  { id := 1, head := 0, tail := 0, size := 64, phase := 1, sqBase := sqBase, cqBase := cqBase
    doorbellTail := dbBase + 8, doorbellHead := dbBase + 12, stores := [] }

/-- One turn of the loop of `NVMe_WaitForCompletion` that finds `entry` at the head:
the queue reached and whether the function returns. -/
def poll (q : NvmeQueue) (cid : BitVec 16) (entry : NvmeCQEntry) : NvmeQueue × Bool :=
  if entry.status &&& 0x1 = q.phase then (q.consume, entry.commandID == cid) else (q, false)

theorem waitForCompletion_cons (q : NvmeQueue) (cid : BitVec 16) (entry : NvmeCQEntry)
    (polls : List NvmeCQEntry) : q.waitForCompletion cid (entry :: polls) =
      if (q.poll cid entry).2 then ((q.poll cid entry).1, true)
      else (q.poll cid entry).1.waitForCompletion cid polls := by
  rw [waitForCompletion, poll]
  by_cases new : entry.status &&& 0x1 = q.phase
  · rw [if_pos new, if_pos new]
    by_cases own : entry.commandID = cid
    · simp [own]
    · simp [own]
  · rw [if_neg new, if_neg new]
    rfl

/-! ## The stores only grow -/

theorem consume_stores (q : NvmeQueue) : q.stores.length < q.consume.stores.length := by
  simp [consume]

theorem submitCommand_stores (q : NvmeQueue) (cmd : NvmeSQEntry) :
    q.stores.length < (q.submitCommand cmd).stores.length := by
  simp [submitCommand]

theorem waitForCompletion_stores (cid : BitVec 16) (polls : List NvmeCQEntry) : ∀ q : NvmeQueue,
    q.stores.length ≤ (q.waitForCompletion cid polls).1.stores.length := by
  induction polls with
  | nil => intro q; exact le_rfl
  | cons entry polls ih =>
      intro q
      unfold waitForCompletion
      split
      · split
        · exact Nat.le_of_lt q.consume_stores
        · exact Nat.le_trans (Nat.le_of_lt q.consume_stores) (ih q.consume)
      · exact ih q

theorem read_stores (q : NvmeQueue) (nsid : BitVec 32) (lba buffer : Word) (count : BitVec 32)
    (polls : List NvmeCQEntry) :
    q.stores.length < (q.read nsid lba buffer count polls).1.stores.length :=
  Nat.lt_of_lt_of_le (submitCommand_stores q _) (waitForCompletion_stores 100 polls _)

end NvmeQueue
end Coolos
