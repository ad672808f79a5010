import Coolos.Kernel.Syscall

/-!
# The pointers of the NVMe driver (`nvme.c`)

`NVMe_SubmitCommand` and `NVMe_WaitForCompletion` once more, with every pointer of the
queue record that they dereference.
-/

namespace Coolos

open Lib

/-- A pointer dereferenced: an element of one of the two rings, with the `Size` the record
gives it at the time, or a doorbell. -/
inductive NvmeAccess where
  | slot (base : Word) (index size : BitVec 16)
  | entry (base : Word) (index size : BitVec 16)
  | tailDoorbell (addr : Word)
  | headDoorbell (addr : Word)
  deriving DecidableEq

/-- The queue, and the pointers dereferenced so far. -/
structure NvmeTrace where
  queue : NvmeQueue
  accesses : List NvmeAccess

namespace NvmeTrace

/-- `NVMe_SubmitCommand`. -/
def submitCommand (t : NvmeTrace) (cmd : NvmeSQEntry) : NvmeTrace where
  queue := t.queue.submitCommand cmd
  accesses := t.accesses ++
    [.slot t.queue.sqBase t.queue.tail t.queue.size, .tailDoorbell t.queue.doorbellTail]

/-- `&q->CQ_Base[q->Head]`, read for its status and its command ID. -/
def readEntry (t : NvmeTrace) : NvmeTrace :=
  { t with accesses := t.accesses ++ [.entry t.queue.cqBase t.queue.head t.queue.size] }

/-- Consume the entry at the head and ring the head doorbell. -/
def consume (t : NvmeTrace) : NvmeTrace where
  queue := t.queue.consume
  accesses := t.accesses ++ [.headDoorbell t.queue.doorbellHead]

/-- `NVMe_WaitForCompletion`. When the polls given run out it is about to poll again. -/
def waitForCompletion (t : NvmeTrace) (cid : BitVec 16) : List NvmeCQEntry → NvmeTrace
  | [] => t.readEntry
  | entry :: polls =>
      if entry.status &&& 0x1 = t.queue.phase then
        if entry.commandID = cid then t.readEntry.consume
        else waitForCompletion t.readEntry.consume cid polls
      else waitForCompletion t.readEntry cid polls

/-- `NVMe_Read` on the I/O queue. -/
def read (t : NvmeTrace) (nsid : BitVec 32) (lba buffer : Word) (count : BitVec 32)
    (polls : List NvmeCQEntry) : NvmeTrace :=
  (t.submitCommand (NvmeQueue.ioCommand 0x02 100 nsid lba buffer count)).waitForCompletion 100 polls

/-- `NVMe_Write` on the I/O queue. -/
def write (t : NvmeTrace) (nsid : BitVec 32) (lba buffer : Word) (count : BitVec 32)
    (polls : List NvmeCQEntry) : NvmeTrace :=
  (t.submitCommand (NvmeQueue.ioCommand 0x01 101 nsid lba buffer count)).waitForCompletion 101 polls

end NvmeTrace

/-- The queue pointers that `Syscall_Handler` dereferences: in its two NVMe cases, and in
`SYSCALL_HALT`, which goes on into the first of them. -/
def Kernel.nvmeAccesses (k : Kernel) (sysNum a1 a2 a3 a4 : Word) (polls : List NvmeCQEntry) :
    List NvmeAccess :=
  let t : NvmeTrace := ⟨k.ioQueue, []⟩
  if sysNum = syscallHalt ∨ sysNum = syscallNvmeRead then
    (t.read (a1.truncate 32) a2 a3 (a4.truncate 32) polls).accesses
  else if sysNum = syscallNvmeWrite then
    (t.write (a1.truncate 32) a2 a3 (a4.truncate 32) polls).accesses
  else []

namespace NvmeTrace

/-- What the functions do to the queue. -/
theorem waitForCompletion_queue (cid : BitVec 16) (polls : List NvmeCQEntry) : ∀ t : NvmeTrace,
    (t.waitForCompletion cid polls).queue = (t.queue.waitForCompletion cid polls).1 := by
  induction polls with
  | nil => intro t; rfl
  | cons entry polls ih =>
      intro t
      rw [waitForCompletion, NvmeQueue.waitForCompletion]
      by_cases new : entry.status &&& 0x1 = t.queue.phase
      · rw [if_pos new, if_pos new]
        by_cases own : entry.commandID = cid
        · rw [if_pos own, if_pos own]
          rfl
        · rw [if_neg own, if_neg own]
          exact ih t.readEntry.consume
      · rw [if_neg new, if_neg new]
        exact ih t.readEntry

/-- Accesses are only added. -/
theorem mem_waitForCompletion {a : NvmeAccess} (cid : BitVec 16) (polls : List NvmeCQEntry) :
    ∀ {t : NvmeTrace}, a ∈ t.accesses → a ∈ (t.waitForCompletion cid polls).accesses := by
  induction polls with
  | nil => intro t ha; exact List.mem_append_left _ ha
  | cons entry polls ih =>
      intro t ha
      have read : a ∈ t.readEntry.accesses := List.mem_append_left _ ha
      have rung : a ∈ t.readEntry.consume.accesses := List.mem_append_left _ read
      rw [waitForCompletion]
      split
      · split
        · exact rung
        · exact ih rung
      · exact ih read

theorem read_queue (t : NvmeTrace) (nsid : BitVec 32) (lba buffer : Word) (count : BitVec 32)
    (polls : List NvmeCQEntry) :
    (t.read nsid lba buffer count polls).queue = (t.queue.read nsid lba buffer count polls).1 :=
  waitForCompletion_queue 100 polls _

theorem write_queue (t : NvmeTrace) (nsid : BitVec 32) (lba buffer : Word) (count : BitVec 32)
    (polls : List NvmeCQEntry) :
    (t.write nsid lba buffer count polls).queue = (t.queue.write nsid lba buffer count polls).1 :=
  waitForCompletion_queue 101 polls _

end NvmeTrace
end Coolos
