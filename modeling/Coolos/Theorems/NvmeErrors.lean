import Coolos.Theorems.NvmeEncoding
import Coolos.Logic.NvmeCalls
import Coolos.Logic.NvmeProtocol

/-!
# Completions with an error

`NVMe_WaitForCompletion` looks at the phase tag of the status word and not at the status
above it. So the outcome of a command reaches nobody: `NVMe_Read` and `NVMe_Write` return 0
for every command that completes, and `NVMe_SetupIOQueues` fills in the queue record
whatever became of the two creation commands.
-/

namespace Coolos.Theorems

open Lib NvmeQueue

/-- The completion consumed for the call is `e`. -/
def CallCompletedBy (c : NvmeCall) (q : NvmeQueue) (polls : List NvmeCQEntry)
    (e : NvmeCQEntry) : Prop :=
  CompletedBy c.cid (q.submitCommand c.command) polls e

/-- A call returns 0 whenever it returns. -/
theorem run_result (c : NvmeCall) (q : NvmeQueue) (polls : List NvmeCQEntry) :
    (c.run q polls).2 = some 0 ↔ ∃ e, CallCompletedBy c q polls e := by
  have result : (c.run q polls).2 =
      if ((q.submitCommand c.command).waitForCompletion c.cid polls).2 then some 0 else none := by
    cases c <;> rfl
  rw [result]
  simp only [CallCompletedBy, ← waitForCompletion_returned]
  split
  · rename_i returned
    simp [returned]
  · rename_i waiting
    simp [waiting]

/-- The call returns 0 only if its completion carried status 0. -/
def ReportsError (c : NvmeCall) (q : NvmeQueue) (polls : List NvmeCQEntry) : Prop :=
  (c.run q polls).2 = some 0 → ∃ e, CallCompletedBy c q polls e ∧ statusField e = 0

/-- The first command of `NVMe_SetupIOQueues`. -/
def createCq (buffers : NvmeBuffers) : NvmeSQEntry :=
  { NvmeSQEntry.zero with
    opcode := 0x05, commandID := 2, prp1 := buffers.ioCq
    cdw10 := (64 - 1) <<< 16 ||| 1, cdw11 := 1 }

/-- Its second command. -/
def createSq (buffers : NvmeBuffers) : NvmeSQEntry :=
  { NvmeSQEntry.zero with
    opcode := 0x01, commandID := 3, prp1 := buffers.ioSq
    cdw10 := (64 - 1) <<< 16 ||| 1, cdw11 := 1 <<< 16 ||| 1 }

/-- The admin queue when `NVMe_Init` comes to `NVMe_SetupIOQueues`. -/
def identified (d : PciDevice) (buffers : NvmeBuffers) (answers : NvmeAnswers) :
    Option NvmeQueue :=
  (setupAdminQueue d.bar buffers.adminSq buffers.adminCq).execute { NvmeSQEntry.zero with
    opcode := 0x06, commandID := 1, prp1 := buffers.identify, cdw10 := 1 } 1 answers.identify

/-- One of the two completes with an error. -/
inductive CreationError (d : PciDevice) (buffers : NvmeBuffers) (answers : NvmeAnswers) : Prop
  | completionQueue {admin e} (start : identified d buffers answers = some admin)
      (done : CompletedBy 2 (admin.submitCommand (createCq buffers)) answers.createCq e)
      (error : statusField e ≠ 0)
  | submissionQueue {admin admin' e} (start : identified d buffers answers = some admin)
      (created : admin.execute (createCq buffers) 2 answers.createCq = some admin')
      (done : CompletedBy 3 (admin'.submitCommand (createSq buffers)) answers.createSq e)
      (error : statusField e ≠ 0)

/-- Some call on the queue record rings the tail doorbell of the device's I/O queue. -/
def QueueUsed (d : PciDevice) (q : NvmeQueue) : Prop :=
  ∃ (c : NvmeCall) (polls : List NvmeCQEntry) (value : BitVec 32),
    .doorbell (d.bar + 0x1000 + 8) value ∈ (c.run q polls).1.stores

/-- The queue is used once `NVMe_Init` has returned. -/
theorem queueUsed_nvmeInit {k k' : Kernel} {pml4 : Word} {buffers : NvmeBuffers}
    {answers : NvmeAnswers} {d : PciDevice}
    (run : k.nvmeInit pml4 buffers answers (some d) = some k') : QueueUsed d k'.ioQueue := by
  let c : NvmeCall := .read 1 0 0 1
  obtain ⟨tail, values, stores⟩ := c.run_stores k'.ioQueue []
  refine ⟨c, [], tail, ?_⟩
  rw [stores, Kernel.nvmeInit_ioQueue run]
  simp [setupIOQueue]

/-- A call reports the outcome of its command exactly when that carries status 0, or does
not come. The I/O queue is used whatever has become of the creation commands; so it is kept from
use after an error of one of them exactly when there is none. -/
theorem errors_reported_iff (c : NvmeCall) (q : NvmeQueue) (polls : List NvmeCQEntry) :
    (ReportsError c q polls ↔ ∀ e, CallCompletedBy c q polls e → statusField e = 0) ∧
    ∀ (k k' : Kernel) (pml4 : Word) (buffers : NvmeBuffers) (answers : NvmeAnswers)
      (d : PciDevice), k.nvmeInit pml4 buffers answers (some d) = some k' →
        QueueUsed d k'.ioQueue ∧
          ((CreationError d buffers answers → ¬ QueueUsed d k'.ioQueue) ↔
            ¬ CreationError d buffers answers) := by
  constructor
  · constructor
    · intro reports e completed
      obtain ⟨e', completed', success⟩ := reports ((run_result c q polls).mpr ⟨e, completed⟩)
      rw [completed.unique completed']
      exact success
    · intro success returned
      obtain ⟨e, completed⟩ := (run_result c q polls).mp returned
      exact ⟨e, completed, success e completed⟩
  · intro k k' pml4 buffers answers d run
    refine ⟨queueUsed_nvmeInit run, ?_⟩
    constructor
    · intro kept error
      exact kept error (queueUsed_nvmeInit run)
    · intro success error
      exact absurd error success

/-- A controller at 0xFEB00000. -/
def device : PciDevice := ⟨0, 0, 0, 0x8086, 0x5845, 0xFEB00000, 0⟩

/-- It becomes ready, and refuses to create the completion queue. -/
def refusing : NvmeAnswers where
  disabling := [0]
  enabling := [1]
  identify := [⟨0, 0, 0, 0, 1, 1⟩]
  createCq := [⟨0, 0, 0, 0, 2, 3⟩]
  createSq := [⟨0, 0, 0, 0, 3, 1⟩]
  model := []

theorem refusing_creationError : CreationError device ⟨0, 0, 0, 0, 0⟩ refusing := by
  obtain ⟨admin, start, phase⟩ : ∃ admin,
      identified device ⟨0, 0, 0, 0, 0⟩ refusing = some admin ∧ admin.phase = 1 := by
    refine ⟨_, execute_ready rfl _ ⟨rfl, rfl⟩, ?_⟩
    rfl
  refine .completionQueue start (.own ?_ rfl) (by decide)
  exact phase.symm

/-- The completion queue is refused, and the I/O queue is used. -/
theorem refused_queue_used : ∃ k',
    Kernel.statics.nvmeInit 0 ⟨0, 0, 0, 0, 0⟩ refusing (some device) = some k' ∧
      QueueUsed device k'.ioQueue := by
  have identified : NvmeCQEntry.Answers ⟨0, 0, 0, 0, 1, 1⟩ 1 := ⟨rfl, rfl⟩
  have refused : NvmeCQEntry.Answers ⟨0, 0, 0, 0, 2, 3⟩ 2 := ⟨rfl, rfl⟩
  have created : NvmeCQEntry.Answers ⟨0, 0, 0, 0, 3, 1⟩ 3 := ⟨rfl, rfl⟩
  obtain ⟨k', run⟩ := Kernel.statics.nvmeInit_returns 0 ⟨0, 0, 0, 0, 0⟩ [] (d := device)
    (by decide) identified refused created
  refine ⟨k', run, ?_⟩
  by_contra unused
  have iff := ((errors_reported_iff (.read 1 0 0 1) k'.ioQueue []).2 _ _ _ _ _ _ run).2
  exact iff.mp (fun _ => unused) refusing_creationError

/-- A read that the controller does not know returns 0. -/
theorem error_not_reported : ¬ ∀ (c : NvmeCall) (q : NvmeQueue) (polls : List NvmeCQEntry),
    ReportsError c q polls := by
  intro claim
  let q := setupIOQueue 0 0x1000 0x2000
  have completed : CallCompletedBy (.read 1 0 0x400000 1) q [⟨0, 0, 0, 0, 100, 3⟩]
      ⟨0, 0, 0, 0, 100, 3⟩ := .own rfl rfl
  obtain ⟨e, completed', success⟩ := claim _ _ _ ((run_result _ _ _).mpr ⟨_, completed⟩)
  rw [← completed.unique completed'] at success
  exact absurd success (by decide)

end Coolos.Theorems
