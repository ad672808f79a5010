import Coolos.Kernel.NvmeAccess
import Coolos.Kernel.NvmeInit
import Coolos.Logic.BootRun

/-!
# The I/O queue after boot

What is left of the queue record once `KernelMain` has set up a controller or found
none: the driver changes the indices and the phase, everything else changes nothing.
-/

namespace Coolos

open Lib

/-! ## The driver -/

/-- `i` is an index below `size`, or has been set to 0 by a wrap of a ring without
entries. -/
def RingIndex (size i : BitVec 16) : Prop := i < size ∨ i = 0

/-- The next index, as both functions compute it. -/
theorem ringIndex_next (size i : BitVec 16) :
    RingIndex size (if size ≤ i + 1 then 0 else i + 1) := by
  by_cases wraps : size ≤ i + 1
  · rw [if_pos wraps]
    exact .inr rfl
  · rw [if_neg wraps]
    exact .inl (BitVec.not_le.mp wraps)

/-- `q` has the pointers and the size of `q₀`. -/
structure NvmeQueue.Keeps (q₀ q : NvmeQueue) : Prop where
  size : q.size = q₀.size
  sqBase : q.sqBase = q₀.sqBase
  cqBase : q.cqBase = q₀.cqBase
  doorbellTail : q.doorbellTail = q₀.doorbellTail
  doorbellHead : q.doorbellHead = q₀.doorbellHead
  tail : RingIndex q₀.size q.tail
  head : RingIndex q₀.size q.head

/-- The access goes through a pointer of `q₀`. -/
def NvmeAccess.Through (q₀ : NvmeQueue) : NvmeAccess → Prop
  | .slot base index size => base = q₀.sqBase ∧ size = q₀.size ∧ RingIndex q₀.size index
  | .entry base index size => base = q₀.cqBase ∧ size = q₀.size ∧ RingIndex q₀.size index
  | .tailDoorbell addr => addr = q₀.doorbellTail
  | .headDoorbell addr => addr = q₀.doorbellHead

/-- The queue is kept, and all accesses so far went through its pointers. -/
structure NvmeTrace.Keeps (q₀ : NvmeQueue) (t : NvmeTrace) : Prop where
  queue : q₀.Keeps t.queue
  accesses : ∀ a ∈ t.accesses, a.Through q₀

section Driver

variable {q₀ q : NvmeQueue} {t : NvmeTrace}

theorem NvmeQueue.Keeps.submitCommand (keeps : q₀.Keeps q) (cmd : NvmeSQEntry) :
    q₀.Keeps (q.submitCommand cmd) := by
  refine { keeps with tail := ?_ }
  rw [← keeps.size]
  exact ringIndex_next q.size q.tail

theorem NvmeQueue.Keeps.consume (keeps : q₀.Keeps q) : q₀.Keeps q.consume := by
  refine { keeps with head := ?_ }
  rw [← keeps.size]
  exact ringIndex_next q.size q.head

namespace NvmeTrace.Keeps

theorem submitCommand (keeps : t.Keeps q₀) (cmd : NvmeSQEntry) :
    (t.submitCommand cmd).Keeps q₀ := by
  obtain ⟨queue, accesses⟩ := keeps
  refine ⟨queue.submitCommand cmd, ?_⟩
  intro a ha
  rcases List.mem_append.mp ha with old | new
  · exact accesses a old
  · rcases List.mem_pair.mp new with rfl | rfl
    · exact ⟨queue.sqBase, queue.size, queue.tail⟩
    · exact queue.doorbellTail

theorem readEntry (keeps : t.Keeps q₀) : t.readEntry.Keeps q₀ := by
  obtain ⟨queue, accesses⟩ := keeps
  refine ⟨queue, ?_⟩
  intro a ha
  rcases List.mem_append.mp ha with old | new
  · exact accesses a old
  · obtain rfl := List.mem_singleton.mp new
    exact ⟨queue.cqBase, queue.size, queue.head⟩

theorem consume (keeps : t.Keeps q₀) : t.consume.Keeps q₀ := by
  obtain ⟨queue, accesses⟩ := keeps
  refine ⟨queue.consume, ?_⟩
  intro a ha
  rcases List.mem_append.mp ha with old | new
  · exact accesses a old
  · obtain rfl := List.mem_singleton.mp new
    exact queue.doorbellHead

theorem waitForCompletion (cid : BitVec 16) (polls : List NvmeCQEntry) : ∀ {t : NvmeTrace},
    t.Keeps q₀ → (t.waitForCompletion cid polls).Keeps q₀ := by
  -- poll by poll: an old entry is only read, a new one is consumed
  induction polls with
  | nil => intro t keeps; exact keeps.readEntry
  | cons entry polls ih =>
      intro t keeps
      rw [NvmeTrace.waitForCompletion]
      by_cases new : entry.status &&& 0x1 = t.queue.phase
      · rw [if_pos new]
        by_cases own : entry.commandID = cid
        · rw [if_pos own]
          exact keeps.readEntry.consume
        · rw [if_neg own]
          exact ih keeps.readEntry.consume
      · rw [if_neg new]
        exact ih keeps.readEntry

theorem read (keeps : t.Keeps q₀) (nsid : BitVec 32) (lba buffer : Word) (count : BitVec 32)
    (polls : List NvmeCQEntry) : (t.read nsid lba buffer count polls).Keeps q₀ :=
  waitForCompletion 100 polls (keeps.submitCommand _)

theorem write (keeps : t.Keeps q₀) (nsid : BitVec 32) (lba buffer : Word) (count : BitVec 32)
    (polls : List NvmeCQEntry) : (t.write nsid lba buffer count polls).Keeps q₀ :=
  waitForCompletion 101 polls (keeps.submitCommand _)

end NvmeTrace.Keeps

theorem NvmeQueue.Keeps.start (keeps : q₀.Keeps q) : NvmeTrace.Keeps q₀ ⟨q, []⟩ :=
  ⟨keeps, by simp⟩

end Driver

/-! ## The kernel -/

namespace Kernel

variable {k k' : Kernel} {q₀ : NvmeQueue}

/-- What a system call accesses. -/
theorem nvmeAccesses_through (keeps : q₀.Keeps k.ioQueue) (n a1 a2 a3 a4 : Word)
    (polls : List NvmeCQEntry) : ∀ a ∈ k.nvmeAccesses n a1 a2 a3 a4 polls, a.Through q₀ := by
  unfold nvmeAccesses
  by_cases read : n = syscallHalt ∨ n = syscallNvmeRead
  · rw [if_pos read]
    exact (keeps.start.read ..).accesses
  · rw [if_neg read]
    by_cases write : n = syscallNvmeWrite
    · rw [if_pos write]
      exact (keeps.start.write ..).accesses
    · rw [if_neg write]
      simp

/-- What it does to the queue. -/
theorem syscallHandler_ioQueue (keeps : q₀.Keeps k.ioQueue) (n a1 a2 a3 a4 a5 : Word)
    (polls : List NvmeCQEntry) :
    q₀.Keeps (k.syscallHandler n a1 a2 a3 a4 a5 polls).1.ioQueue := by
  have reads : q₀.Keeps (k.nvmeReadCase a1 a2 a3 a4 polls).1.ioQueue := by
    have kept := (keeps.start.read (a1.truncate 32) a2 a3 (a4.truncate 32) polls).queue
    rw [NvmeTrace.read_queue] at kept
    exact kept
  have writes : q₀.Keeps (k.nvmeWriteCase a1 a2 a3 a4 polls).1.ioQueue := by
    have kept := (keeps.start.write (a1.truncate 32) a2 a3 (a4.truncate 32) polls).queue
    rw [NvmeTrace.write_queue] at kept
    exact kept
  by_cases transfer : n = syscallHalt ∨ n = syscallNvmeRead ∨ n = syscallNvmeWrite
  · rcases transfer with rfl | rfl | rfl
    · exact reads
    · exact reads
    · exact writes
  · -- the other cases leave it alone
    have dispatched := k.syscallHandler_dispatched n a1 a2 a3 a4 a5 polls
    generalize k.syscallHandler n a1 a2 a3 a4 a5 polls = result at dispatched
    cases dispatched with
    | drawn frame console zero => rw [frame.ioQueue]; exact keeps
    | execs named => rw [(k.execCase_frame a1 a2).1.1]; exact keeps
    | terminates named => rw [terminateCase, (k.terminateCurrentTask_frame 0).1]; exact keeps
    | transfers named zero => exact absurd named transfer
    | heap named zero => exact keeps

theorem exceptionHandler_ioQueue (k : Kernel) (frame : Word) (scancode : BitVec 8) (cr2 : Word) :
    (k.exceptionHandler frame scancode cr2).1.ioQueue = k.ioQueue := by
  have keyboard : (k.keyboardHandler frame scancode).1.ioQueue = k.ioQueue := by
    rcases k.keyboardHandler_cases frame scancode with ⟨-, run⟩ | ⟨-, run⟩ | ⟨-, -, g, c, run⟩
    · obtain ⟨g, sched, touches⟩ := k.sendEOI.switch_touches frame
      rw [run, touches]
      rfl
    · rw [run, (k.sendEOI.terminateCurrentTask_frame frame).1]
      rfl
    · rw [run]
      rfl
  unfold exceptionHandler
  dsimp only
  generalize InterruptFrame.read k.mem frame = f
  split
  · rfl
  · exact keyboard
  · rfl

theorem getOrCreateTable_touches (k : Kernel) (table index : Word) : ∃ mem pages,
    (k.getOrCreateTable table index).1 = { k with mem := mem, pages := pages } := by
  unfold getOrCreateTable
  split
  · exact ⟨_, _, rfl⟩
  · dsimp only
    split
    · exact ⟨_, _, rfl⟩
    · exact ⟨_, _, rfl⟩

/-- Mapping a page touches memory and the page allocator. -/
theorem pageTableMap_touches (k : Kernel) (pml4 virt phys flags : Word) : ∃ mem pages,
    k.pageTableMap pml4 virt phys flags = { k with mem := mem, pages := pages } := by
  unfold pageTableMap
  dsimp only
  obtain ⟨m₁, p₁, run₁⟩ := k.getOrCreateTable_touches pml4 (pml4Idx virt)
  generalize k.getOrCreateTable pml4 (pml4Idx virt) = r₁ at run₁ ⊢
  obtain ⟨m₂, p₂, run₂⟩ := r₁.1.getOrCreateTable_touches r₁.2 (pdpIdx virt)
  generalize r₁.1.getOrCreateTable r₁.2 (pdpIdx virt) = r₂ at run₂ ⊢
  obtain ⟨m₃, p₃, run₃⟩ := r₂.1.getOrCreateTable_touches r₂.2 (pdIdx virt)
  generalize r₂.1.getOrCreateTable r₂.2 (pdIdx virt) = r₃ at run₃ ⊢
  rw [run₃, run₂, run₁]
  exact ⟨_, _, rfl⟩

theorem mapRange_touches {pml4 stop flags : Word} : ∀ {fuel : Nat} {k k' : Kernel} {addr : Word},
    mapRange pml4 stop flags fuel k addr = some k' →
    ∃ mem pages, k' = { k with mem := mem, pages := pages } := by
  intro fuel
  induction fuel with
  | zero => intro k k' addr run; cases run
  | succ fuel ih =>
      intro k k' addr run
      rw [mapRange] at run
      split at run
      · obtain ⟨m₁, p₁, one⟩ := k.pageTableMap_touches pml4 addr addr flags
        obtain ⟨m₂, p₂, rest⟩ := ih run
        rw [rest, one]
        exact ⟨_, _, rfl⟩
      · obtain rfl := Option.some.inj run
        exact ⟨_, _, rfl⟩

theorem memoryMapMmio_touches {pml4 physAddr size : Word}
    (run : k.memoryMapMmio pml4 physAddr size = some k') :
    ∃ mem pages, k' = { k with mem := mem, pages := pages } := by
  unfold memoryMapMmio at run
  split at run
  · obtain rfl := Option.some.inj run
    exact ⟨_, _, rfl⟩
  · exact mapRange_touches run

end Kernel

/-- Every step after boot keeps the queue. -/
theorem BootRun.keeps_ioQueue {f : Firmware} {s s' : BootRun} {op : BootOp} {q₀ : NvmeQueue}
    (up : s.stage = .running) (keeps : q₀.Keeps s.kernel.ioQueue) (next : next f s op s') :
    s'.stage = .running ∧ q₀.Keeps s'.kernel.ioQueue := by
  cases op with
  | boot =>
      have next : s.boot f = some s' := next
      rw [boot, up] at next
      cases next
  | memory m =>
      obtain rfl : s' = _ := next
      exact ⟨up, keeps⟩
  | mapMmio physAddr size =>
      obtain ⟨-, k, run, rfl⟩ := next
      obtain ⟨mem, pages, rfl⟩ := Kernel.memoryMapMmio_touches run
      exact ⟨up, keeps⟩
  | syscall n a1 a2 a3 a4 a5 polls =>
      obtain ⟨-, -, rfl⟩ := next
      exact ⟨up, Kernel.syscallHandler_ioQueue keeps n a1 a2 a3 a4 a5 polls⟩
  | interrupt frame scancode cr2 =>
      obtain ⟨-, rfl⟩ := next
      refine ⟨up, ?_⟩
      rw [show ({ s with kernel := (s.kernel.exceptionHandler frame scancode cr2).1 } :
        BootRun).kernel = (s.kernel.exceptionHandler frame scancode cr2).1 from rfl,
        Kernel.exceptionHandler_ioQueue]
      exact keeps

/-! ## Runs -/

/-- The controller the scan finds in a configuration space. -/
def Pci.found (config : BitVec 32 → BitVec 32) : Option PciDevice :=
  (Pci.statics config).init.getNVMeController

/-- The I/O queue that `NVMe_SetupIOQueues` fills in, if a controller is found. -/
def setupQueue (buffers : NvmeBuffers) (config : BitVec 32 → BitVec 32) : Option NvmeQueue :=
  (Pci.found config).map fun d => NvmeQueue.setupIOQueue d.bar buffers.ioSq buffers.ioCq

theorem NvmeQueue.setupIOQueues_some {admin : NvmeQueue} {regs : Word} {buffers : NvmeBuffers}
    {answers : NvmeAnswers} {queues : NvmeQueue × NvmeQueue}
    (run : admin.setupIOQueues regs buffers answers = some queues) :
    queues.2 = setupIOQueue regs buffers.ioSq buffers.ioCq := by
  simp only [setupIOQueues, Option.bind_eq_bind, Option.bind_eq_some_iff, Option.some.injEq] at run
  obtain ⟨_, -, _, -, rfl⟩ := run
  rfl

theorem Kernel.identifyNamespace_ioQueue (k : Kernel) :
    k.identifyNamespace.ioQueue = k.ioQueue := by
  unfold identifyNamespace
  dsimp only

/-- `NVMe_Init` that returns has filled in the I/O queue. -/
theorem Kernel.nvmeInit_ioQueue {k k' : Kernel} {pml4 : Word} {buffers : NvmeBuffers}
    {answers : NvmeAnswers} {d : PciDevice}
    (run : k.nvmeInit pml4 buffers answers (some d) = some k') :
    k'.ioQueue = NvmeQueue.setupIOQueue d.bar buffers.ioSq buffers.ioCq := by
  rw [nvmeInit, Option.bind_eq_bind, Option.bind_eq_some_iff] at run
  obtain ⟨k₁, -, run⟩ := run
  -- the controller has become ready both times
  split at run
  · cases run
  split at run
  · cases run
  rw [Option.bind_eq_bind, Option.bind_eq_some_iff] at run
  obtain ⟨r, -, run⟩ := run
  rw [Option.bind_eq_bind, Option.bind_eq_some_iff] at run
  obtain ⟨queues, setup, run⟩ := run
  rw [← Option.some.inj run, identifyNamespace_ioQueue]
  exact NvmeQueue.setupIOQueues_some setup

/-- The first pass of the controller posts `e` for `cid`. -/
def NvmeCQEntry.Answers (e : NvmeCQEntry) (cid : BitVec 16) : Prop :=
  e.status &&& 0x1 = 1 ∧ e.commandID = cid

/-- A command whose completion is there at the first poll. -/
theorem NvmeQueue.execute_ready {q : NvmeQueue} (phase : q.phase = 1) (cmd : NvmeSQEntry)
    {cid : BitVec 16} {e : NvmeCQEntry} (answers : e.Answers cid) :
    q.execute cmd cid [e] = some (q.submitCommand cmd).consume := by
  have new : e.status &&& 0x1 = (q.submitCommand cmd).phase := answers.1.trans phase.symm
  rw [execute, waitForCompletion, if_pos new, if_pos answers.2]
  rfl

/-- `NVMe_Init` returns if the controller becomes ready and completes the three commands,
with or without an error. -/
theorem Kernel.nvmeInit_returns (k : Kernel) (pml4 : Word) (buffers : NvmeBuffers)
    (model : List (BitVec 8)) {d : PciDevice} (top : (d.bar + 0x4000).toNat + 4096 ≤ 2 ^ 64)
    {e₁ e₂ e₃ : NvmeCQEntry} (identified : e₁.Answers 1) (created₁ : e₂.Answers 2)
    (created₂ : e₃.Answers 3) :
    ∃ k', k.nvmeInit pml4 buffers ⟨[0], [1], [e₁], [e₂], [e₃], model⟩ (some d) = some k' := by
  obtain ⟨k₁, mapped⟩ : ∃ k₁, k.memoryMapMmio pml4 d.bar 0x4000 = some k₁ := by
    unfold memoryMapMmio
    split
    · exact ⟨k, rfl⟩
    · exact mapRange_returns pml4 _ top k d.bar
  rw [nvmeInit, Option.bind_eq_bind, mapped, Option.bind_some, if_neg (by simp),
    if_neg (by simp)]
  dsimp only [identifyController]
  rw [NvmeQueue.execute_ready rfl _ identified]
  dsimp only [Option.bind_eq_bind, Option.bind_some, NvmeQueue.setupIOQueues]
  rw [NvmeQueue.execute_ready rfl _ created₁, Option.bind_some,
    NvmeQueue.execute_ready rfl _ created₂]
  exact ⟨_, rfl⟩

/-- The queue record once `KernelMain` has looked for a controller. -/
theorem Kernel.setupController_ioQueue {k k' : Kernel} {pml4 : Word} {buffers : NvmeBuffers}
    {answers : NvmeAnswers} {nvme : Option PciDevice}
    (run : k.setupController pml4 buffers answers nvme = some k') :
    k'.ioQueue = (nvme.map fun d =>
      NvmeQueue.setupIOQueue d.bar buffers.ioSq buffers.ioCq).getD k.ioQueue := by
  cases nvme with
  | none =>
      rw [← Option.some.inj run]
      dsimp only [Option.map_none, Option.getD_none]
  | some d => exact nvmeInit_ioQueue run

namespace NvmeCalls

/-- Runs from where `KernelMain` has looked for a controller. Nothing has touched the
queue record before. -/
def sys (f : Firmware) (buffers : NvmeBuffers) (config : BitVec 32 → BitVec 32) :
    TSys BootRun BootOp where
  init s := s.stage = .running ∧ ∃ (k : Kernel) (answers : NvmeAnswers),
    k.ioQueue = Kernel.statics.ioQueue ∧
      k.nvmeSetup s.gKernelPml4 buffers answers config = some s.kernel
  next := BootRun.next f

/-- The queue record that boot leaves. -/
def bootQueue (buffers : NvmeBuffers) (config : BitVec 32 → BitVec 32) : NvmeQueue :=
  (setupQueue buffers config).getD Kernel.statics.ioQueue

/-- Its indices are at the start. -/
theorem bootQueue_keeps (buffers : NvmeBuffers) (config : BitVec 32 → BitVec 32) :
    (bootQueue buffers config).Keeps (bootQueue buffers config) := by
  have start : (bootQueue buffers config).tail = 0 ∧ (bootQueue buffers config).head = 0 := by
    unfold bootQueue setupQueue
    generalize Pci.found config = found
    cases found with
    | none => exact ⟨rfl, rfl⟩
    | some d => exact ⟨rfl, rfl⟩
  exact ⟨rfl, rfl, rfl, rfl, rfl, .inr start.1, .inr start.2⟩

/-- In every run the driver keeps to what the record was given at boot. -/
theorem keeps_invariant (f : Firmware) (buffers : NvmeBuffers) (config : BitVec 32 → BitVec 32) :
    (sys f buffers config).Invariant fun s =>
      s.stage = .running ∧ (bootQueue buffers config).Keeps s.kernel.ioQueue := by
  apply TSys.Inductive.invariant
  constructor
  · rintro s ⟨up, k, answers, zero, run⟩
    refine ⟨up, ?_⟩
    have queue : s.kernel.ioQueue = bootQueue buffers config := by
      rw [Kernel.setupController_ioQueue run, zero]
      rfl
    rw [queue]
    exact bootQueue_keeps buffers config
  · rintro s op s' ⟨up, keeps⟩ next
    exact BootRun.keeps_ioQueue up keeps next

end NvmeCalls
end Coolos
