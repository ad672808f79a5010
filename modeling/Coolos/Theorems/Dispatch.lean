import Coolos.Logic.HeapAccess

/-!
# What a system call may touch

Each subsystem belongs to the system calls that name it. Every number keeps to
its own but `SYSCALL_HALT`, whose case has no `break` and runs on into
`SYSCALL_NVME_READ`, and those that have the heap write over the objects of
another subsystem: `kfree` takes any 32 bytes for a header.
-/

namespace Coolos.Theorems

open Lib Kernel

/-- Where the linker has put `io_queue`, the bitmap, the task table and the cursor: the address and
the size of each. -/
structure Layout where
  ioQueue : Word × Nat
  bitmap : Word × Nat
  tasks : Word × Nat
  console : Word × Nat

/-- The `n` bytes at `p` are of none of them. -/
def Layout.Off (layout : Layout) (p : Word) (n : Nat) : Prop :=
  ∀ o ∈ [layout.ioQueue, layout.bitmap, layout.tasks, layout.console], Apart p n o.1 o.2

/-- From `k` to `k'`, storing to `stores` for the heap and returning `ret`, system call `n`
touched only what it names. -/
structure Isolated (layout : Layout) (n : Word) (k k' : Kernel) (stores : List (Word × Nat))
    (ret : Option Word) : Prop where
  ioQueue : n ≠ syscallNvmeRead → n ≠ syscallNvmeWrite → k'.ioQueue = k.ioQueue
  heap : n ≠ syscallKmalloc → n ≠ syscallKfree → k'.heap = k.heap
  pages : n ≠ syscallExec → n ≠ syscallTerminate → k'.pages = k.pages
  sched : n ≠ syscallExec → n ≠ syscallTerminate → k'.sched = k.sched
  console : n ≠ syscallClear → n ≠ syscallPrint → k'.console = k.console
  ret : n ≠ syscallTerminate → ∀ r, ret = some r → r = 0
  stores : ∀ q ∈ stores, layout.Off q.1 q.2

/-- Every number but `SYSCALL_HALT` keeps to its subsystem. -/
theorem isolated_of_ne_halt {layout : Layout} (k : Kernel) {n a1 : Word} (a2 a3 a4 a5 : Word)
    (polls : List NvmeCQEntry) (other : n ≠ syscallHalt)
    (off : ∀ q ∈ k.heapStores n a1, layout.Off q.1 q.2) :
    Isolated layout n k (k.syscallHandler n a1 a2 a3 a4 a5 polls).1 (k.heapStores n a1)
      (k.syscallHandler n a1 a2 a3 a4 a5 polls).2 := by
  have dispatched := k.syscallHandler_dispatched n a1 a2 a3 a4 a5 polls
  generalize k.syscallHandler n a1 a2 a3 a4 a5 polls = result at dispatched
  cases dispatched with
  | drawn frame console zero =>
      exact
        { ioQueue _ _ := frame.ioQueue
          heap _ _ := frame.heap
          pages _ _ := frame.pages
          sched _ _ := frame.sched
          console h₁ h₂ := (console.resolve_left h₁).resolve_left h₂
          ret _ := zero
          stores := off }
  | execs named =>
      obtain ⟨⟨ioQueue, heap, console⟩, zero⟩ := k.execCase_frame a1 a2
      exact
        { ioQueue _ _ := ioQueue
          heap _ _ := heap
          pages h _ := absurd named h
          sched h _ := absurd named h
          console _ _ := console
          ret _ r h := zero_of_some r (zero.symm.trans h)
          stores := off }
  | terminates named =>
      obtain ⟨ioQueue, heap, console⟩ := k.terminateCurrentTask_frame 0
      exact
        { ioQueue _ _ := ioQueue
          heap _ _ := heap
          pages _ h := absurd named h
          sched _ h := absurd named h
          console _ _ := console
          ret h := absurd named h
          stores := off }
  | transfers named zero =>
      exact
        { ioQueue h₁ h₂ := absurd ((named.resolve_left other).resolve_left h₁) h₂
          heap _ _ := rfl
          pages _ _ := rfl
          sched _ _ := rfl
          console _ _ := rfl
          ret _ := zero
          stores := off }
  | heap named zero =>
      exact
        { ioQueue _ _ := rfl
          heap h₁ h₂ := absurd (named.resolve_left h₁) h₂
          pages _ _ := rfl
          sched _ _ := rfl
          console _ _ := rfl
          ret _ := zero
          stores := off }

/-- `SYSCALL_HALT` submits a read command. -/
theorem halt_submits (k : Kernel) (a1 a2 a3 a4 a5 : Word) (polls : List NvmeCQEntry) :
    k.ioQueue.stores.length <
      (k.syscallHandler syscallHalt a1 a2 a3 a4 a5 polls).1.ioQueue.stores.length :=
  k.ioQueue.read_stores (a1.truncate 32) a2 a3 (a4.truncate 32) polls

/-- A system call is isolated exactly when it is not `SYSCALL_HALT` and the fields that it has the
heap write, for whatever it finds below the pointer, are not of the objects of another
subsystem. -/
theorem dispatch_isolated_iff (layout : Layout) (n : Word) (k : Kernel) (a1 a2 a3 a4 a5 : Word)
    (polls : List NvmeCQEntry) :
    Isolated layout n k (k.syscallHandler n a1 a2 a3 a4 a5 polls).1 (k.heapStores n a1)
        (k.syscallHandler n a1 a2 a3 a4 a5 polls).2 ↔
      n ≠ syscallHalt ∧ k.HeapWrites layout.Off n a1 := by
  rw [← k.heapStores_iff]
  constructor
  · intro isolated
    refine ⟨?_, isolated.stores⟩
    rintro rfl
    have same := isolated.ioQueue (by decide) (by decide)
    have grown := halt_submits k a1 a2 a3 a4 a5 polls
    rw [same] at grown
    exact absurd grown (Nat.lt_irrefl _)
  · rintro ⟨other, off⟩
    exact isolated_of_ne_halt k a2 a3 a4 a5 polls other off

/-- The I/O queue as `NVMe_SetupIOQueues` leaves it. -/
def freshQueue : NvmeQueue := ⟨1, 0, 0, 64, 1, 0x1008, 0x100c, 0x10000, 0x20000, []⟩

/-- The four objects behind one another. -/
def linked : Layout where
  ioQueue := (0x214000, 64)
  bitmap := (0x220000, 0x20000)
  tasks := (0x214100, 320)
  console := (0x214300, 8)

/-- The completion of the command `SYSCALL_HALT` submits. -/
def haltCompletion : NvmeCQEntry := ⟨0, 0, 1, 1, 100, 1⟩

/-- `SYSCALL_HALT` with all arguments zero: the tail of the queue moves on. -/
theorem halt_not_isolated : ¬ ∀ (layout : Layout) (n : Word) (k : Kernel)
    (a1 a2 a3 a4 a5 : Word) (polls : List NvmeCQEntry),
    Isolated layout n k (k.syscallHandler n a1 a2 a3 a4 a5 polls).1 (k.heapStores n a1)
      (k.syscallHandler n a1 a2 a3 a4 a5 polls).2 := by
  intro claim
  have same := (claim linked syscallHalt { Kernel.statics with ioQueue := freshQueue } 0 0 0 0 0
    [haltCompletion]).ioQueue (by decide) (by decide)
  exact absurd (congrArg NvmeQueue.tail same) (by decide)

/-- `SYSCALL_KFREE` of a pointer into the task table sets a flag there. -/
theorem kfree_not_isolated (k : Kernel) (a2 a3 a4 a5 : Word) (polls : List NvmeCQEntry) :
    ¬ Isolated linked syscallKfree k (k.syscallHandler syscallKfree 0x214108 a2 a3 a4 a5 polls).1
      (k.heapStores syscallKfree 0x214108)
      (k.syscallHandler syscallKfree 0x214108 a2 a3 a4 a5 polls).2 := by
  intro isolated
  have writes := (k.heapStores_iff syscallKfree 0x214108).mp isolated.stores
  obtain ⟨flag, -⟩ := writes.1 rfl (by decide)
  have apart := flag linked.tasks (by decide)
  unfold Apart at apart
  exact absurd apart (by decide)

end Coolos.Theorems
