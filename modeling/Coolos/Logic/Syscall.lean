import Coolos.Kernel.Syscall
import Coolos.Logic.Schedule

/-!
# What each system call leaves alone

One frame lemma for each case of `Syscall_Handler` that goes through a loop or
another function; the other cases are frames by definition.
-/

namespace Coolos
namespace Kernel

open Lib

/-- The components no case but those that name them may touch. -/
structure Frame (k k' : Kernel) : Prop where
  ioQueue : k'.ioQueue = k.ioQueue
  heap : k'.heap = k.heap
  pages : k'.pages = k.pages
  sched : k'.sched = k.sched
  handlerTable : k'.handlerTable = k.handlerTable

theorem Frame.refl (k : Kernel) : Frame k k := ⟨rfl, rfl, rfl, rfl, rfl⟩

theorem Frame.trans {k₁ k₂ k₃ : Kernel} (h : Frame k₁ k₂) (h' : Frame k₂ k₃) : Frame k₁ k₃ :=
  ⟨h'.ioQueue.trans h.ioQueue, h'.heap.trans h.heap, h'.pages.trans h.pages,
    h'.sched.trans h.sched, h'.handlerTable.trans h.handlerTable⟩

theorem printChar_frame (k : Kernel) (c : BitVec 8) (color width : BitVec 32) :
    Frame k (k.printChar c color width) := by
  unfold printChar
  split
  · exact ⟨rfl, rfl, rfl, rfl, rfl⟩
  split
  · exact ⟨rfl, rfl, rfl, rfl, rfl⟩
  dsimp only
  split <;> exact ⟨rfl, rfl, rfl, rfl, rfl⟩

theorem printWrap_frame (k : Kernel) (height : BitVec 32) : Frame k (k.printWrap height) := by
  unfold printWrap
  split <;> exact ⟨rfl, rfl, rfl, rfl, rfl⟩

/-- The printing loop draws and moves the cursor, and returns 0 if it returns. -/
theorem printLoop_frame (color width height : BitVec 32) : ∀ fuel (k : Kernel) (str : Word),
    Frame k (printLoop color width height fuel k str).1 ∧
      ∀ r, (printLoop color width height fuel k str).2 = some r → r = 0 := by
  intro fuel
  induction fuel with
  | zero => intro k str; exact ⟨.refl k, fun r h => absurd h (by simp [printLoop])⟩
  | succ fuel ih =>
      intro k str
      rw [printLoop]
      split
      · exact ⟨.refl k, fun r h => (Option.some.inj h).symm⟩
      · obtain ⟨frame, ret⟩ := ih ((k.printChar (k.mem str) color width).printWrap height) (str + 1)
        exact ⟨((printChar_frame ..).trans (printWrap_frame ..)).trans frame, ret⟩

theorem printCase_frame (k : Kernel) (a1 a2 : Word) :
    Frame k (k.printCase a1 a2).1 ∧ ∀ r, (k.printCase a1 a2).2 = some r → r = 0 :=
  printLoop_frame ..

/-- Without a user stack `SYSCALL_EXEC` does nothing. -/
theorem execCase_null {k : Kernel} {a2 : Word} {pages : PageAllocator} (a1 : Word)
    (fail : k.pages.alloc a2 = (pages, 0)) : (k.execCase a1 a2).1 = k := by
  obtain ⟨rfl, -⟩ := PageAllocator.alloc_null fail
  simp only [execCase, fail, if_true]

/-- With one it is `Scheduler_AddUserTask` on the pages left. -/
theorem execCase_stack {k : Kernel} {a2 stack : Word} {pages : PageAllocator} (a1 : Word)
    (ok : k.pages.alloc a2 = (pages, stack)) (hs : stack ≠ 0) :
    (k.execCase a1 a2).1 = { k with pages := pages }.addUserTask a1 stack a2 := by
  simp only [execCase, ok, if_neg hs]

theorem execCase_frame (k : Kernel) (a1 a2 : Word) :
    let r := k.execCase a1 a2
    (r.1.ioQueue = k.ioQueue ∧ r.1.heap = k.heap ∧ r.1.console = k.console) ∧ r.2 = some 0 := by
  simp only [execCase]
  split
  · exact ⟨⟨rfl, rfl, rfl⟩, rfl⟩
  · obtain ⟨m, pages, sched, run⟩ := addUserTask_touches
      { k with pages := (k.pages.alloc a2).1 } a1 (k.pages.alloc a2).2 a2
    rw [run]
    exact ⟨⟨rfl, rfl, rfl⟩, rfl⟩

theorem execCase_sched (k : Kernel) (a1 a2 : Word) :
    let k' := (k.execCase a1 a2).1
    k'.handlerTable = k.handlerTable ∧ (k'.sched = k.sched ∨
      ∃ pages fn base count, k'.sched =
        ({ k with pages := pages }.addUserTask fn base count).sched) := by
  simp only [execCase]
  split
  · exact ⟨rfl, .inl rfl⟩
  · refine ⟨?_, .inr ⟨_, _, _, _, rfl⟩⟩
    obtain ⟨m, pages, sched, run⟩ := addUserTask_touches
      { k with pages := (k.pages.alloc a2).1 } a1 (k.pages.alloc a2).2 a2
    rw [run]

/-- Terminating a task leaves the other subsystems alone. -/
theorem terminateCurrentTask_frame (k : Kernel) (frame : Word) :
    let k' := (k.terminateCurrentTask frame).1
    k'.ioQueue = k.ioQueue ∧ k'.heap = k.heap ∧ k'.console = k.console := by
  obtain ⟨g, pages, sched, run⟩ := k.terminateCurrentTask_touches frame
  rw [run]
  exact ⟨rfl, rfl, rfl⟩

/-- `SYSCALL_KMALLOC` and `SYSCALL_KFREE` change nothing but the heap and
return 0 if they return. -/
theorem kmallocCase_frame (k : Kernel) (a1 : Word) :
    (∃ heap, (k.kmallocCase a1).1 = { k with heap := heap }) ∧
      ∀ r, (k.kmallocCase a1).2 = some r → r = 0 := by
  unfold kmallocCase
  cases k.heap.kmalloc a1 with
  | none => exact ⟨⟨k.heap, rfl⟩, fun r h => absurd h (by simp)⟩
  | some result => exact ⟨⟨_, rfl⟩, fun r h => (Option.some.inj h).symm⟩

/-! ## The dispatch -/

/-- What system call `n` can do to the kernel, and the result if it comes to one. -/
inductive Dispatched (k : Kernel) (n a1 a2 : Word) : Kernel × Option Word → Prop
  /-- Something is drawn; the cursor moves in two of the cases only. -/
  | drawn {k' : Kernel} {ret : Option Word} (frame : Frame k k')
      (console : n = syscallClear ∨ n = syscallPrint ∨ k'.console = k.console)
      (zero : ∀ r, ret = some r → r = 0) : Dispatched k n a1 a2 (k', ret)
  | execs (named : n = syscallExec) : Dispatched k n a1 a2 (k.execCase a1 a2)
  | terminates (named : n = syscallTerminate) : Dispatched k n a1 a2 k.terminateCase
  /-- `SYSCALL_HALT` goes on into `SYSCALL_NVME_READ`. -/
  | transfers {q : NvmeQueue} {ret : Option Word}
      (named : n = syscallHalt ∨ n = syscallNvmeRead ∨ n = syscallNvmeWrite)
      (zero : ∀ r, ret = some r → r = 0) : Dispatched k n a1 a2 ({ k with ioQueue := q }, ret)
  | heap {h : Heap} {ret : Option Word} (named : n = syscallKmalloc ∨ n = syscallKfree)
      (zero : ∀ r, ret = some r → r = 0) : Dispatched k n a1 a2 ({ k with heap := h }, ret)

theorem zero_of_map {α : Type} {o : Option α} :
    ∀ r, o.map (fun _ => (0 : Word)) = some r → r = 0 := by
  intro r h
  cases o with
  | none => cases h
  | some a => exact (Option.some.inj h).symm

theorem zero_of_some (r : Word) (h : some 0 = some r) : r = 0 := (Option.some.inj h).symm

theorem kmallocCase_dispatched (k : Kernel) {n : Word}
    (named : n = syscallKmalloc ∨ n = syscallKfree) (a1 a2 : Word) :
    Dispatched k n a1 a2 (k.kmallocCase a1) := by
  obtain ⟨⟨h, run⟩, zero⟩ := k.kmallocCase_frame a1
  rw [← Prod.mk.eta (p := k.kmallocCase a1), run]
  exact .heap named zero

/-- The switch of `Syscall_Handler`, for every number. -/
theorem syscallHandler_dispatched (k : Kernel) (n a1 a2 a3 a4 a5 : Word)
    (polls : List NvmeCQEntry) :
    Dispatched k n a1 a2 (k.syscallHandler n a1 a2 a3 a4 a5 polls) := by
  unfold syscallHandler
  by_cases clear : n = syscallClear
  · rw [if_pos clear]
    exact .drawn ⟨rfl, rfl, rfl, rfl, rfl⟩ (.inl clear) zero_of_some
  rw [if_neg clear]
  by_cases print : n = syscallPrint
  · rw [if_pos print]
    obtain ⟨frame, zero⟩ := k.printCase_frame a1 a2
    exact .drawn frame (.inr (.inl print)) zero
  rw [if_neg print]
  by_cases exec : n = syscallExec
  · rw [if_pos exec]
    exact .execs exec
  rw [if_neg exec]
  by_cases terminate : n = syscallTerminate
  · rw [if_pos terminate]
    exact .terminates terminate
  rw [if_neg terminate]
  by_cases halt : n = syscallHalt
  · rw [if_pos halt]
    exact .transfers (.inl halt) zero_of_map
  rw [if_neg halt]
  by_cases read : n = syscallNvmeRead
  · rw [if_pos read]
    exact .transfers (.inr (.inl read)) zero_of_map
  rw [if_neg read]
  by_cases write : n = syscallNvmeWrite
  · rw [if_pos write]
    exact .transfers (.inr (.inr write)) zero_of_map
  rw [if_neg write]
  by_cases kmalloc : n = syscallKmalloc
  · rw [if_pos kmalloc]
    exact k.kmallocCase_dispatched (.inl kmalloc) a1 a2
  rw [if_neg kmalloc]
  by_cases kfree : n = syscallKfree
  · rw [if_pos kfree]
    exact .heap (.inr kfree) zero_of_some
  rw [if_neg kfree, defaultCase]
  exact .drawn ⟨rfl, rfl, rfl, rfl, rfl⟩ (.inr (.inr rfl)) zero_of_some

/-- Beside `SYSCALL_TERMINATE`, only `Scheduler_AddUserTask` changes the task
table, and nothing changes the handlers of interrupts. -/
theorem syscallHandler_sched (k : Kernel) {n : Word} (other : n ≠ syscallTerminate)
    (a1 a2 a3 a4 a5 : Word) (polls : List NvmeCQEntry) :
    let k' := (k.syscallHandler n a1 a2 a3 a4 a5 polls).1
    k'.handlerTable = k.handlerTable ∧ (k'.sched = k.sched ∨
      ∃ pages fn base count, k'.sched =
        ({ k with pages := pages }.addUserTask fn base count).sched) := by
  have dispatched := k.syscallHandler_dispatched n a1 a2 a3 a4 a5 polls
  generalize k.syscallHandler n a1 a2 a3 a4 a5 polls = result at dispatched
  cases dispatched with
  | drawn frame console zero => exact ⟨frame.handlerTable, .inl frame.sched⟩
  | execs named => exact execCase_sched k a1 a2
  | terminates named => exact absurd named other
  | transfers named zero => exact ⟨rfl, .inl rfl⟩
  | heap named zero => exact ⟨rfl, .inl rfl⟩

/-- Every system call that returns, returns 0, but for `SYSCALL_TERMINATE`. -/
theorem syscallHandler_returns (k : Kernel) {n : Word} (other : n ≠ syscallTerminate)
    (a1 a2 a3 a4 a5 : Word) (polls : List NvmeCQEntry) :
    ∀ r, (k.syscallHandler n a1 a2 a3 a4 a5 polls).2 = some r → r = 0 := by
  have dispatched := k.syscallHandler_dispatched n a1 a2 a3 a4 a5 polls
  generalize k.syscallHandler n a1 a2 a3 a4 a5 polls = result at dispatched
  cases dispatched with
  | drawn frame console zero => exact zero
  | execs named =>
      rw [(k.execCase_frame a1 a2).2]
      exact zero_of_some
  | terminates named => exact absurd named other
  | transfers named zero => exact zero
  | heap named zero => exact zero

/-! ## Memory -/

theorem printChar_mem (k : Kernel) (c : BitVec 8) (color width : BitVec 32) :
    (k.printChar c color width).mem = k.mem := by
  unfold printChar
  split
  · rfl
  split
  · rfl
  dsimp only
  split <;> rfl

theorem printWrap_mem (k : Kernel) (height : BitVec 32) : (k.printWrap height).mem = k.mem := by
  unfold printWrap
  split <;> rfl

theorem printLoop_mem (color width height : BitVec 32) : ∀ fuel (k : Kernel) (str : Word),
    (printLoop color width height fuel k str).1.mem = k.mem := by
  intro fuel
  induction fuel with
  | zero => intro k str; rfl
  | succ fuel ih =>
      intro k str
      rw [printLoop]
      split
      · rfl
      · have tail := ih ((k.printChar (k.mem str) color width).printWrap height) (str + 1)
        rw [printWrap_mem, printChar_mem] at tail
        exact tail

/-- Plain memory is written by `SYSCALL_EXEC` alone. -/
theorem syscallHandler_mem (k : Kernel) {n : Word} (other : n ≠ syscallExec)
    (a1 a2 a3 a4 a5 : Word) (polls : List NvmeCQEntry) :
    (k.syscallHandler n a1 a2 a3 a4 a5 polls).1.mem = k.mem := by
  unfold syscallHandler
  by_cases clear : n = syscallClear
  · rw [if_pos clear, clearCase]
  rw [if_neg clear]
  by_cases print : n = syscallPrint
  · rw [if_pos print]
    exact printLoop_mem ..
  rw [if_neg print, if_neg other]
  by_cases terminate : n = syscallTerminate
  · obtain ⟨g, pages, sched, run⟩ := k.terminateCurrentTask_touches 0
    rw [if_pos terminate, terminateCase, run]
  rw [if_neg terminate]
  by_cases halt : n = syscallHalt
  · rw [if_pos halt, haltCase, nvmeReadCase]
  rw [if_neg halt]
  by_cases read : n = syscallNvmeRead
  · rw [if_pos read, nvmeReadCase]
  rw [if_neg read]
  by_cases write : n = syscallNvmeWrite
  · rw [if_pos write, nvmeWriteCase]
  rw [if_neg write]
  by_cases kmalloc : n = syscallKmalloc
  · obtain ⟨heap, run⟩ := (k.kmallocCase_frame a1).1
    rw [if_pos kmalloc, run]
  rw [if_neg kmalloc]
  by_cases kfree : n = syscallKfree
  · rw [if_pos kfree, kfreeCase]
  rw [if_neg kfree, defaultCase]

end Kernel
end Coolos
