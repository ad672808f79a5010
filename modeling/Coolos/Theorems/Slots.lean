import Coolos.Logic.StackRun
import Coolos.Logic.Interrupt

/-!
# Entries of the task table

`SYSCALL_EXEC` always takes the entry behind the last one, so a task can be added
while that is below `MAX_TASKS`. The entry of a terminated task is not taken
again.
-/

namespace Coolos.Theorems

open Lib PageAllocator

/-- There is a run of pages for the user stack, and a page besides. -/
def CanSupply (pa : PageAllocator) (pages : Word) : Prop :=
  pages ≠ 0 ∧ (∃ i, pa.ClearRun i pages.toNat) ∧ pages.toNat < pa.clearPages.card

/-- The frame from which a new task starts `fn` in ring 3, on a stack that ends at
`top`. -/
def startFrame (fn top : Word) : InterruptFrame :=
  { r15 := 0, r14 := 0, r13 := 0, r12 := 0, r11 := 0, r10 := 0, r9 := 0, r8 := 0, rsi := 0,
    rdi := 0, rbp := 0, rdx := 0, rcx := 0, rbx := 0, rax := 0, intNo := 0, errCode := 0,
    rip := fn, cs := userCodeSel, rflags := 0x202, rsp := top, ss := userDataSel }

/-- Entry `i` becomes a new active task that starts at `fn`; the other entries, the
pages in use and what is in them stay. -/
structure AddsTask (k k' : Kernel) (fn : Word) (i : Nat) : Prop where
  old : (k.sched.tasks i).active = false
  new : (k'.sched.tasks i).active = true
  starts : ∃ top, InterruptFrame.read k'.mem (k'.sched.tasks i).rsp = startFrame fn top
  others : ∀ j, j ≠ i → k'.sched.tasks j = k.sched.tasks j
  current : k'.sched.currentTaskIndex = k.sched.currentTaskIndex
  pages : ∀ p, ¬ k.pages.Clear p → ¬ k'.pages.Clear p
  /-- Only one page is written, which was not in use. -/
  mem : ∃ p, k.pages.Clear p ∧ ∀ a : Word, a.toNat / 4096 ≠ p → k'.mem a = k.mem a

/-- With room in the table and pages for the stacks, a task is added. -/
theorem allocates {k : Kernel} {pages : Word} (room : k.sched.totalTasks < maxTasks)
    (ok : CanSupply k.pages pages) : ∃ t, k.execAllocates pages = some t := by
  obtain ⟨nonzero, run, more⟩ := ok
  rcases first : k.pages.alloc pages with ⟨pa, base⟩
  have null : base ≠ 0 := by
    rintro rfl
    rcases (alloc_null first).2 with zero | none
    · exact nonzero zero
    · exact none run
  have left := card_clearPages_alloc first null
  have kstack := (alloc_one_ne_zero_iff pa).mpr (by omega)
  refine ⟨⟨base, pages, (pa.alloc 1).2⟩, ?_⟩
  simp only [Kernel.execAllocates, first]
  exact if_pos ⟨null, room, kstack⟩

/-- The new task starts at `fn`, apart from all that was there. -/
theorem addsTask_of_adds {k k' : Kernel} {fn pages : Word} {t : TaskStacks}
    (adds : ExecAdds k k' fn pages t) (inv : TableInv k.sched) :
    AddsTask k k' fn k.sched.totalTasks := by
  have entry : k'.sched.tasks k.sched.totalTasks =
      ⟨frameBelow (t.kstack + 4096), true, t.base, pages⟩ := by
    rw [adds.sched]
    exact Scheduler.setTask_tasks_self ..
  refine ⟨inv.beyond _ le_rfl, ?_, ?_, ?_, ?_, ?_, ?_⟩
  · rw [entry]
  · refine ⟨t.base + pages * 4096, ?_⟩
    rw [entry, adds.mem]
    exact InterruptFrame.read_pushed rfl
  · intro j ne
    rw [adds.sched]
    exact Scheduler.setTask_tasks_of_ne ne _
  · rw [adds.sched]
    rfl
  · intro p used clear
    exact used ((adds.clear p).mp clear).1
  · -- the frame is built on the page of the kernel stack
    have aligned : t.kstack.toNat % 4096 = 0 := adds.aligned .kernel
    have inside : t.kstack.toNat / 4096 + 1 ≤ maxPages := adds.inside .kernel
    have small : maxPages = 1048576 := rfl
    refine ⟨t.kstack.toNat / 4096, adds.fresh .kernel _ ⟨le_rfl, Nat.lt_succ_self _⟩, ?_⟩
    intro a other
    rw [adds.mem]
    apply Mem.pushAll_apply
    rw [length_initialFrame, frameSize]
    bv_omega

/-- From every state of the scheduler, `SYSCALL_EXEC` adds a task when the table is
not full and the page allocator can supply its stacks. -/
theorem exec_adds_task : ∀ s, StackRun.sys.Reachable s → ∀ a1 a2,
    s.kernel.sched.totalTasks < maxTasks → CanSupply s.kernel.pages a2 →
      ∀ a3 a4 a5 polls, AddsTask s.kernel
        (s.kernel.syscallHandler syscallExec a1 a2 a3 a4 a5 polls).1 a1
          s.kernel.sched.totalTasks := by
  intro s hs a1 a2 room supply a3 a4 a5 polls
  obtain ⟨t, ht⟩ := allocates room supply
  exact addsTask_of_adds (exec_adds a1 ht) (StackRun.invariant s hs).table

/-- A full table stays as it is. -/
theorem execCase_full {k : Kernel} (full : maxTasks ≤ k.sched.totalTasks) (fn pages : Word) :
    (k.execCase fn pages).1.sched = k.sched := by
  rcases h : k.pages.alloc pages with ⟨pa, base⟩
  by_cases null : base = 0
  · subst null
    rw [Kernel.execCase_null fn h]
  · rw [Kernel.execCase_stack fn h null, Kernel.addUserTask_full { k with pages := pa } full]

/-- A machine with pages 1 to 30 clear when its scheduler is initialised. -/
def thirtyPages : StackRun where
  kernel := { Kernel.statics with
    pages := ⟨fun _ => 0, 31, by decide⟩
    sched := Scheduler.zero.init }
  atInit := ⟨fun _ => 0, 31, by decide⟩
  given := fun _ => none
  freed := []

theorem thirtyPages_init : StackRun.sys.init thirtyPages := ⟨rfl, rfl, fun _ => rfl, rfl⟩

theorem thirtyPages_supplies : CanSupply thirtyPages.kernel.pages 1 :=
  ⟨by decide, ⟨1, by decide, by decide, by decide⟩, by decide⟩

theorem exec_adds_task_first : thirtyPages.kernel.sched.totalTasks < maxTasks ∧
    CanSupply thirtyPages.kernel.pages 1 ∧
    ∀ a3 a4 a5 polls, AddsTask thirtyPages.kernel
      (thirtyPages.kernel.syscallHandler syscallExec 0x400000 1 a3 a4 a5 polls).1 0x400000 1 :=
  ⟨by decide, thirtyPages_supplies,
    exec_adds_task _ (.init thirtyPages_init) 0x400000 1 (by decide) thirtyPages_supplies⟩

/-- The active tasks. -/
def activeTasks (sched : Scheduler) : Finset Nat :=
  (Finset.range maxTasks).filter fun i => (sched.tasks i).active = true

/-- The table is filled, and one of its tasks resumed and terminated. -/
def fillTable : List TaskOp :=
  List.replicate 9 (.exec 0x400000 1) ++ [.switch 0x1000, .terminate 0]

/-- Nine tasks are active, but the table has no entry left. -/
theorem slots_not_reused : ¬ ∀ s, StackRun.sys.Reachable s → ∀ a1 a2,
    (activeTasks s.kernel.sched).card < maxTasks → CanSupply s.kernel.pages a2 →
      ∀ a3 a4 a5 polls, ∃ i, AddsTask s.kernel
        (s.kernel.syscallHandler syscallExec a1 a2 a3 a4 a5 polls).1 a1 i := by
  intro claim
  have reached : StackRun.sys.Reachable (fillTable.foldl StackRun.step thirtyPages) :=
    StackRun.reachable_foldl fillTable (.init thirtyPages_init)
  have active : (activeTasks (fillTable.foldl StackRun.step thirtyPages).kernel.sched).card <
      maxTasks := by decide +kernel
  have supply : CanSupply (fillTable.foldl StackRun.step thirtyPages).kernel.pages 1 :=
    ⟨by decide, ⟨21, by decide, by decide +kernel, by decide +kernel⟩, by decide +kernel⟩
  have full : maxTasks ≤ (fillTable.foldl StackRun.step thirtyPages).kernel.sched.totalTasks := by
    decide +kernel
  have adds := claim _ reached 0x400000 1 active supply 0 0 0 []
  generalize (fillTable.foldl StackRun.step thirtyPages).kernel = k at full adds
  obtain ⟨i, adds⟩ := adds
  have new : ((k.execCase 0x400000 1).1.sched.tasks i).active = true := adds.new
  rw [execCase_full full, adds.old] at new
  cases new

end Coolos.Theorems
