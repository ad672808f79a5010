import Coolos.Logic.SchedRun
import Coolos.Kernel.Syscall

/-!
# The task table over whole runs

From `Scheduler_Init`, through any sequence of additions, switches and
terminations, the table stays consistent and every task that can be resumed has
a frame to resume from.
-/

namespace Coolos.Theorems

open Lib

/-- The table is consistent, an active task that is not running resumes from its
initial frame or from where it was last switched out, and `SYSCALL_TERMINATE`
returns a frame exactly when it terminated its caller. -/
structure SchedulerConsistent (s : SchedRun) : Prop where
  current : s.kernel.sched.currentTaskIndex < s.kernel.sched.totalTasks
  total : s.kernel.sched.totalTasks ≤ maxTasks
  running : (s.kernel.sched.tasks s.kernel.sched.currentTaskIndex).active = true
  main : (s.kernel.sched.tasks 0).active = true
  resumes : ∀ i, (s.kernel.sched.tasks i).active = true → i ≠ s.kernel.sched.currentTaskIndex →
    (s.kernel.sched.tasks i).rsp ≠ 0 ∧
      (s.saved i = some (.built (s.kernel.sched.tasks i).rsp) ∨
        s.saved i = some (.switchedOut (s.kernel.sched.tasks i).rsp))
  terminate : ∀ a1 a2 a3 a4 a5 polls, ∃ r,
    (s.kernel.syscallHandler syscallTerminate a1 a2 a3 a4 a5 polls).2 = some r ∧
      (r ≠ 0 ↔ s.kernel.sched.currentTaskIndex ≠ 0)
  sysret : ∀ a1 a2 a3 a4 a5 polls k,
    s.kernel.syscallHandler syscallTerminate a1 a2 a3 a4 a5 polls = (k, some 0) →
      k.sched.currentTaskIndex = s.kernel.sched.currentTaskIndex ∧
        (k.sched.tasks k.sched.currentTaskIndex).active = true

theorem terminateCase_of_handler (k : Kernel) (a1 a2 a3 a4 a5 : Word) (polls : List NvmeCQEntry) :
    k.syscallHandler syscallTerminate a1 a2 a3 a4 a5 polls =
      ((k.terminateCurrentTask 0).1, some (k.terminateCurrentTask 0).2) := rfl

theorem scheduler_consistent :
    (SchedRun.sys.guard SchedRun.Placed).Invariant SchedulerConsistent := by
  intro s hs
  have inv := SchedRun.invariant s hs
  refine ⟨inv.current, inv.total, inv.running, inv.main, fun i active ne => ?_, ?_, ?_⟩
  · obtain ⟨rsp, place, saved, eq⟩ := inv.resumes i active ne
    rw [eq] at rsp ⊢
    cases place with
    | built frame => exact ⟨rsp, .inl saved⟩
    | switchedOut frame => exact ⟨rsp, .inr saved⟩
  · intro a1 a2 a3 a4 a5 polls
    exact ⟨_, by rw [terminateCase_of_handler], SchedInv.terminate_result inv⟩
  · intro a1 a2 a3 a4 a5 polls k run
    rw [terminateCase_of_handler] at run
    obtain ⟨hk, hr⟩ := Prod.mk.inj run
    have main : s.kernel.sched.currentTaskIndex = 0 := by
      by_contra other
      exact (SchedInv.terminate_result inv).mpr other (Option.some.inj hr)
    obtain ⟨g, same⟩ := s.kernel.terminate_main 0 main
    rw [← hk, same]
    exact ⟨rfl, inv.running⟩

/-- A frame built below the top of the address space ends up at 0, so the task
added there cannot be resumed. -/
theorem scheduler_frame_at_zero : ¬ SchedRun.sys.Invariant SchedulerConsistent := by
  intro claim
  have := (claim _ (.step (e := .addTask 0 0xfffffffffffff0b0) (.init ⟨Kernel.statics, rfl⟩)
    ⟨trivial, rfl⟩)).resumes 1 (by decide) (by decide)
  exact absurd this.1 (by decide)

end Coolos.Theorems
