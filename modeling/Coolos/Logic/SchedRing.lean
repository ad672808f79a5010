import Coolos.Logic.SchedRun
import Coolos.Lib.RoundRobin

/-!
# The task table as a round-robin table

The searches of `Scheduler_Switch` and `Scheduler_TerminateCurrentTask` find the
next active task round the table, and the scheduler functions do to the table
what `Lib.RoundRobin` says can be done to one.
-/

namespace Coolos

open Lib Lib.RoundRobin

/-- What round robin is about. -/
def Scheduler.table (s : Scheduler) : Table where
  current := s.currentTaskIndex
  total := s.totalTasks
  active i := (s.tasks i).active = true

namespace Kernel

/-- A call to the scheduler, whatever the frame. -/
def schedStep (k : Kernel) : SchedOp → Kernel
  | .addTask fn stackBase => k.addTask fn stackBase
  | .addUserTask fn stackBase stackPages => k.addUserTask fn stackBase stackPages
  | .switch frame => (k.switch frame).1
  | .terminateCurrentTask frame => (k.terminateCurrentTask frame).1
  | .otherPages pages => { k with pages := pages }

/-- Runs of the scheduler from `Scheduler_Init`. -/
def schedSys : TSys Kernel SchedOp where
  init k := k.sched = Scheduler.zero.init
  next k op k' := k.schedStep op = k'

theorem schedStep_eq (k : Kernel) (op : SchedOp) :
    k.schedStep op = (SchedRun.step ⟨k, fun _ => none⟩ op).kernel := by
  cases op <;> rfl

theorem schedSys_table : schedSys.Invariant fun k => TableInv k.sched := by
  apply TSys.Inductive.invariant
  constructor
  · intro k start
    rw [start]
    exact tableInv_init
  · intro k op k' inv next
    rw [← next, schedStep_eq]
    exact SchedRun.step_table inv op

end Kernel

section Table

variable {sched : Scheduler}

theorem TableInv.ok (inv : TableInv sched) : sched.table.Ok where
  current := inv.current
  beyond := by
    intro i hi active
    have := inv.beyond i hi
    exact absurd (active.symm.trans this) (by decide)

theorem table_ahead (j : Nat) : sched.table.ahead j =
    if sched.currentTaskIndex < j then j - sched.currentTaskIndex
    else j + sched.totalTasks - sched.currentTaskIndex := rfl

/-- The search visits the entries in the order they are ahead. -/
theorem ahead_ring (cur : sched.currentTaskIndex < sched.totalTasks) {i : Nat} (low : 1 ≤ i)
    (high : i ≤ sched.totalTasks) :
    sched.table.ahead ((sched.currentTaskIndex + i) % sched.totalTasks) = i := by
  rw [table_ahead]
  by_cases wraps : sched.currentTaskIndex + i < sched.totalTasks
  · rw [Nat.mod_eq_of_lt wraps, if_pos (by omega)]
    omega
  · have once : (sched.currentTaskIndex + i) % sched.totalTasks =
        sched.currentTaskIndex + i - sched.totalTasks := by
      rw [Nat.mod_eq_sub_mod (by omega), Nat.mod_eq_of_lt (by omega)]
    rw [once, if_neg (by omega)]
    omega

theorem ring_ahead {j : Nat} (cur : sched.currentTaskIndex < sched.totalTasks)
    (hj : j < sched.totalTasks) :
    1 ≤ sched.table.ahead j ∧ sched.table.ahead j ≤ sched.totalTasks ∧
      (sched.currentTaskIndex + sched.table.ahead j) % sched.totalTasks = j := by
  rw [table_ahead]
  split
  · refine ⟨by omega, by omega, ?_⟩
    rw [Nat.add_sub_cancel' (by omega), Nat.mod_eq_of_lt hj]
  · refine ⟨by omega, by omega, ?_⟩
    rw [Nat.add_sub_cancel' (by omega), Nat.add_mod_right, Nat.mod_eq_of_lt hj]

/-- The successor is the next active task round the table. -/
theorem TableInv.next (inv : TableInv sched) {next : Nat} (h : sched.successor = some next) :
    sched.table.Next next := by
  obtain ⟨lt, active, ne⟩ := inv.successor h
  refine ⟨lt, active, ne, ?_⟩
  intro j hj activeJ neJ
  unfold Scheduler.successor Scheduler.ring at h
  rw [List.find?_map, Option.map_eq_some_iff] at h
  obtain ⟨i, found, rfl⟩ := h
  rw [List.find?_range'_eq_some] at found
  obtain ⟨-, range, first⟩ := found
  obtain ⟨low, high⟩ := List.mem_range'_1.mp range
  obtain ⟨lowJ, highJ, place⟩ := ring_ahead inv.current hj
  rw [ahead_ring inv.current low (by omega)]
  -- `j` would have been found before
  by_contra later
  have missed := first _ lowJ (by omega)
  have activeJ : (sched.tasks j).active = true := activeJ
  have neJ : j ≠ sched.currentTaskIndex := neJ
  simp [place, activeJ, neJ] at missed

/-- Each scheduler function does one of the steps of a table. -/
theorem Kernel.schedStep_table {k : Kernel} (inv : TableInv k.sched) (op : SchedOp) :
    k.sched.table.Step (k.schedStep op).sched.table := by
  have added (t : TCB) : Table.Step k.sched.table
      ({ k.sched.setTask k.sched.totalTasks t with
        totalTasks := k.sched.totalTasks + 1 } : Scheduler).table := by
    apply Table.Step.add
    intro i hi
    have same := Scheduler.setTask_tasks_of_ne (s := k.sched) hi t
    exact iff_of_eq (congrArg (fun task : TCB => task.active = true) same)
  cases op with
  | addTask fn stackBase =>
      rcases k.addTask_cases fn stackBase with ⟨-, m, run⟩ | ⟨-, run⟩
      · rw [schedStep, run]
        exact added _
      · rw [schedStep, run]
        exact .stay
  | addUserTask fn stackBase stackPages =>
      rcases k.addUserTask_cases fn stackBase stackPages with
        ⟨-, -, m, run⟩ | ⟨-, -, run⟩ | ⟨-, run⟩
      · rw [schedStep, run]
        exact added _
      · rw [schedStep, run]
        exact .add fun i _ => Iff.rfl
      · rw [schedStep, run]
        exact .stay
  | switch frame =>
      rcases k.switch_cases frame with ⟨next, g, succ, run⟩ | ⟨-, g, run⟩
      · rw [schedStep, run]
        have same : (fun i => ((k.sched.setTask k.sched.currentTaskIndex
            { k.sched.tasks k.sched.currentTaskIndex with rsp := frame }).tasks i).active = true) =
              k.sched.table.active := by
          funext i
          by_cases here : i = k.sched.currentTaskIndex
          · subst here
            rw [Scheduler.setTask_tasks_self]
            rfl
          · rw [Scheduler.setTask_tasks_of_ne here]
            rfl
        show Table.Step _ ⟨next, k.sched.totalTasks, _⟩
        rw [same]
        exact .move (inv.next succ)
      · rw [schedStep, run]
        exact .stay
  | terminateCurrentTask frame =>
      by_cases main : k.sched.currentTaskIndex = 0
      · obtain ⟨g, run⟩ := k.terminate_main frame main
        rw [schedStep, run]
        exact .stay
      · obtain ⟨next, g, succ, run⟩ := inv.terminate_run main frame
        rw [schedStep, run]
        apply Table.Step.leave (inv.next succ)
        · show ¬ ((k.sched.setTask _ _).tasks _).active = true
          have gone : ((k.sched.setTask k.sched.currentTaskIndex
              (retire (k.sched.tasks k.sched.currentTaskIndex))).tasks
                k.sched.currentTaskIndex).active = false := by
            rw [Scheduler.setTask_tasks_self, retire_active]
          intro active
          exact absurd (active.symm.trans gone) (by decide)
        · intro i hi
          have same := Scheduler.setTask_tasks_of_ne (s := k.sched) hi
            (retire (k.sched.tasks k.sched.currentTaskIndex))
          exact iff_of_eq (congrArg (fun task : TCB => task.active = true) same)
  | otherPages pages => exact .stay

end Table
end Coolos
