import Coolos.Logic.SchedRing

/-!
# Round robin

Between two activations of a task, every other task that is active all the time
runs exactly once, however tasks are added and terminated in the meantime.
-/

namespace Coolos.Theorems

open Lib Lib.RoundRobin

/-- `current_task_index`. -/
def currentTask (k : Kernel) : Nat := k.sched.currentTaskIndex

/-- A stretch of a run in which `x` is current at first, and becomes current again in
the last state and in no state before. -/
structure Round (x : Nat) (k : Kernel) (trace : List Kernel) (k' : Kernel) : Prop where
  path : Path Kernel.schedSys.Steps k trace k'
  start : currentTask k = x
  back : arrivals currentTask x k trace = 1
  away : arrivals currentTask x k trace.tail = 0

theorem round_robin_exact {x y : Nat} {k k' : Kernel} {trace : List Kernel}
    (reach : Kernel.schedSys.Reachable k) (round : Round x k trace k') (other : y ≠ x)
    (stays : ∀ s ∈ k :: trace, (s.sched.tasks y).active = true) :
    arrivals currentTask y k trace = 1 := by
  obtain ⟨path, start, back, away⟩ := round
  have inv : TableInv k.sched := Kernel.schedSys_table k reach
  have view : currentTask = Table.current ∘ fun k : Kernel => k.sched.table := rfl
  have keep : ∀ s s' : Kernel, TableInv s.sched → Kernel.schedSys.Steps s s' →
      TableInv s'.sched ∧ s.sched.table.Step s'.sched.table := by
    intro s s' inv step
    obtain ⟨op, rfl⟩ := step
    refine ⟨?_, Kernel.schedStep_table inv op⟩
    rw [Kernel.schedStep_eq]
    exact SchedRun.step_table inv op
  cases path with
  | nil => exact absurd back Nat.zero_ne_one
  | @step s' s'' trace path next =>
      rw [List.tail_cons] at away
      obtain ⟨inv', before⟩ := path.map (fun k : Kernel => k.sched.table) keep inv
      obtain ⟨-, last⟩ := keep _ _ inv' next
      have reached : currentTask k' = x ∧ currentTask s' ≠ x := by
        rw [arrivals, path.headD, away] at back
        by_contra none
        rw [if_neg none] at back
        exact absurd back Nat.zero_ne_one
      rw [view, ← arrivals_map (fun k : Kernel => k.sched.table)]
      rw [view, ← arrivals_map (fun k : Kernel => k.sched.table)] at away
      refine arrivals_round inv.ok start before last away reached other ?_
      intro t ht
      have member : t ∈ (k :: k' :: trace).map fun k : Kernel => k.sched.table := ht
      obtain ⟨s, hs, rfl⟩ := List.mem_map.mp member
      exact stays s hs

/-- The main task has added two tasks. -/
def twoAdded : Kernel :=
  ({ Kernel.statics with sched := Scheduler.zero.init }.schedStep (.addTask 0x100 0x5000)).schedStep
    (.addTask 0x200 0x6000)

theorem twoAdded_reachable : Kernel.schedSys.Reachable twoAdded := by
  have start : Kernel.schedSys.Reachable { Kernel.statics with sched := Scheduler.zero.init } :=
    .init rfl
  exact .step (e := .addTask 0x200 0x6000) (.step (e := .addTask 0x100 0x5000) start rfl) rfl

/-- Task 1 runs, ends, and task 2 gives way to the main task. -/
def firstRuns : Kernel := twoAdded.schedStep (.switch 0x7000)
def secondRuns : Kernel := firstRuns.schedStep (.terminateCurrentTask 0x8000)
def mainRuns : Kernel := secondRuns.schedStep (.switch 0x9000)

theorem round_robin_exact_three :
    arrivals currentTask 2 twoAdded [mainRuns, secondRuns, firstRuns] = 1 :=
  round_robin_exact (x := 0) twoAdded_reachable
    ⟨.step (.step (.step .nil ⟨_, rfl⟩) ⟨_, rfl⟩) ⟨_, rfl⟩, by decide, by decide, by decide⟩
    (by decide) (by decide)

end Coolos.Theorems
