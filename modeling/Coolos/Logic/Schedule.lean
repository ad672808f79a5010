import Coolos.Kernel.Schedule
import Coolos.Logic.PageAllocator

/-!
# What the scheduler functions do

One case lemma for each function of `schedule.c`: which task becomes current,
which entry of the table changes and what else does. Everything on the screen
is left to an existential; no later result depends on it.
-/

namespace Coolos

open Lib

/-- Bytes of an `InterruptFrame`. -/
def frameSize : Nat := 176

/-- Where a frame built below `stackTop` stands. -/
def frameBelow (stackTop : Word) : Word := stackTop - loc frameSize

theorem length_initialFrame (ss rsp cs rip : Word) :
    8 * (initialFrame ss rsp cs rip).length = frameSize := rfl

namespace Scheduler

variable {s : Scheduler}

@[simp] theorem setTask_currentTaskIndex (i : Nat) (t : TCB) :
    (s.setTask i t).currentTaskIndex = s.currentTaskIndex := rfl

@[simp] theorem setTask_totalTasks (i : Nat) (t : TCB) :
    (s.setTask i t).totalTasks = s.totalTasks := rfl

@[simp] theorem setTask_tasks_self (i : Nat) (t : TCB) : (s.setTask i t).tasks i = t :=
  Function.update_self ..

theorem setTask_tasks_of_ne {i j : Nat} (h : j ≠ i) (t : TCB) :
    (s.setTask i t).tasks j = s.tasks j :=
  Function.update_of_ne h ..

@[simp] theorem setTask_ring (i : Nat) (t : TCB) : (s.setTask i t).ring = s.ring := rfl

/-- The searches visit every task there is, and no other index. -/
theorem mem_ring (h : s.currentTaskIndex < s.totalTasks) {j : Nat} :
    j ∈ s.ring ↔ j < s.totalTasks := by
  simp only [ring, List.mem_map, List.mem_range'_1]
  constructor
  · rintro ⟨i, -, rfl⟩
    exact Nat.mod_lt _ (by omega)
  · intro hj
    by_cases ahead : s.currentTaskIndex < j
    · refine ⟨j - s.currentTaskIndex, by omega, ?_⟩
      rw [Nat.add_sub_cancel' (by omega), Nat.mod_eq_of_lt hj]
    · refine ⟨j + s.totalTasks - s.currentTaskIndex, by omega, ?_⟩
      rw [Nat.add_sub_cancel' (by omega), Nat.add_mod_right, Nat.mod_eq_of_lt hj]

/-- The next active task round the table that is not the current one. -/
def successor (s : Scheduler) : Option Nat :=
  s.ring.find? fun idx => (s.tasks idx).active && idx != s.currentTaskIndex

theorem successor_some {next : Nat} (h : s.successor = some next) :
    next ∈ s.ring ∧ (s.tasks next).active = true ∧ next ≠ s.currentTaskIndex := by
  have found := List.find?_some h
  simp only [Bool.and_eq_true, bne_iff_ne] at found
  exact ⟨List.mem_of_find?_eq_some h, found⟩

theorem successor_none (h : s.successor = none) :
    ∀ i ∈ s.ring, (s.tasks i).active = true → i = s.currentTaskIndex := by
  intro i hi active
  simpa [active] using List.find?_eq_none.mp h i hi

end Scheduler

namespace Kernel

variable (k : Kernel) (frame : Word)

/-- `Scheduler_Switch` saves the frame pointer and resumes the successor, or there
is none and nothing changes. -/
theorem switch_cases :
    (∃ next g, k.sched.successor = some next ∧
      k.switch frame = ({ k with
        graphics := g
        sched := { k.sched.setTask k.sched.currentTaskIndex
          { k.sched.tasks k.sched.currentTaskIndex with rsp := frame } with
            currentTaskIndex := next } }, (k.sched.tasks next).rsp)) ∨
    (k.sched.successor = none ∧ ∃ g, k.switch frame = ({ k with graphics := g }, frame)) := by
  cases h : k.sched.successor with
  | none =>
      have search := h
      unfold Scheduler.successor at search
      exact .inr ⟨rfl, _, by simp only [switch, search]; rfl⟩
  | some next =>
      obtain ⟨-, -, ne⟩ := Scheduler.successor_some h
      unfold Scheduler.successor at h
      have step : ∃ g, k.switch frame = ({ k with
          graphics := g
          sched := { k.sched.setTask k.sched.currentTaskIndex
            { k.sched.tasks k.sched.currentTaskIndex with rsp := frame } with
              currentTaskIndex := next } }, (k.sched.tasks next).rsp) := by
        simp only [switch, h, schedulerMessage, Scheduler.setTask_tasks_of_ne ne]
        exact ⟨_, rfl⟩
      obtain ⟨g, step⟩ := step
      exact .inl ⟨next, g, rfl, step⟩

/-- `Scheduler_AddTask` takes the next entry of the table. -/
theorem addTask_room (room : k.sched.totalTasks < maxTasks) (fn stackBase : Word) :
    ∃ m, k.addTask fn stackBase = { k with
      mem := m
      sched := { k.sched.setTask k.sched.totalTasks
        ⟨frameBelow (stackBase + 4096), true, stackBase, 1⟩ with
          totalTasks := k.sched.totalTasks + 1 } } := by
  simp only [addTask, if_neg (Nat.not_le.mpr room), Mem.pushAll_snd, length_initialFrame]
  exact ⟨_, rfl⟩

/-- A full table leaves everything as it was. -/
theorem addTask_full (full : maxTasks ≤ k.sched.totalTasks) (fn stackBase : Word) :
    k.addTask fn stackBase = k := if_pos full

theorem addUserTask_full (full : maxTasks ≤ k.sched.totalTasks) (fn stackBase pages : Word) :
    k.addUserTask fn stackBase pages = k := if_pos full

/-- Without a page for the kernel stack `Scheduler_AddUserTask` still uses up
the next entry of the table. -/
theorem addUserTask_fail (room : k.sched.totalTasks < maxTasks) (fn stackBase stackPages : Word)
    (fail : (k.pages.alloc 1).2 = 0) :
    k.addUserTask fn stackBase stackPages = { k with
      pages := (k.pages.alloc 1).1
      sched.totalTasks := k.sched.totalTasks + 1 } := by
  simp only [addUserTask, if_neg (Nat.not_le.mpr room), fail, if_true]

/-- With one it takes the next entry of the table. -/
theorem addUserTask_room (room : k.sched.totalTasks < maxTasks) (fn stackBase stackPages : Word)
    (ok : (k.pages.alloc 1).2 ≠ 0) :
    ∃ m, k.addUserTask fn stackBase stackPages = { k with
      mem := m
      pages := (k.pages.alloc 1).1
      sched := { k.sched.setTask k.sched.totalTasks
        ⟨frameBelow ((k.pages.alloc 1).2 + 4096), true, stackBase, stackPages⟩ with
          totalTasks := k.sched.totalTasks + 1 } } := by
  simp only [addUserTask, if_neg (Nat.not_le.mpr room), if_neg ok, Mem.pushAll_snd,
    length_initialFrame]
  exact ⟨_, rfl⟩

/-- `Scheduler_AddTask`, whatever the table. -/
theorem addTask_cases (fn stackBase : Word) :
    (k.sched.totalTasks < maxTasks ∧ ∃ m, k.addTask fn stackBase = { k with
      mem := m
      sched := { k.sched.setTask k.sched.totalTasks
        ⟨frameBelow (stackBase + 4096), true, stackBase, 1⟩ with
          totalTasks := k.sched.totalTasks + 1 } }) ∨
    (¬ k.sched.totalTasks < maxTasks ∧ k.addTask fn stackBase = k) := by
  by_cases room : k.sched.totalTasks < maxTasks
  · exact .inl ⟨room, k.addTask_room room fn stackBase⟩
  · exact .inr ⟨room, k.addTask_full (Nat.not_lt.mp room) fn stackBase⟩

/-- `Scheduler_AddUserTask`, whatever the table and the pages. -/
theorem addUserTask_cases (fn stackBase stackPages : Word) :
    (k.sched.totalTasks < maxTasks ∧ (k.pages.alloc 1).2 ≠ 0 ∧
      ∃ m, k.addUserTask fn stackBase stackPages = { k with
        mem := m
        pages := (k.pages.alloc 1).1
        sched := { k.sched.setTask k.sched.totalTasks
          ⟨frameBelow ((k.pages.alloc 1).2 + 4096), true, stackBase, stackPages⟩ with
            totalTasks := k.sched.totalTasks + 1 } }) ∨
    (k.sched.totalTasks < maxTasks ∧ (k.pages.alloc 1).2 = 0 ∧
      k.addUserTask fn stackBase stackPages = { k with
        pages := (k.pages.alloc 1).1
        sched.totalTasks := k.sched.totalTasks + 1 }) ∨
    (¬ k.sched.totalTasks < maxTasks ∧ k.addUserTask fn stackBase stackPages = k) := by
  by_cases room : k.sched.totalTasks < maxTasks
  · by_cases fail : (k.pages.alloc 1).2 = 0
    · exact .inr (.inl ⟨room, fail, k.addUserTask_fail room fn stackBase stackPages fail⟩)
    · exact .inl ⟨room, fail, k.addUserTask_room room fn stackBase stackPages fail⟩
  · exact .inr (.inr ⟨room, k.addUserTask_full (Nat.not_lt.mp room) fn stackBase stackPages⟩)

/-- The frame it starts from is pushed on its kernel stack. -/
theorem addUserTask_mem (room : k.sched.totalTasks < maxTasks) (fn stackBase stackPages : Word)
    (ok : (k.pages.alloc 1).2 ≠ 0) :
    (k.addUserTask fn stackBase stackPages).mem = (k.mem.pushAll ((k.pages.alloc 1).2 + 4096)
      (initialFrame userDataSel (stackBase + stackPages * 4096) userCodeSel fn)).1 := by
  simp only [addUserTask, if_neg (Nat.not_le.mpr room), if_neg ok]

/-- The pages `Scheduler_TerminateCurrentTask` gives back. -/
def releaseStack (pages : PageAllocator) (task : TCB) : PageAllocator :=
  if task.stackBase ≠ 0 ∧ task.stackPages ≠ 0 then pages.free task.stackBase task.stackPages
  else pages

/-- The main task is not terminated. -/
theorem terminate_main (main : k.sched.currentTaskIndex = 0) :
    ∃ g, k.terminateCurrentTask frame = ({ k with graphics := g }, frame) :=
  ⟨_, by rw [terminateCurrentTask, if_pos main]; rfl⟩

/-- What is left of a task that was terminated. -/
def retire (task : TCB) : TCB :=
  if task.stackBase ≠ 0 ∧ task.stackPages ≠ 0 then { task with stackBase := 0, active := false }
  else { task with active := false }

@[simp] theorem retire_active (task : TCB) : (retire task).active = false := by
  unfold retire
  split <;> rfl

/-- A task that is active after another was terminated is as it was. -/
theorem active_retired {s : Scheduler} {i : Nat} (active : ((s.setTask s.currentTaskIndex
      (retire (s.tasks s.currentTaskIndex))).tasks i).active = true) :
    i ≠ s.currentTaskIndex ∧
      (s.setTask s.currentTaskIndex (retire (s.tasks s.currentTaskIndex))).tasks i = s.tasks i := by
  have other : i ≠ s.currentTaskIndex := by
    intro here
    rw [here, Scheduler.setTask_tasks_self, retire_active] at active
    cases active
  exact ⟨other, Scheduler.setTask_tasks_of_ne other _⟩

/-- The task terminated is no candidate of the search. -/
theorem successor_retire : (k.sched.ring.find? fun idx => ((k.sched.setTask k.sched.currentTaskIndex
    (retire (k.sched.tasks k.sched.currentTaskIndex))).tasks idx).active) = k.sched.successor := by
  unfold Scheduler.successor
  congr 1
  funext idx
  by_cases here : idx = k.sched.currentTaskIndex
  · subst here
    simp
  · rw [Scheduler.setTask_tasks_of_ne here]
    simp [here]

/-- Any other task gives its stack back and becomes inactive; its successor
resumes, the main task when there is none. -/
theorem terminate_other (other : k.sched.currentTaskIndex ≠ 0) :
    ∃ g, k.terminateCurrentTask frame = ({ k with
      graphics := g
      pages := releaseStack k.pages (k.sched.tasks k.sched.currentTaskIndex)
      sched := { k.sched.setTask k.sched.currentTaskIndex
        (retire (k.sched.tasks k.sched.currentTaskIndex)) with
          currentTaskIndex := k.sched.successor.getD 0 } },
      (k.sched.tasks (k.sched.successor.getD 0)).rsp) := by
  have step : ∃ g, k.terminateCurrentTask frame =
      let sched := k.sched.setTask k.sched.currentTaskIndex
        (retire (k.sched.tasks k.sched.currentTaskIndex))
      let next := (sched.ring.find? fun idx => (sched.tasks idx).active).getD 0
      ({ k with
        graphics := g
        pages := releaseStack k.pages (k.sched.tasks k.sched.currentTaskIndex)
        sched := { sched with currentTaskIndex := next } }, (sched.tasks next).rsp) := by
    by_cases freed : (k.sched.tasks k.sched.currentTaskIndex).stackBase ≠ 0 ∧
        (k.sched.tasks k.sched.currentTaskIndex).stackPages ≠ 0
    · simp only [terminateCurrentTask, if_neg other, releaseStack, retire, if_pos freed]
      exact ⟨_, rfl⟩
    · simp only [terminateCurrentTask, if_neg other, releaseStack, retire, if_neg freed]
      exact ⟨_, rfl⟩
  have ne : k.sched.successor.getD 0 ≠ k.sched.currentTaskIndex := by
    cases h : k.sched.successor with
    | none => exact other.symm
    | some next => exact (Scheduler.successor_some h).2.2
  obtain ⟨g, step⟩ := step
  refine ⟨g, ?_⟩
  rw [step]
  simp only [Scheduler.setTask_ring, successor_retire, Scheduler.setTask_tasks_of_ne ne]

/-! ## What they touch -/

/-- Adding a task touches memory, the page allocator and the table. -/
theorem addUserTask_touches (fn stackBase stackPages : Word) :
    ∃ m pages sched, k.addUserTask fn stackBase stackPages =
      { k with mem := m, pages := pages, sched := sched } := by
  rcases k.addUserTask_cases fn stackBase stackPages with
    ⟨-, -, m, run⟩ | ⟨-, -, run⟩ | ⟨-, run⟩
  · exact ⟨m, _, _, run⟩
  · exact ⟨_, _, _, run⟩
  · exact ⟨_, _, _, run⟩

/-- A switch touches the screen and the table. -/
theorem switch_touches :
    ∃ g sched, (k.switch frame).1 = { k with graphics := g, sched := sched } := by
  rcases k.switch_cases frame with ⟨next, g, -, run⟩ | ⟨-, g, run⟩
  · exact ⟨g, _, by rw [run]⟩
  · exact ⟨g, _, by rw [run]⟩

/-- Terminating a task touches the page allocator as well. -/
theorem terminateCurrentTask_touches :
    ∃ g pages sched, (k.terminateCurrentTask frame).1 =
      { k with graphics := g, pages := pages, sched := sched } := by
  by_cases main : k.sched.currentTaskIndex = 0
  · obtain ⟨g, run⟩ := k.terminate_main frame main
    exact ⟨g, _, _, by rw [run]⟩
  · obtain ⟨g, run⟩ := k.terminate_other frame main
    exact ⟨g, _, _, by rw [run]⟩

end Kernel
end Coolos
