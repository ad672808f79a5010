import Coolos.Logic.Schedule
import Coolos.Lib.TSys

/-!
# Runs of the scheduler

Any sequence of the four scheduler functions from `Scheduler_Init`, over a page
allocator that others use as well. Beside the kernel the run records where the
registers of each task were last put: the frame built when it was added, or the
one passed when it was switched out. `SchedInv` says that a task that is active
but not running resumes from there.
-/

namespace Coolos

open Lib

/-- A call to the scheduler, or the other users of the page allocator at work,
who leave it as they please. -/
inductive SchedOp where
  | addTask (fn stackBase : Word)
  | addUserTask (fn stackBase stackPages : Word)
  | switch (frame : Word)
  | terminateCurrentTask (frame : Word)
  | otherPages (pages : PageAllocator)

/-- Where the registers of a task were put. -/
inductive SavedAt where
  | built (frame : Word)
  | switchedOut (frame : Word)
  deriving DecidableEq

def SavedAt.frame : SavedAt → Word
  | .built frame => frame
  | .switchedOut frame => frame

structure SchedRun where
  kernel : Kernel
  saved : Nat → Option SavedAt

namespace SchedRun

/-- A task is never switched out with a null frame pointer. -/
def Allowed : SchedOp → Prop
  | .addTask _ _ => True
  | .addUserTask _ _ _ => True
  | .switch frame => frame ≠ 0
  | .terminateCurrentTask _ => True
  | .otherPages _ => True

/-- Record where the registers of task `i` were put. -/
def save (saved : Nat → Option SavedAt) (i : Nat) (place : SavedAt) : Nat → Option SavedAt :=
  Function.update saved i (some place)

def step (s : SchedRun) : SchedOp → SchedRun
  | .addTask fn stackBase =>
      let sched := s.kernel.sched
      ⟨s.kernel.addTask fn stackBase,
        if sched.totalTasks < maxTasks then
          save s.saved sched.totalTasks (.built (frameBelow (stackBase + 4096)))
        else s.saved⟩
  | .addUserTask fn stackBase stackPages =>
      let sched := s.kernel.sched
      let kstack := (s.kernel.pages.alloc 1).2
      ⟨s.kernel.addUserTask fn stackBase stackPages,
        if sched.totalTasks < maxTasks ∧ kstack ≠ 0 then
          save s.saved sched.totalTasks (.built (frameBelow (kstack + 4096)))
        else s.saved⟩
  | .switch frame =>
      let cur := s.kernel.sched.currentTaskIndex
      let k := (s.kernel.switch frame).1
      ⟨k, if k.sched.currentTaskIndex = cur then s.saved
        else save s.saved cur (.switchedOut frame)⟩
  | .terminateCurrentTask frame => ⟨(s.kernel.terminateCurrentTask frame).1, s.saved⟩
  | .otherPages pages => ⟨{ s.kernel with pages := pages }, s.saved⟩

/-- Runs from `Scheduler_Init`. -/
def sys : TSys SchedRun SchedOp where
  init s := ∃ k : Kernel, s = ⟨{ k with sched := Scheduler.zero.init }, fun _ => none⟩
  next s op s' := Allowed op ∧ s.step op = s'

/-- The frame `Scheduler_AddTask` builds does not end up at address 0. -/
def Placed (_ : SchedRun) : SchedOp → Prop
  | .addTask _ stackBase => stackBase + 3920 ≠ 0
  | _ => True

end SchedRun

/-- The table is consistent. -/
structure TableInv (sched : Scheduler) : Prop where
  current : sched.currentTaskIndex < sched.totalTasks
  total : sched.totalTasks ≤ maxTasks
  running : (sched.tasks sched.currentTaskIndex).active = true
  main : (sched.tasks 0).active = true
  beyond : ∀ i, sched.totalTasks ≤ i → (sched.tasks i).active = false

/-- An active task that is not running resumes from where its registers were
put. -/
def Resumes (sched : Scheduler) (saved : Nat → Option SavedAt) : Prop :=
  ∀ i, (sched.tasks i).active = true → i ≠ sched.currentTaskIndex →
    (sched.tasks i).rsp ≠ 0 ∧ ∃ place, saved i = some place ∧ (sched.tasks i).rsp = place.frame

structure SchedInv (sched : Scheduler) (saved : Nat → Option SavedAt) : Prop extends
    TableInv sched where
  resumes : Resumes sched saved

/-! ## The table -/

section Table

variable {sched : Scheduler}

theorem tableInv_init : TableInv Scheduler.zero.init where
  current := by decide
  total := by decide
  running := rfl
  main := rfl
  beyond i hi := by
    have ne : i ≠ 0 := by
      have : 1 ≤ i := hi
      omega
    simp only [Scheduler.init, Scheduler.zero, if_neg ne, ite_self]

/-- A task that is added takes the entry behind the last one. -/
theorem TableInv.add (inv : TableInv sched) (room : sched.totalTasks < maxTasks) (t : TCB) :
    TableInv { sched.setTask sched.totalTasks t with totalTasks := sched.totalTasks + 1 } where
  current := Nat.lt_succ_of_lt inv.current
  total := room
  running := by
    show ((sched.setTask _ t).tasks sched.currentTaskIndex).active = true
    rw [Scheduler.setTask_tasks_of_ne (Nat.ne_of_lt inv.current)]
    exact inv.running
  main := by
    show ((sched.setTask _ t).tasks 0).active = true
    rw [Scheduler.setTask_tasks_of_ne (by have := inv.current; omega)]
    exact inv.main
  beyond i hi := by
    have hi : sched.totalTasks + 1 ≤ i := hi
    show ((sched.setTask _ t).tasks i).active = false
    rw [Scheduler.setTask_tasks_of_ne (by omega)]
    exact inv.beyond i (by omega)

/-- An entry that is passed over stays inactive. -/
theorem TableInv.skip (inv : TableInv sched) (room : sched.totalTasks < maxTasks) :
    TableInv { sched with totalTasks := sched.totalTasks + 1 } where
  current := Nat.lt_succ_of_lt inv.current
  total := room
  running := inv.running
  main := inv.main
  beyond i hi := inv.beyond i (Nat.le_of_succ_le hi)

/-- A successor is another active task of the table. -/
theorem TableInv.successor (inv : TableInv sched) {next : Nat} (h : sched.successor = some next) :
    next < sched.totalTasks ∧ (sched.tasks next).active = true ∧ next ≠ sched.currentTaskIndex := by
  obtain ⟨mem, active, ne⟩ := Scheduler.successor_some h
  exact ⟨(Scheduler.mem_ring inv.current).mp mem, active, ne⟩

/-- Every task but the main one has a successor, if only the main task. -/
theorem TableInv.exists_successor (inv : TableInv sched) (other : sched.currentTaskIndex ≠ 0) :
    ∃ next, sched.successor = some next := by
  cases h : sched.successor with
  | some next => exact ⟨next, rfl⟩
  | none =>
      have here : 0 ∈ sched.ring :=
        (Scheduler.mem_ring inv.current).mpr (by have := inv.current; omega)
      exact absurd (Scheduler.successor_none h 0 here inv.main).symm other

/-- The running task is switched out for its successor. -/
theorem TableInv.switch (inv : TableInv sched) {next : Nat} (h : sched.successor = some next)
    (frame : Word) :
    TableInv { sched.setTask sched.currentTaskIndex
      { sched.tasks sched.currentTaskIndex with rsp := frame } with currentTaskIndex := next } := by
  obtain ⟨lt, active, -⟩ := inv.successor h
  have flags : ∀ i, ((sched.setTask sched.currentTaskIndex
      { sched.tasks sched.currentTaskIndex with rsp := frame }).tasks i).active =
        (sched.tasks i).active := by
    intro i
    by_cases h : i = sched.currentTaskIndex
    · subst h; rw [Scheduler.setTask_tasks_self]
    · rw [Scheduler.setTask_tasks_of_ne h]
  exact ⟨lt, inv.total, (flags _).trans active, (flags _).trans inv.main,
    fun i hi => (flags i).trans (inv.beyond i hi)⟩

/-- The running task is terminated and its successor resumes. -/
theorem TableInv.terminate (inv : TableInv sched) {next : Nat}
    (other : sched.currentTaskIndex ≠ 0) (h : sched.successor = some next) :
    TableInv { sched.setTask sched.currentTaskIndex
      (Kernel.retire (sched.tasks sched.currentTaskIndex)) with currentTaskIndex := next } := by
  obtain ⟨lt, active, ne⟩ := inv.successor h
  refine ⟨lt, inv.total, ?_, ?_, fun i hi => ?_⟩
  · show ((sched.setTask _ _).tasks next).active = true
    rw [Scheduler.setTask_tasks_of_ne ne]
    exact active
  · show ((sched.setTask _ _).tasks 0).active = true
    rw [Scheduler.setTask_tasks_of_ne other.symm]
    exact inv.main
  · have hi : sched.totalTasks ≤ i := hi
    show ((sched.setTask _ _).tasks i).active = false
    rw [Scheduler.setTask_tasks_of_ne (by have := inv.current; omega)]
    exact inv.beyond i hi

/-- `Scheduler_TerminateCurrentTask` on any task but the main one. -/
theorem TableInv.terminate_run {k : Kernel} (inv : TableInv k.sched)
    (other : k.sched.currentTaskIndex ≠ 0) (frame : Word) :
    ∃ next g, k.sched.successor = some next ∧
      k.terminateCurrentTask frame = ({ k with
        graphics := g
        pages := Kernel.releaseStack k.pages (k.sched.tasks k.sched.currentTaskIndex)
        sched := { k.sched.setTask k.sched.currentTaskIndex
          (Kernel.retire (k.sched.tasks k.sched.currentTaskIndex)) with
            currentTaskIndex := next } }, (k.sched.tasks next).rsp) := by
  obtain ⟨next, h⟩ := inv.exists_successor other
  obtain ⟨g, run⟩ := k.terminate_other frame other
  rw [h] at run
  exact ⟨next, g, h, run⟩

theorem SchedRun.step_table {s : SchedRun} (inv : TableInv s.kernel.sched) (op : SchedOp) :
    TableInv (s.step op).kernel.sched := by
  cases op with
  | addTask fn stackBase =>
      rcases s.kernel.addTask_cases fn stackBase with ⟨room, m, run⟩ | ⟨-, run⟩
      · simp only [step, run]
        exact inv.add room _
      · simp only [step, run]
        exact inv
  | addUserTask fn stackBase stackPages =>
      rcases s.kernel.addUserTask_cases fn stackBase stackPages with
        ⟨room, -, m, run⟩ | ⟨room, -, run⟩ | ⟨-, run⟩
      · simp only [step, run]
        exact inv.add room _
      · simp only [step, run]
        exact inv.skip room
      · simp only [step, run]
        exact inv
  | switch frame =>
      rcases s.kernel.switch_cases frame with ⟨next, g, h, run⟩ | ⟨-, g, run⟩
      · simp only [step, run]
        exact inv.switch h frame
      · simp only [step, run]
        exact inv
  | terminateCurrentTask frame =>
      by_cases main : s.kernel.sched.currentTaskIndex = 0
      · obtain ⟨g, run⟩ := s.kernel.terminate_main frame main
        simp only [step, run]
        exact inv
      · obtain ⟨next, g, h, run⟩ := inv.terminate_run main frame
        simp only [step, run]
        exact inv.terminate main h
  | otherPages pages => exact inv

/-- The table is consistent in every run. -/
theorem SchedRun.table_invariant : sys.Invariant fun s => TableInv s.kernel.sched := by
  refine TSys.Inductive.invariant ⟨?_, ?_⟩
  · rintro s ⟨k, rfl⟩
    exact tableInv_init
  · rintro s op s' inv ⟨-, rfl⟩
    exact step_table inv op

end Table

/-! ## Where tasks resume -/

section Resumes

variable {sched : Scheduler} {saved : Nat → Option SavedAt}

theorem resumes_init : Resumes Scheduler.zero.init fun _ => none := by
  intro i active ne
  have ne0 : i ≠ 0 := ne
  simp only [Scheduler.init, Scheduler.zero, if_neg ne0, ite_self] at active
  exact absurd active (by decide)

theorem Resumes.add (inv : Resumes sched saved) {t : TCB} {place : SavedAt} (rsp : t.rsp ≠ 0)
    (here : t.rsp = place.frame) :
    Resumes { sched.setTask sched.totalTasks t with totalTasks := sched.totalTasks + 1 }
      (SchedRun.save saved sched.totalTasks place) := by
  intro i active ne
  by_cases new : i = sched.totalTasks
  · subst new
    show ((sched.setTask sched.totalTasks t).tasks _).rsp ≠ 0 ∧
      ∃ place', _ ∧ ((sched.setTask sched.totalTasks t).tasks _).rsp = _
    rw [Scheduler.setTask_tasks_self]
    exact ⟨rsp, place, Function.update_self .., here⟩
  · have same : ({ sched.setTask sched.totalTasks t with
        totalTasks := sched.totalTasks + 1 } : Scheduler).tasks i = sched.tasks i :=
      Scheduler.setTask_tasks_of_ne new t
    rw [same] at active ⊢
    rw [SchedRun.save, Function.update_of_ne new]
    exact inv i active ne

theorem Resumes.switch (inv : Resumes sched saved) (next : Nat) {frame : Word} (hf : frame ≠ 0) :
    Resumes { sched.setTask sched.currentTaskIndex
        { sched.tasks sched.currentTaskIndex with rsp := frame } with currentTaskIndex := next }
      (SchedRun.save saved sched.currentTaskIndex (.switchedOut frame)) := by
  intro i active ne
  by_cases out : i = sched.currentTaskIndex
  · subst out
    show ((sched.setTask _ _).tasks _).rsp ≠ 0 ∧
      ∃ place, _ ∧ ((sched.setTask _ _).tasks _).rsp = _
    rw [Scheduler.setTask_tasks_self]
    exact ⟨hf, _, Function.update_self .., rfl⟩
  · have same : (sched.setTask sched.currentTaskIndex
        { sched.tasks sched.currentTaskIndex with rsp := frame }).tasks i = sched.tasks i :=
      Scheduler.setTask_tasks_of_ne out _
    show ((sched.setTask _ _).tasks i).rsp ≠ 0 ∧
      ∃ place, _ ∧ ((sched.setTask _ _).tasks i).rsp = _
    rw [same, SchedRun.save, Function.update_of_ne out]
    exact inv i (same ▸ active) out

theorem Resumes.terminate (inv : Resumes sched saved) (next : Nat) :
    Resumes { sched.setTask sched.currentTaskIndex
      (Kernel.retire (sched.tasks sched.currentTaskIndex)) with
        currentTaskIndex := next } saved := by
  intro i active ne
  obtain ⟨kept, same⟩ := Kernel.active_retired active
  show ((sched.setTask _ _).tasks i).rsp ≠ 0 ∧ ∃ place, _ ∧ ((sched.setTask _ _).tasks i).rsp = _
  rw [same]
  exact inv i (same ▸ active) kept

end Resumes

/-- A kernel stack page leaves room below its top: no frame is built at 0. -/
theorem frameBelow_kstack {pa : PageAllocator} (ok : (pa.alloc 1).2 ≠ 0) :
    frameBelow ((pa.alloc 1).2 + 4096) ≠ 0 := by
  rcases h : pa.alloc 1 with ⟨pa', kstack⟩
  rw [h] at ok
  obtain ⟨i, -, addr, -, run, -⟩ := PageAllocator.alloc_success h ok
  have high := run.high
  have bound := pa.bounded
  have small : maxPages = 1048576 := rfl
  intro zero
  simp only [frameBelow, frameSize, loc] at zero
  bv_omega

/-- What `SYSCALL_TERMINATE` returns is a frame, unless the main task asks. -/
theorem SchedInv.terminate_result {k : Kernel} {saved : Nat → Option SavedAt}
    (inv : SchedInv k.sched saved) :
    (k.terminateCurrentTask 0).2 ≠ 0 ↔ k.sched.currentTaskIndex ≠ 0 := by
  by_cases main : k.sched.currentTaskIndex = 0
  · obtain ⟨g, run⟩ := k.terminate_main 0 main
    rw [run]
    exact iff_of_false (fun h => h rfl) (fun h => h main)
  · obtain ⟨next, g, h, run⟩ := inv.terminate_run main 0
    obtain ⟨-, active, ne⟩ := inv.successor h
    rw [run]
    exact iff_of_true (inv.resumes next active ne).1 main

namespace SchedRun

theorem step_resumes {s : SchedRun} (inv : SchedInv s.kernel.sched s.saved) {op : SchedOp}
    (ok : Allowed op) (placed : s.Placed op) :
    Resumes (s.step op).kernel.sched (s.step op).saved := by
  cases op with
  | addTask fn stackBase =>
      rcases s.kernel.addTask_cases fn stackBase with ⟨room, m, run⟩ | ⟨full, run⟩
      · simp only [step, run, if_pos room]
        refine inv.resumes.add ?_ rfl
        show stackBase + 4096 - 176 ≠ 0
        have : stackBase + 3920 ≠ 0 := placed
        bv_omega
      · simp only [step, run, if_neg full]
        exact inv.resumes
  | addUserTask fn stackBase stackPages =>
      rcases s.kernel.addUserTask_cases fn stackBase stackPages with
        ⟨room, ok, m, run⟩ | ⟨-, fail, run⟩ | ⟨full, run⟩
      · simp only [step, run, if_pos (And.intro room ok)]
        exact inv.resumes.add (frameBelow_kstack ok) rfl
      · simp only [step, run, ne_eq, fail, not_true_eq_false, and_false, if_false]
        exact inv.resumes
      · simp only [step, run, full, false_and, if_false]
        exact inv.resumes
  | switch frame =>
      rcases s.kernel.switch_cases frame with ⟨next, g, h, run⟩ | ⟨-, g, run⟩
      · simp only [step, run, if_neg (inv.successor h).2.2]
        exact inv.resumes.switch next ok
      · simp only [step, run, if_true]
        exact inv.resumes
  | terminateCurrentTask frame =>
      by_cases main : s.kernel.sched.currentTaskIndex = 0
      · obtain ⟨g, run⟩ := s.kernel.terminate_main frame main
        simp only [step, run]
        exact inv.resumes
      · obtain ⟨next, g, h, run⟩ := inv.terminate_run main frame
        simp only [step, run]
        exact inv.resumes.terminate next
  | otherPages pages => exact inv.resumes

/-- `SchedInv` holds in every run that builds no frame at address 0. -/
theorem invariant : (sys.guard Placed).Invariant fun s => SchedInv s.kernel.sched s.saved := by
  refine TSys.Inductive.invariant ⟨?_, ?_⟩
  · rintro s ⟨k, rfl⟩
    exact ⟨tableInv_init, resumes_init⟩
  · rintro s op s' inv ⟨placed, ok, rfl⟩
    exact ⟨step_table inv.toTableInv op, step_resumes inv ok placed⟩

end SchedRun
end Coolos
