import Coolos.Logic.SchedRun
import Coolos.Logic.PageCount
import Coolos.Logic.Syscall

/-!
# `SYSCALL_EXEC` when it fails

A call that adds no task should leave no trace. It does leave one when the user
stack was allocated and what follows fails: with a full table the stack is lost,
and without a page for the kernel stack so is an entry of the table.
-/

namespace Coolos.Theorems

open Lib PageAllocator

/-- Some task is active that was not. -/
def NewTask (k k' : Kernel) : Prop :=
  ∃ i, (k.sched.tasks i).active = false ∧ (k'.sched.tasks i).active = true

/-- The page bitmap, `total_tasks` and the task table are the same. -/
def SameTasksAndPages (k k' : Kernel) : Prop :=
  k'.pages.bitmap = k.pages.bitmap ∧ k'.sched.totalTasks = k.sched.totalTasks ∧
    k'.sched.tasks = k.sched.tasks

/-- A call that does not add a task changes nothing. -/
def ExecAtomic (k : Kernel) (a1 a2 : Word) : Prop :=
  ∀ a3 a4 a5 polls,
    let k' := (k.syscallHandler syscallExec a1 a2 a3 a4 a5 polls).1
    ¬ NewTask k k' → SameTasksAndPages k k'

/-- No user stack can be had, or there is an entry for the task and a page for
its kernel stack besides. -/
def ExecSound (k : Kernel) (a2 : Word) : Prop :=
  a2 = 0 ∨ (¬ ∃ i, k.pages.ClearRun i a2.toNat) ∨
    (k.sched.totalTasks < maxTasks ∧ a2.toNat < k.pages.clearPages.card)

/-- `SYSCALL_EXEC` is atomic on failure exactly when its user stack cannot be
had, or the table has room and a page is left for the kernel stack. -/
theorem exec_atomic_iff : ∀ s, SchedRun.sys.Reachable s → ∀ a1 a2,
    ExecAtomic s.kernel a1 a2 ↔ ExecSound s.kernel a2 := by
  intro s hs a1 a2
  have inv : TableInv s.kernel.sched := SchedRun.table_invariant s hs
  generalize s.kernel = k at inv
  have atomic_iff : ExecAtomic k a1 a2 ↔ (¬ NewTask k (k.execCase a1 a2).1 →
      SameTasksAndPages k (k.execCase a1 a2).1) :=
    ⟨fun h => h 0 0 0 [], fun h _ _ _ _ => h⟩
  rw [atomic_iff]
  rcases h : k.pages.alloc a2 with ⟨pages, stack⟩
  by_cases null : stack = 0
  · subst null
    have fail := (alloc_null h).2
    rw [Kernel.execCase_null a1 h]
    exact iff_of_true (fun _ => ⟨rfl, rfl, rfl⟩) (fail.imp_right .inl)
  · obtain ⟨i, pos, -, -, run, -⟩ := alloc_success h null
    have left := card_clearPages_alloc h null
    have sound : ExecSound k a2 ↔ k.sched.totalTasks < maxTasks ∧ 0 < pages.clearPages.card := by
      have nonzero : a2 ≠ 0 := by rintro rfl; exact absurd pos (by decide)
      rw [ExecSound, or_iff_right nonzero, or_iff_right (not_not_intro ⟨i, run⟩), left,
        Nat.lt_add_right_iff_pos]
    rw [sound, Kernel.execCase_stack a1 h null]
    rcases Kernel.addUserTask_cases { k with pages := pages } a1 stack a2 with
      ⟨room, last, m, run⟩ | ⟨room, last, run⟩ | ⟨full, run⟩
    · -- a task is added
      have some := (alloc_one_ne_zero_iff pages).mp last
      rw [run]
      refine iff_of_true (fun none => absurd ⟨k.sched.totalTasks, ?_, ?_⟩ none) ⟨room, some⟩
      · exact inv.beyond _ le_rfl
      · exact congrArg TCB.active (Scheduler.setTask_tasks_self ..)
    · -- the entry and the stack are lost
      have none : ¬ 0 < pages.clearPages.card := by
        rw [← alloc_one_ne_zero_iff]
        exact not_not_intro last
      rw [run]
      refine iff_of_false (fun atomic => ?_) (fun h => none h.2)
      have := (atomic fun ⟨i, old, new⟩ => absurd (old.symm.trans new) (by decide)).2.1
      exact absurd this (by simp)
    · -- the stack is lost
      rw [run]
      refine iff_of_false (fun atomic => ?_) (fun h => full h.1)
      have := (atomic fun ⟨i, old, new⟩ => absurd (old.symm.trans new) (by decide)).1
      exact alloc_bitmap_ne h null this

/-- Three clear pages: one for the stack, one for the kernel stack. -/
theorem exec_atomic_three_pages :
    ExecAtomic { Kernel.statics with
      pages := ⟨fun _ => 0, 4, by decide⟩, sched := Scheduler.zero.init } 0 1 :=
  (exec_atomic_iff _ (.init ⟨{ Kernel.statics with pages := ⟨fun _ => 0, 4, by decide⟩ }, rfl⟩) 0
    1).mpr (.inr (.inr ⟨by decide, by decide⟩))

/-- Two pages of memory, of which page 1 is clear. -/
def onePage : PageAllocator := ⟨fun _ => 0, 2, by decide⟩

/-- With one clear page a call for a stack of one page takes it, finds none for
the kernel stack, and keeps both the page and an entry of the table. -/
theorem exec_not_atomic : ¬ ∀ s, SchedRun.sys.Reachable s → ∀ a1 a2, ExecAtomic s.kernel a1 a2 := by
  intro claim
  have atomic := claim _ (.init ⟨{ Kernel.statics with pages := onePage }, rfl⟩) 0 1 0 0 0 []
  have grown := (atomic fun ⟨i, old, new⟩ => absurd (old.symm.trans new) (by decide)).2.1
  exact absurd grown (by decide)

end Coolos.Theorems
