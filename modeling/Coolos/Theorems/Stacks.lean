import Coolos.Logic.StackRun
import Coolos.Theorems.Exec

/-!
# The stacks of tasks

Over every run of `SYSCALL_EXEC`, switches and terminations: active tasks never
share a page and a user stack is given back once, as it was allocated. Kernel
stacks are not given back, so what creation took is released exactly in the runs
that terminate no task.
-/

namespace Coolos.Theorems

open Lib PageAllocator

/-! ## Ownership -/

/-- Every active task owns its two stacks alone, and user stacks were given back as
allocated. -/
structure StacksApart (s : StackRun) : Prop where
  /-- Every active task but the main one has the user stack it was created with. -/
  given : ∀ i, (s.kernel.sched.tasks i).active = true → i ≠ 0 →
    ∃ t, s.given i = some t ∧ (s.kernel.sched.tasks i).stackBase = t.base ∧
      (s.kernel.sched.tasks i).stackPages = t.pages
  disjoint : ∀ r r' p, s.Owns r p → s.Owns r' p → r = r'
  used : ∀ r p, s.Owns r p → ¬ s.kernel.pages.Clear p
  freed : ∀ f ∈ s.freed, ∃ t, s.given f.1 = some t ∧ f.2 = t.range .user
  once : (s.freed.map Prod.fst).Nodup

/-- A step frees nothing, or one range and no page of another task. -/
def FreesOwn (s s' : StackRun) : Prop :=
  (s'.freed = s.freed ∧ ∀ p, s'.kernel.pages.Clear p → s.kernel.pages.Clear p) ∨
    ∃ f, s'.freed = f :: s.freed ∧ s'.kernel.pages = s.kernel.pages.free f.2.1 f.2.2 ∧
      ∀ r p, s.Owns r p → r.1 ≠ f.1 → ¬ InRange f.2 p

theorem freesOwn_step {s : StackRun} (inv : StackInv s) (op : TaskOp) :
    FreesOwn s (s.step op) := by
  cases op with
  | exec fn pages =>
      refine .inl ⟨rfl, ?_⟩
      intro p clear
      have clear : (s.kernel.execCase fn pages).1.pages.Clear p := clear
      cases h : s.kernel.execAllocates pages with
      | none =>
          obtain ⟨pa, total, run, subset, -⟩ := exec_fails fn h
          rw [run] at clear
          exact subset p clear
      | some t => exact (((exec_adds fn h).clear p).mp clear).1
  | switch frame =>
      obtain ⟨g, sched, run⟩ := s.kernel.switch_touches frame
      refine .inl ⟨rfl, ?_⟩
      intro p clear
      have clear : (s.kernel.switch frame).1.pages.Clear p := clear
      rw [run] at clear
      exact clear
  | terminate frame =>
      by_cases main : s.kernel.sched.currentTaskIndex = 0
      · obtain ⟨g, after⟩ := StackRun.terminate_main main frame
        rw [after]
        exact .inl ⟨rfl, fun p clear => clear⟩
      · obtain ⟨t, next, g, given, -, after⟩ := inv.terminates main frame
        rw [after]
        refine .inr ⟨_, rfl, rfl, ?_⟩
        intro r p own other here
        have same := inv.disjoint r (_, .user) p own ⟨inv.table.running, t, given, here⟩
        exact other (congrArg Prod.fst same)

/-- Task stacks never collide, whatever is created, switched and terminated. -/
theorem task_stacks_apart : ∀ s, StackRun.sys.Reachable s →
    StacksApart s ∧ ∀ op, FreesOwn s (s.step op) := by
  intro s hs
  have inv : StackInv s := StackRun.invariant s hs
  refine ⟨⟨inv.created, inv.disjoint, inv.used, ?_, inv.once⟩, freesOwn_step inv⟩
  intro f hf
  exact (inv.freed f hf).2

/-- A machine with pages 1 to 7 clear when its scheduler is initialised. -/
def sevenPages : StackRun where
  kernel := { Kernel.statics with
    pages := ⟨fun _ => 0, 8, by decide⟩
    sched := Scheduler.zero.init }
  atInit := ⟨fun _ => 0, 8, by decide⟩
  given := fun _ => none
  freed := []

/-- A task with a stack of two pages is created, resumed and terminated. -/
def createAndTerminate : StackRun :=
  ((sevenPages.step (.exec 0x400000 2)).step (.switch 0x1000)).step (.terminate 0)

theorem task_stacks_apart_run :
    StacksApart createAndTerminate ∧
      ∀ op, FreesOwn createAndTerminate (createAndTerminate.step op) :=
  task_stacks_apart _ (.step (.step (.step (.init ⟨rfl, rfl, fun _ => rfl, rfl⟩) rfl) rfl) rfl)

/-! ## Conservation -/

/-- A call of `SYSCALL_EXEC` adds a task. -/
def ExecSucceeds (s : StackRun) : TaskOp → Prop
  | .exec fn pages => NewTask s.kernel (s.kernel.execCase fn pages).1
  | .switch _ => True
  | .terminate _ => True

/-- The pages used are those used at first and the stacks of active tasks. -/
def Conserved (s : StackRun) : Prop :=
  s.kernel.pages.usedPages.card =
    s.atInit.usedPages.card + ∑ i ∈ Finset.range maxTasks, s.held i

/-- The step terminates a task other than the main one. -/
def TerminatesTask (x : StackRun × TaskOp) : Prop :=
  (∃ frame, x.2 = .terminate frame) ∧ x.1.kernel.sched.currentTaskIndex ≠ 0

/-- The accounts balance in every run in which no `SYSCALL_EXEC` fails. -/
theorem accounts_invariant : (StackRun.sys.guard ExecSucceeds).Invariant fun s =>
    StackInv s ∧ s.Accounts := by
  refine TSys.Inductive.invariant ⟨?_, ?_⟩
  · intro s start
    exact ⟨StackRun.invariant s (.init start), StackRun.accounts_init start⟩
  · intro s op s' before next
    obtain ⟨inv, acc⟩ := before
    obtain ⟨ok, rfl⟩ := next
    cases op with
    | exec fn pages =>
        refine ⟨inv.exec fn pages, ?_⟩
        cases h : s.kernel.execAllocates pages with
        | none =>
            -- the call added no task
            obtain ⟨pa, total, run, -⟩ := exec_fails fn h
            have ok : NewTask s.kernel (s.kernel.execCase fn pages).1 := ok
            rw [run] at ok
            obtain ⟨i, old, new⟩ := ok
            exact absurd (old.symm.trans new) (by decide)
        | some t => exact inv.exec_accounts acc h fn
    | switch frame => exact ⟨inv.switch frame, StackInv.switch_accounts acc frame⟩
    | terminate frame => exact ⟨inv.terminate frame, inv.terminate_accounts acc frame⟩

/-- A step gives a stack back exactly when it terminates a task. -/
theorem freed_step {s : StackRun} (inv : StackInv s) (op : TaskOp) :
    (s.step op).freed = [] ↔ s.freed = [] ∧ ¬ TerminatesTask (s, op) := by
  cases op with
  | exec fn pages =>
      have other : ¬ TerminatesTask (s, .exec fn pages) := fun ⟨⟨_, h⟩, _⟩ => nomatch h
      rw [and_iff_left other]
      rfl
  | switch frame =>
      have other : ¬ TerminatesTask (s, .switch frame) := fun ⟨⟨_, h⟩, _⟩ => nomatch h
      rw [and_iff_left other]
      rfl
  | terminate frame =>
      by_cases main : s.kernel.sched.currentTaskIndex = 0
      · have other : ¬ TerminatesTask (s, .terminate frame) := fun ⟨_, ne⟩ => ne main
        obtain ⟨g, after⟩ := StackRun.terminate_main main frame
        rw [after, and_iff_left other]
      · obtain ⟨t, next, g, -, -, after⟩ := inv.terminates main frame
        have here : TerminatesTask (s, .terminate frame) := ⟨⟨frame, rfl⟩, main⟩
        rw [after]
        exact iff_of_false (List.cons_ne_nil _ _) fun h => h.2 here

/-- A run has given nothing back exactly when it has terminated no task. -/
theorem freed_run {steps : List (StackRun × TaskOp)} {s : StackRun}
    (run : (StackRun.sys.guard ExecSucceeds).Run steps s) :
    s.freed = [] ↔ ∀ x ∈ steps, ¬ TerminatesTask x := by
  induction run with
  | init start =>
      obtain ⟨-, -, -, freed⟩ := start
      exact iff_of_true freed fun x hx => nomatch hx
  | step before next ih =>
      obtain ⟨inv, -⟩ := accounts_invariant _ before.reachable
      obtain ⟨-, rfl⟩ := next
      rw [freed_step inv, ih, List.forall_mem_cons]
      exact And.comm

/-- Termination releases what creation took exactly in the runs that terminate no
task: the page of its kernel stack stays used. -/
theorem pages_conserved_iff : ∀ steps s, (StackRun.sys.guard ExecSucceeds).Run steps s →
    (Conserved s ↔ ∀ x ∈ steps, ¬ TerminatesTask x) := by
  intro steps s run
  obtain ⟨-, acc⟩ := accounts_invariant s run.reachable
  have acc : s.kernel.pages.usedPages.card = _ := acc
  rw [← freed_run run, Conserved, acc]
  constructor
  · intro same
    have none : s.freed.length = 0 := by omega
    exact List.length_eq_zero_iff.mp none
  · intro none
    rw [none, List.length_nil, Nat.add_zero]

/-- The first steps of `createAndTerminate`. -/
theorem created_run : (StackRun.sys.guard ExecSucceeds).Run
    [(sevenPages, .exec 0x400000 2)] (sevenPages.step (.exec 0x400000 2)) :=
  .step (.init ⟨rfl, rfl, fun _ => rfl, rfl⟩) ⟨⟨1, by decide, by decide⟩, rfl⟩

theorem pages_conserved_created : Conserved (sevenPages.step (.exec 0x400000 2)) ↔
    ∀ x ∈ [(sevenPages, TaskOp.exec 0x400000 2)], ¬ TerminatesTask x :=
  pages_conserved_iff _ _ created_run

/-- The page of its kernel stack is lost. -/
theorem pages_not_conserved :
    ¬ ∀ s, (StackRun.sys.guard ExecSucceeds).Reachable s → Conserved s := by
  intro claim
  have reached : (StackRun.sys.guard ExecSucceeds).Reachable createAndTerminate :=
    .step (e := .terminate 0) (.step (e := .switch 0x1000) created_run.reachable ⟨trivial, rfl⟩)
      ⟨trivial, rfl⟩
  obtain ⟨-, acc⟩ := accounts_invariant _ reached
  have acc : createAndTerminate.kernel.pages.usedPages.card = _ := acc
  have same : createAndTerminate.kernel.pages.usedPages.card = _ := claim _ reached
  have lost : createAndTerminate.freed.length = 1 := by decide +kernel
  omega

end Coolos.Theorems
