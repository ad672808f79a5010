import Coolos.Lib.Paging
import Coolos.Logic.SchedRun
import Coolos.Logic.PageCount
import Coolos.Logic.Syscall

/-!
# Runs of tasks and their stacks

Tasks are created by `SYSCALL_EXEC`, switched and terminated, in any order from
`Scheduler_Init`. Beside the kernel the run records which pages were allocated
for each task and which the scheduler gave back. `StackInv` says that the pages
of active tasks are theirs alone.
-/

namespace Coolos

open Lib PageAllocator

/-- What `SYSCALL_EXEC` allocates for a task. -/
structure TaskStacks where
  base : Word
  pages : Word
  kstack : Word

/-- The two stacks of a task. -/
inductive Stack where
  | user
  | kernel
  deriving DecidableEq

/-- Address and number of pages. -/
def TaskStacks.range (t : TaskStacks) : Stack → Word × Word
  | .user => (t.base, t.pages)
  | .kernel => (t.kstack, 1)

/-- `SYSCALL_EXEC`, CapsLock, and ESC or `SYSCALL_TERMINATE`. -/
inductive TaskOp where
  | exec (fn pages : Word)
  | switch (frame : Word)
  | terminate (frame : Word)

structure StackRun where
  kernel : Kernel
  /-- The page allocator when the scheduler was initialised. -/
  atInit : PageAllocator
  given : Nat → Option TaskStacks
  /-- The calls of `PageAllocator_Free` by the scheduler, each with the task it was
  made for. -/
  freed : List (Nat × Word × Word)

/-- What a call of `SYSCALL_EXEC` that adds a task allocates for it. -/
def Kernel.execAllocates (k : Kernel) (pages : Word) : Option TaskStacks :=
  let (pa, base) := k.pages.alloc pages
  let kstack := (pa.alloc 1).2
  if base ≠ 0 ∧ k.sched.totalTasks < maxTasks ∧ kstack ≠ 0 then some ⟨base, pages, kstack⟩
  else none

namespace StackRun

def step (s : StackRun) : TaskOp → StackRun
  | .exec fn pages =>
      { s with
        kernel := (s.kernel.execCase fn pages).1
        given :=
          match s.kernel.execAllocates pages with
          | none => s.given
          | some t => Function.update s.given s.kernel.sched.totalTasks (some t) }
  | .switch frame => { s with kernel := (s.kernel.switch frame).1 }
  | .terminate frame =>
      let cur := s.kernel.sched.currentTaskIndex
      let task := s.kernel.sched.tasks cur
      { s with
        kernel := (s.kernel.terminateCurrentTask frame).1
        freed :=
          if cur ≠ 0 ∧ task.stackBase ≠ 0 ∧ task.stackPages ≠ 0 then
            (cur, task.stackBase, task.stackPages) :: s.freed
          else s.freed }

/-- Runs from `Scheduler_Init`, whatever the page allocator is then. -/
def sys : TSys StackRun TaskOp where
  init s := s.kernel.sched = Scheduler.zero.init ∧ s.atInit = s.kernel.pages ∧
    (∀ i, s.given i = none) ∧ s.freed = []
  next s op s' := s.step op = s'

/-- Page `p` belongs to a stack of an active task. -/
def Owns (s : StackRun) (r : Nat × Stack) (p : Nat) : Prop :=
  (s.kernel.sched.tasks r.1).active = true ∧ ∃ t, s.given r.1 = some t ∧ InRange (t.range r.2) p

end StackRun

structure StackInv (s : StackRun) : Prop where
  table : TableInv s.kernel.sched
  /-- Every active task but the main one was created by `SYSCALL_EXEC`. -/
  created : ∀ i, (s.kernel.sched.tasks i).active = true → i ≠ 0 →
    ∃ t, s.given i = some t ∧ (s.kernel.sched.tasks i).stackBase = t.base ∧
      (s.kernel.sched.tasks i).stackPages = t.pages
  entry : ∀ i t, s.given i = some t → 0 < i ∧ i < s.kernel.sched.totalTasks
  sized : ∀ i t, s.given i = some t →
    t.base ≠ 0 ∧ t.pages ≠ 0 ∧ t.base.toNat / 4096 + t.pages.toNat ≤ maxPages
  used : ∀ r p, s.Owns r p → ¬ s.kernel.pages.Clear p
  disjoint : ∀ r r' p, s.Owns r p → s.Owns r' p → r = r'
  /-- A stack is given back when its task ends, with the range it was allocated with. -/
  freed : ∀ f ∈ s.freed, (s.kernel.sched.tasks f.1).active = false ∧
    ∃ t, s.given f.1 = some t ∧ f.2 = t.range .user
  once : (s.freed.map Prod.fst).Nodup

/-! ## `SYSCALL_EXEC` -/

section Exec

variable {k : Kernel} {pages : Word}

/-- A call that adds no task takes pages and table entries at most. -/
theorem exec_fails (fn : Word) (h : k.execAllocates pages = none) :
    ∃ pa total, (k.execCase fn pages).1 = { k with pages := pa, sched.totalTasks := total } ∧
      (∀ p, pa.Clear p → k.pages.Clear p) ∧
      (total = k.sched.totalTasks ∨
        total = k.sched.totalTasks + 1 ∧ k.sched.totalTasks < maxTasks) := by
  rcases first : k.pages.alloc pages with ⟨pa, base⟩
  simp only [Kernel.execAllocates, first] at h
  by_cases null : base = 0
  · subst null
    exact ⟨k.pages, k.sched.totalTasks, Kernel.execCase_null fn first, fun p h => h, .inl rfl⟩
  · obtain ⟨-, bits, -⟩ := alloc_range first null
    rw [Kernel.execCase_stack fn first null]
    rcases Kernel.addUserTask_cases { k with pages := pa } fn base pages with
      ⟨room, some, -⟩ | ⟨room, fail, run⟩ | ⟨-, run⟩
    · -- a task would be added
      rw [if_pos ⟨null, room, some⟩] at h
      cases h
    · refine ⟨pa, k.sched.totalTasks + 1, ?_, fun p h => ((bits p).mp h).1, .inr ⟨rfl, room⟩⟩
      rw [run]
      rcases second : pa.alloc 1 with ⟨pa', kstack⟩
      have fail : (pa.alloc 1).2 = 0 := fail
      rw [second] at fail
      obtain rfl : kstack = 0 := fail
      obtain ⟨rfl, -⟩ := alloc_null second
      rfl
    · exact ⟨pa, k.sched.totalTasks, run, fun p h => ((bits p).mp h).1, .inl rfl⟩

/-- A call that adds a task takes its two stacks, which were clear and apart, and the
next entry of the table, and builds the frame the task starts from. -/
structure ExecAdds (k k' : Kernel) (fn pages : Word) (t : TaskStacks) : Prop where
  room : k.sched.totalTasks < maxTasks
  base : t.base ≠ 0
  kstack : t.kstack ≠ 0
  size : t.pages = pages
  some : pages ≠ 0
  clear : ∀ p, k'.pages.Clear p ↔ k.pages.Clear p ∧ ∀ r, ¬ InRange (t.range r) p
  fresh : ∀ r p, InRange (t.range r) p → k.pages.Clear p
  apart : ∀ p, ¬ (InRange (t.range .user) p ∧ InRange (t.range .kernel) p)
  aligned : ∀ r, (t.range r).1.toNat % 4096 = 0
  inside : ∀ r, (t.range r).1.toNat / 4096 + (t.range r).2.toNat ≤ maxPages
  card : k'.pages.usedPages.card = k.pages.usedPages.card + (pages.toNat + 1)
  sched : k'.sched = { k.sched.setTask k.sched.totalTasks
    ⟨frameBelow (t.kstack + 4096), true, t.base, pages⟩ with totalTasks := k.sched.totalTasks + 1 }
  mem : k'.mem = (k.mem.pushAll (t.kstack + 4096)
    (initialFrame userDataSel (t.base + pages * 4096) userCodeSel fn)).1

theorem exec_adds (fn : Word) {t : TaskStacks} (h : k.execAllocates pages = some t) :
    ExecAdds k (k.execCase fn pages).1 fn pages t := by
  rcases first : k.pages.alloc pages with ⟨pa, base⟩
  rcases second : pa.alloc 1 with ⟨pa', kstack⟩
  simp only [Kernel.execAllocates, first, second] at h
  split at h
  · rename_i ok
    obtain ⟨null, room, some⟩ := ok
    obtain rfl := Option.some.inj h
    obtain ⟨-, bits, range⟩ := alloc_range first null
    obtain ⟨-, bits', range'⟩ := alloc_range second some
    have place {pa pa' : PageAllocator} {ptr n : Word} (h : pa.alloc n = (pa', ptr))
        (hp : ptr ≠ 0) : ptr.toNat % 4096 = 0 ∧ ptr.toNat / 4096 + n.toNat ≤ maxPages := by
      obtain ⟨i, -, addr, -, run, -⟩ := alloc_success h hp
      have := run.high
      have := pa.bounded
      omega
    have here : ({ k with pages := pa } : Kernel).pages.alloc 1 = (pa', kstack) := second
    have ok : (({ k with pages := pa } : Kernel).pages.alloc 1).2 ≠ 0 := by
      rw [here]
      exact some
    obtain ⟨m, added⟩ := Kernel.addUserTask_room { k with pages := pa } room fn base pages ok
    have run := Kernel.execCase_stack fn first null
    have left : (k.execCase fn pages).1.pages = pa' := by
      rw [run, added]
      simp only [here]
    have nonzero : pages ≠ 0 := by
      intro zero
      obtain ⟨-, pos, -⟩ := alloc_success first null
      rw [zero] at pos
      exact absurd pos (by decide)
    refine ⟨room, null, some, rfl, nonzero, ?_, ?_, ?_, ?_, ?_, ?_, ?_, ?_⟩
    · intro p
      rw [left, bits', bits]
      constructor
      · rintro ⟨⟨clear, notUser⟩, notKernel⟩
        refine ⟨clear, ?_⟩
        intro r
        cases r with
        | user => exact notUser
        | kernel => exact notKernel
      · rintro ⟨clear, out⟩
        exact ⟨⟨clear, out .user⟩, out .kernel⟩
    · intro r p hp
      cases r with
      | user => exact (range p hp).2.2
      | kernel => exact ((bits p).mp (range' p hp).2.2).1
    · rintro p ⟨user, kernel⟩
      exact ((bits p).mp (range' p kernel).2.2).2 user
    · intro r
      cases r with
      | user => exact (place first null).1
      | kernel => exact (place second some).1
    · intro r
      cases r with
      | user => exact (place first null).2
      | kernel => exact (place second some).2
    · rw [left, card_usedPages_alloc second some, card_usedPages_alloc first null, Nat.add_assoc]
      rfl
    · rw [run, added]
      simp only [here]
    · rw [run, Kernel.addUserTask_mem { k with pages := pa } room fn base pages ok, here]
  · cases h

/-- The frame the task starts from stands in the page of its kernel stack. -/
theorem ExecAdds.writes {k' : Kernel} {fn : Word} {t : TaskStacks}
    (adds : ExecAdds k k' fn pages t) (x : Word) :
    k'.mem x = k.mem x ∨ InRange (t.range .kernel) (Paging.page x) := by
  have small : maxPages = 1048576 := rfl
  have one : (1 : Word).toNat = 1 := rfl
  have pos : t.kstack.toNat ≠ 0 := fun zero => adds.kstack (BitVec.eq_of_toNat_eq zero)
  have aligned : t.kstack.toNat % 4096 = 0 := adds.aligned .kernel
  have inside : t.kstack.toNat / 4096 + (1 : Word).toNat ≤ maxPages := adds.inside .kernel
  by_cases here : Paging.page x = t.kstack.toNat / 4096
  · right
    rw [here]
    exact ⟨le_rfl, Nat.lt_succ_self _⟩
  · left
    rw [adds.mem]
    apply Mem.pushAll_apply
    rw [length_initialFrame, frameSize]
    have stop : (t.kstack + 4096 - 1).toNat = t.kstack.toNat + 4095 := by
      rw [BitVec.toNat_sub, BitVec.toNat_add, show (4096 : Word).toNat = 4096 from rfl, one]
      omega
    rw [Paging.page] at here
    rw [BitVec.toNat_sub, stop]
    have := x.isLt
    omega

end Exec

/-! ## One step -/

/-- The same task, as far as its stack is concerned. -/
def SameStack (t t' : TCB) : Prop :=
  t'.active = t.active ∧ t'.stackBase = t.stackBase ∧ t'.stackPages = t.stackPages

/-- Saving the frame pointer of the running task leaves every stack as it is. -/
theorem Scheduler.sameStack_setTask_rsp (sched : Scheduler) (frame : Word) (i : Nat) :
    SameStack (sched.tasks i) ((sched.setTask sched.currentTaskIndex
      { sched.tasks sched.currentTaskIndex with rsp := frame }).tasks i) := by
  by_cases here : i = sched.currentTaskIndex
  · subst here
    rw [Scheduler.setTask_tasks_self]
    exact ⟨rfl, rfl, rfl⟩
  · rw [Scheduler.setTask_tasks_of_ne here]
    exact ⟨rfl, rfl, rfl⟩

section Step

variable {s s' : StackRun}

/-- A step that keeps the stacks of all tasks and clears no page keeps the invariant. -/
theorem StackInv.keep (inv : StackInv s) (table : TableInv s'.kernel.sched)
    (given : s'.given = s.given) (freed : s'.freed = s.freed)
    (more : s.kernel.sched.totalTasks ≤ s'.kernel.sched.totalTasks)
    (same : ∀ i, SameStack (s.kernel.sched.tasks i) (s'.kernel.sched.tasks i))
    (clear : ∀ p, s'.kernel.pages.Clear p → s.kernel.pages.Clear p) : StackInv s' := by
  have owns : ∀ r p, s'.Owns r p → s.Owns r p := by
    intro r p own
    obtain ⟨active, t, ht, here⟩ := own
    exact ⟨(same r.1).1 ▸ active, t, given ▸ ht, here⟩
  refine ⟨table, ?_, ?_, ?_, ?_, ?_, ?_, ?_⟩
  · intro i active other
    obtain ⟨flag, base, pages⟩ := same i
    rw [flag] at active
    rw [given, base, pages]
    exact inv.created i active other
  · intro i t ht
    rw [given] at ht
    exact ⟨(inv.entry i t ht).1, Nat.lt_of_lt_of_le (inv.entry i t ht).2 more⟩
  · intro i t ht
    rw [given] at ht
    exact inv.sized i t ht
  · intro r p own hp
    exact inv.used r p (owns r p own) (clear p hp)
  · intro r r' p own own'
    exact inv.disjoint r r' p (owns r p own) (owns r' p own')
  · intro f hf
    rw [freed] at hf
    rw [given, (same f.1).1]
    exact inv.freed f hf
  · rw [freed]
    exact inv.once

/-- The run after a call of `SYSCALL_EXEC` that adds a task. -/
def StackRun.added (s : StackRun) (k : Kernel) (t : TaskStacks) : StackRun :=
  { s with kernel := k, given := Function.update s.given s.kernel.sched.totalTasks (some t) }

theorem StackRun.added_given {k : Kernel} {t u : TaskStacks} {i : Nat}
    (h : (s.added k t).given i = some u) :
    i = s.kernel.sched.totalTasks ∧ u = t ∨ i ≠ s.kernel.sched.totalTasks ∧ s.given i = some u := by
  by_cases here : i = s.kernel.sched.totalTasks
  · subst here
    have h : Function.update s.given s.kernel.sched.totalTasks (some t) _ = some u := h
    rw [Function.update_self] at h
    exact .inl ⟨rfl, (Option.some.inj h).symm⟩
  · have h : Function.update s.given s.kernel.sched.totalTasks (some t) i = some u := h
    rw [Function.update_of_ne here] at h
    exact .inr ⟨here, h⟩

section Added

variable {k : Kernel} {fn pages : Word} {t : TaskStacks}

theorem ExecAdds.new (adds : ExecAdds s.kernel k fn pages t) :
    k.sched.tasks s.kernel.sched.totalTasks =
      ⟨frameBelow (t.kstack + 4096), true, t.base, pages⟩ := by
  rw [adds.sched]
  exact Scheduler.setTask_tasks_self ..

theorem ExecAdds.old (adds : ExecAdds s.kernel k fn pages t) {i : Nat}
    (ne : i ≠ s.kernel.sched.totalTasks) : k.sched.tasks i = s.kernel.sched.tasks i := by
  rw [adds.sched]
  exact Scheduler.setTask_tasks_of_ne ne _

/-- What is owned then is of the new task or was owned before. -/
theorem ExecAdds.owns (adds : ExecAdds s.kernel k fn pages t) {r : Nat × Stack} {p : Nat}
    (own : (s.added k t).Owns r p) :
    r.1 = s.kernel.sched.totalTasks ∧ InRange (t.range r.2) p ∨ s.Owns r p := by
  obtain ⟨active, u, hu, here⟩ := own
  rcases StackRun.added_given hu with ⟨last, rfl⟩ | ⟨ne, hu⟩
  · exact .inl ⟨last, here⟩
  · have active : (k.sched.tasks r.1).active = true := active
    rw [adds.old ne] at active
    exact .inr ⟨active, u, hu, here⟩

/-- A task that is added gets pages nobody owned. -/
theorem StackInv.add (inv : StackInv s) (adds : ExecAdds s.kernel k fn pages t) :
    StackInv (s.added k t) where
  table := by
    show TableInv k.sched
    rw [adds.sched]
    exact inv.table.add adds.room _
  created := by
    intro i active other
    show ∃ u, _ ∧ (k.sched.tasks i).stackBase = _ ∧ (k.sched.tasks i).stackPages = _
    by_cases last : i = s.kernel.sched.totalTasks
    · subst last
      rw [adds.new]
      exact ⟨t, Function.update_self .., rfl, adds.size.symm⟩
    · have active : (k.sched.tasks i).active = true := active
      rw [adds.old last] at active ⊢
      obtain ⟨u, hu, fields⟩ := inv.created i active other
      exact ⟨u, (Function.update_of_ne last ..).trans hu, fields⟩
  entry := by
    intro i u hu
    have total : k.sched.totalTasks = s.kernel.sched.totalTasks + 1 := by rw [adds.sched]
    show 0 < i ∧ i < k.sched.totalTasks
    rcases StackRun.added_given hu with ⟨rfl, -⟩ | ⟨-, hu⟩
    · have := inv.table.current
      omega
    · have := inv.entry i u hu
      omega
  sized := by
    intro i u hu
    rcases StackRun.added_given hu with ⟨-, rfl⟩ | ⟨-, hu⟩
    · exact ⟨adds.base, adds.size ▸ adds.some, adds.inside .user⟩
    · exact inv.sized i u hu
  used := by
    intro r p own
    show ¬ k.pages.Clear p
    rw [adds.clear]
    intro left
    rcases adds.owns own with ⟨-, here⟩ | own
    · exact left.2 r.2 here
    · exact inv.used r p own left.1
  disjoint := by
    intro r r' p own own'
    rcases adds.owns own with ⟨last, here⟩ | own
    · rcases adds.owns own' with ⟨last', here'⟩ | own'
      · -- both are stacks of the new task
        obtain ⟨i, st⟩ := r
        obtain ⟨i', st'⟩ := r'
        obtain rfl : i = i' := last.trans last'.symm
        cases st with
        | user =>
            cases st' with
            | user => rfl
            | kernel => exact absurd ⟨here, here'⟩ (adds.apart p)
        | kernel =>
            cases st' with
            | user => exact absurd ⟨here', here⟩ (adds.apart p)
            | kernel => rfl
      · exact absurd (adds.fresh _ p here) (inv.used r' p own')
    · rcases adds.owns own' with ⟨-, here'⟩ | own'
      · exact absurd (adds.fresh _ p here') (inv.used r p own)
      · exact inv.disjoint r r' p own own'
  freed := by
    intro f hf
    obtain ⟨inactive, u, hu, range⟩ := inv.freed f hf
    have ne : f.1 ≠ s.kernel.sched.totalTasks := Nat.ne_of_lt (inv.entry f.1 u hu).2
    show (k.sched.tasks f.1).active = false ∧ _
    rw [adds.old ne]
    exact ⟨inactive, u, (Function.update_of_ne ne ..).trans hu, range⟩
  once := inv.once

end Added

theorem StackInv.exec (inv : StackInv s) (fn pages : Word) :
    StackInv (s.step (.exec fn pages)) := by
  cases h : s.kernel.execAllocates pages with
  | none =>
      obtain ⟨pa, total, run, clear, more⟩ := exec_fails fn h
      have after : s.step (.exec fn pages) =
          { s with kernel := { s.kernel with pages := pa, sched.totalTasks := total } } := by
        simp only [StackRun.step, h, run]
      rw [after]
      refine inv.keep ?_ rfl rfl ?_ (fun i => ⟨rfl, rfl, rfl⟩) clear
      · rcases more with rfl | ⟨rfl, room⟩
        · exact inv.table
        · exact inv.table.skip room
      · show s.kernel.sched.totalTasks ≤ total
        omega
  | some t =>
      have after : s.step (.exec fn pages) = s.added (s.kernel.execCase fn pages).1 t := by
        simp only [StackRun.step, h, StackRun.added]
      rw [after]
      exact inv.add (exec_adds fn h)

theorem StackInv.switch (inv : StackInv s) (frame : Word) :
    StackInv (s.step (.switch frame)) := by
  rcases s.kernel.switch_cases frame with ⟨next, g, h, run⟩ | ⟨-, g, run⟩
  · have table := inv.table.switch h frame
    simp only [StackRun.step, run]
    refine inv.keep table rfl rfl le_rfl ?_ (fun p hp => hp)
    intro i
    exact Scheduler.sameStack_setTask_rsp s.kernel.sched frame i
  · simp only [StackRun.step, run]
    exact inv.keep inv.table rfl rfl le_rfl (fun i => ⟨rfl, rfl, rfl⟩) fun p hp => hp

/-- The main task is not terminated. -/
theorem StackRun.terminate_main (main : s.kernel.sched.currentTaskIndex = 0) (frame : Word) :
    ∃ g, s.step (.terminate frame) = { s with kernel := { s.kernel with graphics := g } } := by
  obtain ⟨g, run⟩ := s.kernel.terminate_main frame main
  refine ⟨g, ?_⟩
  simp only [StackRun.step, run, main, ne_eq, not_true_eq_false, false_and, if_false]

/-- Any other task gives back the user stack it was created with. -/
theorem StackInv.terminates (inv : StackInv s) (other : s.kernel.sched.currentTaskIndex ≠ 0)
    (frame : Word) :
    ∃ t next g, s.given s.kernel.sched.currentTaskIndex = some t ∧
      s.kernel.sched.successor = some next ∧
      s.step (.terminate frame) = { s with
        kernel := { s.kernel with
          graphics := g
          pages := s.kernel.pages.free t.base t.pages
          sched := { s.kernel.sched.setTask s.kernel.sched.currentTaskIndex
            (Kernel.retire (s.kernel.sched.tasks s.kernel.sched.currentTaskIndex)) with
              currentTaskIndex := next } }
        freed := (s.kernel.sched.currentTaskIndex, t.base, t.pages) :: s.freed } := by
  obtain ⟨t, given, base, pages⟩ := inv.created _ inv.table.running other
  obtain ⟨someBase, somePages, -⟩ := inv.sized _ t given
  obtain ⟨next, g, succ, run⟩ := inv.table.terminate_run other frame
  refine ⟨t, next, g, given, succ, ?_⟩
  have release : Kernel.releaseStack s.kernel.pages
      (s.kernel.sched.tasks s.kernel.sched.currentTaskIndex) =
      s.kernel.pages.free t.base t.pages := by
    rw [Kernel.releaseStack, base, pages, if_pos ⟨someBase, somePages⟩]
  have frees : s.kernel.sched.currentTaskIndex ≠ 0 ∧ t.base ≠ 0 ∧ t.pages ≠ 0 :=
    ⟨other, someBase, somePages⟩
  simp only [StackRun.step, run, release, base, pages, if_pos frees]

theorem StackInv.terminate (inv : StackInv s) (frame : Word) :
    StackInv (s.step (.terminate frame)) := by
  by_cases main : s.kernel.sched.currentTaskIndex = 0
  · obtain ⟨g, after⟩ := StackRun.terminate_main main frame
    rw [after]
    exact inv.keep inv.table rfl rfl le_rfl (fun i => ⟨rfl, rfl, rfl⟩) fun p hp => hp
  · obtain ⟨t, next, g, given, succ, after⟩ := inv.terminates main frame
    have running := inv.table.running
    have gone : ((s.kernel.sched.setTask s.kernel.sched.currentTaskIndex
        (Kernel.retire (s.kernel.sched.tasks s.kernel.sched.currentTaskIndex))).tasks
          s.kernel.sched.currentTaskIndex).active = false := by
      rw [Scheduler.setTask_tasks_self, Kernel.retire_active]
    -- whoever owns a page now is another task, and owned it before
    have owned : ∀ r p, (s.step (.terminate frame)).Owns r p →
        r.1 ≠ s.kernel.sched.currentTaskIndex ∧ s.Owns r p := by
      intro r p own
      rw [after] at own
      obtain ⟨active, u, hu, here⟩ := own
      obtain ⟨ne, same⟩ := Kernel.active_retired active
      exact ⟨ne, (congrArg TCB.active same).symm.trans active, u, hu, here⟩
    constructor
    case table =>
      rw [after]
      exact inv.table.terminate main succ
    case created =>
      rw [after]
      intro i active other
      have same := (Kernel.active_retired active).2
      show ∃ t, _ ∧ ((s.kernel.sched.setTask _ _).tasks i).stackBase = _ ∧
        ((s.kernel.sched.setTask _ _).tasks i).stackPages = _
      rw [same]
      exact inv.created i ((congrArg TCB.active same).symm.trans active) other
    case entry =>
      rw [after]
      exact inv.entry
    case sized =>
      rw [after]
      exact inv.sized
    case used =>
      -- the stack given back is no other task's
      intro r p own
      obtain ⟨ne, own⟩ := owned r p own
      rw [after]
      show ¬ (s.kernel.pages.free t.base t.pages).Clear p
      have small : maxPages = 1048576 := rfl
      have inside := (inv.sized _ t given).2.2
      rw [clear_free_range (by omega)]
      rintro (clear | ⟨-, here⟩)
      · exact inv.used r p own clear
      · have same := inv.disjoint r (_, .user) p own ⟨running, t, given, here⟩
        exact ne (congrArg Prod.fst same)
    case disjoint =>
      intro r r' p own own'
      exact inv.disjoint r r' p (owned r p own).2 (owned r' p own').2
    case freed =>
      rw [after]
      intro f hf
      show ((s.kernel.sched.setTask _ _).tasks f.1).active = false ∧ _
      rcases List.mem_cons.mp hf with rfl | hf
      · exact ⟨gone, t, given, rfl⟩
      · obtain ⟨inactive, rest⟩ := inv.freed f hf
        have ne : f.1 ≠ s.kernel.sched.currentTaskIndex := by
          intro here
          rw [here, running] at inactive
          cases inactive
        rw [Scheduler.setTask_tasks_of_ne ne]
        exact ⟨inactive, rest⟩
    case once =>
      -- its owner was active until now, so this is the first time
      rw [after]
      refine List.nodup_cons.mpr ⟨?_, inv.once⟩
      intro before
      obtain ⟨f, hf, here⟩ := List.mem_map.mp before
      have inactive := (inv.freed f hf).1
      rw [show f.1 = s.kernel.sched.currentTaskIndex from here, running] at inactive
      cases inactive

end Step

/-- `StackInv` holds in every run. -/
theorem StackRun.invariant : StackRun.sys.Invariant StackInv := by
  refine TSys.Inductive.invariant ⟨?_, ?_⟩
  · rintro s ⟨sched, -, given, freed⟩
    have inactive : ∀ i, i ≠ 0 → (s.kernel.sched.tasks i).active = false := by
      intro i ne
      rw [sched]
      exact tableInv_init.beyond i (Nat.one_le_iff_ne_zero.mpr ne)
    refine ⟨sched ▸ tableInv_init, ?_, ?_, ?_, ?_, ?_, ?_, ?_⟩
    · intro i active other
      exact absurd active (by rw [inactive i other]; decide)
    · intro i t ht
      rw [given] at ht
      cases ht
    · intro i t ht
      rw [given] at ht
      cases ht
    · rintro r p ⟨-, t, ht, -⟩
      rw [given] at ht
      cases ht
    · rintro r r' p ⟨-, t, ht, -⟩
      rw [given] at ht
      cases ht
    · intro f hf
      rw [freed] at hf
      cases hf
    · rw [freed]
      exact List.nodup_nil
  · intro s op s' inv next
    obtain rfl := next
    cases op with
    | exec fn pages => exact inv.exec fn pages
    | switch frame => exact inv.switch frame
    | terminate frame => exact inv.terminate frame

theorem StackRun.reachable_foldl (ops : List TaskOp) : ∀ {s : StackRun},
    StackRun.sys.Reachable s → StackRun.sys.Reachable (ops.foldl StackRun.step s) := by
  induction ops with
  | nil => exact fun hs => hs
  | cons op ops ih => exact fun hs => ih (.step hs rfl)

/-! ## Counting pages -/

namespace StackRun

/-- The pages that went into task `i`, if it is active and was created by
`SYSCALL_EXEC`: its user stack and the page of its kernel stack. -/
def held (s : StackRun) (i : Nat) : Nat :=
  if i ≠ 0 ∧ (s.kernel.sched.tasks i).active = true then
    (s.kernel.sched.tasks i).stackPages.toNat + 1
  else 0

/-- The pages used are those used at first, those held by active tasks and one
for each task that was terminated. -/
def Accounts (s : StackRun) : Prop :=
  s.kernel.pages.usedPages.card =
    s.atInit.usedPages.card + ∑ i ∈ Finset.range maxTasks, s.held i + s.freed.length

end StackRun

section Count

variable {s s' : StackRun}

theorem StackRun.held_congr {i : Nat}
    (same : s'.kernel.sched.tasks i = s.kernel.sched.tasks i) : s'.held i = s.held i := by
  rw [StackRun.held, same, StackRun.held]

/-- A step that keeps the stacks and the page allocator keeps the accounts. -/
theorem StackRun.Accounts.keep (acc : s.Accounts) (pages : s'.kernel.pages = s.kernel.pages)
    (atInit : s'.atInit = s.atInit) (freed : s'.freed = s.freed)
    (same : ∀ i, SameStack (s.kernel.sched.tasks i) (s'.kernel.sched.tasks i)) : s'.Accounts := by
  have held : s'.held = s.held := by
    funext i
    obtain ⟨flag, -, size⟩ := same i
    simp only [StackRun.held, flag, size]
  rw [StackRun.Accounts, pages, atInit, freed, held]
  exact acc

theorem StackInv.exec_accounts (inv : StackInv s) (acc : s.Accounts) {pages : Word}
    {t : TaskStacks} (h : s.kernel.execAllocates pages = some t) (fn : Word) :
    (s.step (.exec fn pages)).Accounts := by
  have after : s.step (.exec fn pages) = s.added (s.kernel.execCase fn pages).1 t := by
    simp only [StackRun.step, h, StackRun.added]
  have adds := exec_adds fn h
  rw [after]
  generalize (s.kernel.execCase fn pages).1 = k at adds
  have others : ∀ j, j ≠ s.kernel.sched.totalTasks → (s.added k t).held j = s.held j := by
    intro j ne
    exact StackRun.held_congr (adds.old ne)
  have before : s.held s.kernel.sched.totalTasks = 0 := by
    have idle := inv.table.beyond _ (le_refl s.kernel.sched.totalTasks)
    simp only [StackRun.held, idle, Bool.false_eq_true, and_false, if_false]
  have now : (s.added k t).held s.kernel.sched.totalTasks = pages.toNat + 1 := by
    have some : s.kernel.sched.totalTasks ≠ 0 := by
      have := inv.table.current
      omega
    have entry : (s.added k t).kernel.sched.tasks s.kernel.sched.totalTasks = _ := adds.new
    simp only [StackRun.held, entry, some, ne_eq, not_false_eq_true, and_self, if_true]
  -- one entry changes, from nothing to what was allocated
  have sum := sum_change (Finset.mem_range.mpr adds.room) others
  have card := adds.card
  have acc : s.kernel.pages.usedPages.card = _ := acc
  show k.pages.usedPages.card = s.atInit.usedPages.card + ∑ i ∈ Finset.range maxTasks,
    (s.added k t).held i + s.freed.length
  omega

theorem StackInv.switch_accounts (acc : s.Accounts) (frame : Word) :
    (s.step (.switch frame)).Accounts := by
  rcases s.kernel.switch_cases frame with ⟨next, g, -, run⟩ | ⟨-, g, run⟩
  · simp only [StackRun.step, run]
    refine acc.keep rfl rfl rfl ?_
    intro i
    exact Scheduler.sameStack_setTask_rsp s.kernel.sched frame i
  · simp only [StackRun.step, run]
    exact acc.keep rfl rfl rfl fun i => ⟨rfl, rfl, rfl⟩

theorem StackInv.terminate_accounts (inv : StackInv s) (acc : s.Accounts) (frame : Word) :
    (s.step (.terminate frame)).Accounts := by
  by_cases main : s.kernel.sched.currentTaskIndex = 0
  · obtain ⟨g, after⟩ := StackRun.terminate_main main frame
    rw [after]
    exact acc.keep rfl rfl rfl fun i => ⟨rfl, rfl, rfl⟩
  · obtain ⟨t, next, g, given, succ, after⟩ := inv.terminates main frame
    have small : s.kernel.sched.currentTaskIndex < maxTasks :=
      Nat.lt_of_lt_of_le inv.table.current inv.table.total
    have others : ∀ j, j ≠ s.kernel.sched.currentTaskIndex →
        (s.step (.terminate frame)).held j = s.held j := by
      intro j ne
      rw [after]
      exact StackRun.held_congr (Scheduler.setTask_tasks_of_ne ne _)
    have now : (s.step (.terminate frame)).held s.kernel.sched.currentTaskIndex = 0 := by
      rw [after]
      show (if _ ∧ ((s.kernel.sched.setTask _ _).tasks _).active = true then _ else 0) = 0
      rw [Scheduler.setTask_tasks_self, Kernel.retire_active, if_neg (by simp)]
    have before : s.held s.kernel.sched.currentTaskIndex = t.pages.toNat + 1 := by
      obtain ⟨u, hu, -, size⟩ := inv.created _ inv.table.running main
      obtain rfl : u = t := Option.some.inj (hu.symm.trans given)
      simp only [StackRun.held, inv.table.running, main, size, ne_eq, not_false_eq_true, and_self,
        if_true]
    -- the user stack comes back; the page of the kernel stack is counted in `freed`
    have sum := sum_change (Finset.mem_range.mpr small) others
    have card : (s.kernel.pages.free t.base t.pages).usedPages.card + t.pages.toNat =
        s.kernel.pages.usedPages.card := by
      refine card_usedPages_free (inv.sized _ t given).2.2 ?_
      intro p here
      exact inv.used (_, .user) p ⟨inv.table.running, t, given, here⟩
    have acc : s.kernel.pages.usedPages.card = _ := acc
    have freed : (s.step (.terminate frame)).freed.length = s.freed.length + 1 := by rw [after]; rfl
    have pages : (s.step (.terminate frame)).kernel.pages = s.kernel.pages.free t.base t.pages := by
      rw [after]
    have atInit : (s.step (.terminate frame)).atInit = s.atInit := by rw [after]
    rw [StackRun.Accounts, pages, atInit, freed]
    omega

end Count

/-- The accounts balance at first. -/
theorem StackRun.accounts_init {s : StackRun} (start : StackRun.sys.init s) : s.Accounts := by
  obtain ⟨sched, atInit, -, freed⟩ := start
  have none : ∀ i ∈ Finset.range maxTasks, s.held i = 0 := by
    intro i _
    rw [StackRun.held, if_neg]
    rintro ⟨ne, active⟩
    rw [sched] at active
    have idle := tableInv_init.beyond i (Nat.one_le_iff_ne_zero.mpr ne)
    exact absurd active (by rw [idle]; decide)
  rw [StackRun.Accounts, Finset.sum_eq_zero none, atInit, freed, List.length_nil, Nat.add_zero,
    Nat.add_zero]

end Coolos
