import Coolos.Logic.InterruptFlag

/-!
# The frame of a task that has not run yet

`SYSCALL_EXEC` builds it, and nothing writes there before the task runs. So the first time the
task runs it has the registers that were built for it.
-/

namespace Coolos

open Lib Lib.X86 PageAllocator

namespace MachineRun

variable {s s' : MachineRun} {m : Machine} {op : MachineOp} {i : Nat}

/-- Task `i` in ring 3 for the first time, if the step adds it: at the function that was passed
on, at the top of the stack allocated. -/
def execContext (s : MachineRun) : Context where
  regs r :=
    if r = .rsp then
      (s.machine.kernel.pages.alloc (s.machine.cpu.regs .rsi)).2 + s.machine.cpu.regs .rsi * 4096
    else 0
  rip := s.machine.cpu.regs .rdi
  cs := userCodeSel.truncate 16
  rflags := 0x202
  ss := userDataSel.truncate 16

/-- The step is a `SYSCALL_EXEC`, and its task gets entry `i`. -/
def Execs (s : MachineRun) (op : MachineOp) (i : Nat) : Prop :=
  (∃ env, op = .syscall env) ∧ s.machine.cpu.regs .rax = syscallExec ∧
    i = s.machine.kernel.sched.totalTasks

/-- The frame task `i` is resumed from. -/
def frameOf (s : MachineRun) (i : Nat) : InterruptFrame :=
  InterruptFrame.read s.machine.kernel.mem (s.machine.kernel.sched.tasks i).rsp

/-- The frame that `Scheduler_AddUserTask` builds. -/
theorem exec_frame {k k' : Kernel} {fn pages : Word} {t : TaskStacks}
    (adds : k.execAllocates pages = some t) (run : k' = (k.execCase fn pages).1) :
    (InterruptFrame.read k'.mem (frameBelow (t.kstack + 4096))).context =
      { regs := fun r => if r = .rsp then (k.pages.alloc pages).2 + pages * 4096 else 0
        rip := fn, cs := userCodeSel.truncate 16, rflags := 0x202
        ss := userDataSel.truncate 16 } := by
  have base : t.base = (k.pages.alloc pages).2 := by
    unfold Kernel.execAllocates at adds
    dsimp only at adds
    split at adds
    · rw [← Option.some.inj adds]
    · cases adds
  have built : InterruptFrame.read k'.mem (frameBelow (t.kstack + 4096)) =
      { r15 := 0, r14 := 0, r13 := 0, r12 := 0, r11 := 0, r10 := 0, r9 := 0, r8 := 0, rsi := 0
        rdi := 0, rbp := 0, rdx := 0, rcx := 0, rbx := 0, rax := 0, intNo := 0, errCode := 0
        rip := fn, cs := userCodeSel, rflags := 0x202, rsp := t.base + pages * 4096
        ss := userDataSel } := by
    rw [run, (exec_adds fn adds).mem]
    exact InterruptFrame.read_pushed rfl
  rw [built, base]
  ext r
  · cases r <;> rfl
  all_goals rfl

/-- Nothing has happened to task `i`, which has not run yet. -/
structure Untouched (s : MachineRun) (m : Machine) (i : Nat) : Prop where
  fresh : s.Fresh i
  entry : m.kernel.sched.tasks i = s.machine.kernel.sched.tasks i
  frame : InterruptFrame.read m.kernel.mem (m.kernel.sched.tasks i).rsp = s.frameOf i

/-- Its frame is away from the entries. -/
theorem untouched_of_away (w : s.Waiting) (fresh : s.Fresh i)
    (entry : m.kernel.sched.tasks i = s.machine.kernel.sched.tasks i)
    (mem : ∀ a, s.machine.Away a → m.kernel.mem a = s.machine.kernel.mem a) :
    s.Untouched m i := by
  obtain ⟨given, -, starts⟩ := w
  obtain ⟨t, start, away⟩ := starts i fresh
  refine ⟨fresh, entry, ?_⟩
  rw [frameOf, entry, start.rsp]
  exact InterruptFrame.read_congr fun j hj => mem _ (away j hj)

/-- An entry that adds no task. -/
theorem fresh_quiet (inv : FlagInv s) (outcome : s.Outcome op m) (quiet : QuietEntry s.machine m)
    (fresh : (s.leave m).Fresh i) : s.Untouched m i := by
  have active := fresh.1
  rw [leave_machine] at active
  obtain ⟨before, same⟩ := fresh_leave inv.machine outcome fresh (quiet.active i active)
  exact untouched_of_away inv.waiting before same quiet.mem

/-- A system call that comes back. -/
theorem fresh_syscall (inv : FlagInv s) {env : Env}
    (run : s.machine.syscall env = .returned m ∨ s.machine.syscall env = .switched m)
    (fresh : (s.leave m).Fresh i) : s.Untouched m i ∨ s.Execs (.syscall env) i ∧
      (InterruptFrame.read m.kernel.mem (m.kernel.sched.tasks i).rsp).context = s.execContext := by
  have outcome := syscall_outcome inv.machine run
  obtain ⟨k', rax, handled, rsp0, pages', sched', mem'⟩ := Machine.syscall_leaves run
  obtain ⟨k, mem, pages, sched, -, call⟩ := s.machine.exists_handled env
  rw [handled] at call
  have entered : ∀ a, s.machine.Away a → k.mem a = s.machine.kernel.mem a := by
    intro a away
    rw [mem, Machine.atHandler_apply away]
  have kept (quiet : Quiet k k') : s.Untouched m i :=
    fresh_quiet inv outcome (.of_quiet quiet entered pages sched mem' pages' sched') fresh
  by_cases exec : s.machine.cpu.regs .rax = syscallExec
  · rw [exec] at call
    have call : k' = (k.execCase (s.machine.cpu.regs .rdi) (s.machine.cpu.regs .rsi)).1 :=
      congrArg Prod.fst call
    cases adds : k.execAllocates (s.machine.cpu.regs .rsi) with
    | none =>
        left
        apply kept
        rw [call]
        exact Quiet.exec (s.machine.cpu.regs .rdi) adds
    | some t =>
        have taken := exec_adds (s.machine.cpu.regs .rdi) adds
        rw [← call] at taken
        have inPage {kstack : Word} : InRange (kstack, 1) (kstack.toNat / 4096) :=
          ⟨le_rfl, Nat.lt_succ_self _⟩
        by_cases last : i = k.sched.totalTasks
        · right
          refine ⟨⟨⟨env, rfl⟩, exec, by rw [last, sched]⟩, ?_⟩
          have rsp : (m.kernel.sched.tasks i).rsp = frameBelow (t.kstack + 4096) := by
            rw [sched', taken.sched, last]
            show ((k.sched.setTask _ _).tasks _).rsp = _
            rw [Scheduler.setTask_tasks_self]
          -- no entry writes to a page that can be taken
          have away : ∀ j < frameSize,
              s.machine.Away (frameBelow (t.kstack + 4096) + loc j) := by
            intro j hj
            by_contra near
            have out := (inv.reserved _ near).1
            rw [Starts.page_frame t.kstack (taken.aligned .kernel) (taken.inside .kernel) hj,
              ← pages] at out
            exact out (execAllocates_clear adds (r := .kernel) inPage)
          rw [rsp, InterruptFrame.read_congr fun j hj => mem' _ (away j hj), exec_frame adds call,
            execContext, pages]
        · left
          have active := fresh.1
          rw [leave_machine, sched', taken.sched] at active
          have active : ((k.sched.setTask _ _).tasks i).active = true := active
          rw [Scheduler.setTask_tasks_of_ne last, sched] at active
          obtain ⟨before, entry⟩ := fresh_leave inv.machine outcome fresh active
          refine ⟨before, entry, ?_⟩
          obtain ⟨given, stacked, starts⟩ := inv.waiting
          obtain ⟨u, start, away⟩ := starts i before
          rw [frameOf, entry, start.rsp]
          refine InterruptFrame.read_congr fun j hj => ?_
          rw [mem' _ (away j hj), ← entered _ (away j hj)]
          -- the page of the frame was not clear
          rcases taken.writes (frameBelow (u.kstack + 4096) + loc j) with kept | here
          · exact kept
          · rw [Starts.page_frame u.kstack start.aligned start.inside hj] at here
            have used := stacked.used active start.given (r := .kernel) inPage
            rw [← pages] at used
            exact absurd (taken.fresh .kernel _ here) used
  · left
    apply kept
    have quiet := Quiet.syscall k exec (s.machine.cpu.regs .rdi) (s.machine.cpu.regs .rsi)
      (s.machine.cpu.regs .rdi) (s.machine.cpu.regs .r10) (s.machine.cpu.regs .r8) env.polls
    rw [← call] at quiet
    exact quiet

/-- A task that has not run after a step had not run before, with the same frame; or the step
added it. -/
theorem fresh_step (inv : FlagInv s) (spares : s.Spares op) (h : s.step op = some s')
    (fresh : s'.Fresh i) : s.Untouched s'.machine i ∨
      s.Execs op i ∧ (s'.frameOf i).context = s.execContext := by
  cases stepped h with
  | user regs rip rflags mem =>
      left
      refine ⟨fresh, rfl, ?_⟩
      exact InterruptFrame.read_congr fun j hj => spares i fresh j hj
  | timer run =>
      have untouched := fresh_quiet inv (timer_outcome inv.machine run)
        (timer_entry inv.machine run).2.1 fresh
      rw [leave_machine]
      exact .inl untouched
  | keyboard run =>
      have untouched := fresh_quiet inv (keyboard_outcome inv.machine run)
        (keyboard_entry inv.machine run).2.1 fresh
      rw [leave_machine]
      exact .inl untouched
  | returned run =>
      rw [frameOf, leave_machine]
      exact fresh_syscall inv (.inl run) fresh
  | switched run =>
      rw [frameOf, leave_machine]
      exact fresh_syscall inv (.inr run) fresh

/-! ## Its first run -/

/-- A key goes on with the frame of the entry and changes no task, or moves to the successor and
resumes it from its frame. -/
theorem keyboard_or {k : Kernel} (table : TableInv k.sched) (frame : Word) (scancode : BitVec 8) :
    ((k.keyboardHandler frame scancode).2 = frame ∧
      (k.keyboardHandler frame scancode).1.sched = k.sched) ∨
    ∃ next, k.sched.successor = some next ∧
      (k.keyboardHandler frame scancode).1.sched.currentTaskIndex = next ∧
      (k.keyboardHandler frame scancode).2 = (k.sched.tasks next).rsp := by
  have eoi : k.sendEOI.sched = k.sched := rfl
  rcases k.keyboardHandler_cases frame scancode with ⟨-, key⟩ | ⟨-, key⟩ | ⟨-, -, g, c, key⟩
  · -- CapsLock
    rw [key]
    rcases k.sendEOI.switch_cases frame with ⟨next, g, succ, run⟩ | ⟨-, g, run⟩
    · rw [run]
      exact .inr ⟨next, succ, rfl, rfl⟩
    · rw [run]
      exact .inl ⟨rfl, rfl⟩
  · -- ESC
    rw [key]
    by_cases main : k.sched.currentTaskIndex = 0
    · obtain ⟨g, run⟩ := k.sendEOI.terminate_main frame main
      rw [run]
      exact .inl ⟨rfl, rfl⟩
    · obtain ⟨next, g, succ, run⟩ := TableInv.terminate_run (k := k.sendEOI) table main frame
      rw [run]
      exact .inr ⟨next, succ, rfl, rfl⟩
  · rw [key]
    exact .inl ⟨rfl, rfl⟩

/-- The keyboard interrupt, likewise. -/
theorem keyboard_resumes (inv : FlagInv s) {env : Env}
    (run : s.machine.interrupt intKeyboard env = some m) :
    (cpuContext m.cpu = cpuContext s.machine.cpu ∧ m.kernel.sched = s.machine.kernel.sched) ∨
    (m.kernel.sched.currentTaskIndex ≠ s.current ∧
      cpuContext m.cpu = (InterruptFrame.read m.kernel.mem
        (s.machine.kernel.sched.tasks m.kernel.sched.currentTaskIndex).rsp).context) := by
  obtain ⟨-, -, here, -⟩ := keyboard_entry inv.machine run
  obtain ⟨k, hk, -, sched, -⟩ := s.machine.exists_entered intKeyboard
  have call := Machine.serviced_keyboard env hk inv.machine.keyboard
  obtain ⟨context, -, sched', -⟩ := Machine.interrupt_resumes call run
  rw [sched']
  rcases keyboard_or (sched ▸ inv.machine.table) (frameBelow s.machine.rsp0) env.scancode with
    ⟨frame, same⟩ | ⟨next, succ, cur, frame⟩
  · left
    rw [frame] at context
    exact ⟨context.trans here, same.trans sched⟩
  · right
    rw [sched] at succ frame
    rw [cur]
    rw [frame] at context
    exact ⟨(inv.machine.table.successor succ).2.2, context⟩

/-- A step to another task loads the registers from the frame of that task; before, it has
written where the entries do and nowhere else. -/
theorem step_moves (inv : FlagInv s) (h : s.step op = some s') (moved : s'.current ≠ s.current) :
    s.machine.kernel.sched.successor = some s'.current ∧
      cpuContext s'.machine.cpu = (InterruptFrame.read s'.machine.kernel.mem
        (s.machine.kernel.sched.tasks s'.current).rsp).context ∧
      ∀ a, s.machine.Away a → s'.machine.kernel.mem a = s.machine.kernel.mem a := by
  have succ : s.machine.kernel.sched.successor = some s'.current := by
    obtain ⟨m, rfl, outcome⟩ := step_outcome inv.machine h
    rw [current, leave_machine] at moved ⊢
    rcases outcome with ⟨stays, -⟩ | ⟨next, c, -, handed⟩
    · exact absurd stays.current moved
    · rw [handsOver_current handed]
      exact handed.successor
  refine ⟨succ, ?_⟩
  cases stepped h with
  | user regs rip rflags mem => exact absurd rfl moved
  | @timer env m run =>
      rcases timer_outcome inv.machine run with ⟨stays, -⟩ | ⟨next, c, entering, -⟩
      · rw [current, leave_machine] at moved
        exact absurd stays.current moved
      · cases entering
  | @keyboard env m run =>
      obtain ⟨-, quiet, -⟩ := keyboard_entry inv.machine run
      rw [current, leave_machine] at moved ⊢
      rcases keyboard_resumes inv run with ⟨-, same⟩ | ⟨-, context⟩
      · exact absurd (congrArg Scheduler.currentTaskIndex same) moved
      · exact ⟨context, quiet.mem⟩
  | @returned env m run =>
      -- only a `SYSCALL_TERMINATE` moves, and it does not return
      rcases syscall_outcome inv.machine (.inl run) with ⟨stays, -⟩ | ⟨next, c, entering, -⟩
      · rw [current, leave_machine] at moved
        exact absurd stays.current moved
      · have stays := mt (handled_frame_iff inv.resumable (Machine.returned_bases run).1).mpr
          (not_not_intro rfl)
        have none : s.entering (.syscall env) = none :=
          if_neg fun call => stays ⟨⟨env, rfl⟩, call⟩
        rw [none] at entering
        cases entering
  | @switched env m run =>
      obtain ⟨-, kept, -, next, succ', context⟩ := switched_entry inv.machine inv.resumable run
      obtain rfl := Option.some.inj (succ'.symm.trans succ)
      rw [leave_machine]
      exact ⟨context, kept⟩

/-- A task that runs for the first time has the registers in its frame. -/
theorem step_begins (inv : FlagInv s) (h : s.step op = some s') (moved : s'.current ≠ s.current)
    (first : s.suspended s'.current = none) :
    s.Fresh s'.current ∧ cpuContext s'.machine.cpu = (s.frameOf s'.current).context := by
  obtain ⟨succ, context, kept⟩ := step_moves inv h moved
  obtain ⟨-, active, other⟩ := inv.machine.table.successor succ
  have fresh : s.Fresh s'.current := ⟨active, other, first⟩
  refine ⟨fresh, ?_⟩
  obtain ⟨given, -, starts⟩ := inv.waiting
  obtain ⟨t, start, away⟩ := starts _ fresh
  rw [context, frameOf, start.rsp]
  rw [InterruptFrame.read_congr fun j hj => kept _ (away j hj)]

end MachineRun
end Coolos
