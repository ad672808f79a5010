import Coolos.Logic.EntryFrames

/-!
# The interrupt flag over runs of the machine

`SYSCALL` clears IF by SFMASK and `sysretq` brings it back, an interrupt gate clears
it and `iretq` loads it with the frame. The frame of a task that has not run yet has
it set. A task that was suspended goes on with the flags that the entry resuming it
left below `tss.rsp0`: those of the task interrupted, or the RBP of a task that made a
`SYSCALL_TERMINATE`.
-/

namespace Coolos

open Lib Lib.X86 PageAllocator

/-! ## Pages nobody is handed -/

/-- The page is neither for the allocator to hand out nor for a task to give back. -/
def OutOfReach (k : Kernel) (p : Nat) : Prop :=
  p ∉ k.pages.clearPages ∧ ¬ Releasable k.sched p

theorem OutOfReach.step {k k' : Kernel} {p : Nat} (h : OutOfReach k p) (step : PageStep k k') :
    OutOfReach k' p := by
  obtain ⟨unclear, unheld⟩ := h
  constructor
  · intro mem
    obtain ⟨range, clear⟩ := Finset.mem_filter.mp mem
    rw [step.total] at range
    rcases step.cleared p clear with clear | stack
    · exact unclear (Finset.mem_filter.mpr ⟨range, clear⟩)
    · exact unheld stack
  · intro stack
    rcases step.releasable p stack with stack | ⟨clear, low, high⟩
    · exact unheld stack
    · exact unclear (Finset.mem_filter.mpr ⟨Finset.mem_Ico.mpr ⟨low, high⟩, clear⟩)

/-- The pages between two kernels that differ elsewhere. -/
theorem PageStep.around {k₁ k k' k₂ : Kernel} (step : PageStep k k') (pages : k.pages = k₁.pages)
    (sched : k.sched = k₁.sched) (pages' : k₂.pages = k'.pages) (sched' : k₂.sched = k'.sched) :
    PageStep k₁ k₂ := by
  have into : PageStep k₁ k := .of_same pages fun p => by rw [sched]; exact id
  have out : PageStep k' k₂ := .of_same pages' fun p => by rw [sched']; exact id
  exact into.trans (step.trans out)

namespace Machine

variable {m m' : Machine} {env : Env}

/-! ## One entry -/

theorem syscall_keeps_sfmask (h : m.syscall env = .returned m' ∨ m.syscall env = .switched m') :
    m'.cpu.sfmask = m.cpu.sfmask := by
  have handler : m.atHandler.cpu.sfmask = m.cpu.sfmask := by
    rw [atHandler, run_sfmask]
    rfl
  have exit (k : Kernel) (rax : Word) : (m.atExit env k rax).cpu.sfmask = m.cpu.sfmask := by
    rw [atExit, run_sfmask, afterCall_sfmask, handler]
  rcases h with h | h
  · obtain ⟨k, -, rfl⟩ := of_syscall_returned h
    exact (run_sfmask ..).trans (exit k 0)
  · obtain ⟨k, rax, -, -, rfl⟩ := of_syscall_switched h
    exact (run_sfmask ..).trans (exit k rax)

/-- What the handler left is there when a system call is over. -/
theorem syscall_leaves (h : m.syscall env = .returned m' ∨ m.syscall env = .switched m') :
    ∃ k rax, m.handled env = (k, some rax) ∧ m'.rsp0 = m.rsp0 ∧ m'.kernel.pages = k.pages ∧
      m'.kernel.sched = k.sched ∧ ∀ a, m.Away a → m'.kernel.mem a = k.mem a := by
  obtain ⟨rax, result, rsp0, kernel⟩ := syscall_exit h
  rcases call : m.handled env with ⟨k, ret⟩
  rw [call] at result kernel
  obtain rfl : ret = some rax := result
  have left : ∀ a, m.Away a → (m.atExit env k rax).mem a = k.mem a :=
    fun a away => atExit_apply away rax
  generalize (m.atExit env k rax).mem = mem at kernel left
  refine ⟨k, rax, rfl, rsp0, ?_, ?_, ?_⟩
  · rw [kernel]
  · rw [kernel]
  · rw [kernel]
    exact left

/-- One that resumes another task loads RFLAGS from its frame. -/
theorem switched_context (h : m.syscall env = .switched m') :
    ∃ rax, (m.handled env).2 = some rax ∧
      cpuContext m'.cpu = (InterruptFrame.read m'.kernel.mem rax).context := by
  obtain ⟨k, rax, -, call, left⟩ := of_syscall_switched h
  obtain ⟨s, hs⟩ : ∃ s, s = X86.run (m.atExit env k rax) switchTaskFromSyscall := ⟨_, rfl⟩
  have resumed : cpuContext s.cpu = (InterruptFrame.read s.mem rax).context := by
    have same := restore_mem (m.atExit env k rax)
    have resumed := restore_context (m.atExit env k rax)
    rw [← switchTaskFromSyscall, ← hs] at same resumed
    rw [resumed, atExit_rax, same]
  dsimp only at left
  rw [← hs] at left
  subst left
  exact ⟨rax, by rw [call], resumed⟩

end Machine

/-! ## One step -/

namespace MachineRun

variable {s s' : MachineRun} {op : MachineOp}

/-- The page that `SYSCALL_NVME_READ` has the controller write to (it is given no second one) is
none of those the entries write to, and holds no frame of a task that has not run yet. -/
def ReadsApart (s : MachineRun) : Prop :=
  s.machine.cpu.regs .rax = syscallNvmeRead →
    ∀ a, Paging.page a = Paging.page (s.machine.cpu.regs .rdi) → s.machine.Away a ∧
      ∀ i, s.Fresh i → ∀ j < frameSize, a ≠ (s.machine.kernel.sched.tasks i).rsp + loc j

/-- User code does not write the frame of a task that has not run yet, and does not have the
controller write there or to the kernel stack. -/
def Spares (s : MachineRun) : MachineOp → Prop
  | .user _ _ _ mem => ∀ i, s.Fresh i → ∀ j < frameSize,
      mem ((s.machine.kernel.sched.tasks i).rsp + loc j) =
        s.machine.kernel.mem ((s.machine.kernel.sched.tasks i).rsp + loc j)
  | .timer _ => True
  | .keyboard _ => True
  | .syscall _ => s.ReadsApart

/-- What the interrupt flag depends on. -/
structure FlagInv (s : MachineRun) : Prop where
  machine : MachineInv s
  resumable : s.Resumable
  placed : frameBelow s.machine.rsp0 ≠ 0
  sfmask : s.machine.cpu.sfmask = 0x200
  /-- The entries write to pages that no task is given. -/
  reserved : ∀ a, ¬ s.machine.Away a → OutOfReach s.machine.kernel (Paging.page a)
  waiting : s.Waiting

theorem step_sfmask (h : s.step op = some s') :
    s'.machine.cpu.sfmask = s.machine.cpu.sfmask := by
  cases stepped h with
  | user regs rip rflags mem => rfl
  | timer run =>
      rw [leave_machine]
      exact Machine.interrupt_keeps_sfmask run
  | keyboard run =>
      rw [leave_machine]
      exact Machine.interrupt_keeps_sfmask run
  | returned run =>
      rw [leave_machine]
      exact Machine.syscall_keeps_sfmask (.inl run)
  | switched run =>
      rw [leave_machine]
      exact Machine.syscall_keeps_sfmask (.inr run)

/-- The tick of the timer. -/
theorem timer_entry (inv : MachineInv s) {env : Env} {m : Machine}
    (run : s.machine.interrupt intTimer env = some m) :
    PageStep s.machine.kernel m.kernel ∧ QuietEntry s.machine m ∧
      m.cpu.rflags = s.machine.cpu.rflags := by
  obtain ⟨k, hk, mem, sched, -⟩ := s.machine.exists_entered intTimer
  have pages : k.pages = s.machine.kernel.pages := by rw [hk]
  have call : s.machine.serviced intTimer env = _ := Machine.serviced_timer hk inv.timer
  obtain ⟨context, pages', sched', mem'⟩ := Machine.interrupt_resumes call run
  obtain ⟨-, -, -, frame⟩ := Machine.interrupt_exit call mem run
  have entered : ∀ a, s.machine.Away a → k.mem a = s.machine.kernel.mem a := by
    intro a away
    rw [mem]
    exact Machine.entered_apply intTimer away
  refine ⟨?_, ?_, ?_⟩
  · have step : PageStep k { k with ticks := k.ticks + 1, eois := k.eois + 1 } :=
      .of_same rfl fun _ => id
    exact step.around pages sched pages' sched'
  · have quiet : Quiet k { k with ticks := k.ticks + 1, eois := k.eois + 1 } := .same rfl rfl rfl
    exact .of_quiet quiet entered pages sched mem' pages' sched'
  · exact congrArg Context.rflags (context.trans frame)

/-- A key: the task goes on, or its successor does. -/
theorem keyboard_entry (inv : MachineInv s) {env : Env} {m : Machine}
    (run : s.machine.interrupt intKeyboard env = some m) :
    PageStep s.machine.kernel m.kernel ∧ QuietEntry s.machine m ∧
      (InterruptFrame.read m.kernel.mem (frameBelow s.machine.rsp0)).context =
        cpuContext s.machine.cpu ∧
      ∃ frame, cpuContext m.cpu = (InterruptFrame.read m.kernel.mem frame).context ∧
        (frame = frameBelow s.machine.rsp0 ∨
          ∃ next, s.machine.kernel.sched.successor = some next ∧
            frame = (s.machine.kernel.sched.tasks next).rsp) := by
  obtain ⟨k, hk, mem, sched, -⟩ := s.machine.exists_entered intKeyboard
  have pages : k.pages = s.machine.kernel.pages := by rw [hk]
  have call := Machine.serviced_keyboard env hk inv.keyboard
  have quiet := Quiet.keyboard k (frameBelow s.machine.rsp0) env.scancode
  obtain ⟨context, pages', sched', mem'⟩ := Machine.interrupt_resumes call run
  obtain ⟨-, -, -, frame⟩ := Machine.interrupt_exit call (quiet.mem.trans mem) run
  have entered : ∀ a, s.machine.Away a → k.mem a = s.machine.kernel.mem a := by
    intro a away
    rw [mem]
    exact Machine.entered_apply intKeyboard away
  refine ⟨?_, .of_quiet quiet entered pages sched mem' pages' sched', frame, _, context, ?_⟩
  · exact (k.keyboardHandler_step (frameBelow s.machine.rsp0) env.scancode).around pages sched
      pages' sched'
  · have eoi : k.sendEOI.sched = s.machine.kernel.sched := sched
    rcases k.keyboardHandler_cases (frameBelow s.machine.rsp0) env.scancode with
      ⟨-, key⟩ | ⟨-, key⟩ | ⟨-, -, g, c, key⟩
    · -- CapsLock
      rw [key]
      rcases k.sendEOI.switch_cases (frameBelow s.machine.rsp0) with
        ⟨next, g, succ, run⟩ | ⟨-, g, run⟩
      · rw [run]
        rw [eoi] at succ ⊢
        exact .inr ⟨next, succ, rfl⟩
      · rw [run]
        exact .inl rfl
    · -- ESC
      rw [key]
      by_cases main : s.current = 0
      · obtain ⟨g, run⟩ := k.sendEOI.terminate_main (frameBelow s.machine.rsp0)
          (by rw [eoi]; exact main)
        rw [run]
        exact .inl rfl
      · obtain ⟨next, g, succ, run⟩ := TableInv.terminate_run (k := k.sendEOI)
          (eoi ▸ inv.table) (by rw [eoi]; exact main) (frameBelow s.machine.rsp0)
        rw [run]
        rw [eoi] at succ ⊢
        exact .inr ⟨next, succ, rfl⟩
    · rw [key]
      exact .inl rfl

/-- What a system call that comes back does to the pages. -/
theorem syscall_pages {env : Env} {m : Machine}
    (run : s.machine.syscall env = .returned m ∨ s.machine.syscall env = .switched m) :
    PageStep s.machine.kernel m.kernel := by
  obtain ⟨k', rax, handled, -, pages', sched', -⟩ := Machine.syscall_leaves run
  obtain ⟨k, -, pages, sched, -, call⟩ := s.machine.exists_handled env
  have step := k.syscallHandler_step (s.machine.cpu.regs .rax) (s.machine.cpu.regs .rdi)
    (s.machine.cpu.regs .rsi) (s.machine.cpu.regs .rdi) (s.machine.cpu.regs .r10)
    (s.machine.cpu.regs .r8) env.polls
  rw [← call, handled] at step
  exact step.around pages sched pages' sched'

theorem syscall_waiting (inv : FlagInv s) {env : Env} {m : Machine}
    (run : s.machine.syscall env = .returned m ∨ s.machine.syscall env = .switched m)
    (bases : m.cpu.bases = s.machine.cpu.bases ∨ m.cpu.bases = s.machine.cpu.bases.swap) :
    (s.leave m).Waiting := by
  have outcome := syscall_outcome inv.machine run
  obtain ⟨k', rax, handled, rsp0, pages', sched', mem'⟩ := Machine.syscall_leaves run
  obtain ⟨k, mem, pages, sched, -, call⟩ := s.machine.exists_handled env
  rw [handled] at call
  have entered : ∀ a, s.machine.Away a → k.mem a = s.machine.kernel.mem a := by
    intro a away
    rw [mem, Machine.atHandler_apply away]
  have waits (quiet : Quiet k k') : (s.leave m).Waiting :=
    inv.waiting.quiet inv.machine outcome
      (.of_quiet quiet entered pages sched mem' pages' sched') rsp0 bases
  by_cases exec : s.machine.cpu.regs .rax = syscallExec
  · rw [exec] at call
    have call : k' = (k.execCase (s.machine.cpu.regs .rdi) (s.machine.cpu.regs .rsi)).1 :=
      congrArg Prod.fst call
    cases adds : k.execAllocates (s.machine.cpu.regs .rsi) with
    | none =>
        apply waits
        rw [call]
        exact Quiet.exec (s.machine.cpu.regs .rdi) adds
    | some t =>
        exact inv.waiting.added inv.machine outcome rsp0 bases
          (fun a near => (inv.reserved a near).1) entered pages sched adds call mem' pages' sched'
  · have quiet := Quiet.syscall k exec (s.machine.cpu.regs .rdi) (s.machine.cpu.regs .rsi)
      (s.machine.cpu.regs .rdi) (s.machine.cpu.regs .r10) (s.machine.cpu.regs .r8) env.polls
    rw [← call] at quiet
    exact waits quiet

theorem step_bases_or (inv : FlagInv s) (h : s.step op = some s') :
    s'.machine.cpu.bases = s.machine.cpu.bases ∨
      s'.machine.cpu.bases = s.machine.cpu.bases.swap := by
  rcases step_bases inv.resumable h with ⟨-, bases⟩ | ⟨-, bases⟩
  · exact .inr bases
  · exact .inl bases

theorem FlagInv.step (inv : FlagInv s) (spares : s.Spares op) (h : s.step op = some s') :
    FlagInv s' := by
  have rsp0 := step_rsp0 inv.machine h
  have bases := step_bases_or inv h
  have effect : PageStep s.machine.kernel s'.machine.kernel ∧ s'.Waiting := by
    cases stepped h with
    | user regs rip rflags mem =>
        refine ⟨.of_same rfl fun _ => id, ?_⟩
        obtain ⟨given, stacked, starts⟩ := inv.waiting
        refine ⟨given, stacked.same rfl rfl, fun i fresh => ?_⟩
        obtain ⟨t, start, away⟩ := starts i fresh
        have spared := spares i fresh
        rw [start.rsp] at spared
        exact ⟨t, start.keep rfl rfl spared, fun j hj => (away j hj).congr rsp0 bases⟩
    | @timer env m run =>
        obtain ⟨pages, quiet, -⟩ := timer_entry inv.machine run
        have outcome := timer_outcome inv.machine run
        rw [leave_machine] at rsp0 bases ⊢
        exact ⟨pages, inv.waiting.quiet inv.machine outcome quiet rsp0 bases⟩
    | @keyboard env m run =>
        obtain ⟨pages, quiet, -⟩ := keyboard_entry inv.machine run
        have outcome := keyboard_outcome inv.machine run
        rw [leave_machine] at rsp0 bases ⊢
        exact ⟨pages, inv.waiting.quiet inv.machine outcome quiet rsp0 bases⟩
    | returned run =>
        rw [leave_machine] at bases ⊢
        exact ⟨syscall_pages (.inl run), syscall_waiting inv (.inl run) bases⟩
    | switched run =>
        rw [leave_machine] at bases ⊢
        exact ⟨syscall_pages (.inr run), syscall_waiting inv (.inr run) bases⟩
  obtain ⟨pages, waiting⟩ := effect
  refine ⟨(step_intact inv.machine h).1, step_resumable inv.machine inv.placed inv.resumable h, ?_,
    (step_sfmask h).trans inv.sfmask, ?_, waiting⟩
  · rw [rsp0]
    exact inv.placed
  · intro a near
    exact (inv.reserved a fun away => near (away.congr rsp0 bases)).step pages

/-! ## The flag after a step -/

/-- Interrupts are enabled in ring 3. -/
def Enabled (s : MachineRun) : Prop := s.machine.cpu.rflags &&& interruptFlag ≠ 0

/-- A system call that resumes another task terminated its caller, and resumes its
successor. -/
theorem switched_entry (inv : MachineInv s) (resumable : s.Resumable) {env : Env} {m : Machine}
    (run : s.machine.syscall env = .switched m) :
    s.TerminatesBySyscall (.syscall env) ∧
      (∀ a, s.machine.Away a → m.kernel.mem a = s.machine.kernel.mem a) ∧
      (InterruptFrame.read m.kernel.mem (frameBelow s.machine.rsp0)).context =
        (s.machine.leftBehind env.junk).context ∧
      ∃ next, s.machine.kernel.sched.successor = some next ∧
        cpuContext m.cpu = (InterruptFrame.read m.kernel.mem
          (s.machine.kernel.sched.tasks next).rsp).context := by
  obtain ⟨rax, result, context⟩ := Machine.switched_context run
  obtain ⟨rax', result', nonzero, -⟩ := Machine.switched_bases run
  obtain rfl := Option.some.inj (result.symm.trans result')
  have terminates := (handled_frame_iff resumable result).mp nonzero
  obtain ⟨-, number, other⟩ := terminates
  obtain ⟨k, mem, -, sched, -, call⟩ := s.machine.exists_handled env
  have call : s.machine.handled env =
      ((k.terminateCurrentTask 0).1, some (k.terminateCurrentTask 0).2) := by
    rw [call, number]
    rfl
  have quiet := (Quiet.terminate k 0).mem
  refine ⟨⟨⟨env, rfl⟩, number, other⟩, ?_, ?_, ?_⟩
  · intro a away
    obtain ⟨k', rax', handled, -, -, -, left⟩ := Machine.syscall_leaves (.inr run)
    rw [left a away]
    rw [call] at handled
    rw [← (Prod.mk.inj handled).1, quiet, mem, Machine.atHandler_apply away]
  · obtain ⟨rax', -, -, kernel⟩ := Machine.syscall_exit (.inr run)
    rw [call] at kernel
    rw [kernel, Machine.atExit_frame (quiet.trans mem)]
  · obtain ⟨next, g, succ, back⟩ := TableInv.terminate_run (sched ▸ inv.table)
      (by rw [sched]; exact other) 0
    rw [call, back] at result
    obtain rfl := Option.some.inj result
    rw [sched] at succ context
    exact ⟨next, succ, context⟩

/-- A suspended task that a `SYSCALL_TERMINATE` resumes runs in ring 3 if its caller carried the
selectors there. -/
theorem resumed_ring3 (inv : MachineInv s) {m : Machine} {next : Nat} {saved : Context} {env : Env}
    (known : s.suspended next = some saved)
    (left : (InterruptFrame.read m.kernel.mem (frameBelow s.machine.rsp0)).context =
      (s.machine.leftBehind env.junk).context)
    (context : cpuContext m.cpu = (InterruptFrame.read m.kernel.mem
      (s.machine.kernel.sched.tasks next).rsp).context) :
    (s.leave m).InRing3 ↔ s.CarriesUser := by
  obtain ⟨-, -, rsp⟩ := inv.suspended next saved known
  rw [rsp, left] at context
  have cs : m.cpu.cs = (s.machine.cpu.regs .rbx).truncate 16 := congrArg Context.cs context
  have ss : m.cpu.ss = s.machine.cpu.rip.truncate 16 := congrArg Context.ss context
  rw [InRing3, leave_machine, cs, ss, CarriesUser]

end MachineRun
end Coolos
