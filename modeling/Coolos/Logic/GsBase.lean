import Coolos.Logic.MachineRun

/-!
# The GS bases over runs of the machine

`syscall_entry` executes `swapgs` once, its return through `sysretq` once more,
`switch_task_from_syscall` and the interrupt code not at all. A system call
leaves through `switch_task_from_syscall` when it terminated its caller.
-/

namespace Coolos

open Lib Lib.X86

namespace Machine

variable {m m' : Machine} {env : Env}

/-! ## One entry -/

theorem atHandler_bases (m : Machine) : m.atHandler.cpu.bases = m.cpu.bases.swap := by
  have entry : ({ m.state with cpu := m.cpu.syscall } : State Sym).cpu.bases = m.cpu.bases := rfl
  rw [atHandler, run_bases, entry]
  generalize m.cpu.bases = bases
  rfl

theorem atExit_bases (k : Kernel) (rax : Word) :
    (m.atExit env k rax).cpu.bases = m.cpu.bases.swap := by
  rw [atExit, run_bases, afterCall_bases, atHandler_bases]
  generalize m.cpu.bases.swap = bases
  rfl

/-- A system call that returns to its caller swaps twice. -/
theorem returned_bases (h : m.syscall env = .returned m') :
    (m.handled env).2 = some 0 ∧ m'.cpu.bases = m.cpu.bases := by
  obtain ⟨k, call, rfl⟩ := of_syscall_returned h
  refine ⟨by rw [call], ?_⟩
  -- the second `swapgs` comes right before `sysretq`
  show (X86.run (m.atExit env k 0) syscallReturn).cpu.bases = m.cpu.bases
  rw [run_bases, atExit_bases]
  generalize m.cpu.bases = bases
  rfl

/-- One that resumes another task swaps once. -/
theorem switched_bases (h : m.syscall env = .switched m') :
    ∃ rax, (m.handled env).2 = some rax ∧ rax ≠ 0 ∧ m'.cpu.bases = m.cpu.bases.swap := by
  obtain ⟨k, rax, nonzero, call, rfl⟩ := of_syscall_switched h
  refine ⟨rax, by rw [call], nonzero, ?_⟩
  -- `isr_restore` has none
  show (X86.run (m.atExit env k rax) switchTaskFromSyscall).cpu.bases = m.cpu.bases.swap
  rw [run_bases, atExit_bases]
  generalize m.cpu.bases = bases
  rfl

/-- An interrupt does not swap. -/
theorem interrupt_keeps_bases {vector : Word} (h : m.interrupt vector env = some m') :
    m'.cpu.bases = m.cpu.bases := by
  unfold interrupt at h
  dsimp only at h
  split at h
  · cases h
  · cases h
    show (run _ (.mov .rsp .rax :: isrRestore)).cpu.bases = m.cpu.bases
    rw [run_bases, afterCall_bases, run_bases, interrupt_bases]
    rfl

end Machine

namespace MachineRun

variable {s s' : MachineRun}

/-- The step is a `SYSCALL_TERMINATE` of a task other than the main one. -/
def TerminatesBySyscall (s : MachineRun) (op : MachineOp) : Prop :=
  (∃ env, op = .syscall env) ∧ s.machine.cpu.regs .rax = syscallTerminate ∧ s.current ≠ 0

/-- The words that `syscall_entry` pushes where `isr_restore` finds CS and SS, the caller's RBX
and its RIP, are the user's selectors in their lower 16 bits. -/
def CarriesUser (s : MachineRun) : Prop :=
  (s.machine.cpu.regs .rbx).truncate 16 = userCodeSel.truncate 16 ∧
    s.machine.cpu.rip.truncate 16 = userDataSel.truncate 16

/-- A `SYSCALL_TERMINATE` of a task other than the main one, of which ring 3 comes back: the
task resumed has not been suspended before, or the caller carries the user's selectors. -/
def ResumesUser (s : MachineRun) (op : MachineOp) : Prop :=
  s.TerminatesBySyscall op ∧ ∀ next saved, s.machine.kernel.sched.successor = some next →
    s.suspended next = some saved → s.CarriesUser

/-- Every active task that is not running has a frame to resume from. -/
def Resumable (s : MachineRun) : Prop :=
  ∃ saved, SchedInv s.machine.kernel.sched saved

theorem leave_machine (m : Machine) : (s.leave m).machine = m := by
  unfold leave
  dsimp only
  split <;> rfl

/-- A call of the scheduler keeps it so. -/
theorem resumable_call {k : Kernel} {saved : Nat → Option SavedAt} (op : SchedOp)
    (inv : SchedInv k.sched saved) (ok : SchedRun.Allowed op)
    (placed : SchedRun.Placed ⟨k, saved⟩ op) :
    ∃ saved', SchedInv (SchedRun.step ⟨k, saved⟩ op).kernel.sched saved' :=
  ⟨_, SchedRun.step_table inv.toTableInv op, SchedRun.step_resumes inv ok placed⟩

theorem interrupt_resumable {m m' : Machine} {vector frame : Word} {env : Env} {k : Kernel}
    (call : m.serviced vector env = (k, some frame)) (run : m.interrupt vector env = some m') :
    m'.kernel.sched = k.sched := by
  obtain ⟨m'', same, -, kernel, -⟩ := Machine.interrupt_some call
  obtain rfl : m'' = m' := Option.some.inj (same.symm.trans run)
  rw [kernel]

theorem keyboard_resumable {k : Kernel} {saved : Nat → Option SavedAt}
    (inv : SchedInv k.sched saved) {frame : Word} (placed : frame ≠ 0) (scancode : BitVec 8) :
    ∃ saved', SchedInv (k.keyboardHandler frame scancode).1.sched saved' := by
  have eoi : SchedInv k.sendEOI.sched saved := inv
  rcases k.keyboardHandler_cases frame scancode with ⟨-, run⟩ | ⟨-, run⟩ | ⟨-, -, g, c, run⟩
  · rw [run]
    exact resumable_call (.switch frame) eoi placed trivial
  · rw [run]
    exact resumable_call (.terminateCurrentTask frame) eoi trivial trivial
  · rw [run]
    exact ⟨saved, inv⟩

theorem syscall_resumable {k : Kernel} {saved : Nat → Option SavedAt} (inv : SchedInv k.sched saved)
    (n a1 a2 a3 a4 a5 : Word) (polls : List NvmeCQEntry) :
    ∃ saved', SchedInv (k.syscallHandler n a1 a2 a3 a4 a5 polls).1.sched saved' := by
  by_cases terminate : n = syscallTerminate
  · subst terminate
    exact resumable_call (.terminateCurrentTask 0) inv trivial trivial
  · obtain ⟨-, same | ⟨pages, fn, base, count, added⟩⟩ :=
      k.syscallHandler_sched terminate a1 a2 a3 a4 a5 polls
    · rw [same]
      exact ⟨saved, inv⟩
    · rw [added]
      exact resumable_call (k := { k with pages := pages }) (.addUserTask fn base count) inv trivial
        trivial

/-- A system call that came back. -/
theorem exit_resumable (before : s.Resumable) {m : Machine} {env : Env}
    (exit : s.machine.syscall env = .returned m ∨ s.machine.syscall env = .switched m) :
    (s.leave m).Resumable := by
  obtain ⟨saved, sched⟩ := before
  obtain ⟨rax, -, -, kernel⟩ := Machine.syscall_exit exit
  obtain ⟨k, -, -, same, -, call⟩ := s.machine.exists_handled env
  have left := syscall_resumable (same ▸ sched) (s.machine.cpu.regs .rax)
    (s.machine.cpu.regs .rdi) (s.machine.cpu.regs .rsi) (s.machine.cpu.regs .rdi)
    (s.machine.cpu.regs .r10) (s.machine.cpu.regs .r8) env.polls
  rw [← call] at left
  rw [Resumable, leave_machine, kernel]
  exact left

theorem step_resumable (inv : MachineInv s) (placed : frameBelow s.machine.rsp0 ≠ 0)
    (before : s.Resumable) {op : MachineOp} (h : s.step op = some s') : s'.Resumable := by
  cases stepped h with
  | user regs rip rflags mem => exact before
  | timer run =>
      obtain ⟨saved, sched⟩ := before
      obtain ⟨k, hk, -, same, -⟩ := s.machine.exists_entered intTimer
      have left := interrupt_resumable (Machine.serviced_timer hk inv.timer) run
      rw [Resumable, leave_machine, left]
      show ∃ saved, SchedInv k.sched saved
      rw [same]
      exact ⟨saved, sched⟩
  | keyboard run =>
      obtain ⟨saved, sched⟩ := before
      obtain ⟨k, hk, -, same, -⟩ := s.machine.exists_entered intKeyboard
      have left := interrupt_resumable (Machine.serviced_keyboard _ hk inv.keyboard) run
      rw [Resumable, leave_machine, left]
      exact keyboard_resumable (same ▸ sched) placed _
  | returned run => exact exit_resumable before (.inl run)
  | switched run => exact exit_resumable before (.inr run)

/-! ## The bases after a step -/

/-- `Syscall_Handler` returns a frame exactly when it terminates its caller. -/
theorem handled_frame_iff (before : s.Resumable) {env : Env} {rax : Word}
    (h : (s.machine.handled env).2 = some rax) :
    rax ≠ 0 ↔ s.TerminatesBySyscall (.syscall env) := by
  obtain ⟨saved, sched⟩ := before
  obtain ⟨k, -, -, same, -, call⟩ := s.machine.exists_handled env
  rw [call] at h
  by_cases terminate : s.machine.cpu.regs .rax = syscallTerminate
  · -- the frame of the task resumed, or 0 in the main task
    rw [terminate] at h
    obtain rfl : (k.terminateCurrentTask 0).2 = rax := Option.some.inj h
    rw [SchedInv.terminate_result (same ▸ sched), same]
    exact ⟨fun other => ⟨⟨env, rfl⟩, terminate, other⟩, fun ⟨_, _, other⟩ => other⟩
  · have zero := k.syscallHandler_returns terminate _ _ _ _ _ _ rax h
    exact iff_of_false (fun some => some zero) fun ⟨_, here, _⟩ => terminate here

/-- A step exchanges the bases exactly when it is a `SYSCALL_TERMINATE` of a task
other than the main one. -/
theorem step_bases (before : s.Resumable) {op : MachineOp} (h : s.step op = some s') :
    (s.TerminatesBySyscall op ∧ s'.machine.cpu.bases = s.machine.cpu.bases.swap) ∨
      (¬ s.TerminatesBySyscall op ∧ s'.machine.cpu.bases = s.machine.cpu.bases) := by
  cases stepped h with
  | user regs rip rflags mem => exact .inr ⟨fun ⟨⟨_, h⟩, _⟩ => (nomatch h), rfl⟩
  | timer run =>
      rw [leave_machine]
      exact .inr ⟨fun ⟨⟨_, h⟩, _⟩ => (nomatch h), Machine.interrupt_keeps_bases run⟩
  | keyboard run =>
      rw [leave_machine]
      exact .inr ⟨fun ⟨⟨_, h⟩, _⟩ => (nomatch h), Machine.interrupt_keeps_bases run⟩
  | returned run =>
      obtain ⟨zero, bases⟩ := Machine.returned_bases run
      rw [leave_machine]
      exact .inr ⟨fun here => (handled_frame_iff before zero).mpr here rfl, bases⟩
  | switched run =>
      obtain ⟨rax, result, frame, bases⟩ := Machine.switched_bases run
      rw [leave_machine]
      exact .inl ⟨(handled_frame_iff before result).mp frame, bases⟩

theorem step_rsp0 (inv : MachineInv s) {op : MachineOp} (h : s.step op = some s') :
    s'.machine.rsp0 = s.machine.rsp0 := by
  obtain ⟨m, rfl, outcome⟩ := step_outcome inv h
  rw [leave_machine]
  rcases outcome with ⟨stays, -⟩ | ⟨next, c, -, handed⟩
  · exact stays.rsp0
  · exact handed.rsp0

end MachineRun
end Coolos
