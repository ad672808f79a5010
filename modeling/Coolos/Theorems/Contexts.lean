import Coolos.Logic.MachineRun

/-!
# Saved contexts over whole runs

There is one `tss.rsp0` for all tasks. The entry that resumes a suspended task
starts where the entry that suspended it started, so the frame the task resumes
from holds the context of the task that was running instead.
-/

namespace Coolos.Theorems

open Lib Lib.X86

/-- In every run, the contexts of the tasks resumed are intact exactly when each step
that resumed one entered the kernel with that very context. -/
theorem contexts_survive_iff {steps : List (MachineRun × MachineOp)} {s : MachineRun}
    (run : MachineRun.sys.Run steps s) :
    s.Intact ↔ ∀ p ∈ steps, MachineRun.Coincides p.1 p.2 := by
  induction run with
  | @init s h =>
      obtain ⟨-, -, -, -, none⟩ := h
      simp [MachineRun.Intact, none]
  | step before next ih =>
      have inv := MachineRun.invariant _ before.reachable
      rw [(MachineRun.step_intact inv next.2).2, ih, List.forall_mem_cons, and_comm]

/-! ## Two presses of CapsLock -/

/-- Ring 3 right after boot: thirty-two pages, the first two used, the kernel stack
elsewhere. -/
def firstEntry : MachineRun where
  machine :=
    { cpu :=
        { regs := fun _ => 0, rip := 0x200000, rflags := 0x202
          cs := userCodeSel.truncate 16, ss := userDataSel.truncate 16
          gsBase := 0, kernelGsBase := 0x1000, star := 0x13000800000000, lstar := 0x210000
          sfmask := 0x200 }
      kernel :=
        { Kernel.statics with
          pages := ⟨fun i => if i = 0 then 3 else 0, 32, by decide⟩
          sched := Scheduler.zero.init
          handlerTable := fun v =>
            if v = 0x40 then some .timer else if v = 0x21 then some .keyboard else none }
      rsp0 := 0x21000
      idt := fun _ => 0x210100 }
  suspended := fun _ => none
  resumed := []

/-- CapsLock is pressed; compiled code leaves zeros behind. -/
def capsLock : Env := ⟨⟨fun _ => 0, fun _ => 0⟩, [], 0x3A, 0⟩

/-- User code loads the registers for `SYSCALL_EXEC(0x400000, 1)`. -/
def loadExec : MachineOp :=
  .user (fun r => if r = .rax then 2 else if r = .rdi then 0x400000 else if r = .rsi then 1 else 0)
    0x200010 0x202 fun _ => 0

/-- The state after a step there is. -/
def afterStep (s : MachineRun) (op : MachineOp) : MachineRun := (s.step op).getD s

theorem step_afterStep {s : MachineRun} {op : MachineOp} (h : (s.step op).isSome = true) :
    s.step op = some (afterStep s op) := by
  obtain ⟨s', h⟩ := Option.isSome_iff_exists.mp h
  rw [afterStep, h, Option.getD_some]

def execLoaded : MachineRun := afterStep firstEntry loadExec
def execDone : MachineRun := afterStep execLoaded (.syscall capsLock)
def switchedTo : MachineRun := afterStep execDone (.keyboard capsLock)
def switchedBack : MachineRun := afterStep switchedTo (.keyboard capsLock)

/-- The main task adds a task, is suspended for it and is resumed. -/
theorem capsLock_run : MachineRun.sys.Run
    [(switchedTo, .keyboard capsLock), (execDone, .keyboard capsLock),
      (execLoaded, .syscall capsLock), (firstEntry, loadExec)] switchedBack :=
  .step (.step (.step (.step (.init ⟨rfl, rfl, rfl, fun _ => rfl, rfl⟩)
    ⟨⟨⟨rfl, rfl⟩, fun _ _ => rfl, rfl⟩, rfl⟩)
    ⟨MachineRun.allowed_syscall _ ⟨rfl, rfl⟩ (by decide), step_afterStep (by decide +kernel)⟩)
    ⟨MachineRun.allowed_keyboard _ (by decide +kernel) (by decide +kernel),
      step_afterStep (by decide +kernel)⟩)
    ⟨MachineRun.allowed_keyboard _ (by decide +kernel) (by decide +kernel),
      step_afterStep (by decide +kernel)⟩

theorem contexts_survive_capsLock :
    switchedBack.Intact ↔ ∀ p ∈ [(switchedTo, MachineOp.keyboard capsLock),
      (execDone, .keyboard capsLock), (execLoaded, .syscall capsLock), (firstEntry, loadExec)],
        MachineRun.Coincides p.1 p.2 :=
  contexts_survive_iff capsLock_run

/-- The main task was suspended at 0x200010 and resumes at 0x400000, where the other
task was interrupted. -/
theorem contexts_overwritten : ¬ MachineRun.sys.Invariant MachineRun.Intact := by
  intro claim
  have intact := claim _ capsLock_run.reachable
  have places : switchedBack.resumed.map (fun p => (p.1.rip, p.2.rip)) =
      [(0x200010, 0x400000)] := by
    decide +kernel
  have same : ∀ q ∈ switchedBack.resumed.map (fun p => (p.1.rip, p.2.rip)), q.2 = q.1 := by
    intro q hq
    obtain ⟨p, hp, rfl⟩ := List.mem_map.mp hq
    exact congrArg Context.rip (intact p hp)
  rw [places] at same
  exact absurd (same _ List.mem_cons_self) (by decide)

end Coolos.Theorems
