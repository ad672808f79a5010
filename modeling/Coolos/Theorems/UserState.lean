import Coolos.Logic.Devices
import Coolos.Theorems.FirstRun
import Coolos.Theorems.KernelMain

/-!
# What user code can rely on

Over runs from the moment `KernelMain` enters ring 3: its privilege, what it finds behind a
system call and behind interrupts, and what the interrupts have counted meanwhile.
-/

namespace Coolos.Theorems

open Lib Lib.X86

/-- Runs that go on from a moment. -/
def runsFrom (i : Instant) : TSys Instant MachineOp where
  init := (· = i)
  next := Next

/-- The moment `KernelMain` enters ring 3. -/
def entered (b : Boot) : Instant := .ring3 ⟨b.machine, fun _ => none, []⟩

/-- From moment to moment either nothing happens but a `SYSCALL_HALT`, or a step is taken. -/
theorem next_cases {i j : Instant} {op : MachineOp} (next : Next i op j) :
    (Halts i.run op ∧ j.run = i.run) ∨ i.run.step op = some j.run := by
  cases next with
  | step allowed other run => exact .inr run
  | halt allowed halts => exact .inl ⟨halts, rfl⟩
  | wake halts run => exact .inr run

/-! ## Runs from `KernelMain` on -/

section Entered

variable {image : Image} {b : Boot} {steps : List (Instant × MachineOp)} {i : Instant}

end Entered

/-! ## Privilege -/

section Boot

variable {image : Image} {args : BootArgs} {env : BootEnv} {cpu : Cpu} {mem : Mem}
  {idt : Word → Word} {b : Boot}

theorem ring3_of_entered {b : Boot} {m : Machine} {entryPoint userStack : Word}
    (machine : b.machine = m.switchToUserMode entryPoint userStack) :
    (entered b).run.InRing3 := by
  obtain ⟨-, cs, ss, -⟩ :=
    switchToUserMode_cpu m entryPoint userStack (congrArg Machine.cpu machine)
  exact ⟨cs, ss⟩

/-- In every run from `KernelMain` on, each interrupt is acknowledged once, each tick is counted
once and the last key typed is remembered, whatever tasks and system calls do in between. -/
theorem interrupts_accounted
    (boot : (Boot.loaded cpu mem idt).kernelMain image args env = some (.ring3 b)) :
    ∀ steps i, (runsFrom (entered b)).Run steps i →
      i.run.machine.kernel.devices =
        steps.foldr (fun p d => d.after p.2) b.machine.kernel.devices := by
  obtain ⟨m, start, ready, -, machine⟩ := Boot.kernelMain_ring3 boot
  have user := userEntered_of_ready ready machine
  intro steps i run
  suffices all : MachineInv i.run ∧ i.run.machine.kernel.devices =
      steps.foldr (fun p d => d.after p.2) b.machine.kernel.devices from all.2
  induction run with
  | init here =>
      obtain rfl : _ = entered b := here
      obtain ⟨s, m, entryPoint, userStack, same, init, -, -⟩ := user.start
      obtain rfl := Instant.ring3.inj same
      exact ⟨MachineRun.invariant _ (.init init), rfl⟩
  | @step steps i j op before next ih =>
      obtain ⟨inv, counted⟩ := ih
      rw [List.foldr_cons, ← counted]
      rcases next_cases next with ⟨⟨⟨e, rfl⟩, -⟩, same⟩ | stepped
      · rw [same]
        exact ⟨inv, rfl⟩
      · exact ⟨(MachineRun.step_intact inv stepped).1, MachineRun.step_devices inv stepped⟩

end Boot

/-! ## Behind a boot -/

/-- A tick right behind the boot. -/
theorem tick_run {image : Image} {b : Boot} (user : UserEntered image b) (e : Env) :
    ∃ s', (runsFrom (entered b)).Run [(entered b, .timer e)] (.ring3 s') := by
  obtain ⟨s, m, entryPoint, userStack, same, init, -, machine⟩ := user.start
  obtain rfl := Instant.ring3.inj same
  have inv := MachineRun.invariant _ (.init init)
  obtain ⟨k, hk, -⟩ := Machine.exists_entered b.machine intTimer
  have serviced : b.machine.serviced intTimer e = _ := Machine.serviced_timer hk inv.timer
  obtain ⟨m', run, -⟩ := Machine.interrupt_some serviced
  refine ⟨MachineRun.leave ⟨b.machine, fun _ => none, []⟩ m', .step (.init rfl)
    (.step ⟨ring3_of_entered machine, switchToUserMode_enabled machine⟩
      (fun ⟨⟨_, other⟩, _⟩ => nomatch other) ?_)⟩
  rw [MachineRun.step, run]
  rfl

theorem interrupts_accounted_booted : ∃ b, ∃ s' : MachineRun,
    booted.kernelMain bootImage bootArgs bootEnv = some (.ring3 b) ∧
      (runsFrom (entered b)).Run [(entered b, .timer capsLock)] (.ring3 s') ∧
      s'.machine.kernel.devices = b.machine.kernel.devices.after (.timer capsLock) := by
  obtain ⟨b, boot⟩ := booted_ring3
  obtain ⟨m, start, ready, -, machine⟩ := Boot.kernelMain_ring3 boot
  obtain ⟨s', run⟩ := tick_run (userEntered_of_ready ready machine) capsLock
  exact ⟨b, s', boot, run, interrupts_accounted boot _ _ run⟩

end Coolos.Theorems
