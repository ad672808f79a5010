import Coolos.Logic.InterruptFlag
import Coolos.Theorems.Contexts

/-!
# Interrupts in ring 3 and at `hlt`

Ring 3 is entered with IF set and keeps it, but for a `SYSCALL_TERMINATE` that resumes
a task from the frame it overwrote. `SYSCALL_HALT` is handled with IF clear: `SYSCALL`
clears the bits of SFMASK, and nothing sets IF again before `hlt`.
-/

namespace Coolos.Theorems

open Lib Lib.X86 PageAllocator

/-! ## Where interrupts are needed -/

/-- The moments of a run: user code runs, or `Syscall_Handler` is at the `hlt` of a
`SYSCALL_HALT` made in `s`. -/
inductive Instant where
  | ring3 (s : MachineRun)
  | hlt (s : MachineRun)

namespace Instant

/-- Interrupts are enabled if ring 3 runs. No instruction of `Syscall_Handler` changes IF, so at
`hlt` it is what `syscall_entry` calls the handler with. -/
def Enabled : Instant → Prop
  | ring3 s => s.InRing3 → s.Enabled
  | hlt s => s.machine.atHandler.cpu.rflags &&& interruptFlag ≠ 0

/-- The state in ring 3, or before the `SYSCALL`. -/
def run : Instant → MachineRun
  | ring3 s => s
  | hlt s => s

end Instant

/-- The step is a `SYSCALL_HALT`. -/
def Halts (s : MachineRun) (op : MachineOp) : Prop :=
  (∃ env, op = .syscall env) ∧ s.machine.cpu.regs .rax = syscallHalt

/-- From moment to moment. Whatever ends the `hlt`, the call goes on. -/
inductive Next : Instant → MachineOp → Instant → Prop
  | step {s s' : MachineRun} {op : MachineOp} :
      s.Allowed op → ¬ Halts s op → s.step op = some s' → Next (.ring3 s) op (.ring3 s')
  | halt {s : MachineRun} {op : MachineOp} :
      s.Allowed op → Halts s op → Next (.ring3 s) op (.hlt s)
  | wake {s s' : MachineRun} {op : MachineOp} :
      Halts s op → s.step op = some s' → Next (.hlt s) op (.ring3 s')

/-- What `KernelMain` has set up when it calls `SwitchToUserMode`: `Syscall_Init` was
called, and the kernel stack is a block of the heap. -/
structure Prepared (m : Machine) : Prop where
  syscallInit : ∃ (m₀ : Machine) (entry : Word),
    m.cpu.sfmask = (m₀.syscallInit entry).cpu.sfmask ∧
    m.cpu.kernelGsBase = (m₀.syscallInit entry).cpu.kernelGsBase ∧
    m.kernel.pages.clearPages ⊆ (m₀.syscallInit entry).kernel.pages.clearPages
  kernelStack : ∃ (pa pa' : PageAllocator) (heap stack : Word),
    pa.alloc 4096 = (pa', heap) ∧ heap ≠ 0 ∧ heap.toNat ≤ stack.toNat ∧
    stack.toNat + kernelStackSize ≤ heap.toNat + 4096 * 4096 ∧
    m.rsp0 = stack + BitVec.ofNat 64 kernelStackSize ∧
    m.kernel.pages.clearPages ⊆ pa'.clearPages

/-- Runs from `SwitchToUserMode` on. -/
def flagSys : TSys Instant MachineOp where
  init i := ∃ s m entryPoint userStack, i = .ring3 s ∧ MachineRun.sys.init s ∧ Prepared m ∧
    s.machine = m.switchToUserMode entryPoint userStack
  next := Next

/-! ## The start -/

section Start

variable {m : Machine}

/-- IF is set in the frame that `iretq` pops. -/
theorem switchToUserMode_rflags (m : Machine) (entryPoint userStack : Word) :
    (m.switchToUserMode entryPoint userStack).cpu.rflags = m.cpu.rflags ||| 0x200 := by
  obtain ⟨s, hs⟩ : ∃ s : State Sym, s = ({ m.state with cpu := { m.cpu with gsBase := 0 } } :
    State Sym).pushWords [userDataSel, userStack] := ⟨_, rfl⟩
  have flags : s.cpu.rflags = m.cpu.rflags := by
    rw [hs]
    rfl
  have popped : (s.pushWords [s.cpu.rflags]).stackWord 0 = m.cpu.rflags :=
    (stackWord_pushWords (by show 8 * 1 ≤ 2 ^ 64; decide) rfl).trans flags
  -- `popq %rax`, `orq $0x200, %rax`
  obtain ⟨p, hp⟩ : ∃ p : State Sym, p = (Instr.exec (s.pushWords [s.cpu.rflags]) (.pop .rax)).setReg
    .rax ((Instr.exec (s.pushWords [s.cpu.rflags]) (.pop .rax)).cpu.regs .rax ||| 0x200) := ⟨_, rfl⟩
  have raised : p.cpu.regs .rax = m.cpu.rflags ||| 0x200 := by
    rw [hp, State.setReg, setReg_self, Instr.exec, State.setReg, setReg_self, popped]
  have last : (m.switchToUserMode entryPoint userStack).cpu.rflags =
      (p.pushWords [p.cpu.regs .rax, userCodeSel, entryPoint]).stackWord 2 := by
    rw [hp, hs]
    rfl
  rw [last, ← raised]
  exact stackWord_pushWords (by show 8 * 3 ≤ 2 ^ 64; decide) rfl

theorem switchToUserMode_enabled {s : MachineRun} {entryPoint userStack : Word}
    (entered : s.machine = m.switchToUserMode entryPoint userStack) : s.Enabled := by
  have set : (0x200 : Word) &&& interruptFlag ≠ 0 := by decide
  rw [MachineRun.Enabled, entered, switchToUserMode_rflags, BitVec.and_comm,
    BitVec.and_or_distrib_left]
  intro clear
  exact set (by rw [BitVec.and_comm]; exact (BitVec.or_eq_zero_iff.mp clear).2)

/-- The page of `cpu_data` is taken; without one there was none to take. -/
theorem Prepared.cell (prepared : Prepared m) {a : Word}
    (near : (a - m.cpu.kernelGsBase).toNat < 8) :
    Paging.page a ∉ m.kernel.pages.clearPages := by
  obtain ⟨m₀, entry, -, base, left⟩ := prepared.syscallInit
  refine fun mem => absurd (left mem) ?_
  show Paging.page a ∉ (m₀.kernel.pages.alloc 1).1.clearPages
  have base : m.cpu.kernelGsBase = if (m₀.kernel.pages.alloc 1).2 ≠ 0 then
    (m₀.kernel.pages.alloc 1).2 else m₀.cpu.kernelGsBase := base
  rcases call : m₀.kernel.pages.alloc 1 with ⟨pa, cpuData⟩
  rw [call] at base
  intro clear
  by_cases null : cpuData = 0
  · subst null
    obtain ⟨rfl, -⟩ := alloc_null call
    have none : ¬ (m₀.kernel.pages.alloc 1).2 ≠ 0 := by
      rw [call]
      exact fun some => some rfl
    rw [alloc_one_ne_zero_iff] at none
    exact none (Finset.card_pos.mpr ⟨_, clear⟩)
  · rw [if_pos null] at base
    obtain ⟨i, -, place, -, run, -, bits⟩ := alloc_success call null
    have high := run.high
    have bound := pa.bounded
    have bound' := m₀.kernel.pages.bounded
    have small : maxPages = 1048576 := rfl
    have one : (1 : Word).toNat = 1 := rfl
    have here : Paging.page a = i := by
      rw [Paging.page]
      rw [base] at near
      bv_omega
    obtain ⟨-, clear⟩ := Finset.mem_filter.mp clear
    rw [here] at clear
    exact ((bits i).mp clear).2 ⟨le_rfl, by omega⟩

/-- The pages of the kernel stack are the heap's, and the one below the heap was not
clear: the heap would begin there. -/
theorem Prepared.stack (prepared : Prepared m) : frameBelow m.rsp0 ≠ 0 ∧
    ∀ a, (m.rsp0 - 1 - a).toNat < 2 * kernelStackSize →
      Paging.page a ∉ m.kernel.pages.clearPages := by
  obtain ⟨pa, pa', heap, stack, call, some, low, high, rsp0, left⟩ := prepared.kernelStack
  obtain ⟨i, -, place, -, run, -, bits⟩ := alloc_success call some
  have size : (4096 : Word).toNat = 4096 := rfl
  have first := run.low
  have last := run.high
  have bound := pa.bounded
  have small : maxPages = 1048576 := rfl
  rw [size] at last
  have top : m.rsp0.toNat = stack.toNat + 4096 := by
    rw [rsp0, kernelStackSize]
    simp only [kernelStackSize] at high
    bv_omega
  simp only [kernelStackSize] at high ⊢
  constructor
  · intro zero
    simp only [frameBelow, frameSize, loc] at zero
    bv_omega
  · intro a near mem
    obtain ⟨range, clear⟩ := Finset.mem_filter.mp (left mem)
    obtain ⟨clear, outside⟩ := (bits _).mp clear
    have bottom := (Finset.mem_Ico.mp range).1
    have place' : i ≤ Paging.page a + 1 ∧ Paging.page a < i + 4096 := by
      rw [Paging.page]
      bv_omega
    rw [size] at outside
    have below : Paging.page a + 1 = i := by omega
    have longer : pa.ClearRun (Paging.page a) (4096 : Word).toNat := by
      refine ⟨bottom, by omega, fun j hj => ?_⟩
      cases j with
      | zero => exact clear
      | succ j =>
          rw [show Paging.page a + (j + 1) = i + j by omega]
          exact run.clear j (Nat.lt_of_succ_lt hj)
    have := alloc_lowest call some place longer
    omega

/-- `SwitchToUserMode` changes neither pages nor where the entries write, but for the
base of GS. -/
theorem switchToUserMode_keeps (m : Machine) (entryPoint userStack : Word) :
    let m' := m.switchToUserMode entryPoint userStack
    m'.rsp0 = m.rsp0 ∧ m'.kernel.pages = m.kernel.pages ∧ m'.cpu.gsBase = 0 ∧
      m'.cpu.kernelGsBase = m.cpu.kernelGsBase ∧ m'.cpu.sfmask = m.cpu.sfmask :=
  ⟨rfl, rfl, rfl, rfl, rfl⟩

theorem stackBase_init (i : Nat) : (Scheduler.zero.init.tasks i).stackBase = 0 := by
  unfold Scheduler.init
  dsimp only
  split
  · rfl
  split <;> rfl

theorem flagInv_start {s : MachineRun} {entryPoint userStack : Word}
    (init : MachineRun.sys.init s) (prepared : Prepared m)
    (entered : s.machine = m.switchToUserMode entryPoint userStack) : s.FlagInv := by
  obtain ⟨rsp0, pages, user, kernel, sfmask⟩ := switchToUserMode_keeps m entryPoint userStack
  rw [← entered] at rsp0 pages user kernel sfmask
  obtain ⟨placed, stack⟩ := prepared.stack
  have machine := MachineRun.invariant s (.init init)
  have sched := init.1
  refine ⟨machine, ⟨fun _ => none, ?_⟩, by rw [rsp0]; exact placed, ?_, ?_, ?_⟩
  · rw [sched]
    exact ⟨tableInv_init, resumes_init⟩
  · obtain ⟨m₀, entry, same, -⟩ := prepared.syscallInit
    rw [sfmask, same]
    rfl
  · intro a near
    refine ⟨?_, ?_⟩
    · rw [pages]
      intro clear
      refine near ⟨?_, ?_, ?_⟩
      · by_contra high
        rw [rsp0] at high
        exact stack a (Nat.not_le.mp high) clear
      · -- page 0 is never handed out
        by_contra low
        rw [user] at low
        have bottom := (Finset.mem_Ico.mp (Finset.mem_filter.mp clear).1).1
        rw [Paging.page] at bottom
        bv_omega
      · by_contra cell
        rw [kernel] at cell
        exact prepared.cell (Nat.not_le.mp cell) clear
    · rintro ⟨i, some, -⟩
      rw [sched] at some
      exact some (stackBase_init i)
  · refine ⟨fun _ => none, ⟨s.machine.kernel.pages, [], ?_⟩, ?_⟩
    · exact StackRun.invariant _ (.init ⟨sched, rfl, fun _ => rfl, rfl⟩)
    · rintro i ⟨active, other, -⟩
      -- only the main task is there, and it runs
      rw [MachineRun.current, sched] at other
      rw [sched, tableInv_init.beyond i (Nat.one_le_iff_ne_zero.mpr other)] at active
      cases active

end Start

/-! ## Over runs -/

namespace Instant

/-- User code leaves the frames of tasks that have not run yet alone, and has nothing read onto
the kernel stack. -/
def Spares (i : Instant) (op : MachineOp) : Prop := i.run.Spares op

end Instant

theorem run_flagInv {steps : List (Instant × MachineOp)} {i : Instant}
    (run : flagSys.Run steps i) (spares : ∀ p ∈ steps, p.1.Spares p.2) : i.run.FlagInv := by
  induction run with
  | init start =>
      obtain ⟨s, m, entryPoint, userStack, rfl, init, prepared, entered⟩ := start
      exact flagInv_start init prepared entered
  | step before next ih =>
      obtain ⟨here, spares⟩ := List.forall_mem_cons.mp spares
      have inv := ih spares
      have next : Next _ _ _ := next
      cases next with
      | step allowed other run => exact inv.step here run
      | halt allowed halts => exact inv
      | wake halts run => exact inv.step here run

/-- 32 MB of memory, nothing used. -/
def freePages : PageAllocator := ⟨fun _ => 0, 8192, by decide⟩

/-- The machine `KernelMain` is called in. -/
def fromFirmware : Machine where
  cpu :=
    { regs := fun _ => 0, rip := 0, rflags := 0x2
      cs := kernelCodeSel.truncate 16, ss := kernelDataSel.truncate 16
      gsBase := 0, kernelGsBase := 0, star := 0, lstar := 0, sfmask := 0 }
  kernel := { Kernel.statics with pages := freePages }
  rsp0 := 0
  idt := fun _ => 0x210100

end Coolos.Theorems
