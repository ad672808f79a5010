import Coolos.Logic.InterruptFlag
import Coolos.Theorems.Contexts

/-!
# The GS bases in ring 3

`swapgs` stands on both ways of a system call that returns to its caller, and on
none of an interrupt's. A system call that terminated its caller resumes the next
task with the bases exchanged.
-/

namespace Coolos.Theorems

open Lib Lib.X86

/-- Runs from the first entry to ring 3 on: `Syscall_Init` has written `cpuData` to
KERNEL_GS_BASE, GS.base is `user`, and `tss.rsp0` is the end of a kernel stack. -/
def gsSys (cpuData user : Word) : TSys MachineRun MachineOp where
  init s := MachineRun.sys.init s ∧ kernelStackSize ≤ s.machine.rsp0.toNat ∧
    s.machine.cpu.kernelGsBase = cpuData ∧ s.machine.cpu.gsBase = user
  next := MachineRun.sys.next

/-- KERNEL_GS_BASE is the address of the `CpuData`, GS.base the user's, and a system
call from here saves the user's RSP in `user_rsp_scratch`. -/
structure GsDiscipline (cpuData user : Word) (s : MachineRun) : Prop where
  kernel : s.machine.cpu.kernelGsBase = cpuData
  user : s.machine.cpu.gsBase = user
  saves : s.machine.onKernelStack.mem.read64 cpuData = s.machine.cpu.regs .rsp

theorem gsDiscipline_iff {cpuData user : Word} {s : MachineRun} :
    GsDiscipline cpuData user s ↔ s.machine.cpu.bases = (user, cpuData) := by
  constructor
  · intro disc
    exact Prod.ext disc.user disc.kernel
  · intro bases
    obtain ⟨hu, hk⟩ := Prod.mk.inj bases
    refine ⟨hk, hu, ?_⟩
    have stored : s.machine.onKernelStack.mem = s.machine.kernel.mem.write64
        (s.machine.cpu.kernelGsBase + 0) (s.machine.cpu.regs .rsp) := rfl
    have place : cpuData + 0 = cpuData := BitVec.add_zero cpuData
    rw [stored, hk, place, Mem.read64_write64]

/-- What holds of the scheduler when ring 3 runs. -/
structure GsInv (s : MachineRun) : Prop where
  machine : MachineInv s
  resumable : s.Resumable
  placed : frameBelow s.machine.rsp0 ≠ 0

theorem gsSys_invariant (cpuData user : Word) : (gsSys cpuData user).Invariant GsInv := by
  refine TSys.Inductive.invariant ⟨?_, ?_⟩
  · intro s start
    obtain ⟨start, stack, -⟩ := start
    refine ⟨MachineRun.invariant s (.init start), ⟨fun _ => none, ?_⟩, ?_⟩
    · rw [start.1]
      exact ⟨tableInv_init, resumes_init⟩
    · intro zero
      simp only [frameBelow, frameSize, loc, kernelStackSize] at zero stack
      bv_omega
  · intro s op s' inv next
    have next : MachineRun.sys.next s op s' := next
    refine ⟨(MachineRun.step_intact inv.machine next.2).1,
      MachineRun.step_resumable inv.machine inv.placed inv.resumable next.2, ?_⟩
    rw [MachineRun.step_rsp0 inv.machine next.2]
    exact inv.placed

/-- The bases are where they belong exactly in the runs in which no task but the main one makes a
`SYSCALL_TERMINATE`; always when the two are the same. -/
theorem gs_discipline_terminates (cpuData user : Word) {steps : List (MachineRun × MachineOp)}
    {s : MachineRun} (run : (gsSys cpuData user).Run steps s) :
    (∀ p ∈ steps, GsDiscipline cpuData user p.1) ∧ GsDiscipline cpuData user s ↔
      user = cpuData ∨ ∀ p ∈ steps, ¬ p.1.TerminatesBySyscall p.2 := by
  induction run with
  | @init s start =>
      have here : GsDiscipline cpuData user s :=
        gsDiscipline_iff.mpr (Prod.ext start.2.2.2 start.2.2.1)
      exact iff_of_true ⟨fun p hp => (nomatch hp), here⟩ (.inr fun p hp => nomatch hp)
  | @step steps s s' op before next ih =>
      have inv := gsSys_invariant cpuData user s before.reachable
      have next : MachineRun.sys.next s op s' := next
      rw [List.forall_mem_cons, List.forall_mem_cons,
        and_comm (a := GsDiscipline cpuData user s), ih]
      -- the bases before the step, when they have been right so far
      have bases : (user = cpuData ∨ ∀ p ∈ steps, ¬ p.1.TerminatesBySyscall p.2) →
          s.machine.cpu.bases = (user, cpuData) := fun h => gsDiscipline_iff.mp (ih.mpr h).2
      rw [gsDiscipline_iff]
      rcases MachineRun.step_bases inv.resumable next.2 with ⟨terminates, after⟩ | ⟨other, after⟩
      · constructor
        · intro right
          obtain ⟨so, now⟩ := right
          rw [after, bases so] at now
          exact .inl (Prod.mk.inj now).2
        · intro right
          rcases right with same | none
          · refine ⟨.inl same, ?_⟩
            rw [after, bases (.inl same), same]
            rfl
          · exact absurd terminates none.1
      · rw [after]
        constructor
        · intro right
          exact right.1.imp_right fun none => ⟨other, none⟩
        · intro right
          have so := right.imp_right And.right
          exact ⟨so, bases so⟩

/-- A `SYSCALL_TERMINATE` that leads to ring 3. -/
theorem resumesUser_of_ring3 {s s' : MachineRun} {op : MachineOp} (inv : GsInv s)
    (terminates : s.TerminatesBySyscall op) (h : s.step op = some s') (ring3 : s'.InRing3) :
    s.ResumesUser op := by
  refine ⟨terminates, fun next saved succ known => ?_⟩
  obtain ⟨⟨env, rfl⟩, -⟩ := id terminates
  cases MachineRun.stepped h with
  | returned run =>
      have zero := (Machine.returned_bases run).1
      exact absurd rfl ((MachineRun.handled_frame_iff inv.resumable zero).mpr terminates)
  | switched run =>
      obtain ⟨-, -, left, next', succ', context⟩ :=
        MachineRun.switched_entry inv.machine inv.resumable run
      obtain rfl := Option.some.inj (succ'.symm.trans succ)
      exact (MachineRun.resumed_ring3 inv.machine known left context).mp ring3

/-- As long as ring 3 comes back, that is so of every one. -/
theorem run_resumesUser {cpuData user : Word} {steps : List (MachineRun × MachineOp)}
    {s : MachineRun} (run : (gsSys cpuData user).Run steps s) (ring3 : s.InRing3) :
    ∀ p ∈ steps, p.1.TerminatesBySyscall p.2 ↔ p.1.ResumesUser p.2 := by
  induction run with
  | init start => exact fun p hp => nomatch hp
  | @step steps s s' op before next ih =>
      have inv := gsSys_invariant cpuData user s before.reachable
      have next : MachineRun.sys.next s op s' := next
      refine List.forall_mem_cons.mpr ⟨⟨fun terminates => ?_, And.left⟩, ih next.1.1⟩
      exact resumesUser_of_ring3 inv terminates next.2 ring3

/-- In every run that has come to ring 3 the bases have been where they belong whenever ring 3
ran, exactly when no `SYSCALL_TERMINATE` of a task other than the main one went on in ring 3;
always when the two bases are the same. -/
theorem gs_discipline_iff (cpuData user : Word) : ∀ steps s, (gsSys cpuData user).Run steps s →
    s.InRing3 →
      ((∀ p ∈ steps, GsDiscipline cpuData user p.1) ∧ GsDiscipline cpuData user s ↔
        user = cpuData ∨ ∀ p ∈ steps, ¬ p.1.ResumesUser p.2) := by
  intro steps s run ring3
  have same := run_resumesUser run ring3
  rw [gs_discipline_terminates cpuData user run]
  refine or_congr_right ⟨fun none p hp resumes => ?_, fun none p hp terminates => ?_⟩
  · exact none p hp ((same p hp).mpr resumes)
  · exact none p hp ((same p hp).mp terminates)

/-! ## A task terminates itself -/

/-- The main task adds a task, which is resumed. -/
theorem switchedTo_run : (gsSys 0x1000 0).Run
    [(execDone, .keyboard capsLock), (execLoaded, .syscall capsLock), (firstEntry, loadExec)]
    switchedTo :=
  .step (.step (.step (.init ⟨⟨rfl, rfl, rfl, fun _ => rfl, rfl⟩, by decide, rfl, rfl⟩)
    ⟨⟨⟨rfl, rfl⟩, fun _ _ => rfl, rfl⟩, rfl⟩)
    ⟨MachineRun.allowed_syscall _ ⟨rfl, rfl⟩ (by decide), step_afterStep (by decide +kernel)⟩)
    ⟨MachineRun.allowed_keyboard _ (by decide +kernel) (by decide +kernel),
      step_afterStep (by decide +kernel)⟩

theorem gs_discipline_switchedTo :
    (∀ p ∈ [(execDone, MachineOp.keyboard capsLock), (execLoaded, .syscall capsLock),
      (firstEntry, loadExec)], GsDiscipline 0x1000 0 p.1) ∧ GsDiscipline 0x1000 0 switchedTo ↔
    (0 : Word) = 0x1000 ∨ ∀ p ∈ [(execDone, MachineOp.keyboard capsLock),
      (execLoaded, .syscall capsLock), (firstEntry, loadExec)], ¬ p.1.ResumesUser p.2 :=
  gs_discipline_iff 0x1000 0 _ _ switchedTo_run (by decide +kernel)

/-- Registers for `SYSCALL_EXEC(0x400000, 1)` once more, right behind the first. -/
def loadSecond : MachineOp :=
  .user (fun r => if r = .rax then 2 else if r = .rdi then 0x400000 else if r = .rsi then 1 else 0)
    0x200020 execDone.machine.cpu.rflags execDone.machine.kernel.mem

def secondLoaded : MachineRun := afterStep execDone loadSecond
def secondAdded : MachineRun := afterStep secondLoaded (.syscall capsLock)
def firstBegun : MachineRun := afterStep secondAdded (.keyboard capsLock)

/-- The first task loads the number of `SYSCALL_TERMINATE`. -/
def loadTerminate : MachineOp :=
  .user (fun r => if r = .rax then 3 else 0) 0x400010 firstBegun.machine.cpu.rflags
    firstBegun.machine.kernel.mem

def terminateLoaded : MachineRun := afterStep firstBegun loadTerminate
def secondBegun : MachineRun := afterStep terminateLoaded (.syscall capsLock)

/-- Of two tasks added the first makes a `SYSCALL_TERMINATE`, and the second begins, in ring 3,
with the address of the `CpuData` in GS.base and 0 in KERNEL_GS_BASE. -/
theorem gs_bases_exchanged : ¬ ∀ cpuData user,
    (gsSys cpuData user).Invariant fun s => s.InRing3 → GsDiscipline cpuData user s := by
  intro claim
  have one : (gsSys 0x1000 0).Reachable execDone := by
    refine .step (e := .syscall capsLock) (.step (e := loadExec)
      (.init ⟨⟨rfl, rfl, rfl, fun _ => rfl, rfl⟩, by decide, rfl, rfl⟩)
      ⟨⟨⟨rfl, rfl⟩, fun _ _ => rfl, rfl⟩, rfl⟩) ⟨?_, step_afterStep (by decide +kernel)⟩
    exact MachineRun.allowed_syscall _ ⟨rfl, rfl⟩ (by decide)
  have two : (gsSys 0x1000 0).Reachable secondAdded := by
    refine .step (e := .syscall capsLock) (.step (e := loadSecond) one
      ⟨⟨by decide +kernel, fun _ _ => rfl, rfl⟩, step_afterStep rfl⟩)
      ⟨?_, step_afterStep (by decide +kernel)⟩
    exact MachineRun.allowed_syscall _ (by decide +kernel) (by decide)
  have begun : (gsSys 0x1000 0).Reachable firstBegun :=
    .step (e := .keyboard capsLock) two
      ⟨MachineRun.allowed_keyboard _ (by decide +kernel) (by decide +kernel),
        step_afterStep (by decide +kernel)⟩
  have reached : (gsSys 0x1000 0).Reachable secondBegun := by
    refine .step (e := .syscall capsLock) (.step (e := loadTerminate) begun
      ⟨⟨by decide +kernel, fun _ _ => rfl, rfl⟩, step_afterStep rfl⟩)
      ⟨?_, step_afterStep (by decide +kernel)⟩
    exact MachineRun.allowed_syscall _ (by decide +kernel) (by decide)
  have disc := claim 0x1000 0 secondBegun reached (by decide +kernel)
  have base : secondBegun.machine.cpu.kernelGsBase = 0 := by decide +kernel
  exact absurd (base.symm.trans disc.kernel) (by decide)

end Coolos.Theorems
