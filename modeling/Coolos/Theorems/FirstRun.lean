import Coolos.Logic.FirstRun
import Coolos.Theorems.InterruptFlag

/-!
# The first run of a task

Whatever happens between the `SYSCALL_EXEC` that adds a task and the key that first moves to it,
the task begins where `SYSCALL_EXEC` was told to, with nothing in its registers.
-/

namespace Coolos.Theorems

open Lib Lib.X86 PageAllocator

/-- Where the tasks that have not run yet come from: each from the `SYSCALL_EXEC` that gave it
its entry, its frame untouched since. -/
structure Origins (steps : List (Instant × MachineOp)) (s : MachineRun) : Prop where
  /-- Tasks are only added. -/
  ran : ∀ p ∈ steps, p.1.run.current < s.machine.kernel.sched.totalTasks
  fresh : ∀ i, s.Fresh i → (∀ p ∈ steps, p.1.run.current ≠ i) ∧
    ∃ p ∈ steps, p.1.run.Execs p.2 i ∧ (s.frameOf i).context = p.1.run.execContext

theorem total_le {s s' : MachineRun} {op : MachineOp} (inv : MachineInv s)
    (h : s.step op = some s') :
    s.machine.kernel.sched.totalTasks ≤ s'.machine.kernel.sched.totalTasks := by
  obtain ⟨m, rfl, outcome⟩ := MachineRun.step_outcome inv h
  rw [MachineRun.leave_machine]
  rcases outcome with ⟨stays, -⟩ | ⟨next, c, -, handed⟩
  · exact stays.total
  · obtain ⟨t, -, sched⟩ := handed.sched
    rw [sched]
    exact le_rfl

theorem Origins.step {steps : List (Instant × MachineOp)} {s s' : MachineRun} {i : Instant}
    {op : MachineOp} (origins : Origins steps s) (here : i.run = s) (inv : s.FlagInv)
    (spares : s.Spares op) (h : s.step op = some s') : Origins ((i, op) :: steps) s' := by
  have grown := total_le inv.machine h
  have low : s.current < s.machine.kernel.sched.totalTasks := inv.machine.table.current
  constructor
  · intro p hp
    rcases List.mem_cons.mp hp with rfl | hp
    · rw [here]
      exact Nat.lt_of_lt_of_le low grown
    · exact Nat.lt_of_lt_of_le (origins.ran p hp) grown
  · intro n fresh
    rcases MachineRun.fresh_step inv spares h fresh with untouched | ⟨execs, context⟩
    · obtain ⟨others, p, hp, execs, context⟩ := origins.fresh n untouched.fresh
      refine ⟨List.forall_mem_cons.mpr ⟨?_, others⟩, p, List.mem_cons_of_mem _ hp, execs, ?_⟩
      · rw [here]
        exact fun same => untouched.fresh.2.1 same.symm
      · rw [MachineRun.frameOf, untouched.frame]
        exact context
    · -- the entry is behind those of all tasks that have run
      have last := execs.2.2
      refine ⟨List.forall_mem_cons.mpr ⟨?_, fun p hp => ?_⟩, (i, op), List.mem_cons_self, ?_, ?_⟩
      · rw [here, last]
        exact Nat.ne_of_lt low
      · rw [last]
        exact Nat.ne_of_lt (origins.ran p hp)
      · rw [here]
        exact execs
      · rw [here]
        exact context

theorem run_origins {steps : List (Instant × MachineOp)} {i : Instant}
    (run : flagSys.Run steps i) (spares : ∀ p ∈ steps, p.1.Spares p.2) :
    Origins steps i.run := by
  induction run with
  | init start =>
      obtain ⟨s, m, entryPoint, userStack, rfl, init, -, -⟩ := start
      refine ⟨fun p hp => (nomatch hp), fun i fresh => ?_⟩
      -- only the main task is there, and it runs
      obtain ⟨active, other, -⟩ := fresh
      obtain ⟨sched, -⟩ := init
      have main : i ≠ 0 := by
        intro zero
        rw [zero, MachineRun.current] at other
        exact other (by show 0 = s.machine.kernel.sched.currentTaskIndex; rw [sched]; rfl)
      have active : (s.machine.kernel.sched.tasks i).active = true := active
      rw [sched, tableInv_init.beyond i (Nat.one_le_iff_ne_zero.mpr main)] at active
      cases active
  | @step steps i i' op before next ih =>
      obtain ⟨here, spared⟩ := List.forall_mem_cons.mp spares
      have inv := run_flagInv before spared
      have origins := ih spared
      have next : Next i op i' := next
      cases next with
      | step allowed other run => exact origins.step rfl inv here run
      | @halt s op allowed halts =>
          have low : s.current < s.machine.kernel.sched.totalTasks := inv.machine.table.current
          refine ⟨List.forall_mem_cons.mpr ⟨low, origins.ran⟩, fun n fresh => ?_⟩
          obtain ⟨others, p, hp, origin⟩ := origins.fresh n fresh
          exact ⟨List.forall_mem_cons.mpr ⟨fresh.2.1.symm, others⟩, p,
            List.mem_cons_of_mem _ hp, origin⟩
      | wake halts run => exact origins.step rfl inv here run

/-- When a step moves to a task that has not been suspended, the task runs for the first time
in the run, and with the registers that one of the `SYSCALL_EXEC`s before was asked for: no other
system call, interrupt or task in between has changed them. -/
theorem first_run_as_asked : ∀ steps i op j, flagSys.Run ((i, op) :: steps) j →
    (∀ p ∈ (i, op) :: steps, p.1.Spares p.2) → j.run.current ≠ i.run.current →
    i.run.suspended j.run.current = none →
      (∀ p ∈ steps, p.1.run.current ≠ j.run.current) ∧
        ∃ p ∈ steps, p.1.run.Execs p.2 j.run.current ∧
          cpuContext j.run.machine.cpu = p.1.run.execContext := by
  intro steps i op j run spares moved first
  cases run with
  | step before next =>
      obtain ⟨-, spared⟩ := List.forall_mem_cons.mp spares
      have inv := run_flagInv before spared
      have origins := run_origins before spared
      have begins {s s' : MachineRun} (inv : s.FlagInv) (origins : Origins steps s)
          (run : s.step op = some s') (moved : s'.current ≠ s.current)
          (first : s.suspended s'.current = none) :
          (∀ p ∈ steps, p.1.run.current ≠ s'.current) ∧
            ∃ p ∈ steps, p.1.run.Execs p.2 s'.current ∧
              cpuContext s'.machine.cpu = p.1.run.execContext := by
        obtain ⟨fresh, context⟩ := MachineRun.step_begins inv run moved first
        obtain ⟨others, p, hp, execs, origin⟩ := origins.fresh _ fresh
        exact ⟨others, p, hp, execs, context.trans origin⟩
      have next : Next i op j := next
      cases next with
      | step allowed other run => exact begins inv origins run moved first
      | halt allowed halts => exact absurd rfl moved
      | wake halts run => exact begins inv origins run moved first

/-! ## `SYSCALL_EXEC`, then CapsLock -/

theorem fewPages_bounded : (8192 : Word).toNat < maxPages := by decide

/-- 32 MB, the first eight pages used by `low`, of the others each eight by `high`. -/
def fewPages (low high : BitVec 8) : PageAllocator :=
  ⟨fun | 0 => low | _ + 1 => high, 8192, fewPages_bounded⟩

/-- Ring 3 is about to be entered, pages 2 and 4 are free. -/
def smallSwitch : Machine where
  cpu :=
    { regs := fun _ => 0, rip := 0, rflags := 0x2
      cs := kernelCodeSel.truncate 16, ss := kernelDataSel.truncate 16
      gsBase := 0, kernelGsBase := 0x1000, star := 0x13000800000000, lstar := 0x210000
      sfmask := 0x200 }
  kernel :=
    { Kernel.statics with
      pages := fewPages 0xEB 0xFF
      sched := Scheduler.zero.init
      handlerTable := fun v =>
        if v = 0x40 then some .timer else if v = 0x21 then some .keyboard else none }
  rsp0 := 0x1001000
  idt := fun _ => 0x210100

theorem smallSwitch_clear {p : Nat} (h : p ∈ smallSwitch.kernel.pages.clearPages) :
    p = 2 ∨ p = 4 := by
  have clear : (fewPages 0xEB 0xFF).Clear p := (Finset.mem_filter.mp h).2
  rw [PageAllocator.Clear, BitTable.testBit] at clear
  have low : p % 8 < 8 := Nat.mod_lt p (by decide)
  have first : ∀ r < 8, (0xEB : BitVec 8).getLsbD r = false → r = 2 ∨ r = 4 := by decide
  have others : ∀ r < 8, (0xFF : BitVec 8).getLsbD r ≠ false := by decide
  cases byte : p / 8 with
  | zero =>
      rw [byte] at clear
      have := first _ low clear
      omega
  | succ i =>
      rw [byte] at clear
      exact absurd clear (others _ low)

theorem prepared_smallSwitch : Prepared smallSwitch := by
  constructor
  · -- `Syscall_Init` took page 1
    refine ⟨{ smallSwitch with kernel.pages := fewPages 0xE9 0xFF }, 0x210000, rfl, ?_, ?_⟩
    · decide +kernel
    · intro p hp
      rcases call : (fewPages 0xE9 0xFF).alloc 1 with ⟨pa, ptr⟩
      have first : ((fewPages 0xE9 0xFF).alloc 1).2 = 0x1000 := by decide +kernel
      rw [call] at first
      obtain rfl : ptr = 0x1000 := first
      obtain ⟨total, bits, -⟩ := alloc_range call (by decide)
      show p ∈ ((fewPages 0xE9 0xFF).alloc 1).1.clearPages
      rw [call, clearPages, Finset.mem_filter, Finset.mem_Ico, total, bits]
      rcases smallSwitch_clear hp with rfl | rfl <;> (unfold InRange; decide)
  · -- the heap is behind page 5
    rcases call : (fewPages 0x2B 0).alloc 4096 with ⟨pa, heap⟩
    have room : (fewPages 0x2B 0).ClearRun 8 (4096 : Word).toNat := by
      refine ⟨by decide, by decide, fun j hj => ?_⟩
      obtain ⟨i, byte⟩ : ∃ i, (8 + j) / 8 = i + 1 := ⟨j / 8, by omega⟩
      rw [PageAllocator.Clear, BitTable.testBit, byte]
      exact BitVec.getLsbD_zero
    have some : heap ≠ 0 := by
      rintro rfl
      rcases (alloc_null call).2 with zero | none
      · exact absurd zero (by decide)
      · exact none ⟨8, room⟩
    obtain ⟨i, -, place, -, run, total, bits⟩ := alloc_success call some
    have size : (4096 : Word).toNat = 4096 := rfl
    have low : 6 ≤ i := by
      by_contra low
      have used (j : Nat) (hj : j < 4096) := run.clear j hj
      have := run.low
      have : i = 1 ∨ i = 2 ∨ i = 3 ∨ i = 4 ∨ i = 5 := by omega
      have one := used 1 (by decide)
      have zero := used 0 (by decide)
      rcases this with rfl | rfl | rfl | rfl | rfl
      · exact absurd zero (by decide)
      · exact absurd one (by decide)
      · exact absurd zero (by decide)
      · exact absurd one (by decide)
      · exact absurd zero (by decide)
    have high : i + 4096 ≤ 8192 := run.high
    refine ⟨_, pa, heap, 0x1000000, call, some, ?_, ?_, rfl, fun p hp => ?_⟩
    · rw [place]
      show i * 4096 ≤ 4096 * 4096
      omega
    · rw [place]
      show 4096 * 4096 + 4096 ≤ i * 4096 + 4096 * 4096
      omega
    · rw [clearPages, Finset.mem_filter, Finset.mem_Ico, total, bits, size]
      rcases smallSwitch_clear hp with rfl | rfl
      · exact ⟨by decide, by decide, by omega⟩
      · exact ⟨by decide, by decide, by omega⟩

/-- Ring 3 is entered. -/
def smallEntered : MachineRun where
  machine := smallSwitch.switchToUserMode 0x200000 0x1003000
  suspended := fun _ => none
  resumed := []

/-- `UserMain` loads the registers for `SYSCALL_EXEC(0x400000, 1)`. -/
def loadTask : MachineOp :=
  .user (fun r => if r = .rax then 2 else if r = .rdi then 0x400000 else if r = .rsi then 1 else 0)
    0x200010 smallEntered.machine.cpu.rflags smallEntered.machine.kernel.mem

def taskLoaded : MachineRun := afterStep smallEntered loadTask
def taskAdded : MachineRun := afterStep taskLoaded (.syscall capsLock)
def taskBegun : MachineRun := afterStep taskAdded (.keyboard capsLock)

theorem smallEntered_start : flagSys.init (.ring3 smallEntered) :=
  ⟨_, smallSwitch, _, _, rfl, ⟨rfl, rfl, rfl, fun _ => rfl, rfl⟩, prepared_smallSwitch, rfl⟩

theorem task_run : flagSys.Run [(.ring3 taskAdded, .keyboard capsLock),
    (.ring3 taskLoaded, .syscall capsLock), (.ring3 smallEntered, loadTask)]
      (.ring3 taskBegun) := by
  have loaded : Next (.ring3 smallEntered) loadTask (.ring3 taskLoaded) :=
    .step ⟨by decide +kernel, fun _ _ => rfl, rfl⟩ (fun ⟨⟨_, same⟩, _⟩ => nomatch same) rfl
  have added : Next (.ring3 taskLoaded) (.syscall capsLock) (.ring3 taskAdded) :=
    .step (MachineRun.allowed_syscall _ (by decide +kernel) (by decide))
      (fun halts => absurd halts.2 (by decide +kernel))
      (step_afterStep (by decide +kernel))
  have begun : Next (.ring3 taskAdded) (.keyboard capsLock) (.ring3 taskBegun) :=
    .step (MachineRun.allowed_keyboard _ (by decide +kernel) (by decide +kernel))
      (fun ⟨⟨_, same⟩, _⟩ => nomatch same) (step_afterStep (by decide +kernel))
  exact .step (.step (.step (.init smallEntered_start) loaded) added) begun

theorem task_spares : ∀ p ∈ [(Instant.ring3 taskAdded, MachineOp.keyboard capsLock),
    (.ring3 taskLoaded, .syscall capsLock), (.ring3 smallEntered, loadTask)], p.1.Spares p.2 := by
  intro p hp
  simp only [List.mem_cons, List.not_mem_nil, or_false] at hp
  rcases hp with rfl | rfl | rfl
  · trivial
  · exact fun named => absurd named (by decide)
  · exact fun i _ j _ => rfl

theorem first_run_capsLock :
    (∀ p ∈ [(Instant.ring3 taskLoaded, MachineOp.syscall capsLock),
      (.ring3 smallEntered, loadTask)], p.1.run.current ≠ taskBegun.current) ∧
    ∃ p ∈ [(Instant.ring3 taskLoaded, MachineOp.syscall capsLock),
      (.ring3 smallEntered, loadTask)], p.1.run.Execs p.2 taskBegun.current ∧
        cpuContext taskBegun.machine.cpu = p.1.run.execContext :=
  first_run_as_asked _ _ _ (.ring3 taskBegun) task_run task_spares (by decide +kernel)
    (by decide +kernel)

end Coolos.Theorems
