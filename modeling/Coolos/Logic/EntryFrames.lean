import Coolos.Kernel.UserMode
import Coolos.Logic.GsBase
import Coolos.Logic.MappedRun

/-!
# What the entries leave alone

Every entry runs on the one stack below `tss.rsp0`, and `syscall_entry` stores the
user's RSP through GS. Nothing else is written but the frame of a task that
`SYSCALL_EXEC` adds, so a frame stays as it was built until its task runs for the
first time.
-/

namespace Coolos

open Lib Lib.X86 PageAllocator

namespace Machine

variable {m m' : Machine} {env : Env} {k : Kernel} {a : Word}

/-- The address is away from the stack the entries run on and from what GS points
at. Compiled code goes no deeper than the page below that stack. -/
structure Away (m : Machine) (a : Word) : Prop where
  stack : 2 * kernelStackSize ≤ (m.rsp0 - 1 - a).toNat
  user : 8 ≤ (a - m.cpu.gsBase).toNat
  kernel : 8 ≤ (a - m.cpu.kernelGsBase).toNat

/-- It depends on nothing that an entry changes. -/
theorem Away.congr (h : m.Away a) (rsp0 : m'.rsp0 = m.rsp0)
    (bases : m'.cpu.bases = m.cpu.bases ∨ m'.cpu.bases = m.cpu.bases.swap) : m'.Away a := by
  rcases bases with same | swapped
  · obtain ⟨user, kernel⟩ := Prod.mk.inj same
    exact ⟨rsp0 ▸ h.stack, user ▸ h.user, kernel ▸ h.kernel⟩
  · obtain ⟨user, kernel⟩ := Prod.mk.inj swapped
    exact ⟨rsp0 ▸ h.stack, user ▸ h.kernel, kernel ▸ h.user⟩

/-! ## Interrupts -/

theorem entered_apply (vector : Word) (h : m.Away a) :
    (m.entered vector).mem a = m.kernel.mem a := by
  have deep := h.stack
  rw [entered_mem]
  apply Mem.pushAll_apply
  show 8 * 22 ≤ _
  simp only [kernelStackSize] at deep
  omega

theorem away_not_inCallee (h : m.Away a) :
    ¬ InCallee ((frameBelow m.rsp0 &&& ~~~0xF) - 32) 32 kernelStackSize a := by
  have deep := h.stack
  have mask := toNat_and_not_mask (x := frameBelow m.rsp0) (a := 0x10) (k := 4) (by decide)
    (by decide)
  have mask : (frameBelow m.rsp0 &&& ~~~0xF).toNat = (frameBelow m.rsp0).toNat / 16 * 16 := mask
  have place : frameBelow m.rsp0 = m.rsp0 - 176 := rfl
  simp only [InCallee, kernelStackSize, loc] at deep ⊢
  generalize frameBelow m.rsp0 &&& ~~~0xF = f at mask
  rw [place] at mask
  bv_omega

/-- An interrupt resumes the frame its handler returned; what the handler left of the
kernel is there, and memory away from the stack. -/
theorem interrupt_resumes {vector frame : Word} (call : m.serviced vector env = (k, some frame))
    (h : m.interrupt vector env = some m') :
    cpuContext m'.cpu = (InterruptFrame.read m'.kernel.mem frame).context ∧
      m'.kernel.pages = k.pages ∧ m'.kernel.sched = k.sched ∧
        ∀ a, m.Away a → m'.kernel.mem a = k.mem a := by
  obtain ⟨m'', run, -, kernel, context⟩ := interrupt_some call
  obtain rfl : m'' = m' := Option.some.inj (run.symm.trans h)
  refine ⟨context, by rw [kernel], by rw [kernel], ?_⟩
  intro a away
  rw [kernel]
  exact if_neg (away_not_inCallee away)

theorem interrupt_keeps_sfmask {vector : Word} (h : m.interrupt vector env = some m') :
    m'.cpu.sfmask = m.cpu.sfmask := by
  unfold interrupt at h
  dsimp only at h
  split at h
  · cases h
  · cases h
    show (run _ (.mov .rsp .rax :: isrRestore)).cpu.sfmask = m.cpu.sfmask
    rw [run_sfmask, afterCall_sfmask, run_sfmask, interrupt_sfmask]
    rfl

/-! ## System calls -/

theorem atHandler_apply (h : m.Away a) : m.atHandler.mem a = m.kernel.mem a := by
  have deep := h.stack
  have cell := h.kernel
  have stored : m.onKernelStack.mem = m.kernel.mem.write64 (m.cpu.kernelGsBase + 0)
      (m.cpu.regs .rsp) := rfl
  have place : m.cpu.kernelGsBase + 0 = m.cpu.kernelGsBase := BitVec.add_zero _
  simp only [kernelStackSize] at deep
  rw [atHandler_mem, Mem.write64_apply (by bv_omega), Mem.write64_apply (by bv_omega),
    Mem.pushAll_apply _ (by show 8 * 8 ≤ _; omega), stored, place,
    Mem.write64_apply cell]

theorem atExit_apply (h : m.Away a) (rax : Word) : (m.atExit env k rax).mem a = k.mem a := by
  have deep := h.stack
  rw [atExit_mem]
  apply if_neg
  simp only [InCallee, kernelStackSize, loc] at deep ⊢
  bv_omega

end Machine

/-! ## Tasks and their stacks -/

/-- The tasks have the stacks of `given`. -/
def Stacked (given : Nat → Option TaskStacks) (k : Kernel) : Prop :=
  ∃ atInit freed, StackInv ⟨k, atInit, given, freed⟩

namespace Stacked

variable {given : Nat → Option TaskStacks} {k k' : Kernel}

theorem same (h : Stacked given k) (pages : k'.pages = k.pages) (sched : k'.sched = k.sched) :
    Stacked given k' := by
  obtain ⟨atInit, freed, inv⟩ := h
  refine ⟨atInit, freed, inv.keep ?_ rfl rfl ?_ ?_ ?_⟩
  · show TableInv k'.sched
    rw [sched]
    exact inv.table
  · show k.sched.totalTasks ≤ k'.sched.totalTasks
    rw [sched]
  · intro i
    show SameStack (k.sched.tasks i) (k'.sched.tasks i)
    rw [sched]
    exact ⟨rfl, rfl, rfl⟩
  · intro p clear
    have clear : k'.pages.Clear p := clear
    rwa [pages] at clear

theorem switch (h : Stacked given k) (frame : Word) : Stacked given (k.switch frame).1 := by
  obtain ⟨atInit, freed, inv⟩ := h
  exact ⟨atInit, freed, inv.switch frame⟩

theorem terminate (h : Stacked given k) (frame : Word) :
    Stacked given (k.terminateCurrentTask frame).1 := by
  obtain ⟨atInit, freed, inv⟩ := h
  exact ⟨atInit, _, inv.terminate frame⟩

/-- The pages of an active task are not clear. -/
theorem used (h : Stacked given k) {i : Nat} {t : TaskStacks} (active : (k.sched.tasks i).active)
    (mine : given i = some t) {r : Stack} {p : Nat} (here : InRange (t.range r) p) :
    ¬ k.pages.Clear p := by
  obtain ⟨atInit, freed, inv⟩ := h
  exact inv.used (i, r) p ⟨active, t, mine, here⟩

end Stacked

/-- No task is added, and memory stays. -/
structure Quiet (k k' : Kernel) : Prop where
  mem : k'.mem = k.mem
  active : ∀ i, (k'.sched.tasks i).active = true → (k.sched.tasks i).active = true
  stacked : ∀ given, Stacked given k → Stacked given k'

namespace Quiet

variable {k k' k'' : Kernel}

theorem same (mem : k'.mem = k.mem) (pages : k'.pages = k.pages) (sched : k'.sched = k.sched) :
    Quiet k k' :=
  ⟨mem, fun i active => by rwa [sched] at active, fun _ h => h.same pages sched⟩

theorem trans (h : Quiet k k') (h' : Quiet k' k'') : Quiet k k'' :=
  ⟨h'.mem.trans h.mem, fun i active => h.active i (h'.active i active),
    fun given stacked => h'.stacked given (h.stacked given stacked)⟩

theorem switch (k : Kernel) (frame : Word) : Quiet k (k.switch frame).1 := by
  refine ⟨?_, ?_, fun _ h => h.switch frame⟩
  · obtain ⟨g, sched, run⟩ := k.switch_touches frame
    rw [run]
  · intro i active
    rcases k.switch_cases frame with ⟨next, g, -, run⟩ | ⟨-, g, run⟩
    · rw [run] at active
      rw [← (k.sched.sameStack_setTask_rsp frame i).1]
      exact active
    · rw [run] at active
      exact active

theorem terminate (k : Kernel) (frame : Word) : Quiet k (k.terminateCurrentTask frame).1 := by
  refine ⟨?_, ?_, fun _ h => h.terminate frame⟩
  · obtain ⟨g, pages, sched, run⟩ := k.terminateCurrentTask_touches frame
    rw [run]
  · intro i active
    by_cases main : k.sched.currentTaskIndex = 0
    · obtain ⟨g, run⟩ := k.terminate_main frame main
      rw [run] at active
      exact active
    · obtain ⟨g, run⟩ := k.terminate_other frame main
      rw [run] at active
      have active : ((k.sched.setTask k.sched.currentTaskIndex
        (Kernel.retire (k.sched.tasks k.sched.currentTaskIndex))).tasks i).active = true := active
      rwa [(Kernel.active_retired active).2] at active

/-- Every key. -/
theorem keyboard (k : Kernel) (frame : Word) (scancode : BitVec 8) :
    Quiet k (k.keyboardHandler frame scancode).1 := by
  have eoi : Quiet k k.sendEOI := .same rfl rfl rfl
  rcases k.keyboardHandler_cases frame scancode with ⟨-, run⟩ | ⟨-, run⟩ | ⟨-, -, g, c, run⟩
  · rw [run]
    exact eoi.trans (.switch _ frame)
  · rw [run]
    exact eoi.trans (.terminate _ frame)
  · rw [run]
    exact .same rfl rfl rfl

/-- Every system call but `SYSCALL_EXEC`. -/
theorem syscall (k : Kernel) {n : Word} (other : n ≠ syscallExec) (a1 a2 a3 a4 a5 : Word)
    (polls : List NvmeCQEntry) : Quiet k (k.syscallHandler n a1 a2 a3 a4 a5 polls).1 := by
  have mem := k.syscallHandler_mem other a1 a2 a3 a4 a5 polls
  have dispatched := k.syscallHandler_dispatched n a1 a2 a3 a4 a5 polls
  generalize k.syscallHandler n a1 a2 a3 a4 a5 polls = result at dispatched mem
  cases dispatched with
  | drawn frame console zero => exact .same mem frame.pages frame.sched
  | execs named => exact absurd named other
  | terminates named => exact .terminate k 0
  | transfers named zero => exact .same mem rfl rfl
  | heap named zero => exact .same mem rfl rfl

/-- And that one, when it adds no task. -/
theorem exec {k : Kernel} {pages : Word} (fn : Word) (none : k.execAllocates pages = none) :
    Quiet k (k.execCase fn pages).1 := by
  obtain ⟨pa, total, run, -, -⟩ := exec_fails fn none
  refine ⟨by rw [run], fun i active => by rw [run] at active; exact active, ?_⟩
  rintro given ⟨atInit, freed, inv⟩
  have after := inv.exec fn pages
  simp only [StackRun.step, none] at after
  exact ⟨atInit, freed, after⟩

end Quiet

/-- What `SYSCALL_EXEC` takes for a task could be handed out. -/
theorem execAllocates_clear {k : Kernel} {pages : Word} {t : TaskStacks}
    (h : k.execAllocates pages = some t) {r : Stack} {p : Nat} (here : InRange (t.range r) p) :
    p ∈ k.pages.clearPages := by
  have taken := exec_adds 0 h
  have clear := taken.fresh r p here
  have gone : ¬ (k.execCase 0 pages).1.pages.Clear p :=
    fun clear => ((taken.clear p).mp clear).2 r here
  have range := (k.execCase_step 0 pages).taken p clear gone
  exact Finset.mem_filter.mpr ⟨Finset.mem_Ico.mpr range, clear⟩

/-! ## Tasks that have not run yet -/

/-- Task `i` starts from the frame it was created with, in the page of its kernel
stack. -/
structure Starts (k : Kernel) (given : Nat → Option TaskStacks) (i : Nat) (t : TaskStacks) :
    Prop where
  given : given i = some t
  rsp : (k.sched.tasks i).rsp = frameBelow (t.kstack + 4096)
  aligned : t.kstack.toNat % 4096 = 0
  inside : t.kstack.toNat / 4096 + 1 ≤ maxPages
  flags : (InterruptFrame.read k.mem (frameBelow (t.kstack + 4096))).rflags = 0x202

namespace Starts

variable {k k' : Kernel} {given given' : Nat → Option TaskStacks} {i : Nat} {t : TaskStacks}

/-- The frame stands in one page. -/
theorem page_frame (kstack : Word) (aligned : kstack.toNat % 4096 = 0)
    (inside : kstack.toNat / 4096 + 1 ≤ maxPages) {j : Nat} (hj : j < frameSize) :
    Paging.page (frameBelow (kstack + 4096) + loc j) = kstack.toNat / 4096 := by
  have small : maxPages = 1048576 := rfl
  have size : frameSize = 176 := rfl
  rw [Paging.page, frameBelow]
  simp only [loc, size] at hj ⊢
  bv_omega

/-- Nobody writes to the frame. -/
theorem keep (h : Starts k given i t) (same : given' i = given i)
    (rsp : (k'.sched.tasks i).rsp = (k.sched.tasks i).rsp)
    (mem : ∀ j < frameSize, k'.mem (frameBelow (t.kstack + 4096) + loc j) =
      k.mem (frameBelow (t.kstack + 4096) + loc j)) : Starts k' given' i t where
  given := same.trans h.given
  rsp := rsp.trans h.rsp
  aligned := h.aligned
  inside := h.inside
  flags := by
    rw [InterruptFrame.read_congr mem]
    exact h.flags

/-- A task that was just added. -/
theorem added {fn pages : Word} (adds : ExecAdds k k' fn pages t) :
    Starts k' (Function.update given k.sched.totalTasks (some t)) k.sched.totalTasks t where
  given := Function.update_self ..
  rsp := by
    rw [adds.sched]
    show ((k.sched.setTask _ _).tasks _).rsp = _
    rw [Scheduler.setTask_tasks_self]
  aligned := adds.aligned .kernel
  inside := adds.inside .kernel
  flags := by
    have built : InterruptFrame.read k'.mem (frameBelow (t.kstack + 4096)) =
        { r15 := 0, r14 := 0, r13 := 0, r12 := 0, r11 := 0, r10 := 0, r9 := 0, r8 := 0, rsi := 0
          rdi := 0, rbp := 0, rdx := 0, rcx := 0, rbx := 0, rax := 0, intNo := 0, errCode := 0
          rip := fn, cs := userCodeSel, rflags := 0x202, rsp := t.base + pages * 4096
          ss := userDataSel } := by
      rw [adds.mem]
      exact InterruptFrame.read_pushed rfl
    rw [built]

end Starts

namespace MachineRun

variable {s : MachineRun} {m : Machine} {op : MachineOp}

/-- Task `i` is active and has not run yet. -/
def Fresh (s : MachineRun) (i : Nat) : Prop :=
  (s.machine.kernel.sched.tasks i).active = true ∧ i ≠ s.current ∧ s.suspended i = none

/-- A task that has not run after a step had not run before, and kept its entry; or it
was added. -/
theorem fresh_leave (inv : MachineInv s) (outcome : s.Outcome op m) {i : Nat}
    (fresh : (s.leave m).Fresh i) (old : (s.machine.kernel.sched.tasks i).active = true) :
    s.Fresh i ∧ m.kernel.sched.tasks i = s.machine.kernel.sched.tasks i := by
  obtain ⟨active, other, quiet⟩ := fresh
  rcases outcome with ⟨stays, -⟩ | ⟨next, c, -, handed⟩
  · rw [leave_same stays.current] at other quiet
    have low : i < s.machine.kernel.sched.totalTasks := by
      by_contra high
      rw [inv.table.beyond i (Nat.not_lt.mp high)] at old
      cases old
    exact ⟨⟨old, fun here => other (here.trans stays.current.symm), quiet⟩, stays.tasks i low⟩
  · have cur := handsOver_current handed
    have moved := handsOver_moved inv handed
    rw [leave_machine] at active
    rw [current, leave_machine, cur] at other
    unfold leave at quiet
    simp only [cur, if_neg moved] at quiet
    rw [Function.update_of_ne other] at quiet
    by_cases here : i = s.current
    · -- the task that ran until now is suspended, if it is still active
      subst here
      rw [if_pos active, Function.update_self] at quiet
      cases quiet
    · refine ⟨⟨old, here, ?_⟩, handsOver_tasks handed here⟩
      split at quiet
      · rwa [Function.update_of_ne here] at quiet
      · exact quiet

/-- Every task that has not run yet starts from the frame it was given, which is out of
the way of the entries. -/
def Waiting (s : MachineRun) : Prop :=
  ∃ given, Stacked given s.machine.kernel ∧ ∀ i, s.Fresh i → ∃ t,
    Starts s.machine.kernel given i t ∧
      ∀ j < frameSize, s.machine.Away (frameBelow (t.kstack + 4096) + loc j)

end MachineRun

/-! ## One entry -/

/-- An entry that adds no task. -/
structure QuietEntry (m m' : Machine) : Prop where
  mem : ∀ a, m.Away a → m'.kernel.mem a = m.kernel.mem a
  active : ∀ i, (m'.kernel.sched.tasks i).active = true → (m.kernel.sched.tasks i).active = true
  stacked : ∀ given, Stacked given m.kernel → Stacked given m'.kernel

/-- The handler is called in `k` and leaves `k'`. -/
theorem QuietEntry.of_quiet {m m' : Machine} {k k' : Kernel} (quiet : Quiet k k')
    (mem : ∀ a, m.Away a → k.mem a = m.kernel.mem a) (pages : k.pages = m.kernel.pages)
    (sched : k.sched = m.kernel.sched) (mem' : ∀ a, m.Away a → m'.kernel.mem a = k'.mem a)
    (pages' : m'.kernel.pages = k'.pages) (sched' : m'.kernel.sched = k'.sched) :
    QuietEntry m m' := by
  constructor
  · intro a away
    rw [mem' a away, quiet.mem, mem a away]
  · intro i active
    rw [sched'] at active
    rw [← sched]
    exact quiet.active i active
  · intro given stacked
    exact (quiet.stacked given (stacked.same pages sched)).same pages' sched'

namespace MachineRun

variable {s : MachineRun} {m : Machine} {op : MachineOp}

theorem Waiting.quiet (w : s.Waiting) (inv : MachineInv s) (outcome : s.Outcome op m)
    (quiet : QuietEntry s.machine m) (rsp0 : m.rsp0 = s.machine.rsp0)
    (bases : m.cpu.bases = s.machine.cpu.bases ∨ m.cpu.bases = s.machine.cpu.bases.swap) :
    (s.leave m).Waiting := by
  obtain ⟨given, stacked, starts⟩ := w
  refine ⟨given, ?_, fun i fresh => ?_⟩
  · rw [leave_machine]
    exact quiet.stacked given stacked
  · have active := fresh.1
    rw [leave_machine] at active ⊢
    obtain ⟨before, same⟩ := fresh_leave inv outcome fresh (quiet.active i active)
    obtain ⟨t, start, away⟩ := starts i before
    refine ⟨t, start.keep rfl (by rw [same]) fun j hj => quiet.mem _ (away j hj), ?_⟩
    exact fun j hj => (away j hj).congr rsp0 bases

/-- A task is added, in pages that were not out of reach. -/
theorem Waiting.added (w : s.Waiting) (inv : MachineInv s) (outcome : s.Outcome op m)
    (rsp0 : m.rsp0 = s.machine.rsp0)
    (bases : m.cpu.bases = s.machine.cpu.bases ∨ m.cpu.bases = s.machine.cpu.bases.swap)
    (reserved : ∀ a, ¬ s.machine.Away a → Paging.page a ∉ s.machine.kernel.pages.clearPages)
    {k k' : Kernel} {fn pages : Word} {t : TaskStacks}
    (mem : ∀ a, s.machine.Away a → k.mem a = s.machine.kernel.mem a)
    (same : k.pages = s.machine.kernel.pages) (sched : k.sched = s.machine.kernel.sched)
    (adds : k.execAllocates pages = some t) (run : k' = (k.execCase fn pages).1)
    (mem' : ∀ a, s.machine.Away a → m.kernel.mem a = k'.mem a)
    (pages' : m.kernel.pages = k'.pages) (sched' : m.kernel.sched = k'.sched) :
    (s.leave m).Waiting := by
  subst run
  have taken := exec_adds fn adds
  obtain ⟨given, stacked, starts⟩ := w
  obtain ⟨atInit, freed, held⟩ := stacked.same same sched
  have after := held.exec fn pages
  simp only [StackRun.step, adds] at after
  have inPage {kstack : Word} : InRange (kstack, 1) (kstack.toNat / 4096) :=
    ⟨le_rfl, Nat.lt_succ_self _⟩
  refine ⟨Function.update given k.sched.totalTasks (some t), ?_, fun i fresh => ?_⟩
  · rw [leave_machine]
    exact Stacked.same ⟨atInit, freed, after⟩ pages' sched'
  · have active := fresh.1
    rw [leave_machine] at active ⊢
    by_cases last : i = k.sched.totalTasks
    · subst last
      -- no entry writes to a page that can be taken
      have away : ∀ j < frameSize, s.machine.Away (frameBelow (t.kstack + 4096) + loc j) := by
        intro j hj
        by_contra near
        have out := reserved _ near
        have place := Starts.page_frame t.kstack (taken.aligned .kernel)
          (taken.inside .kernel) hj
        rw [place, ← same] at out
        exact out (execAllocates_clear adds (r := .kernel) inPage)
      refine ⟨t, (Starts.added taken).keep rfl (by rw [sched']) ?_, ?_⟩
      · exact fun j hj => mem' _ (away j hj)
      · exact fun j hj => (away j hj).congr rsp0 bases
    · have old : (s.machine.kernel.sched.tasks i).active = true := by
        rw [sched', taken.sched] at active
        have active : ((k.sched.setTask _ _).tasks i).active = true := active
        rwa [Scheduler.setTask_tasks_of_ne last, sched] at active
      obtain ⟨before, entry⟩ := fresh_leave inv outcome fresh old
      obtain ⟨u, start, away⟩ := starts i before
      refine ⟨u, start.keep (Function.update_of_ne last ..) (by rw [entry]) fun j hj => ?_, ?_⟩
      · rw [mem' _ (away j hj), ← mem _ (away j hj)]
        -- the page of the frame was not clear
        rcases taken.writes (frameBelow (u.kstack + 4096) + loc j) with kept | here
        · exact kept
        · rw [Starts.page_frame u.kstack start.aligned start.inside hj] at here
          have used := stacked.used old start.given (r := .kernel) inPage
          rw [← same] at used
          exact absurd (taken.fresh .kernel _ here) used
      · exact fun j hj => (away j hj).congr rsp0 bases

end MachineRun
end Coolos
