import Coolos.Logic.Entry
import Coolos.Logic.HeapList
import Coolos.Logic.Interrupt
import Coolos.Logic.SchedRun
import Coolos.Logic.Syscall

/-!
# Runs of the machine

User code, timer ticks, key presses and system calls in any order, from the
moment ring 3 is entered for the first time. Beside the machine the run records
the context of every task that `Scheduler_Switch` has suspended, and, each time
such a task is resumed, that context next to the one in the frame it is resumed
from. Both entries start at the same `tss.rsp0`, so what a task is resumed from
is what the entry of the step that resumes it has just left there.
-/

namespace Coolos

open Lib Lib.X86

/-! ## What the entries leave on the kernel stack -/

namespace Machine

variable {m : Machine} {env : Env} {k : Kernel} {rax : Word}

/-- The frame below `tss.rsp0` when `Syscall_Handler` returns: the stack of the
handler in the lower words, above them what `syscall_entry` pushed. -/
def leftBehind (m : Machine) (junk : Junk) : InterruptFrame :=
  { InterruptFrame.read junk.bytes (frameBelow m.rsp0) with
    rax := m.cpu.regs .r15
    intNo := m.cpu.regs .r14
    errCode := m.cpu.regs .r13
    rip := m.cpu.regs .r12
    cs := m.cpu.regs .rbx
    rflags := m.cpu.regs .rbp
    rsp := m.cpu.rflags
    ss := m.cpu.rip }

/-- The stack of the handler reaches up to what was pushed. -/
theorem inCallee_syscall {sp : Word} {i j : Nat} (hi : i < 14) (hj : j < 8) :
    InCallee (sp - 112) 48 kernelStackSize (frameBelow sp + loc (8 * i) + BitVec.ofNat 64 j) := by
  simp only [InCallee, kernelStackSize, frameBelow, frameSize, loc]
  bv_omega

theorem not_inCallee_syscall {sp : Word} {i j : Nat} (hi : i < 8) (hj : j < 8) :
    ¬ InCallee (sp - 112) 48 kernelStackSize (sp - 64 + loc (8 * i) + BitVec.ofNat 64 j) := by
  simp only [InCallee, kernelStackSize, loc]
  bv_omega

theorem frameBelow_pushed (sp : Word) (i : Nat) :
    frameBelow sp + loc (8 * (14 + i)) = sp - 64 + loc (8 * i) := by
  have base : frameBelow sp + loc 112 = sp - 64 := by
    simp only [frameBelow, frameSize, loc]
    bv_omega
  rw [Nat.mul_add, loc_add, ← BitVec.add_assoc, base]

theorem atExit_frame (mem : k.mem = m.atHandler.mem) :
    InterruptFrame.read (m.atExit env k rax).mem (frameBelow m.rsp0) = m.leftBehind env.junk := by
  -- the handler's stack below, the pushes of the entry above
  have low : ∀ i < 14, (m.atExit env k rax).mem.read64 (frameBelow m.rsp0 + loc (8 * i)) =
      env.junk.bytes.read64 (frameBelow m.rsp0 + loc (8 * i)) := by
    intro i hi
    refine Mem.read64_congr fun j hj => ?_
    simp only [atExit_mem, if_pos (inCallee_syscall hi hj)]
  have high : ∀ n i w, n = 14 + i → m.syscallWords.reverse[i]? = some w →
      (m.atExit env k rax).mem.read64 (frameBelow m.rsp0 + loc (8 * n)) = w := by
    rintro n i w rfl hw
    have hi : i < 8 := (List.getElem?_eq_some_iff.mp hw).1
    rw [frameBelow_pushed, ← m.atHandler_read64 hi hw]
    refine Mem.read64_congr fun j hj => ?_
    simp only [atExit_mem, if_neg (not_inCallee_syscall hi hj), mem]
  simp only [InterruptFrame.read, leftBehind, low, Nat.reduceLT]
  rw [high 14 0 _ rfl rfl, high 15 1 _ rfl rfl, high 16 2 _ rfl rfl, high 17 3 _ rfl rfl,
    high 18 4 _ rfl rfl, high 19 5 _ rfl rfl, high 20 6 _ rfl rfl, high 21 7 _ rfl rfl]

/-- However a system call ends, the kernel is as the handler left it and the stack
is not written any more. -/
theorem syscall_exit {m' : Machine}
    (h : m.syscall env = .returned m' ∨ m.syscall env = .switched m') :
    ∃ rax, (m.handled env).2 = some rax ∧ m'.rsp0 = m.rsp0 ∧
      m'.kernel = { (m.handled env).1 with mem := (m.atExit env (m.handled env).1 rax).mem } := by
  rcases h with h | h
  · obtain ⟨k, call, rfl⟩ := of_syscall_returned h
    exact ⟨0, by rw [call], rfl, by rw [call, syscallReturn_mem]⟩
  · obtain ⟨k, rax, -, call, rfl⟩ := of_syscall_switched h
    exact ⟨rax, by rw [call], rfl, by rw [call, switchTaskFromSyscall, restore_mem]⟩

/-- An interrupt with a handler that leaves memory alone: the frame is still there
when a task is resumed. -/
theorem interrupt_exit {m m' : Machine} {vector frame : Word} {env : Env} {k : Kernel}
    (call : m.serviced vector env = (k, some frame)) (mem : k.mem = (m.entered vector).mem)
    (h : m.interrupt vector env = some m') :
    m'.rsp0 = m.rsp0 ∧ m'.kernel.sched = k.sched ∧ m'.kernel.handlerTable = k.handlerTable ∧
      (InterruptFrame.read m'.kernel.mem (frameBelow m.rsp0)).context = cpuContext m.cpu := by
  obtain ⟨m'', run, rsp0, kernel, -⟩ := interrupt_some call
  obtain rfl : m'' = m' := Option.some.inj (run.symm.trans h)
  -- what the handler may write ends below the frame
  have kept : InterruptFrame.read m''.kernel.mem (frameBelow m.rsp0) = m.frame vector := by
    rw [← m.entered_frame vector, kernel]
    refine InterruptFrame.read_congr fun j hj => ?_
    simp only [if_neg (m.frame_not_inCallee hj), mem]
  refine ⟨rsp0, by rw [kernel], by rw [kernel], ?_⟩
  rw [kept, frame_context]

/-- The kernel that `ExceptionHandler` is called in. -/
theorem exists_entered (m : Machine) (vector : Word) :
    ∃ k : Kernel, k = { m.kernel with mem := (m.entered vector).mem } ∧
      k.mem = (m.entered vector).mem ∧ k.sched = m.kernel.sched ∧
        k.handlerTable = m.kernel.handlerTable := by
  generalize (m.entered vector).mem = mem
  exact ⟨_, rfl, rfl, rfl, rfl⟩

/-- The kernel that `Syscall_Handler` is called in, and its call. -/
theorem exists_handled (m : Machine) (env : Env) : ∃ k : Kernel, k.mem = m.atHandler.mem ∧
    k.pages = m.kernel.pages ∧ k.sched = m.kernel.sched ∧
      k.handlerTable = m.kernel.handlerTable ∧
        m.handled env = k.syscallHandler (m.cpu.regs .rax) (m.cpu.regs .rdi) (m.cpu.regs .rsi)
          (m.cpu.regs .rdi) (m.cpu.regs .r10) (m.cpu.regs .r8) env.polls := by
  rw [handled_eq]
  generalize m.atHandler.mem = mem
  exact ⟨{ m.kernel with mem := mem }, rfl, rfl, rfl, rfl, rfl⟩

/-- The vector in the frame selects the handler. -/
theorem serviced_timer {m : Machine} {env : Env} {k : Kernel}
    (hk : k = { m.kernel with mem := (m.entered intTimer).mem })
    (table : m.kernel.handlerTable intTimer.toNat = some .timer) :
    m.serviced intTimer env =
      ({ k with ticks := k.ticks + 1, eois := k.eois + 1 }, some (frameBelow m.rsp0)) := by
  unfold serviced Kernel.exceptionHandler
  simp only [hk, entered_frame, frame, table, Kernel.timerHandler, Kernel.sendEOI]

theorem serviced_keyboard {m : Machine} (env : Env) {k : Kernel}
    (hk : k = { m.kernel with mem := (m.entered intKeyboard).mem })
    (table : m.kernel.handlerTable intKeyboard.toNat = some .keyboard) :
    m.serviced intKeyboard env =
      ((k.keyboardHandler (frameBelow m.rsp0) env.scancode).1,
        some (k.keyboardHandler (frameBelow m.rsp0) env.scancode).2) := by
  unfold serviced Kernel.exceptionHandler
  simp only [hk, entered_frame, frame, table]

end Machine

/-! ## Runs -/

/-- What can happen while a task runs in ring 3: its own code up to the next entry,
an interrupt of one of the two devices, a `SYSCALL` instruction. -/
inductive MachineOp where
  | user (regs : Reg → Word) (rip rflags : Word) (mem : Mem)
  | timer (env : Env)
  | keyboard (env : Env)
  | syscall (env : Env)

structure MachineRun where
  machine : Machine
  /-- The context each task was suspended with. -/
  suspended : Nat → Option Context
  /-- Of every task resumed so far: what it was suspended with, what it resumed with. -/
  resumed : List (Context × Context)

/-- What user code can change: registers, its place in the code and memory. -/
def Machine.user (m : Machine) (regs : Reg → Word) (rip rflags : Word) (mem : Mem) : Machine :=
  { m with
    cpu := { m.cpu with regs := regs, rip := rip, rflags := rflags }
    kernel := { m.kernel with mem := mem } }

namespace MachineRun

/-- `current_task_index`. -/
def current (s : MachineRun) : Nat := s.machine.kernel.sched.currentTaskIndex

/-- The segments of user code and its stack are loaded. -/
def InRing3 (s : MachineRun) : Prop :=
  s.machine.cpu.cs = userCodeSel.truncate 16 ∧ s.machine.cpu.ss = userDataSel.truncate 16

instance (s : MachineRun) : Decidable s.InRing3 := inferInstanceAs (Decidable (_ ∧ _))

/-- `SYSCALL_KFREE` is given `NULL` or a block of the heap that is not the kernel stack. Of
another pointer `kfree` takes the bytes below for a header and its neighbours, and writes to
whatever is there. -/
def FreesBlock (s : MachineRun) : Prop :=
  s.machine.cpu.regs .rax = syscallKfree → s.machine.cpu.regs .rdi = 0 ∨
    OnList s.machine.kernel.heap (s.machine.cpu.regs .rdi) ∧
      s.machine.cpu.regs .rdi + loc kernelStackSize ≠ s.machine.rsp0

/-- User code writes neither the kernel stack nor the headers of the heap, and cannot mask
interrupts. Interrupts are taken when they are enabled. -/
def Permitted (s : MachineRun) : MachineOp → Prop
  | .user _ _ rflags mem =>
      (∀ a, (s.machine.rsp0 - 1 - a).toNat < kernelStackSize → mem a = s.machine.kernel.mem a) ∧
        rflags &&& interruptFlag = s.machine.cpu.rflags &&& interruptFlag
  | .timer _ => s.machine.cpu.rflags &&& interruptFlag ≠ 0
  | .keyboard _ => s.machine.cpu.rflags &&& interruptFlag ≠ 0
  | .syscall _ => s.FreesBlock

/-- Steps are taken in ring 3. When `iretq` was given other selectors than those of the user it
has faulted, or it went on in ring 0: user code does not run again. -/
def Allowed (s : MachineRun) (op : MachineOp) : Prop := s.InRing3 ∧ s.Permitted op

theorem allowed_keyboard {s : MachineRun} (env : Env) (ring3 : s.InRing3)
    (enabled : s.machine.cpu.rflags &&& interruptFlag ≠ 0) : s.Allowed (.keyboard env) :=
  ⟨ring3, enabled⟩

/-- Any system call but `SYSCALL_KFREE`. -/
theorem allowed_syscall {s : MachineRun} (env : Env) (ring3 : s.InRing3)
    (other : s.machine.cpu.regs .rax ≠ syscallKfree) : s.Allowed (.syscall env) :=
  ⟨ring3, fun named => absurd named other⟩

/-- Back in ring 3 with the machine `m`. When another task is current now, the one
before it is suspended unless it was terminated, and the new one is resumed. -/
def leave (s : MachineRun) (m : Machine) : MachineRun :=
  let sched := m.kernel.sched
  let next := sched.currentTaskIndex
  if next = s.current then { s with machine := m }
  else
    let suspended :=
      if (sched.tasks s.current).active then
        Function.update s.suspended s.current (some (cpuContext s.machine.cpu))
      else s.suspended
    { machine := m
      suspended := Function.update suspended next none
      resumed :=
        match s.suspended next with
        | none => s.resumed
        | some saved =>
            (saved, (InterruptFrame.read m.kernel.mem (sched.tasks next).rsp).context) ::
              s.resumed }

/-- The steps; a system call that does not come back is no step. -/
def step (s : MachineRun) : MachineOp → Option MachineRun
  | .user regs rip rflags mem =>
      some { s with machine := s.machine.user regs rip rflags mem }
  | .timer env => (s.machine.interrupt intTimer env).map s.leave
  | .keyboard env => (s.machine.interrupt intKeyboard env).map s.leave
  | .syscall env =>
      match s.machine.syscall env with
      | .returned m => some (s.leave m)
      | .switched m => some (s.leave m)
      | .waiting => none

/-- The steps by what came back. -/
inductive Stepped (s : MachineRun) : MachineOp → MachineRun → Prop
  | user (regs : Reg → Word) (rip rflags : Word) (mem : Mem) :
      Stepped s (.user regs rip rflags mem) { s with machine := s.machine.user regs rip rflags mem }
  | timer {env : Env} {m : Machine} (run : s.machine.interrupt intTimer env = some m) :
      Stepped s (.timer env) (s.leave m)
  | keyboard {env : Env} {m : Machine} (run : s.machine.interrupt intKeyboard env = some m) :
      Stepped s (.keyboard env) (s.leave m)
  | returned {env : Env} {m : Machine} (run : s.machine.syscall env = .returned m) :
      Stepped s (.syscall env) (s.leave m)
  | switched {env : Env} {m : Machine} (run : s.machine.syscall env = .switched m) :
      Stepped s (.syscall env) (s.leave m)

theorem stepped {s s' : MachineRun} {op : MachineOp} (h : s.step op = some s') :
    s.Stepped op s' := by
  cases op with
  | user regs rip rflags mem =>
      obtain rfl := Option.some.inj h
      exact .user regs rip rflags mem
  | timer env =>
      obtain ⟨m, run, rfl⟩ := Option.map_eq_some_iff.mp h
      exact .timer run
  | keyboard env =>
      obtain ⟨m, run, rfl⟩ := Option.map_eq_some_iff.mp h
      exact .keyboard run
  | syscall env =>
      cases run : s.machine.syscall env with
      | returned m =>
          simp only [step, run, Option.some.injEq] at h
          exact h ▸ .returned run
      | switched m =>
          simp only [step, run, Option.some.injEq] at h
          exact h ▸ .switched run
      | waiting =>
          simp only [step, run] at h
          cases h

/-- `KernelMain` has registered the two handlers and called `Scheduler_Init`, and no
task but the main one exists. -/
def sys : TSys MachineRun MachineOp where
  init s := s.machine.kernel.sched = Scheduler.zero.init ∧
    s.machine.kernel.handlerTable intTimer.toNat = some .timer ∧
    s.machine.kernel.handlerTable intKeyboard.toNat = some .keyboard ∧
    (∀ i, s.suspended i = none) ∧ s.resumed = []
  next s op s' := s.Allowed op ∧ s.step op = some s'

/-- Every task resumed had the registers, RIP, CS, RFLAGS, RSP and SS it was
suspended with. -/
def Intact (s : MachineRun) : Prop := ∀ p ∈ s.resumed, p.2 = p.1

/-- The context that an entry which hands over to another task leaves at the top of
the kernel stack. -/
def entering (s : MachineRun) : MachineOp → Option Context
  | .user _ _ _ _ => none
  | .timer _ => none
  | .keyboard env =>
      if env.scancode = 0x3A ∨ env.scancode = 0x01 ∧ s.current ≠ 0 then
        some (cpuContext s.machine.cpu)
      else none
  | .syscall env =>
      if s.machine.cpu.regs .rax = syscallTerminate ∧ s.current ≠ 0 then
        some (s.machine.leftBehind env.junk).context
      else none

/-- If the next task round the table has been suspended, then with that context. -/
def Coincides (s : MachineRun) (op : MachineOp) : Prop :=
  ∀ c next saved, s.entering op = some c → s.machine.kernel.sched.successor = some next →
    s.suspended next = some saved → c = saved

end MachineRun

/-! ## What a step does to the table -/

/-- The same task goes on; tasks may have been added. -/
structure Stays (m m' : Machine) : Prop where
  rsp0 : m'.rsp0 = m.rsp0
  handlerTable : m'.kernel.handlerTable = m.kernel.handlerTable
  table : TableInv m'.kernel.sched
  current : m'.kernel.sched.currentTaskIndex = m.kernel.sched.currentTaskIndex
  total : m.kernel.sched.totalTasks ≤ m'.kernel.sched.totalTasks
  tasks : ∀ i < m.kernel.sched.totalTasks, m'.kernel.sched.tasks i = m.kernel.sched.tasks i

/-- The task `next` is resumed, the current one suspended at the frame of the entry
or terminated. The frame holds `c`. -/
structure HandsOver (m m' : Machine) (next : Nat) (c : Context) : Prop where
  rsp0 : m'.rsp0 = m.rsp0
  handlerTable : m'.kernel.handlerTable = m.kernel.handlerTable
  table : TableInv m'.kernel.sched
  successor : m.kernel.sched.successor = some next
  sched : ∃ t, (t.active = true → t.rsp = frameBelow m.rsp0) ∧
    m'.kernel.sched = { m.kernel.sched.setTask m.kernel.sched.currentTaskIndex t with
      currentTaskIndex := next }
  frame : (InterruptFrame.read m'.kernel.mem (frameBelow m.rsp0)).context = c

structure MachineInv (s : MachineRun) : Prop where
  table : TableInv s.machine.kernel.sched
  timer : s.machine.kernel.handlerTable intTimer.toNat = some .timer
  keyboard : s.machine.kernel.handlerTable intKeyboard.toNat = some .keyboard
  /-- A suspended task resumes from below `tss.rsp0`, whichever it is. -/
  suspended : ∀ i c, s.suspended i = some c →
    i < s.machine.kernel.sched.totalTasks ∧ i ≠ s.current ∧
      (s.machine.kernel.sched.tasks i).rsp = frameBelow s.machine.rsp0

namespace MachineRun

variable {s : MachineRun} {m : Machine}

theorem leave_same (h : m.kernel.sched.currentTaskIndex = s.current) :
    s.leave m = { s with machine := m } := if_pos h

theorem leave_stays (inv : MachineInv s) (h : Stays s.machine m) :
    MachineInv (s.leave m) ∧ (s.leave m).resumed = s.resumed := by
  rw [leave_same h.current]
  refine ⟨⟨h.table, ?_, ?_, fun i c hi => ?_⟩, rfl⟩
  · rw [h.handlerTable]
    exact inv.timer
  · rw [h.handlerTable]
    exact inv.keyboard
  · obtain ⟨lt, ne, rsp⟩ := inv.suspended i c hi
    refine ⟨Nat.lt_of_lt_of_le lt h.total, fun e => ne (e.trans h.current), ?_⟩
    rw [h.tasks i lt, h.rsp0, rsp]

section HandsOver

variable {next : Nat} {c : Context} (inv : MachineInv s) (h : HandsOver s.machine m next c)
include h

theorem handsOver_current : m.kernel.sched.currentTaskIndex = next := by
  obtain ⟨t, -, sched⟩ := h.sched
  rw [sched]

theorem handsOver_tasks {i : Nat} (hi : i ≠ s.current) :
    m.kernel.sched.tasks i = s.machine.kernel.sched.tasks i := by
  obtain ⟨t, -, sched⟩ := h.sched
  rw [sched]
  exact Scheduler.setTask_tasks_of_ne hi t

/-- A task that was switched out resumes from the frame of this entry. -/
theorem handsOver_rsp (active : (m.kernel.sched.tasks s.current).active = true) :
    (m.kernel.sched.tasks s.current).rsp = frameBelow m.rsp0 := by
  obtain ⟨t, ht, sched⟩ := h.sched
  have here : m.kernel.sched.tasks s.current = t := by
    rw [sched]
    exact Scheduler.setTask_tasks_self ..
  rw [here] at active ⊢
  rw [ht active, h.rsp0]

include inv

theorem handsOver_moved : next ≠ s.current := (inv.table.successor h.successor).2.2

theorem leave_handsOver : MachineInv (s.leave m) := by
  have cur := handsOver_current h
  have moved := handsOver_moved inv h
  have total : m.kernel.sched.totalTasks = s.machine.kernel.sched.totalTasks := by
    obtain ⟨t, -, sched⟩ := h.sched
    rw [sched]
    rfl
  unfold leave
  simp only [cur, if_neg moved]
  refine ⟨h.table, ?_, ?_, fun i saved hi => ?_⟩
  · show m.kernel.handlerTable _ = _
    rw [h.handlerTable]
    exact inv.timer
  · show m.kernel.handlerTable _ = _
    rw [h.handlerTable]
    exact inv.keyboard
  · show i < m.kernel.sched.totalTasks ∧ i ≠ m.kernel.sched.currentTaskIndex ∧
      (m.kernel.sched.tasks i).rsp = frameBelow m.rsp0
    rw [total, cur]
    by_cases resumed : i = next
    · subst resumed
      simp at hi
    replace hi := (Function.update_of_ne resumed ..).symm.trans hi
    by_cases out : i = s.current
    · -- suspended just now, or terminated
      subst out
      split at hi
      · exact ⟨inv.table.current, resumed, handsOver_rsp h ‹_›⟩
      · exact absurd rfl (inv.suspended _ _ hi).2.1
    · have before : s.suspended i = some saved := by
        split at hi
        · rwa [Function.update_of_ne out] at hi
        · exact hi
      obtain ⟨lt, -, rsp⟩ := inv.suspended i saved before
      exact ⟨lt, resumed, by rw [handsOver_tasks h out, rsp, h.rsp0]⟩

/-- The task resumed finds the frame of this entry, whatever it was suspended
with. -/
theorem intact_handsOver :
    (s.leave m).Intact ↔ s.Intact ∧ ∀ saved, s.suspended next = some saved → c = saved := by
  have cur := handsOver_current h
  have moved := handsOver_moved inv h
  unfold leave
  simp only [cur, if_neg moved]
  cases known : s.suspended next with
  | none => simp [Intact] -- it starts for the first time
  | some saved =>
      obtain ⟨-, -, rsp⟩ := inv.suspended next saved known
      simp [Intact, handsOver_tasks h moved, rsp, h.frame, and_comm]

end HandsOver

/-! ## One step -/

/-- What comes back from an entry, but for the table. -/
structure Returns (m m' : Machine) : Prop where
  rsp0 : m'.rsp0 = m.rsp0
  handlerTable : m'.kernel.handlerTable = m.kernel.handlerTable

variable {m' : Machine}

theorem stays_of_sched (table : TableInv m.kernel.sched) (back : Returns m m')
    (sched : m'.kernel.sched = m.kernel.sched) : Stays m m' :=
  ⟨back.rsp0, back.handlerTable, sched ▸ table, by rw [sched], by rw [sched],
    fun i _ => by rw [sched]⟩

/-- An entry that called `Scheduler_Switch` with its frame. -/
theorem switch_outcome {k : Kernel} {c : Context} (table : TableInv m.kernel.sched)
    (back : Returns m m') (hk : k.sched = m.kernel.sched)
    (sched : m'.kernel.sched = (k.switch (frameBelow m.rsp0)).1.sched)
    (frame : (InterruptFrame.read m'.kernel.mem (frameBelow m.rsp0)).context = c) :
    (Stays m m' ∧ m.kernel.sched.successor = none) ∨ ∃ next, HandsOver m m' next c := by
  rcases k.switch_cases (frameBelow m.rsp0) with ⟨next, g, succ, run⟩ | ⟨none, g, run⟩
  · right
    rw [run, hk] at sched
    rw [hk] at succ
    refine ⟨next, back.rsp0, back.handlerTable, ?_, succ, ⟨_, fun _ => rfl, sched⟩, frame⟩
    rw [sched]
    exact table.switch succ _
  · left
    rw [run] at sched
    exact ⟨stays_of_sched table back (sched.trans hk), hk ▸ none⟩

/-- An entry that called `Scheduler_TerminateCurrentTask`. -/
theorem terminate_outcome {k : Kernel} {c : Context} {arg : Word} (table : TableInv m.kernel.sched)
    (back : Returns m m') (hk : k.sched = m.kernel.sched)
    (sched : m'.kernel.sched = (k.terminateCurrentTask arg).1.sched)
    (frame : (InterruptFrame.read m'.kernel.mem (frameBelow m.rsp0)).context = c) :
    (m.kernel.sched.currentTaskIndex = 0 ∧ Stays m m') ∨
      (m.kernel.sched.currentTaskIndex ≠ 0 ∧ ∃ next, HandsOver m m' next c) := by
  by_cases main : m.kernel.sched.currentTaskIndex = 0
  · obtain ⟨g, run⟩ := k.terminate_main arg (by rw [hk, main])
    rw [run] at sched
    exact .inl ⟨main, stays_of_sched table back (sched.trans hk)⟩
  · obtain ⟨next, g, succ, run⟩ := TableInv.terminate_run (hk ▸ table) (by rwa [hk]) arg
    rw [run, hk] at sched
    rw [hk] at succ
    refine .inr ⟨main, next, back.rsp0, back.handlerTable, ?_, succ, ⟨_, fun active => ?_, sched⟩,
      frame⟩
    · rw [sched]
      exact table.terminate main succ
    · rw [Kernel.retire_active] at active
      exact absurd active (by decide)

/-- Tasks are added behind those there are. -/
theorem addUserTask_outcome {k : Kernel} {fn base count : Word} (table : TableInv m.kernel.sched)
    (back : Returns m m') (hk : k.sched = m.kernel.sched)
    (sched : m'.kernel.sched = (k.addUserTask fn base count).sched) : Stays m m' := by
  have grown : TableInv (k.addUserTask fn base count).sched :=
    SchedRun.step_table (s := ⟨k, fun _ => none⟩) (hk ▸ table) (.addUserTask fn base count)
  rw [← sched] at grown
  rcases k.addUserTask_cases fn base count with ⟨-, -, mem, run⟩ | ⟨-, -, run⟩ | ⟨-, run⟩
  · rw [run, hk] at sched
    exact ⟨back.rsp0, back.handlerTable, grown, by rw [sched]; rfl,
      by rw [sched]; exact Nat.le_succ _,
      fun i hi => by rw [sched]; exact Scheduler.setTask_tasks_of_ne (Nat.ne_of_lt hi) _⟩
  · rw [run, hk] at sched
    exact ⟨back.rsp0, back.handlerTable, grown, by rw [sched], by rw [sched]; exact Nat.le_succ _,
      fun i _ => by rw [sched]⟩
  · rw [run] at sched
    exact stays_of_sched table back (sched.trans hk)

/-- What a step can do. -/
def Outcome (s : MachineRun) (op : MachineOp) (m : Machine) : Prop :=
  (Stays s.machine m ∧ (s.entering op = none ∨ s.machine.kernel.sched.successor = none)) ∨
    ∃ next c, s.entering op = some c ∧ HandsOver s.machine m next c

theorem timer_outcome (inv : MachineInv s) {env : Env}
    (h : s.machine.interrupt intTimer env = some m) : s.Outcome (.timer env) m := by
  obtain ⟨k, hk, mem, sched, handlers⟩ := s.machine.exists_entered intTimer
  obtain ⟨rsp0, left, same, -⟩ :=
    Machine.interrupt_exit (Machine.serviced_timer hk inv.timer) mem h
  exact .inl ⟨stays_of_sched inv.table ⟨rsp0, same.trans handlers⟩ (left.trans sched), .inl rfl⟩

theorem keyboard_outcome (inv : MachineInv s) {env : Env}
    (h : s.machine.interrupt intKeyboard env = some m) : s.Outcome (.keyboard env) m := by
  obtain ⟨k, hk, mem, sched, handlers⟩ := s.machine.exists_entered intKeyboard
  have call := Machine.serviced_keyboard env hk inv.keyboard
  clear hk
  replace sched : k.sendEOI.sched = s.machine.kernel.sched := sched
  replace mem : k.sendEOI.mem = (s.machine.entered intKeyboard).mem := mem
  replace handlers : k.sendEOI.handlerTable = s.machine.kernel.handlerTable := handlers
  rcases k.keyboardHandler_cases (frameBelow s.machine.rsp0) env.scancode with
    ⟨key, run⟩ | ⟨key, run⟩ | ⟨noSwitch, noExit, g, c, run⟩
  · -- CapsLock
    obtain ⟨g, table, kernel⟩ := k.sendEOI.switch_touches (frameBelow s.machine.rsp0)
    rw [run] at call
    obtain ⟨rsp0, left, same, frame⟩ := Machine.interrupt_exit call (by rw [kernel, ← mem]) h
    have back : Returns s.machine m := ⟨rsp0, same.trans (by rw [kernel, ← handlers])⟩
    rcases switch_outcome inv.table back sched left frame with ⟨stays, none⟩ | ⟨next, handed⟩
    · exact .inl ⟨stays, .inr none⟩
    · exact .inr ⟨next, _, if_pos (.inl key), handed⟩
  · -- ESC
    obtain ⟨g, pages, table, kernel⟩ :=
      k.sendEOI.terminateCurrentTask_touches (frameBelow s.machine.rsp0)
    rw [run] at call
    obtain ⟨rsp0, left, same, frame⟩ := Machine.interrupt_exit call (by rw [kernel, ← mem]) h
    have back : Returns s.machine m := ⟨rsp0, same.trans (by rw [kernel, ← handlers])⟩
    rcases terminate_outcome inv.table back sched left frame with
      ⟨main, stays⟩ | ⟨other, next, handed⟩
    · have switch : env.scancode ≠ 0x3A := by rw [key]; decide
      exact .inl ⟨stays, .inl (if_neg (by rintro (h | ⟨-, h⟩); exacts [switch h, h main]))⟩
    · exact .inr ⟨next, _, if_pos (.inr ⟨key, other⟩), handed⟩
  · rw [run] at call
    obtain ⟨rsp0, left, same, -⟩ := Machine.interrupt_exit call mem h
    have back : Returns s.machine m := ⟨rsp0, same.trans handlers⟩
    exact .inl ⟨stays_of_sched inv.table back (left.trans sched),
      .inl (if_neg (by rintro (h | ⟨h, -⟩); exacts [noSwitch h, noExit h]))⟩

theorem syscall_outcome (inv : MachineInv s) {env : Env}
    (h : s.machine.syscall env = .returned m ∨ s.machine.syscall env = .switched m) :
    s.Outcome (.syscall env) m := by
  obtain ⟨rax, -, rsp0, kernel⟩ := Machine.syscall_exit h
  obtain ⟨k, mem, -, sched, handlers, call⟩ := s.machine.exists_handled env
  by_cases terminate : s.machine.cpu.regs .rax = syscallTerminate
  · have call : s.machine.handled env =
        ((k.terminateCurrentTask 0).1, some (k.terminateCurrentTask 0).2) := by
      rw [call, terminate]
      rfl
    obtain ⟨g, pages, table, touched⟩ := k.terminateCurrentTask_touches 0
    have kept : (k.terminateCurrentTask 0).1.mem = s.machine.atHandler.mem := by
      rw [touched, ← mem]
    rw [call] at kernel
    have back : Returns s.machine m := ⟨rsp0, by rw [kernel, ← handlers, touched]⟩
    have frame : (InterruptFrame.read m.kernel.mem (frameBelow s.machine.rsp0)).context =
        (s.machine.leftBehind env.junk).context := by
      rw [kernel, Machine.atExit_frame kept]
    rcases terminate_outcome inv.table back sched (by rw [kernel]) frame with
      ⟨main, stays⟩ | ⟨other, next, handed⟩
    · exact .inl ⟨stays, .inl (if_neg fun h => h.2 main)⟩
    · exact .inr ⟨next, _, if_pos ⟨terminate, other⟩, handed⟩
  · -- no other call leaves its caller
    have quiet : s.entering (.syscall env) = none := if_neg fun h => terminate h.1
    obtain ⟨same, left⟩ := k.syscallHandler_sched terminate (s.machine.cpu.regs .rdi)
      (s.machine.cpu.regs .rsi) (s.machine.cpu.regs .rdi) (s.machine.cpu.regs .r10)
      (s.machine.cpu.regs .r8) env.polls
    rw [← call] at same left
    have back : Returns s.machine m := ⟨rsp0, by rw [kernel]; exact same.trans handlers⟩
    rcases left with left | ⟨pages, fn, base, count, left⟩
    · have same : m.kernel.sched = s.machine.kernel.sched := by
        rw [kernel]
        exact left.trans sched
      exact .inl ⟨stays_of_sched inv.table back same, .inl quiet⟩
    · exact .inl ⟨addUserTask_outcome (k := { k with pages := pages }) inv.table back sched
        (by rw [kernel]; exact left), .inl quiet⟩

theorem step_outcome (inv : MachineInv s) {op : MachineOp} {s' : MachineRun}
    (h : s.step op = some s') : ∃ m, s' = s.leave m ∧ s.Outcome op m := by
  cases stepped h with
  | user regs rip rflags mem =>
      have same : (s.machine.user regs rip rflags mem).kernel.sched.currentTaskIndex = s.current :=
        rfl
      exact ⟨_, (leave_same same).symm, .inl ⟨stays_of_sched inv.table ⟨rfl, rfl⟩ rfl, .inl rfl⟩⟩
  | timer run => exact ⟨_, rfl, timer_outcome inv run⟩
  | keyboard run => exact ⟨_, rfl, keyboard_outcome inv run⟩
  | returned run => exact ⟨_, rfl, syscall_outcome inv (.inl run)⟩
  | switched run => exact ⟨_, rfl, syscall_outcome inv (.inr run)⟩

/-- A step keeps the contexts intact exactly when it hands no suspended task a context
other than its own. -/
theorem step_intact (inv : MachineInv s) {op : MachineOp} {s' : MachineRun}
    (h : s.step op = some s') : MachineInv s' ∧ (s'.Intact ↔ s.Intact ∧ s.Coincides op) := by
  obtain ⟨m, rfl, outcome⟩ := step_outcome inv h
  rcases outcome with ⟨stays, none⟩ | ⟨next, c, entering, handed⟩
  · obtain ⟨kept, same⟩ := leave_stays inv stays
    refine ⟨kept, ?_⟩
    -- nothing was resumed
    have coincides : s.Coincides op := by
      intro c next saved entering succ _
      rcases none with none | none
      · rw [none] at entering
        cases entering
      · rw [none] at succ
        cases succ
    simp only [Intact, same, coincides, and_true]
  · refine ⟨leave_handsOver inv handed, (intact_handsOver inv handed).trans (and_congr_right' ?_)⟩
    constructor
    · intro only c' next' saved entering' succ known
      obtain rfl := Option.some.inj (entering'.symm.trans entering)
      obtain rfl := Option.some.inj (succ.symm.trans handed.successor)
      exact only saved known
    · intro coincides saved known
      exact coincides c next saved entering handed.successor known

theorem invariant : sys.Invariant MachineInv := by
  refine TSys.Inductive.invariant ⟨?_, ?_⟩
  · rintro s ⟨sched, timer, keyboard, suspended, -⟩
    refine ⟨?_, timer, keyboard, fun i c hi => ?_⟩
    · rw [sched]
      exact tableInv_init
    · rw [suspended i] at hi
      cases hi
  · rintro s op s' inv ⟨-, next⟩
    exact (step_intact inv next).1

end MachineRun
end Coolos
