import Coolos.Kernel.Entry

/-!
# The system call entry

What `syscall_entry` hands to `Syscall_Handler`, and the two ways it leaves:
back to its caller with RAX cleared when the handler returned 0, through
`isr_restore` when it returned a frame.
-/

namespace Coolos
namespace Machine

open Lib Lib.X86

/-! ## Up to the handler -/

/-- The registers in the order `syscall_entry` pushes them. -/
def syscallRegs : List Reg := [.rcx, .r11, .rbp, .rbx, .r12, .r13, .r14, .r15]

/-- On the kernel stack, nothing pushed yet. -/
def onKernelStack (m : Machine) : State Sym :=
  run { m.state with cpu := m.cpu.syscall } [.swapgs, .storeGs 0 .rsp, .loadSym .rsp .tssRsp0]

/-- What the entry pushes. -/
def syscallWords (m : Machine) : List Word :=
  [m.cpu.rip, m.cpu.rflags, m.cpu.regs .rbp, m.cpu.regs .rbx, m.cpu.regs .r12, m.cpu.regs .r13,
    m.cpu.regs .r14, m.cpu.regs .r15]

@[simp] theorem onKernelStack_rsp (m : Machine) : m.onKernelStack.cpu.regs .rsp = m.rsp0 := rfl

theorem onKernelStack_regs (m : Machine) {r : Reg} (h : r ≠ .rsp) :
    m.onKernelStack.cpu.regs r = m.cpu.syscall.regs r :=
  setReg_of_ne h

theorem atHandler_eq (m : Machine) :
    m.atHandler = run (m.onKernelStack.pushWords m.syscallWords)
      [.subImm .rsp 48, .store .rsp 32 .r10, .store .rsp 40 .r8,
        .mov .rcx .rax, .mov .rdx .rdi, .mov .r8 .rsi, .mov .r9 .rdx] := by
  have pushed := run_pushes syscallRegs m.onKernelStack (by decide)
  have words : syscallRegs.map m.onKernelStack.cpu.regs = m.syscallWords := rfl
  rw [← words, ← pushed]
  rfl

/-- Behind the pushes every register but RSP, RCX and R11 is still the user's. -/
theorem pushed_regs (m : Machine) {r : Reg} (hsp : r ≠ .rsp) (hcx : r ≠ .rcx) (h11 : r ≠ .r11) :
    (m.onKernelStack.pushWords m.syscallWords).cpu.regs r = m.cpu.regs r := by
  rw [pushWords_regs hsp, onKernelStack_regs m hsp]
  simp only [Cpu.syscall, Cpu.setReg, if_neg hcx, if_neg h11]

/-- The handler is called with RDI for both `a1` and `a3`: RDX is loaded with
`a1` before it is read for `a3`. -/
theorem callArgs_atHandler (m : Machine) :
    callArgs m.atHandler =
      { sysNum := m.cpu.regs .rax, a1 := m.cpu.regs .rdi, a2 := m.cpu.regs .rsi
        a3 := m.cpu.regs .rdi, a4 := m.cpu.regs .r10, a5 := m.cpu.regs .r8 } := by
  have rax := m.pushed_regs (r := .rax) (by decide) (by decide) (by decide)
  have rdi := m.pushed_regs (r := .rdi) (by decide) (by decide) (by decide)
  have rsi := m.pushed_regs (r := .rsi) (by decide) (by decide) (by decide)
  have r10 := m.pushed_regs (r := .r10) (by decide) (by decide) (by decide)
  have r8 := m.pushed_regs (r := .r8) (by decide) (by decide) (by decide)
  rw [atHandler_eq]
  generalize m.onKernelStack.pushWords m.syscallWords = s at rax rdi rsi r10 r8
  simp only [run_cons, run_nil, Instr.exec, State.setReg, Cpu.setReg, Cpu.flag, callArgs,
    reduceCtorEq, if_false, if_true, Mem.read64_write64, rax, rdi, rsi, r10, r8,
    Mem.read64_write64_apart (show Apart (s.cpu.regs .rsp - 48 + 40) 8 (s.cpu.regs .rsp - 48 + 32) 8
      from ⟨by bv_omega, by bv_omega⟩)]

/-- Eight words pushed, 48 bytes below them for the call. -/
theorem atHandler_rsp (m : Machine) : m.atHandler.cpu.regs .rsp = m.rsp0 - 112 := by
  have pushed : (m.onKernelStack.pushWords m.syscallWords).cpu.regs .rsp = m.rsp0 - 64 :=
    pushWords_rsp ..
  rw [atHandler_eq]
  simp only [run_cons, run_nil, Instr.exec, State.setReg, Cpu.setReg, Cpu.flag, reduceCtorEq,
    if_false, if_true, pushed]
  bv_omega

/-- The user's registers on the kernel stack, the last two arguments below. -/
theorem atHandler_mem (m : Machine) :
    m.atHandler.mem =
      (((m.onKernelStack.mem.pushAll m.rsp0 m.syscallWords).1.write64 (m.rsp0 - 80)
        (m.cpu.regs .r10)).write64 (m.rsp0 - 72) (m.cpu.regs .r8)) := by
  have pushed : (m.onKernelStack.pushWords m.syscallWords).cpu.regs .rsp = m.rsp0 - 64 :=
    pushWords_rsp ..
  have r10 := m.pushed_regs (r := .r10) (by decide) (by decide) (by decide)
  have r8 := m.pushed_regs (r := .r8) (by decide) (by decide) (by decide)
  have low : m.rsp0 - 64 - 48 + 32 = m.rsp0 - 80 := by bv_omega
  have high : m.rsp0 - 64 - 48 + 40 = m.rsp0 - 72 := by bv_omega
  rw [atHandler_eq]
  simp only [run_cons, run_nil, Instr.exec, State.setReg, Cpu.setReg, Cpu.flag, reduceCtorEq,
    if_false, if_true, pushed, r10, r8, low, high, pushWords_mem, onKernelStack_rsp]

/-- Word `i` of what the entry pushed, from below. -/
theorem atHandler_read64 (m : Machine) {i : Nat} {w : Word} (hi : i < 8)
    (h : m.syscallWords.reverse[i]? = some w) :
    m.atHandler.mem.read64 (m.rsp0 - 64 + loc (8 * i)) = w := by
  have high : Apart (m.rsp0 - 72) 8 (m.rsp0 - 64 + loc (8 * i)) 8 := by
    constructor <;> simp only [loc] <;> bv_omega
  have low : Apart (m.rsp0 - 80) 8 (m.rsp0 - 64 + loc (8 * i)) 8 := by
    constructor <;> simp only [loc] <;> bv_omega
  have size : m.syscallWords.length = 8 := rfl
  rw [atHandler_mem, Mem.read64_write64_apart high, Mem.read64_write64_apart low]
  exact Mem.read64_pushed (by rw [size]; decide) h

/-! ## Behind the handler -/

/-- The call of `Syscall_Handler`. -/
def handled (m : Machine) (env : Env) : Kernel × Option Word :=
  let args := callArgs m.atHandler
  { m.kernel with mem := m.atHandler.mem }.syscallHandler args.sysNum args.a1 args.a2 args.a3
    args.a4 args.a5 env.polls

/-- With the registers of the caller. -/
theorem handled_eq (m : Machine) (env : Env) :
    m.handled env = { m.kernel with mem := m.atHandler.mem }.syscallHandler (m.cpu.regs .rax)
      (m.cpu.regs .rdi) (m.cpu.regs .rsi) (m.cpu.regs .rdi) (m.cpu.regs .r10) (m.cpu.regs .r8)
        env.polls := by
  rw [handled, callArgs_atHandler]

/-- The state in which the result is tested. -/
def atExit (m : Machine) (env : Env) (k : Kernel) (rax : Word) : State Sym :=
  run (m.atHandler.afterCall 48 kernelStackSize rax k.mem env.junk)
    [.addImm .rsp 48, .test .rax .rax]

variable {m : Machine} {env : Env} {k : Kernel} {rax : Word}

theorem atExit_rax : (m.atExit env k rax).cpu.regs .rax = rax := rfl

theorem atExit_mem : (m.atExit env k rax).mem = fun a =>
    if InCallee (m.rsp0 - 112) 48 kernelStackSize a then env.junk.bytes a else k.mem a := by
  simp only [atExit, run_cons, run_nil, Instr.exec, State.afterCall, atHandler_rsp]

theorem atExit_zf : (m.atExit env k rax).cpu.rflags &&& zf ≠ 0 ↔ rax = 0 := by
  have : (m.atExit env k rax).cpu.rflags &&& zf ≠ 0 ↔ rax &&& rax = 0 := zf_flag _ _
  rwa [BitVec.and_self] at this

/-- A call that does not return keeps its caller waiting. -/
theorem syscall_waiting (h : (m.handled env).2 = none) : m.syscall env = .waiting := by
  unfold handled at h
  simp only [syscall, h]

/-- The handler returned 0. -/
theorem syscall_returned (h : m.handled env = (k, some 0)) :
    let s := run (m.atExit env k 0) syscallReturn
    m.syscall env = .returned { m with cpu := s.cpu, kernel := { k with mem := s.mem } } := by
  unfold handled at h
  simp only [syscall, h]
  exact if_pos (atExit_zf.mpr rfl)

/-- The handler returned a frame. -/
theorem syscall_switched (h : m.handled env = (k, some rax)) (frame : rax ≠ 0) :
    let s := run (m.atExit env k rax) switchTaskFromSyscall
    m.syscall env = .switched { m with cpu := s.cpu, kernel := { k with mem := s.mem } } := by
  unfold handled at h
  simp only [syscall, h]
  exact if_neg (mt atExit_zf.mp frame)

/-- The three ways a system call can go, by the result of the handler. -/
theorem syscall_cases (m : Machine) (env : Env) :
    ((m.handled env).2 = none ∧ m.syscall env = .waiting) ∨
    (∃ k, m.handled env = (k, some 0) ∧
      let s := run (m.atExit env k 0) syscallReturn
      m.syscall env = .returned { m with cpu := s.cpu, kernel := { k with mem := s.mem } }) ∨
    (∃ k rax, rax ≠ 0 ∧ m.handled env = (k, some rax) ∧
      let s := run (m.atExit env k rax) switchTaskFromSyscall
      m.syscall env = .switched { m with cpu := s.cpu, kernel := { k with mem := s.mem } }) := by
  rcases call : m.handled env with ⟨k, result⟩
  cases result with
  | none => exact .inl ⟨rfl, syscall_waiting (by rw [call])⟩
  | some rax =>
      right
      by_cases zero : rax = 0
      · subst zero
        exact .inl ⟨k, rfl, syscall_returned call⟩
      · exact .inr ⟨k, rax, zero, rfl, syscall_switched call zero⟩

/-- A system call that returned went the normal path. -/
theorem of_syscall_returned {m' : Machine} (h : m.syscall env = .returned m') :
    ∃ k, m.handled env = (k, some 0) ∧
      let s := run (m.atExit env k 0) syscallReturn
      m' = { m with cpu := s.cpu, kernel := { k with mem := s.mem } } := by
  rcases m.syscall_cases env with ⟨-, run⟩ | ⟨k, call, run⟩ | ⟨k, rax, -, -, run⟩
  · cases run.symm.trans h
  · cases run.symm.trans h
    exact ⟨k, call, rfl⟩
  · cases run.symm.trans h

/-- One that switched went on from a frame. -/
theorem of_syscall_switched {m' : Machine} (h : m.syscall env = .switched m') :
    ∃ k rax, rax ≠ 0 ∧ m.handled env = (k, some rax) ∧
      let s := run (m.atExit env k rax) switchTaskFromSyscall
      m' = { m with cpu := s.cpu, kernel := { k with mem := s.mem } } := by
  rcases m.syscall_cases env with ⟨-, run⟩ | ⟨k, -, run⟩ | ⟨k, rax, frame, call, run⟩
  · cases run.symm.trans h
  · cases run.symm.trans h
  · cases run.symm.trans h
    exact ⟨k, rax, frame, call, rfl⟩

theorem syscallReturn_eq :
    syscallReturn = syscallRegs.reverse.map .pop ++ [.loadGs .rsp 0, .swapgs, .sysretq] := rfl

/-- The normal path does not write. -/
theorem syscallReturn_mem (s : State Sym) : (run s syscallReturn).mem = s.mem := by
  have last (s : State Sym) : (run s [.loadGs .rsp 0, .swapgs, .sysretq]).mem = s.mem := rfl
  rw [syscallReturn_eq, run_append, last, run_pops_mem]

/-- The normal path does not touch RAX. -/
theorem syscallReturn_rax : (run (m.atExit env k rax) syscallReturn).cpu.regs .rax = rax := by
  have pops := run_pops_regs syscallRegs.reverse (m.atExit env k rax)
    (show Reg.rax ∉ _ by decide) (by decide)
  have last (s : State Sym) :
      (run s [.loadGs .rsp 0, .swapgs, .sysretq]).cpu.regs .rax = s.cpu.regs .rax := by
    simp only [run_cons, run_nil, Instr.exec, State.setReg, Cpu.setReg, reduceCtorEq, if_false]
  rw [syscallReturn_eq, run_append, last, pops, atExit_rax]

end Machine
end Coolos
