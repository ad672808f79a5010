import Coolos.Kernel.Interrupt
import Coolos.Kernel.Syscall
import Coolos.Lib.X86

/-!
# Entering and leaving the kernel (`interrupt.c`, `syscall_entry.S`)

The hand-written code between ring 3 and the C functions: the interrupt stubs
with `isr_common` and `isr_restore`, and `syscall_entry`. `Machine` is the CPU,
the kernel and the one stack both entries start on, `tss.rsp0`.
-/

namespace Coolos

open Lib Lib.X86

/-- The static that `syscall_entry` reads by name: `rsp0`, at `tss+4`. -/
inductive Sym where
  | tssRsp0

structure Machine where
  cpu : Cpu
  kernel : Kernel
  rsp0 : Word
  /-- The offset in each gate of the IDT. -/
  idt : Word → Word

/-- What an entry finds outside the kernel's own state: what compiled code
leaves in registers and on the stack, and what the devices answer. -/
structure Env where
  junk : Junk
  polls : List NvmeCQEntry
  scancode : BitVec 8
  cr2 : Word

/-- The size `KernelMain` allocates for the kernel stack. -/
def kernelStackSize : Nat := 4096

namespace Machine

def state (m : Machine) : State Sym := ⟨m.cpu, m.kernel.mem, fun _ => m.rsp0⟩

/-! ## Interrupts -/

/-- `ISR_NOERR(n)`, up to `isr_common`. -/
def isrNoErr (n : Word) : List (Instr Sym) := [.pushImm 0, .pushImm n]

/-- The registers in the order `isr_common` pushes them. -/
def isrRegs : List Reg :=
  [.rax, .rbx, .rcx, .rdx, .rbp, .rdi, .rsi, .r8, .r9, .r10, .r11, .r12, .r13, .r14, .r15]

/-- `isr_common` up to the call of `ExceptionHandler`. -/
def isrCommon : List (Instr Sym) :=
  isrRegs.map .push ++ [.mov .rcx .rsp, .mov .rbp .rsp, .andImm .rsp (-16), .subImm .rsp 32]

/-- `isr_restore`. -/
def isrRestore : List (Instr Sym) := isrRegs.reverse.map .pop ++ [.addImm .rsp 16, .iretq]

/-- An interrupt taken in ring 3 on a vector with an `ISR_NOERR` stub, `none`
when `ExceptionHandler` stops. -/
def interrupt (m : Machine) (vector : Word) (env : Env) : Option Machine :=
  let s := m.state.interrupt m.rsp0 (m.idt vector) (kernelCodeSel.truncate 16)
  let s := run s (isrNoErr vector ++ isrCommon)
  let (k, result) := { m.kernel with mem := s.mem }.exceptionHandler (s.cpu.regs .rcx)
    env.scancode env.cr2
  match result with
  | none => none
  | some frame =>
      let s := s.afterCall 32 kernelStackSize frame k.mem env.junk
      let s := run s (.mov .rsp .rax :: isrRestore)
      some { m with cpu := s.cpu, kernel := { k with mem := s.mem } }

/-! ## System calls -/

/-- `syscall_entry` up to the call of `Syscall_Handler`. -/
def syscallEntry : List (Instr Sym) :=
  [.swapgs, .storeGs 0 .rsp, .loadSym .rsp .tssRsp0,
    .push .rcx, .push .r11, .push .rbp, .push .rbx, .push .r12, .push .r13, .push .r14, .push .r15,
    .subImm .rsp 48, .store .rsp 32 .r10, .store .rsp 40 .r8,
    .mov .rcx .rax, .mov .rdx .rdi, .mov .r8 .rsi, .mov .r9 .rdx]

/-- `syscall_entry` from "Restore Registers" on. -/
def syscallReturn : List (Instr Sym) :=
  [.pop .r15, .pop .r14, .pop .r13, .pop .r12, .pop .rbx, .pop .rbp, .pop .r11, .pop .rcx,
    .loadGs .rsp 0, .swapgs, .sysretq]

/-- `switch_task_from_syscall`. -/
def switchTaskFromSyscall : List (Instr Sym) := .mov .rsp .rax :: isrRestore

/-- The six arguments of a Win64 call about to be made. -/
structure CallArgs where
  sysNum : Word
  a1 : Word
  a2 : Word
  a3 : Word
  a4 : Word
  a5 : Word
  deriving DecidableEq

def callArgs (s : State Sym) : CallArgs :=
  { sysNum := s.cpu.regs .rcx, a1 := s.cpu.regs .rdx, a2 := s.cpu.regs .r8, a3 := s.cpu.regs .r9
    a4 := s.mem.read64 (s.cpu.regs .rsp + 32), a5 := s.mem.read64 (s.cpu.regs .rsp + 40) }

/-- The state in which `syscall_entry` calls `Syscall_Handler`, from a `SYSCALL`
instruction whose successor is at `rip`. -/
def atHandler (m : Machine) : State Sym :=
  run { m.state with cpu := m.cpu.syscall } syscallEntry

/-- How a system call ends: by `sysretq`, by resuming another task through
`isr_restore`, or not yet. -/
inductive SyscallExit where
  | returned (m : Machine)
  | switched (m : Machine)
  | waiting

/-- A `SYSCALL` instruction executed in ring 3. -/
def syscall (m : Machine) (env : Env) : SyscallExit :=
  let s := m.atHandler
  let args := callArgs s
  let (k, result) := { m.kernel with mem := s.mem }.syscallHandler args.sysNum args.a1 args.a2
    args.a3 args.a4 args.a5 env.polls
  match result with
  | none => .waiting
  | some rax =>
      let s := s.afterCall 48 kernelStackSize rax k.mem env.junk
      let s := run s [.addImm .rsp 48, .test .rax .rax]
      if s.cpu.rflags &&& zf ≠ 0 then
        let s := run s syscallReturn
        .returned { m with cpu := s.cpu, kernel := { k with mem := s.mem } }
      else
        let s := run s switchTaskFromSyscall
        .switched { m with cpu := s.cpu, kernel := { k with mem := s.mem } }

end Machine
end Coolos
