import Coolos.Logic.Entry

/-!
# The arguments of a system call

`syscall_entry` means to move RAX, RDI, RSI, RDX, R10 and R8 into the six
argument places of the Win64 convention. The moves are one after another and
RDX is both a source and a destination.
-/

namespace Coolos.Theorems

open Lib Lib.X86 Machine

/-- The arguments as user code holds them at the `SYSCALL` instruction. -/
def userArgs (c : Cpu) : CallArgs where
  sysNum := c.regs .rax
  a1 := c.regs .rdi
  a2 := c.regs .rsi
  a3 := c.regs .rdx
  a4 := c.regs .r10
  a5 := c.regs .r8

/-- The handler gets the user's arguments exactly when the third is the same as
the first. -/
theorem syscall_args_iff (m : Machine) :
    callArgs m.atHandler = userArgs m.cpu ↔ m.cpu.regs .rdx = m.cpu.regs .rdi := by
  rw [callArgs_atHandler]
  constructor
  · intro same
    exact (congrArg CallArgs.a3 same).symm
  · intro same
    rw [userArgs, same]

/-- User code with 1 in RDI and 2 in RDX. -/
def twoArgs : Machine where
  cpu :=
    { regs := fun r => if r = .rdi then 1 else if r = .rdx then 2 else 0
      rip := 0, rflags := 0, cs := 0, ss := 0, gsBase := 0, kernelGsBase := 0, star := 0
      lstar := 0, sfmask := 0 }
  kernel := Kernel.statics
  rsp0 := 0x5000
  idt := fun _ => 0

/-- The handler gets 1 for `a3` as well. -/
theorem syscall_args_clobbered : ¬ ∀ m : Machine, callArgs m.atHandler = userArgs m.cpu := by
  intro claim
  have a3 := congrArg CallArgs.a3 (claim twoArgs)
  rw [callArgs_atHandler] at a3
  exact absurd a3 (by decide)

end Coolos.Theorems
