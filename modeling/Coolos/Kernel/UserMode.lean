import Coolos.Kernel.Boot
import Coolos.Kernel.Entry

/-!
# Into ring 3 (`syscall.c`, `main.c`)

`Syscall_Init`, which sets up the `SYSCALL` instruction, and `SwitchToUserMode`,
which `KernelMain` ends in.
-/

namespace Coolos
namespace Machine

open Lib Lib.X86

/-- `Syscall_Init`. `entry` is the address of `syscall_entry`; EFER is left out. -/
def syscallInit (m : Machine) (entry : Word) : Machine :=
  let cpuData := (m.kernel.pages.alloc 1).2
  { m with
    kernel := m.kernel.syscallInit
    cpu := { m.cpu with
      kernelGsBase := if cpuData ≠ 0 then cpuData else m.cpu.kernelGsBase
      star := 0x0013 <<< 48 ||| kernelCodeSel <<< 32
      lstar := entry
      sfmask := 0x200 } }

/-- `SwitchToUserMode`. Of the data segments only GS has a base that is used later,
and the descriptor loaded makes it 0. -/
def switchToUserMode (m : Machine) (entryPoint userStack : Word) : Machine :=
  let s : State Sym := { m.state with cpu := { m.cpu with gsBase := 0 } }
  let s := s.pushWords [userDataSel, userStack]
  -- `pushfq`, `popq %rax`, `orq $0x200, %rax`
  let s := Instr.exec (s.pushWords [s.cpu.rflags]) (.pop .rax)
  let s := s.setReg .rax (s.cpu.regs .rax ||| 0x200)
  let s := s.pushWords [s.cpu.regs .rax, userCodeSel, entryPoint]
  let s := Instr.exec s .iretq
  { m with cpu := s.cpu, kernel := { m.kernel with mem := s.mem } }

end Machine
end Coolos
