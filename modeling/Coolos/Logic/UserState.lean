import Coolos.Logic.FirstRun

/-!
# What a task finds when it goes on

Behind an interrupt everything it had, behind a system call what `syscall_entry` saved and the
Win64 convention keeps. `sysretq` loads the selectors from STAR, which nothing writes after
`Syscall_Init`.
-/

namespace Coolos

open Lib Lib.X86 PageAllocator

namespace Machine

variable {m m' : Machine} {env : Env}

/-! ## STAR, LSTAR and SFMASK -/

/-- What `syscall_entry` stores through GS is not on the stack it switches to. -/
def CellApart (m : Machine) : Prop :=
  ∀ j < 8, 2 * kernelStackSize ≤ (m.rsp0 - 1 - (m.cpu.kernelGsBase + loc j)).toNat

/-- STAR is as `Syscall_Init` wrote it, and neither base of GS points to the stack the entries
start on. -/
structure Settled (m : Machine) : Prop where
  star : m.cpu.star = 0x0013 <<< 48 ||| kernelCodeSel <<< 32
  kernel : m.CellApart
  user : ∀ j < 8, 2 * kernelStackSize ≤ (m.rsp0 - 1 - (m.cpu.gsBase + loc j)).toNat

theorem Settled.congr (h : m.Settled) (rsp0 : m'.rsp0 = m.rsp0) (msrs : m'.cpu.msrs = m.cpu.msrs)
    (bases : m'.cpu.bases = m.cpu.bases ∨ m'.cpu.bases = m.cpu.bases.swap) : m'.Settled := by
  have star : m'.cpu.star = m.cpu.star := (Prod.mk.inj msrs).1
  refine ⟨star.trans h.star, ?_, ?_⟩
  · intro j hj
    rcases bases with same | swapped
    · rw [rsp0, (Prod.mk.inj same).2]
      exact h.kernel j hj
    · rw [rsp0, (Prod.mk.inj swapped).2]
      exact h.user j hj
  · intro j hj
    rcases bases with same | swapped
    · rw [rsp0, (Prod.mk.inj same).1]
      exact h.user j hj
    · rw [rsp0, (Prod.mk.inj swapped).1]
      exact h.kernel j hj

end Machine

/-! ## One step -/

namespace MachineRun

variable {s s' : MachineRun} {op : MachineOp}

end MachineRun
end Coolos
