import Coolos.Logic.UserHeap
import Coolos.Logic.HeapRun

/-!
# The heap seen from ring 3

`SYSCALL_KMALLOC` should hand its caller a block, to keep until a
`SYSCALL_KFREE`. Its case has no `break`: whenever there is a block to hand out,
the call frees it and returns 0.
-/

namespace Coolos.Theorems

open Lib Lib.X86 HeapBlock

/-- `SYSCALL_KMALLOC` returns by the normal path with a block of its own. -/
def Delivers (s : UserHeapRun) (env : Env) : Prop :=
  ∃ m, s.machine.syscall env = .returned m ∧ m.cpu.regs .rax ≠ 0 ∧
    Allocated m.kernel.heap (m.cpu.regs .rax) ∧ m.cpu.regs .rax ∉ s.owned

/-- User code is about to call `SYSCALL_KMALLOC` and a free block is large
enough. -/
def Serviceable (s : UserHeapRun) : Prop :=
  s.machine.cpu.regs .rax = syscallKmalloc ∧
    HasRoom s.machine.kernel.heap (s.machine.cpu.regs .rdi)

/-- A call that can be served is, and what was handed out stays allocated and is
handed out once. -/
structure UserOwnership (s : UserHeapRun) : Prop where
  delivers : Serviceable s → ∀ env, Delivers s env
  kept : ∀ p ∈ s.owned, Allocated s.machine.kernel.heap p
  once : s.owned.Nodup

/-- No `SYSCALL_KMALLOC` delivers. -/
theorem not_delivers {s : UserHeapRun} (call : s.machine.cpu.regs .rax = syscallKmalloc)
    (env : Env) : ¬ Delivers s env := by
  rintro ⟨m, run, nonzero, -⟩
  rcases kmalloc_rax call env with waits | ⟨m', run', zero⟩
  · rw [waits] at run
    exact absurd run (by simp)
  · obtain rfl : m' = m := Machine.SyscallExit.returned.inj (run'.symm.trans run)
    exact nonzero zero

/-- In every run user code gets what it is promised exactly as long as it calls
`SYSCALL_KMALLOC` only when no free block is large enough. -/
theorem user_ownership_iff : ∀ s, UserHeapRun.sys.Reachable s →
    (UserOwnership s ↔ ¬ Serviceable s) := by
  intro s hs
  have none : s.owned = [] := UserHeapRun.owned_nil s hs
  constructor
  · intro own can
    exact not_delivers can.1 ⟨⟨fun _ => 0, fun _ => 0⟩, [], 0, 0⟩ (own.delivers can _)
  · intro cannot
    exact ⟨fun can => absurd can cannot, by simp [none], by simp [none]⟩

/-- User code about to ask for 100 bytes of a fresh heap of 64K. -/
def asking : UserHeapRun where
  machine :=
    { cpu :=
        { regs := fun r => if r = .rax then syscallKmalloc else if r = .rdi then 100 else 0
          rip := 0, rflags := 0, cs := 0, ss := 0, gsBase := 0, kernelGsBase := 0, star := 0
          lstar := 0, sfmask := 0 }
      kernel := { Kernel.statics with heap := Heap.init (fun _ => 0) 0x1000 0x10000 }
      rsp0 := 0x20000
      idt := fun _ => 0 }
  owned := []

theorem asking_reachable : UserHeapRun.sys.Reachable asking := by
  have inv : HeapInv (Heap.init (fun _ => 0) 0x1000 0x10000) _ _ _ :=
    heapInit_inv _ (by decide) (by decide) (by decide) (by decide)
  exact .init ⟨⟨0x1000, 0x10000, _, inv.listWellFormed⟩, rfl⟩

theorem asking_serviceable : Serviceable asking := by
  have next :
      (read asking.machine.kernel.heap.mem asking.machine.kernel.heap.freeList).next = 0 := by
    decide
  refine ⟨rfl, [0x1000], .cons (by decide) ?_, 0x1000, List.mem_singleton_self _, ?_⟩
  · rw [next]
    exact .nil
  · decide

theorem user_ownership_asking : ¬ UserOwnership asking := fun own =>
  (user_ownership_iff asking asking_reachable).mp own asking_serviceable

/-- The call comes back with 0. -/
theorem user_ownership_broken : ¬ UserHeapRun.sys.Invariant UserOwnership := by
  intro claim
  have delivers := (claim asking asking_reachable).delivers asking_serviceable
  exact not_delivers rfl ⟨⟨fun _ => 0, fun _ => 0⟩, [], 0, 0⟩ (delivers _)

end Coolos.Theorems
