import Coolos.Logic.Entry
import Coolos.Logic.HeapList
import Coolos.Logic.Syscall
import Coolos.Lib.TSys

/-!
# Runs of the heap system calls

User code calling `SYSCALL_KMALLOC` and `SYSCALL_KFREE` over the kernel's heap.
The call that allocates runs on into the one that frees: it returns 0, so user code never comes
to own a block.
-/

namespace Coolos

open Lib Lib.X86 Lib.BlockList HeapBlock

/-! ## One call -/

section Call

variable {m : Machine}

theorem handled_kmalloc (call : m.cpu.regs .rax = syscallKmalloc) (env : Env) :
    m.handled env =
      { m.kernel with mem := m.atHandler.mem }.kmallocCase (m.cpu.regs .rdi) := by
  rw [Machine.handled_eq, call]
  rfl

/-- Whatever the heap, `SYSCALL_KMALLOC` comes back with 0 if it comes back. -/
theorem kmalloc_rax (call : m.cpu.regs .rax = syscallKmalloc) (env : Env) :
    m.syscall env = .waiting ∨
      ∃ m', m.syscall env = .returned m' ∧ m'.cpu.regs .rax = 0 := by
  cases result : (m.handled env).2 with
  | none => exact .inl (Machine.syscall_waiting result)
  | some rax =>
      right
      obtain rfl : rax = 0 := by
        rw [handled_kmalloc call] at result
        exact (Kernel.kmallocCase_frame ..).2 rax result
      exact ⟨_, Machine.syscall_returned (Prod.ext rfl result), Machine.syscallReturn_rax⟩

end Call

/-! ## Runs -/

/-- `ptr` is the payload of an allocated block on the list. -/
def Allocated (h : Heap) (ptr : Word) : Prop :=
  ∃ ps, ListFrom h.mem h.freeList ps ∧ ptr - sizeofHeapBlock ∈ ps ∧
    (read h.mem (ptr - sizeofHeapBlock)).free = 0

/-- Ring 3 at work: code that sets registers, and the two system calls. -/
inductive UserHeapOp where
  | user (regs : Reg → Word)
  | kmalloc (env : Env)
  | kfree (env : Env)

/-- The machine and the addresses user code was given and has not freed. -/
structure UserHeapRun where
  machine : Machine
  owned : List Word

namespace UserHeapRun

/-- The record after `SYSCALL_KMALLOC` returned `ptr`. -/
def grant (owned : List Word) (ptr : Word) : List Word := if ptr = 0 then owned else ptr :: owned

/-- User code frees `NULL` or an allocated block. -/
def next (s : UserHeapRun) : UserHeapOp → UserHeapRun → Prop
  | .user regs, s' =>
      s' = { s with machine := { s.machine with cpu := { s.machine.cpu with regs := regs } } }
  | .kmalloc env, s' =>
      s.machine.cpu.regs .rax = syscallKmalloc ∧
        ∃ m, s.machine.syscall env = .returned m ∧ s' = ⟨m, grant s.owned (m.cpu.regs .rax)⟩
  | .kfree env, s' =>
      s.machine.cpu.regs .rax = syscallKfree ∧
        (s.machine.cpu.regs .rdi = 0 ∨ Allocated s.machine.kernel.heap (s.machine.cpu.regs .rdi)) ∧
        ∃ m, s.machine.syscall env = .returned m ∧
          s' = ⟨m, s.owned.erase (s.machine.cpu.regs .rdi)⟩

/-- Runs on a well-formed heap. -/
def sys : TSys UserHeapRun UserHeapOp where
  init s := (∃ start size ps, ListWellFormed s.machine.kernel.heap start size ps) ∧ s.owned = []
  next := next

/-- User code owns nothing in any run. -/
theorem owned_nil : sys.Invariant fun s => s.owned = [] := by
  refine TSys.Inductive.invariant ⟨fun s init => init.2, ?_⟩
  rintro s op s' inv step
  cases op with
  | user regs =>
      obtain rfl : s' = _ := step
      exact inv
  | kmalloc env =>
      obtain ⟨call, m, run, rfl⟩ := step
      rcases kmalloc_rax call env with waits | ⟨m', run', zero⟩
      · rw [waits] at run
        exact absurd run (by simp)
      · obtain rfl : m' = m := Machine.SyscallExit.returned.inj (run'.symm.trans run)
        rw [grant, if_pos zero]
        exact inv
  | kfree env =>
      obtain ⟨-, -, m, -, rfl⟩ := step
      show s.owned.erase _ = []
      rw [inv, List.erase_nil]

end UserHeapRun
end Coolos
