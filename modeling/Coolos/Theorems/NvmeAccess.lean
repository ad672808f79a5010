import Coolos.Logic.NvmeCalls

/-!
# NVMe system calls with and without a controller

`KernelMain` goes on to ring 3 when the scan finds no controller. The queue record is
then the zero static, and `SYSCALL_NVME_READ` and `SYSCALL_NVME_WRITE` use it all the
same.
-/

namespace Coolos.Theorems

open Lib

/-- The access goes through a base or a doorbell of `q₀`, a base at an index below a size
that is not 0. -/
def SetUp (q₀ : NvmeQueue) : NvmeAccess → Prop
  | .slot base index size => base = q₀.sqBase ∧ size ≠ 0 ∧ index < size
  | .entry base index size => base = q₀.cqBase ∧ size ≠ 0 ∧ index < size
  | .tailDoorbell addr => addr = q₀.doorbellTail
  | .headDoorbell addr => addr = q₀.doorbellHead

/-- Both NVMe calls, with any arguments and whatever the controller posts, dereference only
what `NVMe_SetupIOQueues` has set up: the pointers of `q₀`, or nothing. -/
def NvmeCallsSafe (setup : Option NvmeQueue) (k : Kernel) : Prop :=
  ∀ n, n = syscallNvmeRead ∨ n = syscallNvmeWrite → ∀ a1 a2 a3 a4 polls,
    ∀ a ∈ k.nvmeAccesses n a1 a2 a3 a4 polls, ∃ q₀ ∈ setup, SetUp q₀ a

theorem setUp_of_through {q₀ : NvmeQueue} {a : NvmeAccess} (size : 0 < q₀.size)
    (through : a.Through q₀) : SetUp q₀ a := by
  have index {i : BitVec 16} (h : RingIndex q₀.size i) : i < q₀.size := by
    rcases h with lt | rfl
    · exact lt
    · exact size
  have nonzero : q₀.size ≠ 0 := by
    intro zero
    rw [zero] at size
    exact absurd size (by decide)
  cases a with
  | slot base i n =>
      obtain ⟨same, rfl, within⟩ := through
      exact ⟨same, nonzero, index within⟩
  | entry base i n =>
      obtain ⟨same, rfl, within⟩ := through
      exact ⟨same, nonzero, index within⟩
  | tailDoorbell addr => exact through
  | headDoorbell addr => exact through

/-- A read writes its command first. -/
theorem slot_mem_nvmeAccesses (k : Kernel) (a1 a2 a3 a4 : Word) (polls : List NvmeCQEntry) :
    .slot k.ioQueue.sqBase k.ioQueue.tail k.ioQueue.size ∈
      k.nvmeAccesses syscallNvmeRead a1 a2 a3 a4 polls := by
  rw [Kernel.nvmeAccesses, if_pos (.inr rfl)]
  exact NvmeTrace.mem_waitForCompletion 100 polls List.mem_cons_self

/-- In every state of every run after boot, NVMe calls are safe exactly when the scan has
found a controller. -/
theorem nvme_calls_safe_iff (f : Firmware) (buffers : NvmeBuffers)
    (config : BitVec 32 → BitVec 32) : (NvmeCalls.sys f buffers config).Invariant fun s =>
      NvmeCallsSafe (setupQueue buffers config) s.kernel ↔ (Pci.found config).isSome = true := by
  intro s hs
  obtain ⟨-, keeps⟩ := NvmeCalls.keeps_invariant f buffers config s hs
  rw [NvmeCalls.bootQueue] at keeps
  rw [setupQueue] at keeps ⊢
  generalize Pci.found config = found at keeps ⊢
  cases found with
  | none =>
      constructor
      · intro safe
        obtain ⟨q₀, none, -⟩ := safe syscallNvmeRead (.inl rfl) 0 0 0 0 [] _
          (slot_mem_nvmeAccesses s.kernel 0 0 0 0 [])
        cases none
      · intro found
        cases found
  | some d =>
      constructor
      · intro _
        rfl
      · intro _ n _ a1 a2 a3 a4 polls a ha
        refine ⟨_, rfl, setUp_of_through (show (0 : BitVec 16) < 64 by decide) ?_⟩
        exact Kernel.nvmeAccesses_through keeps n a1 a2 a3 a4 polls a ha

/-- Without a controller every access goes through a null pointer, whatever was called
before. -/
theorem nvme_calls_null (f : Firmware) (buffers : NvmeBuffers) (config : BitVec 32 → BitVec 32)
    (absent : Pci.found config = none) : (NvmeCalls.sys f buffers config).Invariant fun s =>
      ∀ n a1 a2 a3 a4 polls, ∀ a ∈ s.kernel.nvmeAccesses n a1 a2 a3 a4 polls,
        a.Through Kernel.statics.ioQueue := by
  intro s hs n a1 a2 a3 a4 polls
  obtain ⟨-, keeps⟩ := NvmeCalls.keeps_invariant f buffers config s hs
  rw [NvmeCalls.bootQueue, setupQueue, absent] at keeps
  exact Kernel.nvmeAccesses_through keeps n a1 a2 a3 a4 polls

/-- On a machine without PCI devices ring 3 is entered, and a read writes its command to
address 0. -/
theorem nvme_calls_unsafe : ¬ ∀ (f : Firmware) (buffers : NvmeBuffers)
    (config : BitVec 32 → BitVec 32), (NvmeCalls.sys f buffers config).Invariant fun s =>
      NvmeCallsSafe (setupQueue buffers config) s.kernel := by
  intro claim
  have absent : Pci.found (fun _ => 0xFFFFFFFF) = none := by
    -- all ones is what a bus without devices reads as
    have vendor : ∀ bus device,
        (Pci.statics fun _ => 0xFFFFFFFF).read16 bus device 0 0x00 = 0xFFFF := by
      intro bus device
      show BitVec.truncate 16 ((0xFFFFFFFF : BitVec 32) >>> ((0 &&& 2 : BitVec 8).toNat * 8)) = _
      decide
    rw [Pci.found, Pci.init, Pci.scanBus_absent vendor]
    rfl
  have answers : NvmeAnswers := ⟨[], [], [], [], [], []⟩
  obtain ⟨k, run⟩ : ∃ k, Kernel.statics.nvmeSetup 0 ⟨0, 0, 0, 0, 0⟩ answers
      (fun _ => 0xFFFFFFFF) = some k := by
    rw [Kernel.nvmeSetup, ← Pci.found, absent]
    exact ⟨_, rfl⟩
  have safe := claim ⟨[], 0, 0, 0, 0, 0, 0⟩ ⟨0, 0, 0, 0, 0⟩ (fun _ => 0xFFFFFFFF) ⟨k, 0, .running⟩
    (.init ⟨rfl, Kernel.statics, answers, rfl, run⟩)
  rw [setupQueue, absent] at safe
  obtain ⟨q₀, none, -⟩ := safe syscallNvmeRead (.inl rfl) 0 0 0 0 [] _
    (slot_mem_nvmeAccesses k 0 0 0 0 [])
  cases none

end Coolos.Theorems
