import Coolos.Kernel.Main
import Coolos.Logic.Confined
import Coolos.Logic.HeapClients
import Coolos.Logic.InterruptFlag
import Coolos.Logic.MappedRun
import Coolos.Logic.NvmeCalls

/-!
# From the firmware to ring 3

What each stage of `KernelMain` leaves for those behind it. The interrupts that arrive on the
way find one task, so they only draw and count. The first two blocks of a heap just set up
are the stacks.
-/

namespace Coolos

open Lib Lib.X86 Lib.BlockList PageAllocator

namespace Kernel

variable {k k' : Kernel}

/-! ## The controller -/

theorem identifyController_touches {admin admin' : NvmeQueue} {buffers : NvmeBuffers}
    {answers : NvmeAnswers}
    (run : k.identifyController admin buffers answers = some (k', admin')) :
    ∃ g, k' = { k with graphics := g } := by
  rw [identifyController, Option.bind_eq_bind, Option.bind_eq_some_iff] at run
  obtain ⟨_, -, run⟩ := run
  exact ⟨_, (Prod.mk.inj (Option.some.inj run)).1.symm⟩

theorem memoryMapMmio_step {pml4 physAddr size : Word}
    (run : k.memoryMapMmio pml4 physAddr size = some k') : PageStep k k' := by
  unfold memoryMapMmio at run
  split at run
  · obtain rfl := Option.some.inj run
    exact .of_same rfl fun _ => id
  · exact (mapRange_step run).1

/-- Setting up the controller maps its registers, talks, and fills in the queue. -/
theorem nvmeInit_touches {pml4 : Word} {buffers : NvmeBuffers} {answers : NvmeAnswers}
    {d : PciDevice} (run : k.nvmeInit pml4 buffers answers (some d) = some k') :
    PageStep k k' ∧ ∃ mem pages g q,
      k' = { k with mem := mem, pages := pages, graphics := g, ioQueue := q } := by
  rw [nvmeInit, Option.bind_eq_bind, Option.bind_eq_some_iff] at run
  obtain ⟨k₁, mapped, run⟩ := run
  have step := memoryMapMmio_step mapped
  obtain ⟨mem, pages, rfl⟩ := memoryMapMmio_touches mapped
  -- the controller has become ready both times
  split at run
  · cases run
  split at run
  · cases run
  rw [Option.bind_eq_bind, Option.bind_eq_some_iff] at run
  obtain ⟨⟨k₂, admin⟩, identified, run⟩ := run
  rw [Option.bind_eq_bind, Option.bind_eq_some_iff] at run
  obtain ⟨queues, -, run⟩ := run
  obtain ⟨g, rfl⟩ := identifyController_touches identified
  obtain rfl := Option.some.inj run
  exact ⟨step.trans (.of_same rfl fun _ => id), _, _, _, _, rfl⟩

theorem nvmeSetup_touches {pml4 : Word} {buffers : NvmeBuffers} {answers : NvmeAnswers}
    {config : BitVec 32 → BitVec 32} (run : k.nvmeSetup pml4 buffers answers config = some k') :
    PageStep k k' ∧ ∃ mem pages g q,
      k' = { k with mem := mem, pages := pages, graphics := g, ioQueue := q } := by
  rw [nvmeSetup] at run
  cases found : (Pci.statics config).init.getNVMeController with
  | some d =>
      rw [found, setupController] at run
      exact nvmeInit_touches run
  | none =>
      rw [found, setupController] at run
      generalize k.graphics.print 100 600 (Graphics.ascii "PCI: NO NVME FOUND") 0xDC322F = g at run
      obtain rfl := Option.some.inj run
      exact ⟨.of_same rfl fun _ => id, _, _, _, _, rfl⟩

/-! ## Interrupts on the way -/

theorem successor_init : Scheduler.zero.init.successor = none := by decide

/-- With one task, an interrupt draws and counts. -/
theorem arrive_touches (main : k.sched = Scheduler.zero.init) (a : Arrival) :
    ∃ g t c e, k.arrive a = { k with graphics := g, ticks := t, lastChar := c, eois := e } := by
  have eoi : k.sendEOI.sched = Scheduler.zero.init := main
  cases a with
  | timer => exact ⟨_, _, _, _, rfl⟩
  | keyboard scancode =>
      show ∃ g t c e, (k.keyboardHandler 0 scancode).1 = _
      rcases k.keyboardHandler_cases 0 scancode with ⟨-, run⟩ | ⟨-, run⟩ | ⟨-, -, g, c, run⟩
      · rw [run]
        rcases k.sendEOI.switch_cases 0 with ⟨next, g, succ, -⟩ | ⟨-, g, run⟩
        · rw [eoi, successor_init] at succ
          cases succ
        · rw [run]
          exact ⟨_, _, _, _, rfl⟩
      · obtain ⟨g, alone⟩ := k.sendEOI.terminate_main 0 (by rw [eoi]; rfl)
        rw [run, alone]
        exact ⟨_, _, _, _, rfl⟩
      · rw [run]
        exact ⟨_, _, _, _, rfl⟩

theorem arriveAll_touches (arrivals : List Arrival) : ∀ {k : Kernel},
    k.sched = Scheduler.zero.init → ∃ g t c e,
      k.arriveAll arrivals = { k with graphics := g, ticks := t, lastChar := c, eois := e } := by
  -- one after the other, the task table as it is
  induction arrivals with
  | nil => intro k _; exact ⟨_, _, _, _, rfl⟩
  | cons a arrivals ih =>
      intro k main
      obtain ⟨g, t, c, e, one⟩ := arrive_touches main a
      obtain ⟨g', t', c', e', rest⟩ := ih (k := k.arrive a) (by rw [one]; exact main)
      refine ⟨g', t', c', e', ?_⟩
      show (k.arrive a).arriveAll arrivals = _
      rw [rest, one]

/-! ## The stacks -/

/-- Two blocks from a heap of one free block. -/
theorem fresh_kmalloc {m : Mem} {start : Word} (region : HeapRegion start (4096 * 4096)) :
    ∃ h₁ h₂, (Heap.init m start (4096 * 4096)).kmalloc 4096 = some (h₁, start + 32) ∧
      h₁.kmalloc 4096 = some (h₂, start + 4160) := by
  have size : (4096 * 4096 : Word).toNat = 16777216 := rfl
  have small : (4096 : Word).toNat = 4096 := rfl
  have top := region.top
  have inv := heapInit_inv m region.pos region.room (by omega) (by omega)
  -- the block there is fits
  rcases kmalloc_spec inv 4096 with ⟨pre, b, post, h₁, fit, run₁, inv₁, -⟩ | ⟨none, -⟩
  · obtain ⟨rfl, rfl, rfl⟩ : pre = [] ∧ b = ⟨16777216 - 32, true⟩ ∧ post = [] := by
      have := fit.split
      cases pre with
      | nil => simpa [size, eq_comm] using this
      | cons c cs => simp at this
    have carved : carve 32 16 4096 ⟨16777216 - 32, true⟩ =
        [⟨4096, false⟩, ⟨16777216 - 32 - 4096 - 32, true⟩] := by decide
    simp only [List.nil_append, List.append_nil, small, carved] at inv₁
    rcases kmalloc_spec inv₁ 4096 with ⟨pre, b, post, h₂, fit₂, run₂, -⟩ | ⟨none, -⟩
    · -- the first block is used, the second one fits
      have place : span 32 pre = 4128 := by
        have split := fit₂.split
        cases pre with
        | nil =>
            have first : (⟨4096, false⟩ : Block) = b := by
              simpa using (List.cons.inj split).1
            have free := fit₂.fits.1
            rw [← first] at free
            cases free
        | cons c cs =>
            obtain ⟨rfl, rest⟩ := List.cons.inj split
            cases cs with
            | nil => rfl
            | cons c' cs => simp at rest
      refine ⟨h₁, h₂, ?_, ?_⟩
      · rw [run₁]
        simp only [span_nil, Nat.add_zero, loc_add, loc_toNat]
        rfl
      · rw [run₂, place]
        simp only [loc_add, loc_toNat, BitVec.add_assoc]
        rfl
    · exact absurd (none ⟨16777216 - 32 - 4096 - 32, true⟩ (by simp)) (by decide)
  · exact absurd (none ⟨_, true⟩ List.mem_cons_self) (by rw [size, small]; decide)

/-- Without a heap there is no stack. -/
theorem kmalloc_none {h : Heap} (none : h.freeList = 0) (size : Word) :
    h.kmalloc size = some (h, 0) := by
  have step : Heap.search h.mem size (2 ^ 64) 0 = some 0 := by
    rw [show 2 ^ 64 = (2 ^ 64 - 1) + 1 from rfl, Heap.search, if_pos rfl]
  simp only [Heap.kmalloc, none, step, if_true]

theorem say_touches (k : Kernel) (x y : BitVec 32) (text : String) (color : BitVec 32) :
    ∃ g, k.say x y text color = { k with graphics := g } := ⟨_, rfl⟩

/-- With a heap just set up both stacks are there. -/
theorem prepareUserMode_fresh {m : Mem} {start : Word} (region : HeapRegion start (4096 * 4096))
    (heap : k.heap = Heap.init m start (4096 * 4096)) : ∃ h g,
      k.prepareUserMode = ({ k with heap := h, graphics := g },
        some (start + 32 + 4096, start + 4160 + 4096)) := by
  obtain ⟨h₁, h₂, first, second⟩ := fresh_kmalloc (m := m) region
  have top := region.top
  have pos := region.start_pos
  have size : (4096 * 4096 : Word).toNat = 16777216 := rfl
  have kernelStack : start + 32 ≠ 0 := by bv_omega
  have userStack : start + 4160 ≠ 0 := by bv_omega
  rw [← heap] at first
  obtain ⟨g, preparing⟩ := k.say_touches 100 525 "PREPARING USER MODE..." 0x268BD2
  obtain ⟨g', switching⟩ := Kernel.say_touches { k with heap := h₂, graphics := g } 100 550
    "SWITCHING TO RING 3..." 0x859900
  refine ⟨h₂, g', ?_⟩
  rw [prepareUserMode, preparing]
  simp only [first, second, if_neg kernelStack, if_neg userStack]
  rw [switching]

/-- Without one there is none. -/
theorem prepareUserMode_empty (empty : k.heap.freeList = 0) : k.prepareUserMode.2 = none := by
  obtain ⟨g, preparing⟩ := k.say_touches 100 525 "PREPARING USER MODE..." 0x268BD2
  have fail := kmalloc_none empty 4096
  rw [prepareUserMode, preparing]
  simp only [fail, if_true]

/-! ## Memory -/

theorem mapEntries_touches {pml4 : Word} {map : List MemoryDescriptor} : ∀ {k k' : Kernel},
    map.foldlM (mapEntry pml4) k = some k' →
      ∃ mem pages, k' = { k with mem := mem, pages := pages } := by
  induction map with
  | nil =>
      intro k k' run
      obtain rfl := Option.some.inj run
      exact ⟨_, _, rfl⟩
  | cons d map ih =>
      intro k k' run
      rw [List.foldlM_cons] at run
      obtain ⟨k₁, first, rest⟩ := Option.bind_eq_some_iff.mp run
      obtain ⟨m', p', left⟩ := ih rest
      rw [mapEntry] at first
      split at first
      · obtain ⟨m₁, p₁, one⟩ := mapRange_touches first
        rw [left, one]
        exact ⟨_, _, rfl⟩
      · obtain rfl := Option.some.inj first
        exact ⟨m', p', left⟩

/-- `PageTable_Init` touches memory and the page allocator. -/
theorem pageTableInit_touches {fbBase fbSize lapicAddr rsp pml4 : Word}
    {map : List MemoryDescriptor}
    (run : k.pageTableInit fbBase fbSize map lapicAddr rsp = some (k', pml4)) :
    ∃ mem pages, k' = { k with mem := mem, pages := pages } := by
  rw [pageTableInit] at run
  dsimp only [Option.bind_eq_bind] at run
  obtain ⟨k₁, run₁, run⟩ := Option.bind_eq_some_iff.mp run
  obtain ⟨k₂, run₂, run⟩ := Option.bind_eq_some_iff.mp run
  obtain ⟨k₄, run₄, run⟩ := Option.bind_eq_some_iff.mp run
  obtain ⟨k₅, run₅, run⟩ := Option.bind_eq_some_iff.mp run
  obtain ⟨rfl, -⟩ := Prod.mk.inj (Option.some.inj run)
  obtain ⟨m₁, p₁, one⟩ := mapEntries_touches run₁
  obtain ⟨m₂, p₂, two⟩ := mapRange_touches run₂
  obtain ⟨m₃, p₃, three⟩ : ∃ mem pages, (if lapicAddr ≠ 0 then
      k₂.pageTableMap (k.pages.alloc 1).2 lapicAddr lapicAddr pageWritable else k₂) =
      { k₂ with mem := mem, pages := pages } := by
    split
    · exact k₂.pageTableMap_touches ..
    · exact ⟨_, _, rfl⟩
  obtain ⟨m₄, p₄, four⟩ := mapRange_touches run₄
  obtain ⟨m₅, p₅, five⟩ := mapRange_touches run₅
  rw [five, four, three, two, one]
  exact ⟨_, _, rfl⟩

end Kernel

theorem stackBase_zero (i : Nat) : (Scheduler.zero.init.tasks i).stackBase = 0 := by
  unfold Scheduler.init
  dsimp only
  split
  · rfl
  split <;> rfl

/-- Where no task has a stack to give back, pages are only taken. -/
theorem PageStep.shrinks {k k' : Kernel} (step : PageStep k k')
    (none : ∀ i, (k.sched.tasks i).stackBase = 0) : k'.pages.clearPages ⊆ k.pages.clearPages := by
  intro p mem
  obtain ⟨range, clear⟩ := Finset.mem_filter.mp mem
  rw [step.total] at range
  rcases step.cleared p clear with before | ⟨i, stack, -⟩
  · exact Finset.mem_filter.mpr ⟨range, before⟩
  · exact absurd (none i) stack

/-! ## From `sti` on -/

/-- Tasks and handlers are the same, pages were only taken. -/
structure BootKept (k k' : Kernel) : Prop where
  sched : k'.sched = k.sched
  handlerTable : k'.handlerTable = k.handlerTable
  pages : k'.pages.clearPages ⊆ k.pages.clearPages

namespace Kernel

variable {k k' : Kernel}

theorem arriveAll_kept (main : k.sched = Scheduler.zero.init) (arrivals : List Arrival) :
    BootKept k (k.arriveAll arrivals) ∧ (k.arriveAll arrivals).heap = k.heap := by
  obtain ⟨g, t, c, e, eq⟩ := arriveAll_touches arrivals main
  rw [eq]
  exact ⟨⟨rfl, rfl, subset_rfl⟩, rfl⟩

theorem nvmeSetup_kept {pml4 : Word} {buffers : NvmeBuffers} {answers : NvmeAnswers}
    {config : BitVec 32 → BitVec 32} (main : k.sched = Scheduler.zero.init)
    (run : k.nvmeSetup pml4 buffers answers config = some k') :
    BootKept k k' ∧ k'.heap = k.heap := by
  obtain ⟨step, mem, pages, g, q, rfl⟩ := nvmeSetup_touches run
  refine ⟨⟨rfl, rfl, step.shrinks fun i => ?_⟩, rfl⟩
  rw [main]
  exact stackBase_zero i

theorem prepareUserMode_kept {m : Mem} {start : Word} (region : HeapRegion start (4096 * 4096))
    (heap : k.heap = Heap.init m start (4096 * 4096)) : ∃ k', BootKept k k' ∧
      k.prepareUserMode = (k', some (start + 32 + 4096, start + 4160 + 4096)) := by
  obtain ⟨h, g, prepared⟩ := prepareUserMode_fresh region heap
  refine ⟨_, ?_, prepared⟩
  exact ⟨rfl, rfl, subset_rfl⟩

end Kernel

theorem BootKept.trans {k k' k'' : Kernel} (one : BootKept k k') (two : BootKept k' k'') :
    BootKept k k'' :=
  ⟨two.sched.trans one.sched, two.handlerTable.trans one.handlerTable,
    two.pages.trans one.pages⟩

/-! ## The whole of it -/

/-- What `KernelMain` has set up when it calls `SwitchToUserMode` in the machine `m`. The heap
starts at `start`, the kernel stack is its first block. -/
structure Ready (image : Image) (b : Boot) (m : Machine) (start : Word) : Prop where
  gdt : b.gdt = (Gdt.init (fun _ => ⟨0, 0, 0, 0, 0, 0⟩) image.tss).1
  idt : b.idt = Idt.init (fun _ => ⟨0, 0, 0, 0, 0, 0, 0⟩) image.isr
  gates : m.idt = fun v => (b.idt (v.truncate 8)).offset
  tss : b.tss = { TSS.zero with rsp0 := m.rsp0, iomapBase := 104 }
  sched : m.kernel.sched = Scheduler.zero.init
  timer : m.kernel.handlerTable intTimer.toNat = some .timer
  keyboard : m.kernel.handlerTable intKeyboard.toNat = some .keyboard
  region : HeapRegion start (4096 * 4096)
  rsp0 : m.rsp0 = start + 32 + 4096
  /-- `Syscall_Init` was called, and pages were only taken since: those of the heap and
  others. -/
  calls : ∃ (m₀ : Machine) (pa pa' : PageAllocator),
    m.cpu.star = (m₀.syscallInit image.syscallEntry).cpu.star ∧
    m.cpu.lstar = image.syscallEntry ∧
    m.cpu.sfmask = (m₀.syscallInit image.syscallEntry).cpu.sfmask ∧
    m.cpu.kernelGsBase = (m₀.syscallInit image.syscallEntry).cpu.kernelGsBase ∧
    pa.clearPages ⊆ (m₀.syscallInit image.syscallEntry).kernel.pages.clearPages ∧
    pa.alloc 4096 = (pa', start) ∧ m.kernel.pages.clearPages ⊆ pa'.clearPages

namespace Boot

variable {b b' : Boot} {image : Image} {args : BootArgs} {env : BootEnv} {madt : Word}

theorem memory_some (h : b.memory image args env = some b') : ∃ k pml4,
    b.machine.kernel.pageTableInit args.fbBase
      (args.ppsl.zeroExtend 64 * args.height.zeroExtend 64 * 4) args.map (b.lapicAddr image args)
      env.rsp = some (k, pml4) ∧
    b' = { b with machine.kernel := k.heapSetup.greet, pml4 := pml4 } := by
  rw [memory, Option.bind_eq_bind, Option.bind_eq_some_iff] at h
  obtain ⟨⟨k, pml4⟩, run, h⟩ := h
  exact ⟨k, pml4, run, (Option.some.inj h).symm⟩

theorem interrupts_some (h : b.interrupts madt env = some b') : ∃ apic,
    b' = { b with apic := apic, machine.kernel := b.machine.kernel.schedulerSetup } := by
  rw [interrupts, Option.bind_eq_bind, Option.bind_eq_some_iff] at h
  obtain ⟨calibrated, -, h⟩ := h
  rw [Option.bind_eq_bind, Option.bind_eq_some_iff] at h
  obtain ⟨ioApic, -, h⟩ := h
  exact ⟨_, (Option.some.inj h).symm⟩

theorem greet_touches (k : Kernel) : ∃ g, k.greet = { k with graphics := g } :=
  Kernel.say_touches { k with graphics := k.graphics.clear 0xEEE8D5 } 100 100
    "HELLO FROM COOLOS KERNEL!" 0x268BD2

/-- The heap, if there was memory for it. -/
theorem heapSetup_heap (k : Kernel) : k.heapSetup.handlerTable = k.handlerTable ∧
    ((k.pages.alloc 4096).2 = 0 ∧ k.heapSetup.heap = k.heap ∨
      ∃ pa start m, k.pages.alloc 4096 = (pa, start) ∧
      HeapRegion start (4096 * 4096) ∧ k.heapSetup.heap = Heap.init m start (4096 * 4096)) := by
  rcases run : k.pages.alloc 4096 with ⟨pa, start⟩
  by_cases null : start = 0
  · simp only [Kernel.heapSetup, run, if_neg (not_not_intro null), true_and]
    exact .inl ⟨null, trivial⟩
  · simp only [Kernel.heapSetup, run, if_pos null, true_and]
    obtain ⟨i, -, addr, -, cleared, -⟩ := alloc_success run null
    have high := cleared.high
    have bound := k.pages.bounded
    have small : maxPages = 1048576 := rfl
    refine .inr ⟨pa, start, _, rfl, ⟨null, by decide, ?_⟩, rfl⟩
    rw [addr, show (4096 * 4096 : Word).toNat = 16777216 from rfl]
    omega

/-- The way from `sti` to the stacks. -/
theorem userMode_some (main : b.machine.kernel.sched = Scheduler.zero.init) {o : BootOutcome}
    (h : b.userMode image env = some o) : ∃ k, BootKept b.machine.kernel k ∧
      k.heap = b.machine.kernel.heap ∧
      match k.prepareUserMode with
      | (k, none) => o = .hung { b with machine.kernel := k }
      | (k, some (kernelStack, userStack)) => o = .ring3 { b with
          machine := ({ b.machine with
            kernel := k.arriveAll env.arrivals.2.2
            cpu := { b.machine.cpu with regs := env.regs, rflags := env.rflags }
            rsp0 := kernelStack } : Machine).switchToUserMode image.userMain userStack
          tss := b.tss.setStack kernelStack } := by
  rw [userMode, Option.bind_eq_bind, Option.bind_eq_some_iff] at h
  obtain ⟨k₁, controller, h⟩ := h
  -- each stage keeps what the next one rests on
  obtain ⟨before, same⟩ := Kernel.arriveAll_kept main env.arrivals.1
  obtain ⟨setup, same₁⟩ := Kernel.nvmeSetup_kept (before.sched.trans main) controller
  have kept₁ := before.trans setup
  obtain ⟨behind, same₂⟩ :=
    Kernel.arriveAll_kept (kept₁.sched.trans main) env.arrivals.2.1
  refine ⟨_, kept₁.trans behind, same₂.trans (same₁.trans same), ?_⟩
  dsimp only at h
  rcases prepared : (k₁.arriveAll env.arrivals.2.1).prepareUserMode with ⟨k, tops⟩
  rw [prepared] at h
  cases tops with
  | none => exact (Option.some.inj h).symm
  | some tops => exact (Option.some.inj h).symm

/-- Without a heap it is not left. -/
theorem userMode_hung (main : b.machine.kernel.sched = Scheduler.zero.init) {o : BootOutcome}
    (empty : b.machine.kernel.heap.freeList = 0) (h : b.userMode image env = some o) :
    ∃ b', o = .hung b' := by
  obtain ⟨k, -, heap, outcome⟩ := userMode_some main h
  have stuck := Kernel.prepareUserMode_empty (k := k) (by rw [heap]; exact empty)
  rcases prepared : k.prepareUserMode with ⟨k', tops⟩
  rw [prepared] at outcome stuck
  obtain rfl : tops = none := stuck
  exact ⟨_, outcome⟩

/-- With one ring 3 is entered, on two blocks of it. -/
theorem userMode_ring3 (main : b.machine.kernel.sched = Scheduler.zero.init) {o : BootOutcome}
    {start : Word} {m : Mem} (region : HeapRegion start (4096 * 4096))
    (heap : b.machine.kernel.heap = Heap.init m start (4096 * 4096))
    (h : b.userMode image env = some o) : ∃ k, BootKept b.machine.kernel k ∧
      o = .ring3 { b with
        machine := ({ b.machine with
          kernel := k
          cpu := { b.machine.cpu with regs := env.regs, rflags := env.rflags }
          rsp0 := start + 32 + 4096 } : Machine).switchToUserMode image.userMain
            (start + 4160 + 4096)
        tss := b.tss.setStack (start + 32 + 4096) } := by
  obtain ⟨k, kept, same, outcome⟩ := userMode_some main h
  obtain ⟨k', taken, prepared⟩ := Kernel.prepareUserMode_kept region (same.trans heap)
  have kept' := kept.trans taken
  obtain ⟨last, -⟩ := Kernel.arriveAll_kept (kept'.sched.trans main) env.arrivals.2.2
  rw [prepared] at outcome
  exact ⟨_, kept'.trans last, outcome⟩

/-- The instruction `SYSCALL` before memory is set up. -/
theorem setup_machine (cpu : Cpu) (mem : Mem) (idt : Word → Word) :
    let b := (loaded cpu mem idt).setup image args
    ∃ m₀ : Machine, b.machine.cpu = (m₀.syscallInit image.syscallEntry).cpu ∧
      b.machine.idt = (fun v => (b.idt (v.truncate 8)).offset) ∧
      b.machine.kernel.pages = (m₀.syscallInit image.syscallEntry).kernel.pages ∧
      b.machine.kernel.sched = Scheduler.zero ∧ b.machine.kernel.heap.freeList = 0 :=
  ⟨_, rfl, rfl, rfl, rfl, rfl⟩

theorem setup_tables (cpu : Cpu) (mem : Mem) (idt : Word → Word) :
    let b := (loaded cpu mem idt).setup image args
    b.gdt = (Gdt.init (fun _ => ⟨0, 0, 0, 0, 0, 0⟩) image.tss).1 ∧
      b.idt = Idt.init (fun _ => ⟨0, 0, 0, 0, 0, 0, 0⟩) image.isr ∧
      b.tss = { TSS.zero with iomapBase := 104 } := ⟨rfl, rfl, rfl⟩

/-- Both handlers are registered, and there is one task. -/
theorem schedulerSetup_handlers {k : Kernel} (zero : k.sched = Scheduler.zero) :
    k.schedulerSetup.sched = Scheduler.zero.init ∧
      k.schedulerSetup.handlerTable intTimer.toNat = some .timer ∧
      k.schedulerSetup.handlerTable intKeyboard.toNat = some .keyboard ∧
      k.schedulerSetup.heap = k.heap ∧ k.schedulerSetup.pages = k.pages := by
  refine ⟨?_, rfl, rfl, rfl, rfl⟩
  show k.sched.init = Scheduler.zero.init
  rw [zero]

theorem greet_same (k : Kernel) :
    k.greet.sched = k.sched ∧ k.greet.heap = k.heap ∧ k.greet.pages = k.pages := by
  obtain ⟨g, greeted⟩ := greet_touches k
  rw [greeted]
  exact ⟨rfl, rfl, rfl⟩

/-- Ring 3 is entered with everything set up. -/
theorem kernelMain_ring3 {cpu : Cpu} {mem : Mem} {idt : Word → Word}
    (h : (loaded cpu mem idt).kernelMain image args env = some (.ring3 b)) : ∃ m start,
      Ready image b m start ∧ m.cpu.rflags = env.rflags ∧
        b.machine = m.switchToUserMode image.userMain (start + 4160 + 4096) := by
  rw [kernelMain, Option.bind_eq_bind, Option.bind_eq_some_iff] at h
  obtain ⟨b₁, memory, h⟩ := h
  split at h
  swap
  · cases h
  obtain ⟨b₂, interrupts, h⟩ := Option.bind_eq_some_iff.mp h
  obtain ⟨m₀, call, offsets, left, zero, empty⟩ :=
    @setup_machine image args cpu mem idt
  obtain ⟨gdt, gates, tss⟩ := @setup_tables image args cpu mem idt
  generalize (loaded cpu mem idt).setup image args = b₀ at *
  obtain ⟨k, pml4, mapped, rfl⟩ := memory_some memory
  obtain ⟨apic, rfl⟩ := interrupts_some interrupts
  -- there were no stacks to give back
  obtain ⟨step, same⟩ := Kernel.pageTableInit_step mapped
  have taken := step.shrinks fun i => by
    rw [zero]
    rfl
  have unset : k.heap.freeList = 0 := by
    obtain ⟨mem', pages, rfl⟩ := Kernel.pageTableInit_touches mapped
    exact empty
  obtain ⟨pages, -, sched⟩ := k.heapSetup_touches
  obtain ⟨handlers, heap⟩ := heapSetup_heap k
  obtain ⟨sched', heap', pages'⟩ := greet_same k.heapSetup
  obtain ⟨main, timer, keyboard, heap₂, pages₂⟩ :=
    schedulerSetup_handlers (sched'.trans (sched.trans (same.trans zero)))
  rcases heap with ⟨-, old⟩ | ⟨pa, start, mem', alloc, region, fresh⟩
  · -- without a heap ring 3 is not entered
    obtain ⟨b', hung⟩ := userMode_hung main (by rw [heap₂, heap', old]; exact unset) h
    cases hung
  obtain ⟨k', kept, outcome⟩ := userMode_ring3 main region (by rw [heap₂, heap', fresh]) h
  obtain rfl := BootOutcome.ring3.inj outcome
  refine ⟨_, start, ?_, ?_, rfl⟩
  · constructor
    case gdt => exact gdt
    case idt => exact gates
    case gates => exact offsets
    case tss => show b₀.tss.setStack _ = _; rw [tss]; rfl
    case sched => exact kept.sched.trans main
    case timer => show k'.handlerTable _ = _; rw [kept.handlerTable, timer]
    case keyboard => show k'.handlerTable _ = _; rw [kept.handlerTable, keyboard]
    case region => exact region
    case rsp0 => rfl
    case calls =>
      refine ⟨m₀, k.pages, pa, ?_, ?_, ?_, ?_, ?_, alloc, ?_⟩
      · show b₀.machine.cpu.star = _
        rw [call]
      · show b₀.machine.cpu.lstar = _
        rw [call]
        rfl
      · show b₀.machine.cpu.sfmask = _
        rw [call]
      · show b₀.machine.cpu.kernelGsBase = _
        rw [call]
      · rw [← left]
        exact taken
      · have shrinks := kept.pages
        rw [pages₂, pages', pages, alloc] at shrinks
        exact shrinks
  · rfl

end Boot
end Coolos
