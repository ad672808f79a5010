import Coolos.Logic.AcpiReads
import Coolos.Logic.Booting

/-!
# Where `KernelMain` finds what it needs

Pages for every table below a run of 4096 more, and the tables of the firmware in memory that
is not free. The page tables are then built without touching either, so the heap is set up and
the MADT is found a second time, as it was.
-/

namespace Coolos

open Lib Lib.X86 Lib.Paging PageAllocator

/-- The size of the frame buffer, as `KernelMain` passes it on. -/
def BootArgs.fbSize (args : BootArgs) : Word :=
  args.ppsl.zeroExtend 64 * args.height.zeroExtend 64 * 4

namespace Boot

variable {b b' : Boot} {image : Image} {args : BootArgs} {env : BootEnv}

/-- The pages that `PageTable_Init` maps. -/
def pagesToMap (b : Boot) (image : Image) (args : BootArgs) (env : BootEnv) : Set Nat :=
  identityPages args.fbBase args.fbSize args.map (b.lapicAddr image args) env.rsp

/-- Below a run of pages for the heap there are pages enough for the page tables. -/
structure Supplied (b : Boot) (image : Image) (args : BootArgs) (env : BootEnv) : Prop where
  low : InitArgs args.fbBase args.fbSize args.map (b.lapicAddr image args) env.rsp
  placed : ∀ d ∈ args.map, d.WellPlaced
  room : ∃ i, b.machine.kernel.pages.ClearRun i 4096 ∧ tablesNeeded (b.pagesToMap image args env) ≤
    (b.machine.kernel.pages.clearPages.filter (· < i)).card

/-- The bytes `KernelMain` reads to find the MADT and the LAPIC. -/
def TableRead (b : Boot) (image : Image) (a : Word) : Prop :=
  Acpi.FindReads b.machine.kernel.mem b.xsdt image.apicName a ∨
    ∃ j < 4, a = b.madt image + loc Acpi.localApicAddressOffset + loc j

/-- Tables in memory that stays as it is are found again. -/
theorem madt_same (mem : ∀ a, b.TableRead image a →
      b'.machine.kernel.mem a = b.machine.kernel.mem a) (xsdt : b'.xsdt = b.xsdt) :
    b'.madt image = b.madt image ∧ b'.lapicAddr image args = b.lapicAddr image args := by
  have same : b'.madt image = b.madt image := by
    rw [madt, madt, xsdt, Acpi.findTable_congr fun a read => mem a (.inl read)]
  have lapic : Acpi.localApicAddress b'.machine.kernel.mem (b.madt image) =
      Acpi.localApicAddress b.machine.kernel.mem (b.madt image) := by
    rw [Acpi.localApicAddress, Acpi.localApicAddress]
    rw [Mem.read32_congr fun j hj => mem _ (.inr ⟨j, hj, rfl⟩)]
  refine ⟨same, ?_⟩
  rw [lapicAddr, lapicAddr, same, lapic]

/-- What `PageTable_Init` needs, below the run for the heap. -/
theorem Supplied.tables (supplied : b.Supplied image args env) : ∃ (P : Finset Nat) (i : Nat),
    b.machine.kernel.pages.ClearRun i 4096 ∧
      (args.fbBase + args.fbSize).toNat + 4096 ≤ 2 ^ 64 ∧
      (∀ W ∈ initWrites args.fbBase args.fbSize args.map (b.lapicAddr image args) env.rsp,
        ∀ n e, W n e → n ∈ P) ∧
      tablesNeeded P ≤ (b.machine.kernel.pages.clearPages.filter (· < i)).card := by
  obtain ⟨low, placed, i, run, enough⟩ := supplied
  obtain ⟨P, hP⟩ := low.low.finite.exists_finset_coe
  rw [pagesToMap, ← hP] at enough
  refine ⟨P, i, run, ?_, fun W hW n e written => ?_, enough⟩
  · have below := low.framebuffer.2
    rw [BitVec.toNat_add]
    omega
  · have := low.low.covers placed W hW n e written
    rwa [← hP] at this

/-- Memory is set up, with a heap, and changed only where it was free. -/
theorem memory_supplied (supplied : b.Supplied image args env) :
    ∃ b', b.memory image args env = some b' ∧ b'.xsdt = b.xsdt ∧
      (∃ m start, HeapRegion start (4096 * 4096) ∧
        b'.machine.kernel.heap = Heap.init m start (4096 * 4096)) ∧
      ∀ a, b'.machine.kernel.mem a ≠ b.machine.kernel.mem a →
        page a ∈ b.machine.kernel.pages.clearPages := by
  obtain ⟨P, i, run, fb, covers, enough⟩ := supplied.tables
  obtain ⟨k', pml4, mapped, shrinks, -, high, written⟩ :=
    pageTableInit_confined supplied.placed fb covers enough
  -- the run for the heap is still there
  have still : k'.pages.ClearRun i (4096 : Word).toNat := by
    have clear : ∀ j < 4096, i + j ∈ k'.pages.clearPages := by
      intro j hj
      refine high _ (mem_clearPages (run.clear j hj) ?_ ?_) (Nat.le_add_right _ _)
      · exact run.low.trans (Nat.le_add_right _ _)
      · exact Nat.lt_of_lt_of_le (Nat.add_lt_add_left hj i) run.high
    refine ⟨run.low, ?_, fun j hj => (Finset.mem_filter.mp (clear j hj)).2⟩
    have last := (Finset.mem_Ico.mp (Finset.mem_filter.mp (clear 4095 (by decide))).1).2
    exact last
  obtain ⟨pages, mem, -⟩ := k'.heapSetup_touches
  obtain ⟨g, greeted⟩ := greet_touches k'.heapSetup
  refine ⟨{ b with machine.kernel := k'.heapSetup.greet, pml4 := pml4 }, ?_, rfl, ?_,
    fun a other => ?_⟩
  · rw [memory, Option.bind_eq_bind, Option.bind_eq_some_iff]
    exact ⟨_, mapped, rfl⟩
  · show ∃ m start, _ ∧ k'.heapSetup.greet.heap = _
    rw [greeted]
    obtain ⟨-, heap⟩ := heapSetup_heap k'
    rcases heap with ⟨null, -⟩ | ⟨pa, start, m, -, region, fresh⟩
    · have failed : k'.pages.alloc 4096 = ((k'.pages.alloc 4096).1, 0) := by rw [← null]
      rcases (alloc_null failed).2 with zero | none
      · exact absurd zero (by decide)
      · exact absurd ⟨i, still⟩ none
    · exact ⟨m, start, region, fresh⟩
  · apply (written a ?_).1
    intro same
    apply other
    show k'.heapSetup.greet.mem a = _
    rw [greeted]
    show k'.heapSetup.mem a = _
    rw [mem, same]

/-! ## The LAPIC -/

theorem lapicBase_calibrateTimer {a a' : Apic} {answers : ApicAnswers} {ticks : BitVec 32}
    (h : a.calibrateTimer answers = some (a', ticks)) : a'.lapicBase = a.lapicBase := by
  rw [Apic.calibrateTimer, Option.bind_eq_bind, Option.bind_eq_some_iff] at h
  obtain ⟨delayed, delay, h⟩ := h
  obtain ⟨rfl, -⟩ := Prod.mk.inj (Option.some.inj h)
  unfold Apic.pitDelay at delay
  dsimp only at delay
  split at delay
  · cases delay
  · rw [← Option.some.inj delay]
    rfl

/-- `LAPIC_Init` is given the address in the MADT. -/
theorem lapicBase_interrupts {madt : Word} (h : b.interrupts madt env = some b') :
    b'.apic.lapicBase = Acpi.localApicAddress b.machine.kernel.mem madt := by
  rw [interrupts, Option.bind_eq_bind, Option.bind_eq_some_iff] at h
  obtain ⟨⟨apic, ticks⟩, calibrated, h⟩ := h
  rw [Option.bind_eq_bind, Option.bind_eq_some_iff] at h
  obtain ⟨ioApic, -, h⟩ := h
  have base := lapicBase_calibrateTimer calibrated
  rw [← Option.some.inj h]
  cases ioApic with
  | none => exact base
  | some ptr => exact base

theorem apic_userMode {o : BootOutcome} (main : b.machine.kernel.sched = Scheduler.zero.init)
    (h : b.userMode image env = some o) (ring3 : o = .ring3 b') : b'.apic = b.apic := by
  obtain ⟨k, -, -, outcome⟩ := userMode_some main h
  rcases prepared : k.prepareUserMode with ⟨k', tops⟩
  rw [prepared] at outcome
  subst ring3
  cases tops with
  | none => cases outcome
  | some tops => rw [BootOutcome.ring3.inj outcome]

/-- There is one task. -/
theorem sched_memory (zero : b.machine.kernel.sched = Scheduler.zero)
    (h : b.memory image args env = some b') : b'.machine.kernel.sched = Scheduler.zero := by
  obtain ⟨k, pml4, mapped, left⟩ := memory_some h
  obtain ⟨-, same⟩ := Kernel.pageTableInit_step mapped
  obtain ⟨-, -, sched⟩ := k.heapSetup_touches
  obtain ⟨sched', -⟩ := greet_same k.heapSetup
  rw [left]
  exact sched'.trans (sched.trans (same.trans zero))

/-- Ring 3 is reached, and the LAPIC is the one that was mapped. -/
theorem kernelMain_supplied {cpu : Cpu} {mem : Mem} {idt : Word → Word} {o : BootOutcome}
    (rsdp : args.rsdp ≠ 0)
    (supplied : ((loaded cpu mem idt).setup image args).Supplied image args env)
    (found : ((loaded cpu mem idt).setup image args).madt image ≠ 0)
    (apart : ∀ a, ((loaded cpu mem idt).setup image args).TableRead image a →
      page a ∉ ((loaded cpu mem idt).setup image args).machine.kernel.pages.clearPages)
    (h : (loaded cpu mem idt).kernelMain image args env = some o) : ∃ b, o = .ring3 b ∧
      b.apic.lapicBase = ((loaded cpu mem idt).setup image args).lapicAddr image args := by
  obtain ⟨m₀, -, -, -, zero, -⟩ := @setup_machine image args cpu mem idt
  rw [kernelMain] at h
  generalize (loaded cpu mem idt).setup image args = b₀ at *
  obtain ⟨b₁, memory, xsdt, ⟨m, start, region, heap⟩, written⟩ := memory_supplied supplied
  have reads (a : Word) (read : b₀.TableRead image a) :
      b₁.machine.kernel.mem a = b₀.machine.kernel.mem a := by
    by_contra other
    exact apart a read (written a other)
  obtain ⟨madt, lapic⟩ := @madt_same b₀ b₁ image args reads xsdt
  rw [memory] at h
  have again : args.rsdp ≠ 0 ∧ b₁.madt image ≠ 0 := ⟨rsdp, by rw [madt]; exact found⟩
  simp only [Option.bind_eq_bind, Option.bind_some, if_pos again] at h
  obtain ⟨b₂, interrupts, h⟩ := Option.bind_eq_some_iff.mp h
  have base := lapicBase_interrupts interrupts
  rw [← (show b₁.lapicAddr image args = Acpi.localApicAddress b₁.machine.kernel.mem (b₁.madt image)
    from if_pos again), lapic] at base
  obtain ⟨apic, rfl⟩ := interrupts_some interrupts
  obtain ⟨main, -, -, heap₂, -⟩ := schedulerSetup_handlers (sched_memory zero memory)
  obtain ⟨b, ring3⟩ : ∃ b, o = .ring3 b := by
    obtain ⟨k', -, outcome⟩ := userMode_ring3 main region (by rw [heap₂, heap]) h
    exact ⟨_, outcome⟩
  refine ⟨b, ring3, ?_⟩
  rw [apic_userMode main h ring3]
  exact base

end Boot
end Coolos
