import Coolos.Logic.BootRun

/-!
# The boot stack

`KernelMain` keeps running on the stack the firmware gave it, and
`PageTable_Init` maps the 1 MB around it. The image is marked used, this window
is not, and where the firmware put it in memory of a boot services type its
pages are handed out like any others.
-/

namespace Coolos.Theorems

open Lib PageAllocator

/-- The step hands out page `p`: it was clear and is used now. -/
def HandsOut (s s' : BootRun) (p : Nat) : Prop :=
  s.kernel.pages.Clear p ∧ ¬ s'.kernel.pages.Clear p

/-- No step of any run hands out a page of the window. -/
def StackKept (f : Firmware) : Prop :=
  ∀ s, (BootRun.sys f).Reachable s → ∀ op s', (BootRun.sys f).next s op s' →
    ∀ p ∈ stackPages f.rsp, ¬ HandsOut s s' p

/-- The pages of the window that the allocator could hand out are not available,
or are the image's. -/
def StackTaken (f : Firmware) : Prop :=
  ∀ p ∈ stackPages f.rsp, 1 ≤ p → BelowTotal f.map p → Available f.map p →
    InImage f.imageBase f.imageSize p

/-! ## A window that is taken stays taken -/

/-- The allocator's pages of the window are used, and are no task's stack. -/
structure WindowUsed (f : Firmware) (s : BootRun) : Prop where
  total : ∀ p, p < s.kernel.pages.totalPages.toNat ↔ BelowTotal f.map p
  used : ∀ p ∈ stackPages f.rsp, 1 ≤ p → BelowTotal f.map p →
    ¬ s.kernel.pages.Clear p ∧ ¬ Releasable s.kernel.sched p

theorem windowUsed_invariant {f : Firmware} (placed : ∀ d ∈ f.map, d.WellPlaced)
    (taken : StackTaken f) : (BootRun.sys f).Invariant (WindowUsed f) := by
  apply TSys.Inductive.invariant
  constructor
  · rintro s ⟨m, rfl⟩
    refine ⟨fun p => lt_totalPages_boot, fun p hp low below => ⟨fun clear => ?_, ?_⟩⟩
    · have bounded : p < maxPages := by
        obtain ⟨d, -, high, small⟩ := below
        omega
      obtain ⟨available, outside⟩ := (clear_boot placed bounded).mp clear
      exact outside (taken p hp low below available)
    · rintro ⟨i, stack, -⟩
      exact stack rfl
  · intro s op s' inv next
    have step := BootRun.pageStep next
    refine ⟨fun p => by rw [step.total]; exact inv.total p, fun p hp low below => ?_⟩
    obtain ⟨unclear, unheld⟩ := inv.used p hp low below
    -- a step clears what tasks give back, and tasks are given what was clear
    constructor
    · intro clear
      rcases step.cleared p clear with clear | stack
      · exact unclear clear
      · exact unheld stack
    · intro stack
      rcases step.releasable p stack with stack | ⟨clear, -⟩
      · exact unheld stack
      · exact unclear clear

theorem stackKept_of_taken {f : Firmware} (placed : ∀ d ∈ f.map, d.WellPlaced)
    (taken : StackTaken f) : StackKept f := by
  intro s hs op s' next p hp out
  have inv := windowUsed_invariant placed taken s hs
  obtain ⟨low, high⟩ := (BootRun.pageStep next).taken p out.1 out.2
  exact (inv.used p hp low ((inv.total p).mp high)).1 out.1

/-! ## A window that is not -/

section Exhaust

variable {f : Firmware} {p : Nat}

/-- While the window is kept, a clear page of it stays clear. -/
theorem StackKept.clear (kept : StackKept f) (hp : p ∈ stackPages f.rsp) {s s' : BootRun}
    {op : BootOp} (hs : (BootRun.sys f).Reachable s) (next : (BootRun.sys f).next s op s')
    (clear : s.kernel.pages.Clear p) : s'.kernel.pages.Clear p := by
  by_contra used
  exact kept s hs op s' next p hp ⟨clear, used⟩

/-- `KernelMain` comes to the end of its steps. -/
theorem StackKept.running (kept : StackKept f) (placed : ∀ d ∈ f.map, d.WellPlaced)
    (fb : (f.fbBase + f.fbSize).toNat + 4096 ≤ 2 ^ 64) (hp : p ∈ stackPages f.rsp)
    (clear : (PageAllocator.zero.boot f.map f.imageBase f.imageSize).Clear p) :
    ∃ s, (BootRun.sys f).Reachable s ∧ s.stage = .running ∧ s.kernel.pages.Clear p := by
  let s₀ : BootRun :=
    { kernel := { Kernel.statics with
        pages := PageAllocator.zero.boot f.map f.imageBase f.imageSize }
      gKernelPml4 := 0
      stage := .syscallInit }
  have hs₀ : (BootRun.sys f).Reachable s₀ := .init ⟨_, rfl⟩
  -- each step hands out no page of the window, so `p` stays clear
  let s₁ : BootRun := { s₀ with kernel := s₀.kernel.syscallInit, stage := .pageTableInit }
  have next₁ : (BootRun.sys f).next s₀ .boot s₁ := rfl
  have clear₁ := kept.clear hp hs₀ next₁ clear
  obtain ⟨r, run⟩ := s₁.kernel.pageTableInit_returns placed fb f.lapicAddr f.rsp
  let s₂ : BootRun := ⟨r.1, r.2, .heapSetup⟩
  have next₂ : (BootRun.sys f).next s₁ .boot s₂ := Option.map_eq_some_iff.mpr ⟨r, run, rfl⟩
  have hs₁ := hs₀.step next₁
  have clear₂ := kept.clear hp hs₁ next₂ clear₁
  let s₃ : BootRun := { s₂ with kernel := s₂.kernel.heapSetup, stage := .schedulerSetup }
  have next₃ : (BootRun.sys f).next s₂ .boot s₃ := rfl
  have hs₂ := hs₁.step next₂
  have clear₃ := kept.clear hp hs₂ next₃ clear₂
  let s₄ : BootRun := { s₃ with kernel := s₃.kernel.schedulerSetup, stage := .running }
  have next₄ : (BootRun.sys f).next s₃ .boot s₄ := rfl
  have hs₃ := hs₂.step next₃
  exact ⟨s₄, hs₃.step next₄, rfl, kept.clear hp hs₃ next₄ clear₃⟩

/-- One `SYSCALL_EXEC` after the other, for one page each. -/
theorem StackKept.exhausts (kept : StackKept f) (hp : p ∈ stackPages f.rsp) (low : 1 ≤ p)
    {s : BootRun} (hs : (BootRun.sys f).Reachable s) (running : s.stage = .running)
    (high : p < s.kernel.pages.totalPages.toNat) (clear : s.kernel.pages.Clear p) : ∀ n : Nat,
    ∃ s', (BootRun.sys f).Reachable s' ∧ s'.stage = .running ∧
      s'.kernel.pages.totalPages = s.kernel.pages.totalPages ∧ s'.kernel.pages.Clear p ∧
      s'.kernel.pages.clearPages.card + n ≤ s.kernel.pages.clearPages.card := by
  intro n
  -- as long as `p` is clear there is a page to take, so no call fails
  induction n with
  | zero => exact ⟨s, hs, running, rfl, clear, le_rfl⟩
  | succ n ih =>
      obtain ⟨s₁, hs₁, running₁, total₁, clear₁, few⟩ := ih
      have left : 0 < s₁.kernel.pages.clearPages.card := by
        apply Finset.card_pos.mpr
        exact ⟨p, Finset.mem_filter.mpr ⟨Finset.mem_Ico.mpr ⟨low, total₁ ▸ high⟩, clear₁⟩⟩
      let s₂ : BootRun := { s₁ with
        kernel := (s₁.kernel.syscallHandler syscallExec 0 1 0 0 0 []).1 }
      have next : (BootRun.sys f).next s₁ (.syscall syscallExec 0 1 0 0 0 []) s₂ :=
        ⟨running₁, fun named => absurd named (by decide), rfl⟩
      have less : s₂.kernel.pages.clearPages.card < s₁.kernel.pages.clearPages.card :=
        s₁.kernel.execCase_takes 0 left
      have step : PageStep s₁.kernel s₂.kernel := s₁.kernel.syscallHandler_step ..
      exact ⟨s₂, hs₁.step next, running₁, step.total.trans total₁,
        kept.clear hp hs₁ next clear₁, by omega⟩

end Exhaust

theorem stackTaken_of_kept {f : Firmware} (placed : ∀ d ∈ f.map, d.WellPlaced)
    (fb : (f.fbBase + f.fbSize).toNat + 4096 ≤ 2 ^ 64) (kept : StackKept f) : StackTaken f := by
  intro p hp low below available
  by_contra outside
  have bounded : p < maxPages := by
    obtain ⟨d, -, high, small⟩ := below
    omega
  have clear := (clear_boot placed bounded).mpr ⟨available, outside⟩
  obtain ⟨s, hs, running, clear'⟩ := kept.running placed fb hp clear
  have total := BootRun.total_invariant f s hs
  -- one call more than there are pages
  obtain ⟨s', -, -, -, -, few⟩ := kept.exhausts hp low hs running ((total p).mpr below) clear'
    (s.kernel.pages.clearPages.card + 1)
  omega

/-- On a well-placed map and with a frame buffer below the top of the address
space, the window is kept exactly when it is taken from the start. -/
theorem boot_stack_kept_iff {f : Firmware} (placed : ∀ d ∈ f.map, d.WellPlaced)
    (fb : (f.fbBase + f.fbSize).toNat + 4096 ≤ 2 ^ 64) : StackKept f ↔ StackTaken f :=
  ⟨stackTaken_of_kept placed fb, stackKept_of_taken placed⟩

/-- The stack in the loader's data, which the allocator does not get. -/
def loaderDataStack : Firmware where
  map := [⟨7, 0x1000, 159⟩, ⟨2, 0x100000, 256⟩, ⟨1, 0x200000, 16⟩]
  imageBase := 0x200000
  imageSize := 0x10000
  fbBase := 0x80000000
  fbSize := 0x300000
  lapicAddr := 0xFEE00000
  rsp := 0x1FFFF0

theorem boot_stack_kept_in_loader_data : StackKept loaderDataStack := by
  apply (boot_stack_kept_iff ?_ (by decide)).mpr
  · rintro p window - - ⟨d, hd, usable, holds⟩
    have window : p / 256 = 1 := window
    simp only [loaderDataStack, List.mem_cons, List.not_mem_nil, or_false] at hd
    rcases hd with rfl | rfl | rfl
    · have high : (p + 1) * 4096 ≤ 0x1000 + 159 * 4096 := holds.2
      omega
    · exact absurd usable (by decide)
    · exact absurd usable (by decide)
  · unfold MemoryDescriptor.WellPlaced
    decide

/-- The stack in boot services data, where the firmware puts it. -/
def bootServicesStack : Firmware where
  map := [⟨4, 0x1000, 15⟩, ⟨1, 0x100000, 16⟩]
  imageBase := 0x100000
  imageSize := 0x10000
  fbBase := 0x80000000
  fbSize := 0x300000
  lapicAddr := 0xFEE00000
  rsp := 0x8FF0

/-- The first page taken, `cpu_data`, is a page of the window. -/
theorem boot_stack_handed_out :
    (∀ d ∈ bootServicesStack.map, d.WellPlaced) ∧
      (∃ d ∈ bootServicesStack.map, d.Holds (bootServicesStack.rsp.toNat / 4096)) ∧
      ¬ StackKept bootServicesStack := by
  refine ⟨by unfold MemoryDescriptor.WellPlaced; decide, ⟨_, .head _, ?_⟩, fun kept => ?_⟩
  · show 0x1000 ≤ 8 * 4096 ∧ (8 + 1) * 4096 ≤ 0x1000 + 15 * 4096
    decide
  · apply kept _ (.init ⟨fun _ => 0, rfl⟩) .boot _ rfl 1 rfl
    exact ⟨by decide +kernel, by decide +kernel⟩

end Coolos.Theorems
