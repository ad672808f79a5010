import Coolos.Lib.TSys
import Coolos.Logic.HeapList
import Coolos.Logic.Interrupt
import Coolos.Logic.SelfMap
import Coolos.Logic.Syscall

/-!
# Pages from boot on

`KernelMain` takes pages in a fixed order, then drivers, system calls and
interrupts take more and give some back. `PageStep` says once what any of them
can do: take clear pages below `total_pages`, and clear pages of a task's user
stack. Whatever was never clear and is no task's stack stays as it was.
-/

namespace Coolos

open Lib PageAllocator

/-- Page `p` is in a user stack that `Scheduler_TerminateCurrentTask` would give
back. -/
def Releasable (sched : Scheduler) (p : Nat) : Prop :=
  ∃ i, (sched.tasks i).stackBase ≠ 0 ∧
    Covers ((sched.tasks i).stackBase / pageSize) (sched.tasks i).stackPages.toNat p

/-- What the kernel does to the pages from `k` to `k'`. -/
structure PageStep (k k' : Kernel) : Prop where
  total : k'.pages.totalPages = k.pages.totalPages
  taken : ∀ p, k.pages.Clear p → ¬ k'.pages.Clear p → 1 ≤ p ∧ p < k.pages.totalPages.toNat
  cleared : ∀ p, k'.pages.Clear p → k.pages.Clear p ∨ Releasable k.sched p
  releasable : ∀ p, Releasable k'.sched p → Releasable k.sched p ∨
    k.pages.Clear p ∧ 1 ≤ p ∧ p < k.pages.totalPages.toNat

namespace PageStep

variable {k k₁ k₂ : Kernel}

/-- Nothing happens to the pages and the stacks. -/
theorem of_same (pages : k₁.pages = k.pages)
    (stack : ∀ p, Releasable k₁.sched p → Releasable k.sched p) : PageStep k k₁ where
  total := by rw [pages]
  taken p clear used := absurd (pages ▸ clear) used
  cleared p clear := .inl (pages ▸ clear)
  releasable p h := .inl (stack p h)

theorem trans (h : PageStep k k₁) (h' : PageStep k₁ k₂) : PageStep k k₂ where
  total := h'.total.trans h.total
  taken p clear used := by
    by_cases between : k₁.pages.Clear p
    · have range := h'.taken p between used
      rwa [h.total] at range
    · exact h.taken p clear between
  cleared p clear := by
    rcases h'.cleared p clear with clear | stack
    · exact h.cleared p clear
    · -- a stack that is given back was one before, or was clear then
      rcases h.releasable p stack with stack | ⟨clear, -⟩
      · exact .inr stack
      · exact .inl clear
  releasable p stack := by
    rcases h'.releasable p stack with stack | ⟨clear, low, high⟩
    · exact h.releasable p stack
    · rw [h.total] at high
      rcases h.cleared p clear with clear | stack
      · exact .inr ⟨clear, low, high⟩
      · exact .inl stack

/-- An allocation takes clear pages. -/
theorem of_alloc {pages : Word} (h : k₁.pages = (k.pages.alloc pages).1)
    (sched : k₁.sched = k.sched) : PageStep k k₁ := by
  rcases run : k.pages.alloc pages with ⟨pa, ptr⟩
  rw [run] at h
  by_cases null : ptr = 0
  · subst null
    exact of_same (h.trans (alloc_null run).1) fun p => by rw [sched]; exact id
  · obtain ⟨total, bits, range⟩ := alloc_range run null
    refine ⟨by rw [h, total], ?_, ?_, fun p stack => .inl (sched ▸ stack)⟩
    · intro p clear used
      rw [h, bits] at used
      obtain ⟨low, high, -⟩ := range p (not_not.mp fun out => used ⟨clear, out⟩)
      exact ⟨low, high⟩
    · intro p clear
      rw [h, bits] at clear
      exact .inl clear.1

end PageStep

/-! ## The pages boot starts with -/

/-- `last_page` of `PageAllocator_Init`. -/
def MemoryDescriptor.lastPage (d : MemoryDescriptor) : Word :=
  (d.physicalStart + d.numberOfPages * pageSize + pageSize - 1) / pageSize

/-- Page `p` is below `total_pages` after `PageAllocator_Init`. -/
def BelowTotal (map : List MemoryDescriptor) (p : Nat) : Prop :=
  ∃ d ∈ map, p < d.lastPage.toNat ∧ d.lastPage.toNat < maxPages

theorem lt_totalPages_initEntry (pa : PageAllocator) (d : MemoryDescriptor) (p : Nat) :
    p < (initEntry pa d).totalPages.toNat ↔
      p < pa.totalPages.toNat ∨ p < d.lastPage.toNat ∧ d.lastPage.toNat < maxPages := by
  have total : (initEntry pa d).totalPages =
      if pa.totalPages < d.lastPage ∧ d.lastPage.toNat < maxPages then d.lastPage
      else pa.totalPages := by
    unfold initEntry MemoryDescriptor.lastPage
    dsimp only
    split
    · split <;> rfl
    · split <;> rfl
  rw [total]
  split
  · rename_i raised
    obtain ⟨more, bounded⟩ := raised
    rw [BitVec.lt_def] at more
    omega
  · rename_i kept
    rw [BitVec.lt_def] at kept
    omega

theorem lt_totalPages_foldl (map : List MemoryDescriptor) (p : Nat) : ∀ pa : PageAllocator,
    p < (map.foldl initEntry pa).totalPages.toNat ↔ p < pa.totalPages.toNat ∨ BelowTotal map p := by
  -- whatever `total_pages` is by now: a descriptor only raises it
  induction map with
  | nil => intro pa; simp [BelowTotal]
  | cons d map ih =>
      intro pa
      rw [List.foldl_cons, ih, lt_totalPages_initEntry]
      simp only [BelowTotal, List.exists_mem_cons_iff, or_assoc]

theorem lt_totalPages_boot {map : List MemoryDescriptor} {imageBase imageSize : Word} {p : Nat} :
    p < (PageAllocator.zero.boot map imageBase imageSize).totalPages.toNat ↔ BelowTotal map p := by
  show p < (map.foldl initEntry _).totalPages.toNat ↔ _
  rw [lt_totalPages_foldl]
  exact or_iff_right (Nat.not_lt_zero p)

/-- Page `p` is marked used for the image. -/
def InImage (imageBase imageSize : Word) (p : Nat) : Prop :=
  Covers (imageBase / pageSize) ((imageSize + 4095) / 4096).toNat p

theorem clear_boot {map : List MemoryDescriptor} (ok : ∀ d ∈ map, d.WellPlaced)
    {imageBase imageSize : Word} {p : Nat} (hp : p < maxPages) :
    (PageAllocator.zero.boot map imageBase imageSize).Clear p ↔
      Available map p ∧ ¬ InImage imageBase imageSize p := by
  rw [PageAllocator.boot, clear_markUsed, clear_init hp ok, InImage]
  exact and_congr_right fun _ => not_congr (and_iff_right hp)

/-! ## Page tables -/

namespace Kernel

variable (k : Kernel)

theorem getOrCreateTable_step (table index : Word) :
    PageStep k (k.getOrCreateTable table index).1 ∧
      (k.getOrCreateTable table index).1.sched = k.sched := by
  unfold getOrCreateTable
  split
  · exact ⟨.of_same rfl fun _ => id, rfl⟩
  · rcases h : k.pages.alloc 1 with ⟨pa, ptr⟩
    have pages : pa = (k.pages.alloc 1).1 := by rw [h]
    by_cases null : ptr = 0
    · simp only [null, if_true]
      exact ⟨.of_alloc pages rfl, trivial⟩
    · simp only [null, if_false]
      exact ⟨.of_alloc pages rfl, trivial⟩

theorem pageTableMap_step (pml4 virt phys flags : Word) :
    PageStep k (k.pageTableMap pml4 virt phys flags) ∧
      (k.pageTableMap pml4 virt phys flags).sched = k.sched := by
  obtain ⟨step₁, sched₁⟩ := k.getOrCreateTable_step pml4 (pml4Idx virt)
  generalize run₁ : k.getOrCreateTable pml4 (pml4Idx virt) = pdp at step₁ sched₁
  obtain ⟨step₂, sched₂⟩ := pdp.1.getOrCreateTable_step pdp.2 (pdpIdx virt)
  generalize run₂ : pdp.1.getOrCreateTable pdp.2 (pdpIdx virt) = pd at step₂ sched₂
  obtain ⟨step₃, sched₃⟩ := pd.1.getOrCreateTable_step pd.2 (pdIdx virt)
  generalize run₃ : pd.1.getOrCreateTable pd.2 (pdIdx virt) = pt at step₃ sched₃
  simp only [pageTableMap, run₁, run₂, run₃]
  have last (m : Mem) : PageStep pt.1 { pt.1 with mem := m } := .of_same rfl fun _ => id
  exact ⟨step₁.trans (step₂.trans (step₃.trans (last _))), sched₃.trans (sched₂.trans sched₁)⟩

/-- A loop that ends. -/
theorem mapRange_step {pml4 stop flags : Word} : ∀ {fuel : Nat} {k k' : Kernel} {addr : Word},
    mapRange pml4 stop flags fuel k addr = some k' → PageStep k k' ∧ k'.sched = k.sched := by
  intro fuel
  -- on the fuel, one `PageTable_Map` for each unit
  induction fuel with
  | zero => intro k k' addr h; cases h
  | succ fuel ih =>
      intro k k' addr h
      rw [mapRange] at h
      split at h
      · obtain ⟨step, sched⟩ := k.pageTableMap_step pml4 addr addr flags
        obtain ⟨rest, sched'⟩ := ih h
        exact ⟨step.trans rest, sched'.trans sched⟩
      · obtain rfl := Option.some.inj h
        exact ⟨.of_same rfl fun _ => id, rfl⟩

theorem mapEntries_step {pml4 : Word} {map : List MemoryDescriptor} : ∀ {k k' : Kernel},
    map.foldlM (mapEntry pml4) k = some k' → PageStep k k' ∧ k'.sched = k.sched := by
  induction map with
  | nil =>
      intro k k' h
      obtain rfl := Option.some.inj h
      exact ⟨.of_same rfl fun _ => id, rfl⟩
  | cons d map ih =>
      intro k k' h
      rw [List.foldlM_cons] at h
      obtain ⟨k₁, first, rest⟩ := Option.bind_eq_some_iff.mp h
      obtain ⟨step', sched'⟩ := ih rest
      rw [mapEntry] at first
      split at first
      · obtain ⟨step, sched⟩ := mapRange_step first
        exact ⟨step.trans step', sched'.trans sched⟩
      · obtain rfl := Option.some.inj first
        exact ⟨step', sched'⟩

/-- `PageTable_Init`, when it returns. -/
theorem pageTableInit_step {fbBase fbSize lapicAddr rsp pml4 : Word}
    {map : List MemoryDescriptor} {k k' : Kernel}
    (h : k.pageTableInit fbBase fbSize map lapicAddr rsp = some (k', pml4)) :
    PageStep k k' ∧ k'.sched = k.sched := by
  rw [pageTableInit] at h
  dsimp only [Option.bind_eq_bind] at h
  obtain ⟨k₁, run₁, h⟩ := Option.bind_eq_some_iff.mp h
  obtain ⟨k₂, run₂, h⟩ := Option.bind_eq_some_iff.mp h
  obtain ⟨k₄, run₄, h⟩ := Option.bind_eq_some_iff.mp h
  obtain ⟨k₅, run₅, h⟩ := Option.bind_eq_some_iff.mp h
  obtain ⟨rfl, -⟩ := Prod.mk.inj (Option.some.inj h)
  have root : PageStep k { k with
      pages := (k.pages.alloc 1).1, mem := clearTable k.mem (k.pages.alloc 1).2 512 } :=
    .of_alloc rfl rfl
  obtain ⟨step₁, sched₁⟩ := mapEntries_step run₁
  obtain ⟨step₂, sched₂⟩ := mapRange_step run₂
  obtain ⟨step₄, sched₄⟩ := mapRange_step run₄
  obtain ⟨step₅, sched₅⟩ := mapRange_step run₅
  have lapic : ∀ k₃, k₃ = (if lapicAddr ≠ 0 then
      k₂.pageTableMap (k.pages.alloc 1).2 lapicAddr lapicAddr pageWritable else k₂) →
      PageStep k₂ k₃ ∧ k₃.sched = k₂.sched := by
    rintro k₃ rfl
    split
    · exact k₂.pageTableMap_step ..
    · exact ⟨.of_same rfl fun _ => id, rfl⟩
  obtain ⟨step₃, sched₃⟩ := lapic _ rfl
  refine ⟨root.trans (step₁.trans (step₂.trans (step₃.trans (step₄.trans step₅)))), ?_⟩
  rw [sched₅, sched₄, sched₃, sched₂, sched₁]

end Kernel

/-- A loop whose bound is a page below the top of the address space ends. -/
theorem Kernel.mapRange_returns (pml4 flags : Word) {stop : Word}
    (below : stop.toNat + 4096 ≤ 2 ^ 64) (k : Kernel) (addr : Word) :
    ∃ k', Kernel.mapRange pml4 stop flags (2 ^ 64) k addr = some k' :=
  ⟨_, mapRange_turns pml4 flags k below⟩

/-- Where a well-placed descriptor ends, unless it reaches the top. -/
theorem MemoryDescriptor.WellPlaced.stop {d : MemoryDescriptor} (ok : d.WellPlaced) :
    (d.physicalStart + d.numberOfPages * pageSize).toNat + 4096 ≤ 2 ^ 64 := by
  obtain ⟨aligned, top⟩ := ok
  rw [BitVec.toNat_add, BitVec.toNat_mul, show pageSize.toNat = 4096 from rfl]
  omega

theorem Kernel.mapEntries_returns (pml4 : Word) {map : List MemoryDescriptor}
    (ok : ∀ d ∈ map, d.WellPlaced) : ∀ k : Kernel,
    ∃ k', map.foldlM (Kernel.mapEntry pml4) k = some k' := by
  induction map with
  | nil => intro k; exact ⟨k, rfl⟩
  | cons d map ih =>
      intro k
      have tail := ih fun e he => ok e (List.mem_cons_of_mem _ he)
      have stop := (ok d List.mem_cons_self).stop
      obtain ⟨k₁, run₁⟩ : ∃ k₁, Kernel.mapEntry pml4 k d = some k₁ := by
        rw [Kernel.mapEntry]
        split
        · exact Kernel.mapRange_returns pml4 _ stop k _
        · exact ⟨k, rfl⟩
      obtain ⟨k', run⟩ := tail k₁
      exact ⟨k', by rw [List.foldlM_cons, run₁]; exact run⟩

theorem stackWindow_stop (rsp : Word) : (stackWindow rsp + 0x100000).toNat + 4096 ≤ 2 ^ 64 := by
  have first := toNat_stackWindow rsp
  rw [BitVec.toNat_add, first, show (0x100000 : Word).toNat = 2 ^ 20 from rfl]
  omega

/-- `PageTable_Init` returns on a well-placed map. -/
theorem Kernel.pageTableInit_returns (k : Kernel) {fbBase fbSize : Word}
    {map : List MemoryDescriptor} (ok : ∀ d ∈ map, d.WellPlaced)
    (fb : (fbBase + fbSize).toNat + 4096 ≤ 2 ^ 64) (lapicAddr rsp : Word) :
    ∃ r, k.pageTableInit fbBase fbSize map lapicAddr rsp = some r := by
  have stackStop := stackWindow_stop rsp
  obtain ⟨k₁, run₁⟩ := Kernel.mapEntries_returns (k.pages.alloc 1).2 ok
    { k with pages := (k.pages.alloc 1).1, mem := clearTable k.mem (k.pages.alloc 1).2 512 }
  obtain ⟨k₂, run₂⟩ := Kernel.mapRange_returns (k.pages.alloc 1).2
    (pageWritable ||| pageUser) fb k₁ fbBase
  obtain ⟨k₃, hk₃⟩ : ∃ k₃, k₃ = (if lapicAddr ≠ 0 then
    k₂.pageTableMap (k.pages.alloc 1).2 lapicAddr lapicAddr pageWritable else k₂) := ⟨_, rfl⟩
  obtain ⟨k₄, run₄⟩ := Kernel.mapRange_returns (k.pages.alloc 1).2 pageWritable
    (by decide : (0xFEC01000 : Word).toNat + 4096 ≤ 2 ^ 64) k₃ ioapicAddr
  obtain ⟨k₅, run₅⟩ := Kernel.mapRange_returns (k.pages.alloc 1).2
    (pageWritable ||| pageUser) stackStop k₄ (stackWindow rsp)
  refine ⟨(k₅, (k.pages.alloc 1).2), ?_⟩
  rw [Kernel.pageTableInit]
  dsimp only [Option.bind_eq_bind]
  rw [run₁, Option.bind_some, run₂, Option.bind_some, ← hk₃, run₄, Option.bind_some, run₅,
    Option.bind_some]

/-! ## Tasks -/

namespace PageStep

variable {k k₁ : Kernel}

/-- A new task table that brings no stack but one of pages that were clear. -/
theorem with_sched (h : PageStep k { k₁ with sched := k.sched })
    (stack : ∀ p, Releasable k₁.sched p → Releasable k.sched p ∨
      k.pages.Clear p ∧ 1 ≤ p ∧ p < k.pages.totalPages.toNat) : PageStep k k₁ where
  total := h.total
  taken := h.taken
  cleared := h.cleared
  releasable := stack

end PageStep

/-- Storing a task with the stack of the one before brings no new stack. -/
theorem releasable_setTask {sched : Scheduler} {i p : Nat} {t : TCB}
    (h : Releasable (sched.setTask i t) p) :
    Releasable sched p ∨
      t.stackBase ≠ 0 ∧ Covers (t.stackBase / pageSize) t.stackPages.toNat p := by
  obtain ⟨j, used, covers⟩ := h
  by_cases here : j = i
  · subst here
    rw [Scheduler.setTask_tasks_self] at used covers
    exact .inr ⟨used, covers⟩
  · rw [Scheduler.setTask_tasks_of_ne here] at used covers
    exact .inl ⟨j, used, covers⟩

/-- The range an allocation returned was clear. -/
theorem clear_of_covers {pa pa' : PageAllocator} {pages ptr : Word}
    (h : pa.alloc pages = (pa', ptr)) (hptr : ptr ≠ 0) {p : Nat}
    (hp : Covers (ptr / pageSize) pages.toNat p) :
    pa.Clear p ∧ 1 ≤ p ∧ p < pa.totalPages.toNat := by
  obtain ⟨i, -, -, place, run, -, -⟩ := alloc_success h hptr
  have high := run.high
  have low := run.low
  have bound := pa.bounded
  have small : maxPages = 1048576 := rfl
  have first : (loc i).toNat = i := toNat_loc (by omega)
  rw [place, PageAllocator.covers_iff (by omega), first] at hp
  have clear := run.clear (p - i) (by omega)
  rw [Nat.add_sub_cancel' hp.1] at clear
  exact ⟨clear, by omega, by omega⟩

namespace Kernel

variable (k : Kernel)

theorem execCase_step (a1 a2 : Word) : PageStep k (k.execCase a1 a2).1 := by
  rcases run : k.pages.alloc a2 with ⟨pa, ptr⟩
  by_cases null : ptr = 0
  · subst null
    rw [execCase_null a1 run]
    exact .of_same rfl fun _ => id
  have pages : pa = (k.pages.alloc a2).1 := by rw [run]
  have first : PageStep k { k with pages := pa } := .of_alloc pages rfl
  have second (m : Mem) : PageStep { k with pages := pa }
      { k with mem := m, pages := (pa.alloc 1).1 } := .of_alloc rfl rfl
  rw [execCase_stack a1 run null]
  rcases addUserTask_cases { k with pages := pa } a1 ptr a2 with
    ⟨-, -, m, eq⟩ | ⟨-, -, eq⟩ | ⟨-, eq⟩
  · -- the stack of the new task was clear before
    rw [eq]
    refine (first.trans (second m)).with_sched fun p h => ?_
    rcases releasable_setTask h with old | ⟨-, new⟩
    · exact .inl old
    · exact .inr (clear_of_covers run null new)
  · -- no page for the kernel stack
    rw [eq]
    exact (first.trans (second k.mem)).with_sched fun p h => .inl h
  · -- no entry in the table
    rw [eq]
    exact first

theorem switch_step (frame : Word) : PageStep k (k.switch frame).1 := by
  rcases k.switch_cases frame with ⟨next, g, -, run⟩ | ⟨-, g, run⟩
  · rw [run]
    refine .of_same rfl fun p h => ?_
    rcases releasable_setTask h with old | same
    · exact old
    · exact ⟨_, same⟩
  · rw [run]
    exact .of_same rfl fun _ => id

theorem terminateCurrentTask_step (frame : Word) :
    PageStep k (k.terminateCurrentTask frame).1 := by
  by_cases main : k.sched.currentTaskIndex = 0
  · obtain ⟨g, run⟩ := k.terminate_main frame main
    rw [run]
    exact .of_same rfl fun _ => id
  obtain ⟨g, run⟩ := k.terminate_other frame main
  rw [run]
  by_cases owns : (k.sched.tasks k.sched.currentTaskIndex).stackBase ≠ 0 ∧
      (k.sched.tasks k.sched.currentTaskIndex).stackPages ≠ 0
  · -- the stack is given back and forgotten
    rw [releaseStack, if_pos owns, retire, if_pos owns]
    refine ⟨rfl, ?_, ?_, ?_⟩
    · intro p clear used
      exact absurd (clear_free.mpr (.inl clear)) used
    · intro p clear
      rcases clear_free.mp clear with old | ⟨-, stack⟩
      · exact .inl old
      · exact .inr ⟨_, owns.1, stack⟩
    · intro p h
      rcases releasable_setTask h with old | ⟨used, -⟩
      · exact .inl old
      · exact absurd rfl used
  · rw [releaseStack, if_neg owns, retire, if_neg owns]
    refine .of_same rfl fun p h => ?_
    rcases releasable_setTask h with old | same
    · exact old
    · exact ⟨_, same⟩

/-- Every system call. -/
theorem syscallHandler_step (n a1 a2 a3 a4 a5 : Word) (polls : List NvmeCQEntry) :
    PageStep k (k.syscallHandler n a1 a2 a3 a4 a5 polls).1 := by
  have dispatched := k.syscallHandler_dispatched n a1 a2 a3 a4 a5 polls
  generalize k.syscallHandler n a1 a2 a3 a4 a5 polls = result at dispatched
  cases dispatched with
  | drawn frame console zero =>
      apply PageStep.of_same frame.pages
      intro p stack
      rwa [frame.sched] at stack
  | execs named => exact k.execCase_step a1 a2
  | terminates named => exact k.terminateCurrentTask_step 0
  | transfers named zero => exact .of_same rfl fun _ => id
  | heap named zero => exact .of_same rfl fun _ => id

theorem keyboardHandler_step (frame : Word) (scancode : BitVec 8) :
    PageStep k (k.keyboardHandler frame scancode).1 := by
  have eoi : PageStep k k.sendEOI := .of_same rfl fun _ => id
  rcases k.keyboardHandler_cases frame scancode with ⟨-, run⟩ | ⟨-, run⟩ | ⟨-, -, g, c, run⟩
  · rw [run]
    exact eoi.trans (k.sendEOI.switch_step frame)
  · rw [run]
    exact eoi.trans (k.sendEOI.terminateCurrentTask_step frame)
  · rw [run]
    exact eoi.trans (.of_same rfl fun _ => id)

/-- Every interrupt. -/
theorem exceptionHandler_step (frame : Word) (scancode : BitVec 8) (cr2 : Word) :
    PageStep k (k.exceptionHandler frame scancode cr2).1 := by
  have keyboard := k.keyboardHandler_step frame scancode
  have report (f : InterruptFrame) : PageStep k (k.reportException f cr2) :=
    .of_same rfl fun _ => id
  unfold exceptionHandler
  dsimp only
  generalize InterruptFrame.read k.mem frame = f
  split
  · exact .of_same rfl fun _ => id
  · generalize k.keyboardHandler frame scancode = result at keyboard
    exact keyboard
  · exact report f

theorem heapSetup_step : PageStep k k.heapSetup := by
  unfold heapSetup
  dsimp only
  split
  · exact .of_alloc rfl rfl
  · exact .of_alloc rfl rfl

/-- `Scheduler_Init` leaves every task its stack. -/
theorem schedulerSetup_stack (i : Nat) :
    (k.schedulerSetup.sched.tasks i).stackBase = (k.sched.tasks i).stackBase ∧
      (k.schedulerSetup.sched.tasks i).stackPages = (k.sched.tasks i).stackPages := by
  show (k.sched.init.tasks i).stackBase = _ ∧ (k.sched.init.tasks i).stackPages = _
  -- the entries are cleared of everything but their stacks
  dsimp only [Scheduler.init]
  split
  · rename_i main
    subst main
    exact ⟨rfl, rfl⟩
  · split
    · exact ⟨rfl, rfl⟩
    · exact ⟨rfl, rfl⟩

theorem schedulerSetup_step : PageStep k k.schedulerSetup := by
  refine .of_same rfl ?_
  rintro p ⟨i, h⟩
  obtain ⟨base, pages⟩ := k.schedulerSetup_stack i
  rw [base, pages] at h
  exact ⟨i, h⟩

end Kernel

/-! ## A page at a time -/

theorem card_clearPages_alloc_le (pa : PageAllocator) (pages : Word) :
    (pa.alloc pages).1.clearPages.card ≤ pa.clearPages.card := by
  rcases run : pa.alloc pages with ⟨pa', ptr⟩
  by_cases null : ptr = 0
  · subst null
    rw [(alloc_null run).1]
  · have := card_clearPages_alloc run null
    show pa'.clearPages.card ≤ _
    omega

/-- `SYSCALL_EXEC` with one page takes a page, if there is one. -/
theorem Kernel.execCase_takes (k : Kernel) (fn : Word) (left : 0 < k.pages.clearPages.card) :
    (k.execCase fn 1).1.pages.clearPages.card < k.pages.clearPages.card := by
  have found := (alloc_one_ne_zero_iff k.pages).mpr left
  rcases run : k.pages.alloc 1 with ⟨pa, ptr⟩
  rw [run] at found
  have nonzero : ptr ≠ 0 := found
  have taken := card_clearPages_alloc run nonzero
  have more := card_clearPages_alloc_le pa 1
  rw [show (1 : Word).toNat = 1 from rfl] at taken
  -- the user stack is taken, whether a task is added or not
  rw [Kernel.execCase_stack fn run nonzero]
  rcases Kernel.addUserTask_cases { k with pages := pa } fn ptr 1 with
    ⟨-, -, m, eq⟩ | ⟨-, -, eq⟩ | ⟨-, eq⟩
  · rw [eq]
    show (pa.alloc 1).1.clearPages.card < _
    omega
  · rw [eq]
    show (pa.alloc 1).1.clearPages.card < _
    omega
  · rw [eq]
    show pa.clearPages.card < _
    omega

/-! ## Runs -/

/-- What `KernelMain` is given, and the stack pointer it runs with. -/
structure Firmware where
  map : List MemoryDescriptor
  imageBase : Word
  imageSize : Word
  fbBase : Word
  fbSize : Word
  lapicAddr : Word
  rsp : Word

/-- What `KernelMain` does next. -/
inductive BootStage where
  | syscallInit
  | pageTableInit
  | heapSetup
  | schedulerSetup
  | running
  deriving DecidableEq

structure BootRun where
  kernel : Kernel
  gKernelPml4 : Word
  stage : BootStage

/-- The next step of `KernelMain`; someone writing to memory; then drivers mapping
their registers, system calls and interrupts. -/
inductive BootOp where
  | boot
  | memory (m : Mem)
  | mapMmio (physAddr size : Word)
  | syscall (sysNum a1 a2 a3 a4 a5 : Word) (polls : List NvmeCQEntry)
  | interrupt (frame : Word) (scancode : BitVec 8) (cr2 : Word)

namespace BootRun

/-- The next step of `KernelMain`, if it returns. -/
def boot (f : Firmware) (s : BootRun) : Option BootRun :=
  match s.stage with
  | .syscallInit => some { s with kernel := s.kernel.syscallInit, stage := .pageTableInit }
  | .pageTableInit =>
      (s.kernel.pageTableInit f.fbBase f.fbSize f.map f.lapicAddr f.rsp).map fun r =>
        ⟨r.1, r.2, .heapSetup⟩
  | .heapSetup => some { s with kernel := s.kernel.heapSetup, stage := .schedulerSetup }
  | .schedulerSetup => some { s with kernel := s.kernel.schedulerSetup, stage := .running }
  | .running => none

/-- `SYSCALL_KFREE` is given `NULL` or a block of the heap: of another pointer it takes the bytes
below for a header, and writes to whatever is there. -/
def Frees (s : BootRun) (n a1 : Word) : Prop :=
  n = syscallKfree → a1 = 0 ∨ OnList s.kernel.heap a1

def next (f : Firmware) (s : BootRun) : BootOp → BootRun → Prop
  | .boot, s' => s.boot f = some s'
  | .memory m, s' => s' = { s with kernel := { s.kernel with mem := m } }
  | .mapMmio physAddr size, s' => s.stage = .running ∧
      ∃ k, s.kernel.memoryMapMmio s.gKernelPml4 physAddr size = some k ∧
        s' = { s with kernel := k }
  | .syscall n a1 a2 a3 a4 a5 polls, s' => s.stage = .running ∧ s.Frees n a1 ∧
      s' = { s with kernel := (s.kernel.syscallHandler n a1 a2 a3 a4 a5 polls).1 }
  | .interrupt frame scancode cr2, s' => s.stage = .running ∧
      s' = { s with kernel := (s.kernel.exceptionHandler frame scancode cr2).1 }

/-- Runs from where `KernelMain` has marked the image used. -/
def sys (f : Firmware) : TSys BootRun BootOp where
  init s := ∃ m, s =
    { kernel := { Kernel.statics with
        mem := m
        pages := PageAllocator.zero.boot f.map f.imageBase f.imageSize }
      gKernelPml4 := 0
      stage := .syscallInit }
  next := next f

/-- Every step is a step of the pages. -/
theorem pageStep {f : Firmware} {s s' : BootRun} {op : BootOp} (h : next f s op s') :
    PageStep s.kernel s'.kernel := by
  cases op with
  | boot =>
      have h : s.boot f = some s' := h
      unfold boot at h
      split at h
      · obtain rfl := Option.some.inj h
        exact .of_alloc rfl rfl
      · obtain ⟨r, run, rfl⟩ := Option.map_eq_some_iff.mp h
        exact (Kernel.pageTableInit_step run).1
      · obtain rfl := Option.some.inj h
        exact s.kernel.heapSetup_step
      · obtain rfl := Option.some.inj h
        exact s.kernel.schedulerSetup_step
      · cases h
  | memory m =>
      obtain rfl : s' = _ := h
      exact .of_same rfl fun _ => id
  | mapMmio physAddr size =>
      obtain ⟨-, k, run, rfl⟩ := h
      unfold Kernel.memoryMapMmio at run
      split at run
      · obtain rfl := Option.some.inj run
        exact .of_same rfl fun _ => id
      · exact (Kernel.mapRange_step run).1
  | syscall n a1 a2 a3 a4 a5 polls =>
      obtain ⟨-, -, rfl⟩ := h
      exact s.kernel.syscallHandler_step ..
  | interrupt frame scancode cr2 =>
      obtain ⟨-, rfl⟩ := h
      exact s.kernel.exceptionHandler_step ..

/-- The memory map says which pages the allocator looks at, at any time. -/
theorem total_invariant (f : Firmware) :
    (sys f).Invariant fun s => ∀ p, p < s.kernel.pages.totalPages.toNat ↔ BelowTotal f.map p := by
  apply TSys.Inductive.invariant
  constructor
  · rintro s ⟨m, rfl⟩ p
    exact lt_totalPages_boot
  · intro s op s' inv next p
    rw [(pageStep next).total]
    exact inv p

end BootRun
end Coolos
