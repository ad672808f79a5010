import Coolos.Logic.MappedRun

/-!
# Allocated pages are mapped

Whatever `PageAllocator_Alloc` returns after `PageTable_Init`, wherever it is called and
however the run goes on, can be written through its own address: the allocator hands out
memory of types the tables were built for. This takes a memory map below `2 ^ 48`: a
descriptor above it takes the entries of pages below.
-/

namespace Coolos.Theorems

open Lib Lib.Paging PageAllocator

/-- The address `v` is mapped to itself, writable. -/
def MapsToSelf (m : Mem) (pml4 v : Word) : Prop :=
  ∃ t, walk m v 3 pml4 = some t ∧ t.frame = loc (page v * 4096) ∧ t.writable = true

/-- A step from `s` calls `PageAllocator_Alloc(pages)` in the kernel `k`. -/
inductive Allocates (s : BootRun) : BootOp → Kernel → Word → Prop
  | heap : s.stage = .heapSetup → Allocates s .boot s.kernel 4096
  /-- In `GetOrCreateTable`, called for one of the turns of `Memory_MapMMIO`. -/
  | table {physAddr size : Word} {i : Nat} {k : Kernel} :
      i < turnsTo physAddr (physAddr + size) →
      k ∈ (s.kernel.turns s.gKernelPml4 (pageWritable ||| pageUser) physAddr i).tableCalls
        s.gKernelPml4 (turn physAddr i) →
      Allocates s (.mapMmio physAddr size) k 1
  | stack {a1 a2 a3 a4 a5 : Word} {polls : List NvmeCQEntry} :
      Allocates s (.syscall syscallExec a1 a2 a3 a4 a5 polls) s.kernel a2
  | kernelStack {a1 a2 a3 a4 a5 stack : Word} {pages : PageAllocator} {polls : List NvmeCQEntry} :
      s.kernel.pages.alloc a2 = (pages, stack) → stack ≠ 0 → s.kernel.sched.totalTasks < maxTasks →
      Allocates s (.syscall syscallExec a1 a2 a3 a4 a5 polls) { s.kernel with pages := pages } 1

/-- Every block allocated after `PageTable_Init` is mapped to itself when it is returned,
and in every state from then on. -/
def AllocationsMapped (f : Firmware) : Prop :=
  ∀ s op s', (mappedSys f).Reachable s → s.stage.Mapped → (mappedSys f).next s op s' →
    ∀ k pages, Allocates s op k pages →
      ∀ pa ptr, k.pages.alloc pages = (pa, ptr) → ptr ≠ 0 →
        ∀ v, InRange (ptr, pages) (page v) →
          MapsToSelf k.mem s.gKernelPml4 v ∧
            ∀ trace t, Path (mappedSys f).Steps s trace t →
              MapsToSelf t.kernel.mem t.gKernelPml4 v

section Mapped

variable {f : Firmware} {s s' : BootRun}

/-- What is usable is mapped. -/
theorem described_of_available {map : List MemoryDescriptor} {p : Nat} (h : Available map p) :
    p ∈ describedPages map := by
  obtain ⟨d, hd, use, holds⟩ := h
  refine ⟨d, hd, ?_, holds⟩
  rcases use with use | use | use
  · exact .inl use
  · exact .inr (.inr (.inr (.inl use)))
  · exact .inr (.inr (.inr (.inr (.inl use))))

/-- The steps of boot go forward. -/
theorem mapped_step {op : BootOp} (mapped : s.stage.Mapped) (next : BootRun.next f s op s') :
    s'.stage.Mapped := by
  cases op with
  | boot =>
      have next : BootRun.boot f s = some s' := next
      unfold BootRun.boot at next
      split at next
      · rename_i stage
        exact absurd stage mapped.1
      · rename_i stage
        exact absurd stage mapped.2
      · obtain rfl := Option.some.inj next
        exact ⟨nofun, nofun⟩
      · obtain rfl := Option.some.inj next
        exact ⟨nofun, nofun⟩
      · cases next
  | memory m =>
      obtain rfl : s' = _ := next
      exact mapped
  | mapMmio physAddr size =>
      obtain ⟨-, k, -, rfl⟩ := next
      exact mapped
  | syscall n a1 a2 a3 a4 a5 polls =>
      obtain ⟨-, -, rfl⟩ := next
      exact mapped
  | interrupt frame scancode cr2 =>
      obtain ⟨-, rfl⟩ := next
      exact mapped

theorem mapped_path {trace : List BootRun} (mapped : s.stage.Mapped)
    (hs : (mappedSys f).Reachable s) (path : Path (mappedSys f).Steps s trace s') :
    s'.stage.Mapped ∧ (mappedSys f).Reachable s' := by
  induction path with
  | nil => exact ⟨mapped, hs⟩
  | step _ next ih =>
      obtain ⟨op, next⟩ := next
      exact ⟨mapped_step ih.1 next.2, ih.2.step next⟩

/-- In a kernel that allocates the tables stand, and it only took pages since the step
began. -/
theorem Allocates.maps {op : BootOp} {k : Kernel} {pages : Word} {S : Set Nat}
    (maps : Maps S s.kernel s.gKernelPml4) (provided : Provided f s op)
    (calls : Allocates s op k pages) :
    Maps S k s.gKernelPml4 ∧ PageStep s.kernel k := by
  cases calls with
  | heap stage => exact ⟨maps, .of_same rfl fun _ => id⟩
  | @table physAddr size i k hi hk =>
      obtain ⟨top, supplied⟩ := provided
      have stop : (physAddr + size).toNat ≤ 2 ^ 48 := by
        rw [BitVec.toNat_add]
        omega
      have inside := (turn_lt (Nat.le_of_lt hi) (by omega)).mpr hi
      rw [BitVec.lt_def] at inside
      have before := maps.turns (.inr rfl) stop supplied i (Nat.le_of_lt hi)
      have step := (s.kernel.turns_step s.gKernelPml4 (pageWritable ||| pageUser) physAddr i).1
      exact ⟨before.tableCalls (by omega) (supplied i hi) k hk,
        step.trans (Kernel.tableCalls_step _ _ _ k hk).1⟩
  | stack => exact ⟨maps, .of_same rfl fun _ => id⟩
  | @kernelStack a1 a2 a3 a4 a5 stack taken polls run some room =>
      obtain rfl : taken = (s.kernel.pages.alloc a2).1 := by rw [run]
      obtain ⟨total, shrinks⟩ := alloc_shrinks s.kernel.pages a2
      exact ⟨maps.shrink total shrinks rfl (fun _ => rfl) fun _ => rfl, .of_alloc rfl rfl⟩

end Mapped

/-- Below `2 ^ 48` allocated pages are mapped in every run. -/
theorem allocations_mapped {f : Firmware} (ok : ∀ d ∈ f.map, d.WellPlaced)
    (low : InitLow f.fbBase f.fbSize f.map f.lapicAddr f.rsp) : AllocationsMapped f := by
  intro s op s' hs mapped next k pages calls pa ptr run some v here
  have inv := mapped_invariant low ok s hs
  obtain ⟨maps, step⟩ := Allocates.maps (inv.maps mapped) next.1 calls
  -- the page was clear when the step began, so it is memory of a usable type
  obtain ⟨-, below, clear⟩ := (alloc_range run some).2.2 (page v) here
  have bounded : page v < maxPages := Nat.lt_trans below k.pages.bounded
  have available := inv.available (page v) bounded (step.cleared (page v) clear)
  have described := described_of_available available
  have small := described_small low (page v) described
  refine ⟨maps.walk small described, ?_⟩
  intro trace t path
  obtain ⟨mapped', ht⟩ := mapped_path mapped hs path
  exact ((mapped_invariant low ok t ht).maps mapped').walk small described

/-! ## A descriptor above `2 ^ 48` -/

/-- The pages that `KernelMain` starts with. -/
def startPages (f : Firmware) : PageAllocator :=
  PageAllocator.zero.boot f.map f.imageBase f.imageSize

/-- `KernelMain` comes to its end, with a page left. -/
theorem runs_with_page {f : Firmware} {P : Finset Nat} (ok : ∀ d ∈ f.map, d.WellPlaced)
    (fb : (f.fbBase + f.fbSize).toNat + 4096 ≤ 2 ^ 64)
    (covers : ∀ W ∈ f.writes, ∀ n e, W n e → n ∈ P)
    (enough : tablesNeeded P + 1 ≤ ((startPages f).alloc 1).1.clearPages.card)
    (provided : f.tables ≤ ((startPages f).alloc 1).1.clearPages.card)
    (few : (startPages f).totalPages < 4096) :
    ∃ s root T leaf, (mappedSys f).Reachable s ∧ s.stage = .running ∧
      s.gKernelPml4 = loc (root * 4096) ∧ TablesInv s.kernel [] root T leaf ∧
      Phases f.writes (fun _ => 0) leaf ∧
      (s.kernel.pages.alloc 1).2 ≠ 0 ∧ s.kernel.pages.totalPages = (startPages f).totalPages := by
  have provide {s : BootRun} (other : s.stage ≠ .pageTableInit) : Provided f s .boot :=
    fun stage => absurd stage other
  let k₀ : Kernel := { Kernel.statics with pages := startPages f }
  have hs₀ : (mappedSys f).Reachable ⟨k₀, 0, .syscallInit⟩ := .init ⟨fun _ => 0, rfl⟩
  have hs₁ : (mappedSys f).Reachable ⟨k₀.syscallInit, 0, .pageTableInit⟩ :=
    hs₀.step (e := .boot) ⟨provide nofun, rfl⟩
  obtain ⟨k, root, T, leaf, run, inv, spare, phases⟩ :=
    pageTableInit_phases (k := k₀.syscallInit) ok fb covers enough
  have next : BootRun.boot f ⟨k₀.syscallInit, 0, .pageTableInit⟩ =
      some ⟨k, loc (root * 4096), .heapSetup⟩ := by
    unfold BootRun.boot
    dsimp only
    rw [run, Option.map_some]
  have hs₂ : (mappedSys f).Reachable ⟨k, loc (root * 4096), .heapSetup⟩ :=
    hs₁.step (e := .boot) ⟨fun _ => provided, next⟩
  have hs₃ : (mappedSys f).Reachable ⟨k.heapSetup, loc (root * 4096), .schedulerSetup⟩ :=
    hs₂.step (e := .boot) ⟨provide nofun, rfl⟩
  have hs₄ : (mappedSys f).Reachable ⟨k.heapSetup.schedulerSetup, loc (root * 4096), .running⟩ :=
    hs₃.step (e := .boot) ⟨provide nofun, rfl⟩
  -- there is no room for the heap
  have total : k.pages.totalPages = (startPages f).totalPages :=
    (Kernel.pageTableInit_step run).1.total.trans (alloc_shrinks (startPages f) 1).1
  have full : k.pages.alloc 4096 = (k.pages, 0) := by
    rw [PageAllocator.alloc, if_pos]
    rw [total]
    exact .inr few
  obtain ⟨pages, mem, -⟩ := k.heapSetup_touches
  rw [full] at pages
  obtain ⟨pages', mem'⟩ := k.heapSetup.schedulerSetup_touches
  have same : k.heapSetup.schedulerSetup.pages = k.pages := pages'.trans pages
  refine ⟨_, root, T, leaf, hs₄, rfl, rfl, ?_, phases, ?_, ?_⟩
  · exact inv.shrink (by rw [same]) (fun p => by rw [same]; exact id) (mem'.trans mem)
  · rw [same]
    apply (alloc_one_ne_zero_iff k.pages).mpr
    unfold Spare at spare
    omega
  · rw [same, total]

/-- Sixteen pages with the image, twenty-four of memory, and forty of device registers from
`start` on. -/
def registersAt (start : Word) : Firmware where
  map := [⟨EfiMemoryType.loaderCode.code, 0x1000, 16⟩,
    ⟨EfiMemoryType.conventionalMemory.code, 0x11000, 24⟩,
    ⟨EfiMemoryType.memoryMappedIO.code, start, 40⟩]
  imageBase := 0x1000
  imageSize := 0x10000
  fbBase := 0x80000000
  fbSize := 0
  lapicAddr := 0
  rsp := 0x3FFFF0

/-- The pages whose entries are written for it: those of the first 4 MB, and the IOAPIC's. -/
def registerPages : Finset Nat := insert 0xFEC00 (Finset.range 1024)

section Registers

variable {start : Word}

/-- The registers are page-aligned, and fall on the first 2 MB. -/
structure FirstBlock (start : Word) : Prop where
  aligned : start.toNat % 4096 = 0
  top : start.toNat + 41 * 4096 ≤ 2 ^ 64
  block : page start % 2 ^ 36 + 40 ≤ 512

theorem FirstBlock.placed (first : FirstBlock start) :
    ∀ d ∈ (registersAt start).map, d.WellPlaced := by
  have top := first.top
  intro d hd
  simp only [registersAt, List.mem_cons, List.not_mem_nil, or_false] at hd
  rcases hd with rfl | rfl | rfl
  · exact ⟨by decide, by decide⟩
  · exact ⟨by decide, by decide⟩
  · refine ⟨first.aligned, ?_⟩
    show start.toNat + 40 * 4096 ≤ 2 ^ 64
    omega

theorem FirstBlock.turns (first : FirstBlock start) :
    (start + 40 * pageSize).toNat + 4096 ≤ 2 ^ 64 ∧ turnsTo start (start + 40 * pageSize) = 40 := by
  have top := first.top
  have stop : (start + 40 * pageSize).toNat = start.toNat + 40 * 4096 := by
    rw [BitVec.toNat_add, show ((40 : Word) * pageSize).toNat = 40 * 4096 from rfl]
    omega
  refine ⟨by omega, ?_⟩
  rw [turnsTo, stop]
  omega

theorem FirstBlock.covers (first : FirstBlock start) :
    ∀ W ∈ (registersAt start).writes, ∀ n e, W n e → n ∈ registerPages := by
  have low {n : Nat} (hn : n < 1024) : n ∈ registerPages :=
    Finset.mem_insert_of_mem (Finset.mem_range.mpr hn)
  intro W hW n e written
  simp only [Firmware.writes, initWrites, registersAt, List.map_cons, List.map_nil, deviceWrites,
    List.mem_append, List.mem_cons, List.not_mem_nil, or_false] at hW
  rcases hW with (rfl | rfl | rfl) | rfl | rfl | rfl | rfl
  · obtain ⟨i, hi, rfl, -⟩ := lowPage_of_loop (by decide) written.2
    have hi : i < 16 := hi
    apply low
    show (1 + i) % 2 ^ 36 < 1024
    omega
  · obtain ⟨i, hi, rfl, -⟩ := lowPage_of_loop (by decide) written.2
    have hi : i < 24 := hi
    apply low
    show (17 + i) % 2 ^ 36 < 1024
    omega
  · obtain ⟨top, turns⟩ := first.turns
    obtain ⟨i, hi, rfl, -⟩ := lowPage_of_loop top written.2
    rw [turns] at hi
    have block := first.block
    apply low
    show (page start + i) % 2 ^ 36 < 1024
    omega
  · obtain ⟨i, hi, -, -⟩ := lowPage_of_loop (by decide) written
    exact absurd hi (Nat.not_lt_zero i)
  · exact absurd rfl written.1
  · obtain ⟨i, hi, rfl, -⟩ := lowPage_of_loop (by decide) written
    have hi : i < 1 := hi
    obtain rfl : i = 0 := by omega
    exact Finset.mem_insert_self ..
  · obtain ⟨i, hi, rfl, -⟩ := lowPage_of_loop (by decide) written
    have hi : i < 256 := hi
    apply low
    show (0x300 + i) % 2 ^ 36 < 1024
    omega

theorem FirstBlock.tables (first : FirstBlock start) : (registersAt start).tables ≤ 13 := by
  apply (tablesNeeded_le (B := {0, 1, page start / 512, 2038}) ?_).trans
  · have four := Finset.card_le_four (a := 0) (b := 1) (c := page start / 512) (d := 2038)
    omega
  intro p hp
  simp only [Finset.mem_insert, Finset.mem_singleton]
  rcases hp with (((⟨d, hd, -, hp⟩ | hp) | hp) | hp) | hp
  · simp only [registersAt, List.mem_cons, List.not_mem_nil, or_false] at hd
    rcases hd with rfl | rfl | rfl
    · have high : (p + 1) * 4096 ≤ 0x1000 + 16 * 4096 := hp.2
      omega
    · have high : (p + 1) * 4096 ≤ 0x11000 + 24 * 4096 := hp.2
      omega
    · have low : start.toNat ≤ p * 4096 := hp.1
      have high : (p + 1) * 4096 ≤ start.toNat + 40 * 4096 := hp.2
      have block := first.block
      have place : page start = start.toNat / 4096 := rfl
      omega
  · have low : 0x80000000 < (p + 1) * 4096 := hp.1
    have high : p * 4096 < 0x80000000 + 0 := hp.2
    omega
  · exact absurd rfl hp.1
  · have here : p = 0xFEC00000 / 4096 := hp
    omega
  · have here : p / 256 = 0x3FFFF0 / 2 ^ 20 := hp
    omega

theorem register_tables : tablesNeeded registerPages ≤ 10 := by
  apply (tablesNeeded_le (B := {0, 1, 2038}) ?_).trans (by decide)
  intro p hp
  rw [registerPages, Finset.mem_coe, Finset.mem_insert, Finset.mem_range] at hp
  simp only [Finset.mem_insert, Finset.mem_singleton]
  omega

/-- A run of such a machine, with a page left. -/
theorem FirstBlock.runs (first : FirstBlock start)
    (left : ((startPages (registersAt start)).alloc 1).1.clearPages.card = 23)
    (few : (startPages (registersAt start)).totalPages < 4096) :
    ∃ s root T leaf, (mappedSys (registersAt start)).Reachable s ∧ s.stage = .running ∧
      s.gKernelPml4 = loc (root * 4096) ∧ TablesInv s.kernel [] root T leaf ∧
      Phases (registersAt start).writes (fun _ => 0) leaf ∧
      (s.kernel.pages.alloc 1).2 ≠ 0 ∧
      s.kernel.pages.totalPages = (startPages (registersAt start)).totalPages := by
  have fb : ((0x80000000 : Word) + 0).toNat + 4096 ≤ 2 ^ 64 := by decide
  apply runs_with_page (f := registersAt start) first.placed fb first.covers
  · rw [left]
    exact (Nat.add_le_add_right register_tables 1).trans (by decide)
  · rw [left]
    exact first.tables.trans (by decide)
  · exact few

end Registers

/-- Registers behind the memory. -/
theorem low_block : FirstBlock 0x30000 := ⟨by decide, by decide, by decide⟩

theorem low_left : ((startPages (registersAt 0x30000)).alloc 1).1.clearPages.card = 23 := by
  decide +kernel

theorem low_few : (startPages (registersAt 0x30000)).totalPages < 4096 := by decide +kernel

/-- Below `2 ^ 48`, a page is left and so is the promise. -/
theorem allocations_mapped_low : AllocationsMapped (registersAt 0x30000) ∧
    ∃ s, (mappedSys (registersAt 0x30000)).Reachable s ∧ s.stage = .running ∧
      (s.kernel.pages.alloc 1).2 ≠ 0 := by
  constructor
  · apply allocations_mapped low_block.placed
    refine ⟨?_, by decide, by decide, by decide⟩
    intro d hd _
    simp only [registersAt, List.mem_cons, List.not_mem_nil, or_false] at hd
    rcases hd with rfl | rfl | rfl
    · decide
    · decide
    · decide
  · obtain ⟨s, -, -, -, hs, running, -, -, -, left, -⟩ := low_block.runs low_left low_few
    exact ⟨s, hs, running, left⟩

/-- Registers whose entries are those of the memory. -/
theorem high_block : FirstBlock 0x1000000001000 := ⟨by decide, by decide, by decide⟩

theorem high_left :
    ((startPages (registersAt 0x1000000001000)).alloc 1).1.clearPages.card = 23 := by
  decide +kernel

theorem high_total : (startPages (registersAt 0x1000000001000)).totalPages = 41 := by
  decide +kernel

/-- The memory's entries are those of the registers in the end. -/
theorem high_entries {leaf : Nat → Word}
    (phases : Phases (registersAt 0x1000000001000).writes (fun _ => 0) leaf) {c : Nat} (pos : 1 ≤ c)
    (inside : c < 41) : ∃ u, decode (leaf c) = some ⟨loc ((2 ^ 36 + c) * 4096), true, u⟩ := by
  obtain ⟨top, turns⟩ := high_block.turns
  have first : page 0x1000000001000 = 2 ^ 36 + 1 := by decide
  have place {i : Nat} (hi : i < 40) : page (turn 0x1000000001000 i) = 2 ^ 36 + 1 + i := by
    have goes : i ≤ turnsTo 0x1000000001000 (0x1000000001000 + 40 * pageSize) := by
      rw [turns]
      omega
    have there := toNat_turn goes top
    rw [page, there, Nat.add_mul_div_right _ _ (by decide)]
    exact congrArg (· + i) first
  have written : entryWrites ⟨EfiMemoryType.memoryMappedIO.code, 0x1000000001000, 40⟩ c
      (selfEntry (pageWritable ||| pageUser) (turn 0x1000000001000 (c - 1))) := by
    refine ⟨by decide, c - 1, ?_, ?_, rfl⟩
    · show c - 1 < turnsTo 0x1000000001000 ((0x1000000001000 : Word) + 40 * pageSize)
      rw [turns]
      omega
    · show lowPage (turn 0x1000000001000 (c - 1)) = c
      rw [lowPage, place (by omega)]
      omega
  -- no device has its entries there
  have others : ∀ W ∈ deviceWrites 0x80000000 0 0 0x3FFFF0, ∀ e, ¬ W c e := by
    intro W hW e written
    simp only [deviceWrites, List.mem_cons, List.not_mem_nil, or_false] at hW
    rcases hW with rfl | rfl | rfl | rfl
    · obtain ⟨i, hi, -, -⟩ := lowPage_of_loop (by decide) written
      exact absurd hi (Nat.not_lt_zero i)
    · exact absurd rfl written.1
    · obtain ⟨i, hi, here, -⟩ := lowPage_of_loop (by decide) written
      have hi : i < 1 := hi
      have here : c = (0xFEC00 + i) % 2 ^ 36 := here
      omega
    · obtain ⟨i, hi, here, -⟩ := lowPage_of_loop (by decide) written
      have hi : i < 256 := hi
      have here : c = (0x300 + i) % 2 ^ 36 := here
      omega
  obtain ⟨-, won⟩ := Phases.wins (L := [_, _]) phases written others
  obtain ⟨i, hi, here, entry⟩ := lowPage_of_loop top won
  rw [turns] at hi
  have there := place hi
  have here : c = (page 0x1000000001000 + i) % 2 ^ 36 := here
  rw [first] at here
  obtain ⟨u, read⟩ := decode_selfEntry (.inr rfl) (turn 0x1000000001000 i)
  have small : (turn 0x1000000001000 i).toNat < 2 ^ 52 := by
    rw [page] at there
    omega
  refine ⟨u, ?_⟩
  rw [entry]
  refine read.trans ?_
  rw [and_addrMask small, there, show 2 ^ 36 + 1 + i = 2 ^ 36 + c by omega]

/-- With a descriptor from `2 ^ 48` on, the page `SYSCALL_EXEC` takes for a stack is not
mapped to itself. -/
theorem allocations_not_mapped_above :
    (∀ d ∈ (registersAt 0x1000000001000).map, d.WellPlaced) ∧
      ¬ AllocationsMapped (registersAt 0x1000000001000) := by
  refine ⟨high_block.placed, ?_⟩
  intro all
  obtain ⟨s, root, T, leaf, hs, running, hroot, inv, phases, left, total⟩ :=
    high_block.runs high_left (by rw [high_total]; decide)
  rcases run : s.kernel.pages.alloc 1 with ⟨pa, ptr⟩
  rw [run] at left
  have some : ptr ≠ 0 := left
  obtain ⟨c, rfl, small, pos, below, -⟩ := alloc_page run some
  rw [total, high_total] at below
  have inside : c < 41 := below
  have place : page (loc (c * 4096)) = c := by
    rw [page, toNat_table small, Nat.mul_div_cancel _ (by decide)]
  have mapped : s.stage.Mapped := by
    rw [running]
    exact BootStage.running_mapped
  have here : InRange (loc (c * 4096), 1) (page (loc (c * 4096))) := ⟨le_rfl, Nat.lt_succ_self _⟩
  obtain ⟨⟨t, translates, frame, -⟩, -⟩ := all s (.syscall syscallExec 0 1 0 0 0 []) _ hs mapped
    ⟨trivial, running, fun named => absurd named (by decide), rfl⟩ s.kernel 1 .stack pa _ run
    some _ here
  -- the walk ends at the entry of the registers
  obtain ⟨u, read⟩ := high_entries phases pos inside
  rw [hroot, inv.holds.walk (by rw [place]; omega), place, read] at translates
  obtain rfl := Option.some.inj translates
  rw [place, loc_inj (by omega) (by omega)] at frame
  omega

end Coolos.Theorems
