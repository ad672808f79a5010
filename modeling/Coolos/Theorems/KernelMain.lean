import Coolos.Logic.BootSupply
import Coolos.Logic.Madt
import Coolos.Logic.UserState
import Coolos.Theorems.FrameLayout
import Coolos.Theorems.Gdt
import Coolos.Theorems.IdentityMap
import Coolos.Theorems.InterruptFlag

/-!
# `KernelMain`

How far it gets, and what is set up when ring 3 is entered: everything the runs of the machine
begin with.
-/

namespace Coolos.Theorems

open Lib Lib.X86 Lib.Paging PageAllocator Machine

/-! ## The page tables -/

section Paging

variable {k : Kernel} {fbBase fbSize lapicAddr rsp : Word} {map : List MemoryDescriptor}

/-- With pages enough `PageTable_Init` returns. It has written to the pages it has taken and
to no others, taken no more than the tables needed, and changed nothing else. -/
theorem page_tables_confined (args : InitArgs fbBase fbSize map lapicAddr rsp)
    (placed : ∀ d ∈ map, d.WellPlaced)
    (enough : tablesNeeded (identityPages fbBase fbSize map lapicAddr rsp) ≤
      k.pages.clearPages.card) :
    ∃ k' pml4, k.pageTableInit fbBase fbSize map lapicAddr rsp = some (k', pml4) ∧
      (∀ a, k'.mem a ≠ k.mem a → page a ∈ k.pages.clearPages ∧ page a ∉ k'.pages.clearPages) ∧
      k'.pages.clearPages ⊆ k.pages.clearPages ∧
      k.pages.clearPages.card ≤ k'.pages.clearPages.card +
        tablesNeeded (identityPages fbBase fbSize map lapicAddr rsp) ∧
      { k' with mem := k.mem, pages := k.pages } = k := by
  obtain ⟨P, hP⟩ := args.low.finite.exists_finset_coe
  rw [← hP] at enough ⊢
  have fb : (fbBase + fbSize).toNat + 4096 ≤ 2 ^ 64 := by
    have below := args.framebuffer.2
    rw [BitVec.toNat_add]
    omega
  have covers : ∀ W ∈ initWrites fbBase fbSize map lapicAddr rsp, ∀ n e, W n e → n ∈ P := by
    intro W hW n e written
    have := args.low.covers placed W hW n e written
    rwa [← hP] at this
  -- all pages are below the last one there can be
  have all : k.pages.clearPages.filter (· < maxPages) = k.pages.clearPages := by
    apply Finset.filter_true_of_mem
    intro p hp
    have high := (Finset.mem_Ico.mp (Finset.mem_filter.mp hp).1).2
    have bounded := k.pages.bounded
    omega
  rw [← all] at enough
  obtain ⟨k', pml4, run, shrinks, count, -, written⟩ :=
    pageTableInit_confined placed fb covers enough
  refine ⟨k', pml4, run, written, shrinks, count, ?_⟩
  obtain ⟨mem, pages, rfl⟩ := Kernel.pageTableInit_touches run
  rfl

end Paging

/-- In the small machine 64 kB of memory change at most, and nothing above, where the stack is. -/
theorem page_tables_confined_small : ∃ k' pml4,
    smallKernel.pageTableInit 0x80000000 0x1000 smallMap 0xFEE00000 0x18000 = some (k', pml4) ∧
      ∀ a : Word, 0x10000 ≤ a.toNat → k'.mem a = 0xFF := by
  obtain ⟨k', pml4, run, written, -⟩ := page_tables_confined small_args (by
    intro d hd
    unfold MemoryDescriptor.WellPlaced
    rcases mem_smallMap hd with rfl | rfl <;> decide) small_enough
  refine ⟨k', pml4, run, fun a high => ?_⟩
  by_contra other
  have range := (Finset.mem_filter.mp (written a other).1).1
  have below : page a < 16 := (Finset.mem_Ico.mp range).2
  rw [page] at below
  omega

/-! ## The last step -/

section Switch

variable (m : Machine) (entryPoint userStack : Word)

/-- The state in which the three words are pushed that `SwitchToUserMode` computes last. -/
theorem switchToUserMode_state : ∃ p : State Sym,
    p.stackWord 0 = userStack ∧ p.stackWord 1 = userDataSel ∧
      (m.switchToUserMode entryPoint userStack).cpu =
        (Instr.exec (p.pushWords [p.cpu.regs .rax, userCodeSel, entryPoint]) .iretq).cpu := by
  obtain ⟨s, hs⟩ : ∃ s : State Sym, s = ({ m.state with cpu := { m.cpu with gsBase := 0 } } :
    State Sym).pushWords [userDataSel, userStack] := ⟨_, rfl⟩
  obtain ⟨p, hp⟩ : ∃ p : State Sym, p = (Instr.exec (s.pushWords [s.cpu.rflags]) (.pop .rax)).setReg
    .rax ((Instr.exec (s.pushWords [s.cpu.rflags]) (.pop .rax)).cpu.regs .rax ||| 0x200) := ⟨_, rfl⟩
  have rsp : p.cpu.regs .rsp = (s.pushWords [s.cpu.rflags]).cpu.regs .rsp + 8 := by
    rw [hp, State.setReg, setReg_of_ne (by decide), Instr.exec, State.setReg,
      setReg_of_ne (by decide), State.setReg, setReg_self]
  -- the flags pushed and popped are below
  have word (i : Nat) (hi : i < 2) : p.stackWord i = s.stackWord i := by
    have below : (s.pushWords [s.cpu.rflags]).stackWord (1 + i) = s.stackWord i :=
      stackWord_below (by show 8 * 1 + 8 * i + 8 ≤ 2 ^ 64; omega)
    have mem : p.mem = (s.pushWords [s.cpu.rflags]).mem := by rw [hp]; rfl
    rw [← below, State.stackWord, State.stackWord, rsp, mem, Nat.mul_add, loc_add,
      ← BitVec.add_assoc]
    rfl
  refine ⟨p, ?_, ?_, ?_⟩
  · rw [word 0 (by decide), hs]
    exact stackWord_pushWords (by show 8 * 2 ≤ 2 ^ 64; decide) rfl
  · rw [word 1 (by decide), hs]
    exact stackWord_pushWords (by show 8 * 2 ≤ 2 ^ 64; decide) rfl
  · rw [hp, hs]
    rfl

/-- `iretq` pops what `SwitchToUserMode` has pushed. -/
theorem switchToUserMode_cpu {c : Cpu} (hc : c = (m.switchToUserMode entryPoint userStack).cpu) :
    c.rip = entryPoint ∧ c.cs = userCodeSel.truncate 16 ∧ c.ss = userDataSel.truncate 16 ∧
      c.regs .rsp = userStack := by
  obtain ⟨p, sp, ss, last⟩ := switchToUserMode_state m entryPoint userStack
  rw [last] at hc
  have few : 8 * [p.cpu.regs .rax, userCodeSel, entryPoint].length ≤ 2 ^ 64 := by
    show 8 * 3 ≤ 2 ^ 64
    decide
  obtain ⟨q, hq⟩ : ∃ q, q = p.pushWords [p.cpu.regs .rax, userCodeSel, entryPoint] := ⟨_, rfl⟩
  have above (i : Nat) (hi : i < 2) : q.stackWord (3 + i) = p.stackWord i := by
    rw [hq]
    exact stackWord_below (by show 8 * 3 + 8 * i + 8 ≤ 2 ^ 64; omega)
  have rip : q.stackWord 0 = entryPoint := by
    rw [hq]
    exact stackWord_pushWords few rfl
  have cs : q.stackWord 1 = userCodeSel := by
    rw [hq]
    exact stackWord_pushWords few rfl
  have rsp : q.stackWord 3 = userStack := (above 0 (by decide)).trans sp
  have top : q.stackWord 4 = userDataSel := (above 1 (by decide)).trans ss
  have popped : c = { q.cpu.setReg .rsp (q.stackWord 3) with
      rip := q.stackWord 0, cs := (q.stackWord 1).truncate 16
      rflags := q.stackWord 2, ss := (q.stackWord 4).truncate 16 } := by
    rw [hc, hq, Instr.exec]
  rw [popped, rip, cs, rsp, top]
  refine ⟨rfl, rfl, rfl, ?_⟩
  exact setReg_self q.cpu .rsp userStack

end Switch

/-! ## Ring 3 -/

/-- Ring 3 is entered at `UserMain` with privilege 3, on a stack of its own. Whatever enters
the kernel again finds its code, with privilege 0, and the kernel stack. -/
structure UserEntered (image : Image) (b : Boot) : Prop where
  /-- The runs of the machine begin here. -/
  start : flagSys.init (.ring3 ⟨b.machine, fun _ => none, []⟩)
  rip : b.machine.cpu.rip = image.userMain
  user : Selected b.gdt.table b.machine.cpu.cs b.machine.cpu.ss 3
  kernel : Selected b.gdt.table b.machine.cpu.syscall.cs b.machine.cpu.syscall.ss 0
  lstar : b.machine.cpu.lstar = image.syscallEntry
  gates : ∀ v : BitVec 8, b.machine.idt (v.zeroExtend 64) = image.isr (stubOf v) ∧
    (b.idt v).selector = kernelCodeSel.truncate 16
  settled : b.machine.Settled
  tss : Segment.ofEntries (b.gdt.table 5) (b.gdt.table 6) = ⟨image.tss, 103, 0x89, 0⟩
  rsp0 : b.tss.rsp0 = b.machine.rsp0
  onStack : ∃ start, HeapRegion start (4096 * 4096) ∧ b.machine.rsp0 = start + 32 + 4096 ∧
    b.machine.cpu.regs .rsp = start + 4160 + 4096

/-- The selectors that `SYSCALL` takes from STAR. -/
theorem syscall_selectors {c : Cpu} {m : Machine} {entry : Word}
    (star : c.star = (m.syscallInit entry).cpu.star) :
    c.syscall.cs = kernelCodeSel.truncate 16 ∧ c.syscall.ss = kernelDataSel.truncate 16 := by
  have star : c.star = 0x0013 <<< 48 ||| kernelCodeSel <<< 32 := star
  constructor
  · show (c.star >>> 32).truncate 16 &&& 0xFFFC = kernelCodeSel.truncate 16
    rw [star]
    decide
  · show (c.star >>> 32).truncate 16 + 8 = kernelDataSel.truncate 16
    rw [star]
    decide

/-- What is ready is prepared for the runs. -/
theorem prepared_of_ready {image : Image} {b : Boot} {m : Machine} {start : Word}
    (ready : Ready image b m start) : Prepared m := by
  obtain ⟨m₀, pa, pa', -, -, sfmask, base, shrinks, alloc, left⟩ := ready.calls
  have some := ready.region.pos
  have top := ready.region.top
  have size : (4096 * 4096 : Word).toNat = 16777216 := rfl
  rw [size] at top
  constructor
  · refine ⟨m₀, image.syscallEntry, sfmask, base, ?_⟩
    have taken : pa'.clearPages ⊆ pa.clearPages := by
      obtain ⟨total, clear⟩ := alloc_shrinks pa 4096
      rw [alloc] at total clear
      intro p hp
      obtain ⟨range, still⟩ := Finset.mem_filter.mp hp
      rw [total] at range
      exact Finset.mem_filter.mpr ⟨range, clear p still⟩
    exact left.trans (taken.trans shrinks)
  · refine ⟨pa, pa', start, start + 32, alloc, some, ?_, ?_, ready.rsp0, left⟩
    · bv_omega
    · simp only [kernelStackSize]
      bv_omega

/-- `cpu_data` is neither in the heap nor so close below it. -/
theorem settled_of_ready {image : Image} {b : Boot} {m : Machine} {start : Word}
    (ready : Ready image b m start) (entryPoint userStack : Word) :
    (m.switchToUserMode entryPoint userStack).Settled := by
  obtain ⟨rsp0, -, gs, kernelGs, -⟩ := switchToUserMode_keeps m entryPoint userStack
  have star : (m.switchToUserMode entryPoint userStack).cpu.star = m.cpu.star := rfl
  obtain ⟨m₀, pa, pa', sameStar, -, -, base, shrinks, alloc, -⟩ := ready.calls
  have some := ready.region.pos
  obtain ⟨i, -, place, -, run, -⟩ := alloc_success alloc some
  have low := run.low
  have high := run.high
  have bound := pa.bounded
  have small : maxPages = 1048576 := rfl
  have size : (4096 : Word).toNat = 4096 := rfl
  rw [size] at high run
  have top := ready.rsp0
  constructor
  · rw [star, sameStar]
    rfl
  · -- the heap did not get the page
    obtain ⟨c, taken, limit, apart⟩ : ∃ c, m.cpu.kernelGsBase.toNat = c * 4096 ∧
        c < 2 ^ 40 ∧ (c < i ∨ i + 4096 ≤ c) := by
      have first : i ∈ pa.clearPages := by
        have clear := run.clear 0 (by decide)
        exact Finset.mem_filter.mpr ⟨Finset.mem_Ico.mpr ⟨low, by omega⟩, clear⟩
      have base : m.cpu.kernelGsBase = if (m₀.kernel.pages.alloc 1).2 ≠ 0 then
        (m₀.kernel.pages.alloc 1).2 else m₀.cpu.kernelGsBase := base
      have shrinks : pa.clearPages ⊆ (m₀.kernel.pages.alloc 1).1.clearPages := shrinks
      rcases call : m₀.kernel.pages.alloc 1 with ⟨pa₁, cpuData⟩
      rw [call] at base shrinks
      have given : cpuData ≠ 0 := by
        rintro rfl
        obtain ⟨rfl, -⟩ := alloc_null call
        have none : ¬ (m₀.kernel.pages.alloc 1).2 ≠ 0 := by
          rw [call]
          exact fun some => some rfl
        rw [alloc_one_ne_zero_iff] at none
        exact none (Finset.card_pos.mpr ⟨_, shrinks first⟩)
      rw [if_pos given] at base
      obtain ⟨c, rfl, small', -, -, -, -, bits⟩ := alloc_page call given
      refine ⟨c, by rw [base]; exact toNat_loc (by omega), small', ?_⟩
      by_contra inside
      have clear := run.clear (c - i) (by omega)
      have member : c ∈ pa.clearPages := by
        refine Finset.mem_filter.mpr ⟨Finset.mem_Ico.mpr ⟨by omega, by omega⟩, ?_⟩
        rwa [show i + (c - i) = c by omega] at clear
      have left := (Finset.mem_filter.mp (shrinks member)).2
      exact ((bits c).mp left).2 rfl
    intro j hj
    rw [rsp0, kernelGs, top]
    simp only [kernelStackSize, loc]
    bv_omega
  · intro j hj
    rw [rsp0, gs, top]
    simp only [kernelStackSize, loc]
    bv_omega

section Boot

variable {image : Image} {args : BootArgs} {env : BootEnv} {cpu : Cpu} {mem : Mem}
  {idt : Word → Word} {b : Boot} {o : BootOutcome}

/-- What `SwitchToUserMode` makes of what is ready. -/
theorem userEntered_of_ready {m : Machine} {start : Word} (ready : Ready image b m start)
    (machine : b.machine = m.switchToUserMode image.userMain (start + 4160 + 4096)) :
    UserEntered image b := by
  obtain ⟨rip, cs, ss, rsp⟩ :=
    switchToUserMode_cpu m image.userMain (start + 4160 + 4096) (congrArg Machine.cpu machine)
  obtain ⟨stack, -⟩ := switchToUserMode_keeps m image.userMain (start + 4160 + 4096)
  obtain ⟨m₀, -, -, star, lstar, -⟩ := ready.calls
  constructor
  case start =>
    refine ⟨_, m, _, _, rfl, ⟨?_, ?_, ?_, fun _ => rfl, rfl⟩, prepared_of_ready ready, machine⟩
    · show b.machine.kernel.sched = _
      rw [machine]
      exact ready.sched
    · show b.machine.kernel.handlerTable _ = _
      rw [machine]
      exact ready.timer
    · show b.machine.kernel.handlerTable _ = _
      rw [machine]
      exact ready.keyboard
  case rip => exact rip
  case user =>
    rw [cs, ss, ready.gdt]
    exact init_user _ _
  case kernel =>
    have same : b.machine.cpu.star = (m₀.syscallInit image.syscallEntry).cpu.star := by
      rw [machine]
      exact star
    obtain ⟨cs', ss'⟩ := syscall_selectors same
    rw [cs', ss', ready.gdt]
    exact init_kernel _ _
  case lstar =>
    rw [machine]
    exact lstar
  case gates =>
    intro v
    have offsets : b.machine.idt = fun v => (b.idt (v.truncate 8)).offset := by
      rw [machine]
      exact ready.gates
    have back : (v.zeroExtend 64).truncate 8 = v := by simp
    rw [offsets, ready.idt]
    dsimp only
    rw [back, init_gate, gate_offset]
    exact ⟨rfl, rfl⟩
  case settled =>
    show b.machine.Settled
    rw [machine]
    exact settled_of_ready ready _ _
  case tss =>
    rw [ready.gdt]
    exact (init_tss _ _).2
  case rsp0 =>
    rw [ready.tss, machine]
    exact stack.symm
  case onStack =>
    refine ⟨start, ready.region, ?_, rsp⟩
    rw [machine, ← ready.rsp0]
    exact stack

/-- Whenever `KernelMain` gets to ring 3 it has set everything up. -/
theorem kernelMain_enters
    (h : (Boot.loaded cpu mem idt).kernelMain image args env = some (.ring3 b)) :
    UserEntered image b := by
  obtain ⟨m, start, ready, -, machine⟩ := Boot.kernelMain_ring3 h
  exact userEntered_of_ready ready machine

theorem setup_pages (image : Image) (args : BootArgs) (cpu : Cpu) (mem : Mem) (idt : Word → Word) :
    ((Boot.loaded cpu mem idt).setup image args).machine.kernel.pages =
      ((PageAllocator.zero.boot args.map args.imageBase args.imageSize).alloc 1).1 := rfl

/-- What is free behind `Syscall_Init` is available memory outside of the image. -/
theorem setup_free (placed : ∀ d ∈ args.map, d.WellPlaced) {p : Nat}
    (free : p ∈ ((Boot.loaded cpu mem idt).setup image args).machine.kernel.pages.clearPages) :
    Available args.map p ∧ ¬ InImage args.imageBase args.imageSize p := by
  rw [setup_pages] at free
  obtain ⟨range, clear⟩ := Finset.mem_filter.mp free
  obtain ⟨total, shrinks⟩ :=
    alloc_shrinks (PageAllocator.zero.boot args.map args.imageBase args.imageSize) 1
  have below := (Finset.mem_Ico.mp range).2
  have bounded := (PageAllocator.zero.boot args.map args.imageBase args.imageSize).bounded
  rw [total] at below
  exact (clear_boot placed (by omega)).mp (shrinks _ clear)

end Boot

/-! ## A boot -/

/-- An RSDP at 0x4000, its XSDT at 0x1000 with one entry, and the MADT at 0x3000, with one I/O
APIC. The image is at 0x10000, in it the memory map at 0x14000 and the kernel's string `"APIC"` at
0x15000. -/
def bootTables : Mem :=
  let m : Mem := fun a => if a = 0x400F then 2 else 0
  let m := ((m.write64 0x4018 0x1000).write32 0x1004 44).write64 0x1024 0x3000
  let m := (m.write32 0x15000 0x43495041).write32 0x3000 0x43495041
  let m := (m.write32 0x3004 56).write32 0x3024 0xFEE00000
  let m := (m.write32 0x302C 0xC01).write32 0x3030 0xFEC00000
  -- the graphics protocol, its mode and the information on it
  let m := ((m.write64 0x5018 0x5100).write64 0x5108 0x5200).write64 0x5118 0x80000000
  let m := ((m.write32 0x5204 32).write32 0x5208 32).write32 0x5220 32
  -- the loaded image, and the system table with one configuration table
  let m := (m.write64 0x6040 0x10000).write64 0x6048 0x10000
  let m := (m.write64 0x7068 1).write64 0x7070 0x7100
  let m := (m.write64 0x7100 0x11D3E4F18868E871).write64 0x7108 0x81883CC7800022BC
  let m := m.write64 0x7110 0x4000
  ((m.write32 0x14000 7).write64 0x14008 0x100000).write64 0x14018 8192

def bootImage : Image where
  isr := fun _ => 0x11000
  syscallEntry := 0x11800
  userMain := 0x12000
  tss := 0x13000
  apicName := 0x15000
  nvme := ⟨0x16000, 0x17000, 0x18000, 0x19000, 0x1A000⟩

/-- 32 MB from 1 MB on, and a frame buffer of one page. -/
def bootArgs : BootArgs where
  fbBase := 0x80000000
  width := 32
  height := 32
  ppsl := 32
  map := [⟨EfiMemoryType.conventionalMemory.code, 0x100000, 8192⟩]
  imageBase := 0x10000
  imageSize := 0x10000
  rsdp := 0x4000

/-- No PCI device answers; the timer ticks and Caps Lock is pressed on the way. -/
def bootEnv : BootEnv where
  apic := { sivr := 0, port61 := 0, polls := [0, 0x20], current := 0xFFFF0000 }
  config := fun _ => 0xFFFFFFFF
  nvme := ⟨[], [], [], [], [], []⟩
  rsp := 0xF000
  arrivals := ([.timer], [.timer], [.keyboard 0x3A])
  regs := fun _ => 0
  rflags := 0x202

def booted : Boot := Boot.loaded fromFirmware.cpu bootTables fun _ => 0

/-- The state when `PageTable_Init` is called. -/
def bootSetup : Boot := booted.setup bootImage bootArgs

theorem bootArgs_placed : ∀ d ∈ bootArgs.map, d.WellPlaced := by
  intro d hd
  obtain rfl := List.mem_singleton.mp hd
  unfold MemoryDescriptor.WellPlaced
  decide

theorem bootArgs_available {p : Nat} : Available bootArgs.map p ↔ 256 ≤ p ∧ p < 8448 := by
  have first : (0x100000 : Word).toNat = 256 * 4096 := rfl
  have count : (8192 : Word).toNat = 8192 := rfl
  constructor
  · rintro ⟨d, hd, -, low, high⟩
    obtain rfl := List.mem_singleton.mp hd
    dsimp only at low high
    rw [first] at low high
    rw [count] at high
    omega
  · rintro ⟨low, high⟩
    refine ⟨_, List.mem_singleton_self _, by decide, ?_, ?_⟩
    · dsimp only
      rw [first]
      omega
    · dsimp only
      rw [first, count]
      omega

theorem bootArgs_image {p : Nat} :
    InImage bootArgs.imageBase bootArgs.imageSize p ↔ 16 ≤ p ∧ p < 32 := by
  have start : (bootArgs.imageBase / pageSize).toNat = 16 := by decide
  have count : ((bootArgs.imageSize + 4095) / 4096).toNat = 16 := by decide
  rw [InImage, covers_iff (by decide), start, count]

theorem bootSetup_tables : bootSetup.xsdt = 0x1000 ∧ bootSetup.madt bootImage = 0x3000 ∧
    bootSetup.lapicAddr bootImage bootArgs = 0xFEE00000 := by
  have xsdt : bootSetup.xsdt = Acpi.init bootTables 0x4000 0 := rfl
  have first : Acpi.init bootTables 0x4000 0 = 0x1000 := by decide +kernel
  have madt : bootSetup.madt bootImage = 0x3000 := by
    show (Acpi.findTable bootTables bootSetup.xsdt 0x15000).2 = 0x3000
    rw [xsdt, first]
    decide +kernel
  refine ⟨xsdt.trans first, madt, ?_⟩
  rw [Boot.lapicAddr, madt]
  show Acpi.localApicAddress bootTables 0x3000 = 0xFEE00000
  decide +kernel

/-- Free are the pages behind that of `cpu_data`. -/
theorem bootSetup_free {p : Nat} :
    p ∈ bootSetup.machine.kernel.pages.clearPages ↔ 257 ≤ p ∧ p < 8448 := by
  have clear (p : Nat) (hp : p < maxPages) :
      (PageAllocator.zero.boot bootArgs.map 0x10000 0x10000).Clear p ↔ 256 ≤ p ∧ p < 8448 := by
    have image : InImage 0x10000 0x10000 p ↔ 16 ≤ p ∧ p < 32 := bootArgs_image
    rw [clear_boot bootArgs_placed hp, bootArgs_available, image]
    omega
  have small : maxPages = 1048576 := rfl
  have total : ∀ p, p < (PageAllocator.zero.boot bootArgs.map 0x10000 0x10000).totalPages.toNat ↔
      p < 8448 := by
    intro p
    rw [lt_totalPages_boot, BelowTotal]
    constructor
    · rintro ⟨d, hd, below, -⟩
      obtain rfl := List.mem_singleton.mp hd
      exact below
    · intro below
      exact ⟨_, List.mem_singleton_self _, below, by decide⟩
  have one : (1 : Word).toNat = 1 := rfl
  rcases call : (PageAllocator.zero.boot bootArgs.map 0x10000 0x10000).alloc 1 with ⟨pa, ptr⟩
  have pages : bootSetup.machine.kernel.pages = pa := by
    rw [bootSetup, booted, setup_pages]
    exact congrArg Prod.fst call
  -- the lowest free page is taken
  have lowest : (PageAllocator.zero.boot bootArgs.map 0x10000 0x10000).ClearRun 256
      (1 : Word).toNat := by
    refine ⟨by decide, (total 256).mpr (by decide), fun j hj => ?_⟩
    have hj : j < 1 := hj
    exact (clear (256 + j) (by omega)).mpr (by omega)
  have some : ptr ≠ 0 := by
    rintro rfl
    rcases (alloc_null call).2 with zero | none
    · exact absurd zero (by decide)
    · exact none ⟨256, lowest⟩
  obtain ⟨c, rfl, small', low, high, free, totals, bits⟩ := alloc_page call some
  have first := (clear c (by rw [total] at high; omega)).mp free
  have upper := alloc_lowest call some (toNat_loc (by omega)) lowest
  rw [pages, clearPages, Finset.mem_filter, Finset.mem_Ico, bits, totals, total]
  constructor
  · rintro ⟨⟨-, below⟩, here, other⟩
    have := (clear p (by omega)).mp here
    omega
  · rintro ⟨above, below⟩
    exact ⟨⟨by omega, below⟩, (clear p (by omega)).mpr (by omega), by omega⟩

/-- The blocks of 512 pages that share a table. -/
theorem bootSetup_blocks {p : Nat} (hp : p ∈ bootSetup.pagesToMap bootImage bootArgs bootEnv) :
    p / 512 ∈ Finset.range 17 ∪ {1024, 2038, 2039} := by
  simp only [Finset.mem_union, Finset.mem_range, Finset.mem_insert, Finset.mem_singleton]
  rw [Boot.pagesToMap, bootSetup_tables.2.2] at hp
  rcases hp with (((⟨d, hd, -, hp⟩ | hp) | hp) | hp) | hp
  · obtain rfl := List.mem_singleton.mp hd
    have high : (p + 1) * 4096 ≤ 0x100000 + 8192 * 4096 := hp.2
    omega
  · have low : 0x80000000 < (p + 1) * 4096 := hp.1
    have high : p * 4096 < 0x80000000 + 4096 := hp.2
    omega
  · have here : p = 0xFEE00000 / 4096 := hp.2
    omega
  · have here : p = 0xFEC00000 / 4096 := hp
    omega
  · have here : p / 256 = 0xF000 / 2 ^ 20 := hp
    omega

theorem bootSetup_supplied : bootSetup.Supplied bootImage bootArgs bootEnv := by
  constructor
  · rw [bootSetup_tables.2.2]
    constructor
    · intro d hd
      obtain rfl := List.mem_singleton.mp hd
      unfold MemoryDescriptor.Below48
      decide
    · decide
    · decide
    · decide
  · exact bootArgs_placed
  · -- 61 tables at most, and 255 pages below page 512
    refine ⟨512, ⟨by decide, ?_, fun j hj => ?_⟩, ?_⟩
    · have last := (bootSetup_free (p := 8447)).mpr (by decide)
      have high := (Finset.mem_Ico.mp (Finset.mem_filter.mp last).1).2
      omega
    · exact (Finset.mem_filter.mp (bootSetup_free.mpr ⟨by omega, by omega⟩)).2
    · have few := tablesNeeded_le (S := bootSetup.pagesToMap bootImage bootArgs bootEnv)
        (B := Finset.range 17 ∪ {1024, 2038, 2039}) fun p hp => bootSetup_blocks hp
      have count : (Finset.range 17 ∪ {1024, 2038, 2039}).card = 20 := by decide
      have below :
          Finset.Ico 257 512 ⊆ bootSetup.machine.kernel.pages.clearPages.filter (· < 512) := by
        intro p hp
        obtain ⟨low, high⟩ := Finset.mem_Ico.mp hp
        exact Finset.mem_filter.mpr ⟨bootSetup_free.mpr ⟨low, by omega⟩, high⟩
      have many := Finset.card_le_card below
      rw [Nat.card_Ico] at many
      omega

theorem setup_mem (image : Image) (args : BootArgs) (cpu : Cpu) (mem : Mem) (idt : Word → Word) :
    ((Boot.loaded cpu mem idt).setup image args).machine.kernel.mem = mem := rfl

/-- The tables are below 128 kB. -/
theorem bootSetup_read {a : Word} (read : bootSetup.TableRead bootImage a) : a.toNat < 0x20000 := by
  obtain ⟨xsdt, madt, -⟩ := bootSetup_tables
  have mem : bootSetup.machine.kernel.mem = bootTables := by rw [bootSetup, booted, setup_mem]
  have examined : (Acpi.findTable bootTables 0x1000 0x15000).1 = [0] := by decide +kernel
  have entry : Acpi.tables bootTables 0x1000 0 = 0x3000 := by decide +kernel
  have near {b a : Word} {j : Nat} (hb : b.toNat < 0x18000) (hj : j < 8) (ha : a = b + loc j) :
      a.toNat < 0x20000 := by
    rw [ha, loc]
    bv_omega
  rw [Boot.TableRead, mem, xsdt, madt] at read
  rcases read with (⟨j, hj, ha⟩ | ⟨j, hj, ha⟩ | ⟨i, hi, read⟩) | ⟨j, hj, ha⟩
  · exact near (by decide) (by omega) ha
  · exact near (b := 0x15000) (by decide) (by omega) ha
  · have hi : i ∈ (Acpi.findTable bootTables 0x1000 0x15000).1 := hi
    rw [examined] at hi
    obtain rfl := List.mem_singleton.mp hi
    rcases read with ⟨j, hj, ha⟩ | ⟨j, hj, ha⟩
    · exact near (by decide) hj ha
    · rw [entry] at ha
      exact near (by decide) (by omega) ha
  · exact near (by decide) (by omega) ha

theorem calibrateTimer_bootEnv (a : Apic) : ∃ r, a.calibrateTimer bootEnv.apic = some r :=
  ⟨_, rfl⟩

/-- There is no controller. -/
theorem nvmeSetup_bootEnv (k : Kernel) (pml4 : Word) :
    ∃ k', k.nvmeSetup pml4 bootImage.nvme bootEnv.nvme bootEnv.config = some k' := by
  have absent : (Pci.statics bootEnv.config).init.getNVMeController = none := by
    rw [Pci.init, Pci.scanBus_absent]
    · rfl
    · intro bus device
      show ((0xFFFFFFFF : BitVec 32) >>> (((0 : BitVec 8) &&& 2).toNat * 8)).truncate 16 = 0xFFFF
      decide
  rw [Kernel.nvmeSetup, absent]
  exact ⟨_, rfl⟩

theorem userMode_bootEnv (b : Boot) : ∃ o, b.userMode bootImage bootEnv = some o := by
  obtain ⟨k, controller⟩ :=
    nvmeSetup_bootEnv (b.machine.kernel.arriveAll bootEnv.arrivals.1) b.pml4
  rw [Boot.userMode]
  simp only [controller, Option.bind_eq_bind, Option.bind_some]
  cases (k.arriveAll bootEnv.arrivals.2.1).prepareUserMode.2 with
  | none => exact ⟨_, rfl⟩
  | some tops => exact ⟨_, rfl⟩

/-- `PageTable_Init` leaves the first megabyte alone, so the tables are found again. -/
theorem bootMemory_low {b : Boot} (memory : bootSetup.memory bootImage bootArgs bootEnv = some b) :
    (∀ a : Word, a.toNat < 0x100000 → b.machine.kernel.mem a = bootTables a) ∧
      b.madt bootImage = 0x3000 := by
  obtain ⟨b', memory', xsdt, -, written⟩ := Boot.memory_supplied bootSetup_supplied
  obtain rfl := Option.some.inj (memory'.symm.trans memory)
  have mem : bootSetup.machine.kernel.mem = bootTables := by rw [bootSetup, booted, setup_mem]
  have low (a : Word) (ha : a.toNat < 0x100000) : b'.machine.kernel.mem a = bootTables a := by
    by_contra other
    have free := bootSetup_free.mp (written a (by rw [mem]; exact other))
    rw [page] at free
    omega
  have reads (a : Word) (read : bootSetup.TableRead bootImage a) :
      b'.machine.kernel.mem a = bootSetup.machine.kernel.mem a := by
    have := bootSetup_read read
    rw [low a (by omega), mem]
  obtain ⟨madt, -⟩ := @Boot.madt_same bootSetup b' bootImage bootArgs reads xsdt
  rw [bootSetup_tables.2.1] at madt
  exact ⟨low, madt⟩

/-- In the MADT both APICs are found. -/
theorem bootMemory_madt {b : Boot} (memory : bootSetup.memory bootImage bootArgs bootEnv = some b) :
    (Acpi.searchIoApic b.machine.kernel.mem 0x3000 (2 ^ 64)).2 = some (some 44) ∧
      Acpi.localApicAddress b.machine.kernel.mem 0x3000 = 0xFEE00000 ∧
      Acpi.ioApicAddress b.machine.kernel.mem 0x3000 44 = 0xFEC00000 := by
  obtain ⟨low, -⟩ := bootMemory_low memory
  have read (i : Nat) (hi : i < 0x1000) : b.machine.kernel.mem.read32 (0x3000 + loc i) =
      bootTables.read32 (0x3000 + loc i) := by
    apply Mem.read32_congr
    intro j hj
    apply low
    simp only [loc]
    bv_omega
  have length : (Acpi.length b.machine.kernel.mem 0x3000).toNat = 56 := by
    rw [Acpi.length, read _ (by decide)]
    decide +kernel
  have ioApic : Acpi.entryType b.machine.kernel.mem 0x3000 Acpi.controllersOffset =
      Acpi.madtTypeIoApic := by
    rw [Acpi.entryType, low _ (by decide)]
    decide +kernel
  refine ⟨?_, ?_, ?_⟩
  · rw [Acpi.searchIoApic, show 2 ^ 64 = (2 ^ 64 - 1) + 1 from rfl,
      Acpi.madtWalk_ioApic (by rw [length]; decide) ioApic]
    rfl
  · rw [Acpi.localApicAddress, read _ (by decide)]
    decide +kernel
  · rw [Acpi.ioApicAddress, read _ (by decide)]
    decide +kernel

/-- No device keeps this boot waiting. -/
theorem booted_returns : ∃ o, booted.kernelMain bootImage bootArgs bootEnv = some o := by
  obtain ⟨b, memory, -⟩ := Boot.memory_supplied bootSetup_supplied
  obtain ⟨-, madt⟩ := bootMemory_low memory
  obtain ⟨walk, -⟩ := bootMemory_madt memory
  obtain ⟨b', interrupts⟩ : ∃ b', b.interrupts 0x3000 bootEnv = some b' := by
    obtain ⟨r, calibrated⟩ := calibrateTimer_bootEnv
      (b.apic.lapicInit (Acpi.localApicAddress b.machine.kernel.mem 0x3000) bootEnv.apic)
    rw [Boot.interrupts]
    simp only [calibrated, walk, Option.bind_eq_bind, Option.bind_some]
    exact ⟨_, rfl⟩
  obtain ⟨o, userMode⟩ := userMode_bootEnv b'
  refine ⟨o, ?_⟩
  have found : bootArgs.rsdp ≠ 0 ∧ b.madt bootImage ≠ 0 := by
    rw [madt]
    exact ⟨by decide, by decide⟩
  rw [Boot.kernelMain, ← bootSetup, memory]
  simp only [Option.bind_eq_bind, Option.bind_some, if_pos found]
  rw [madt, interrupts, Option.bind_some, userMode]

theorem booted_ring3 : ∃ b, booted.kernelMain bootImage bootArgs bootEnv = some (.ring3 b) := by
  obtain ⟨o, returns⟩ := booted_returns
  obtain ⟨-, madt, -⟩ := bootSetup_tables
  obtain ⟨b, rfl, -⟩ := Boot.kernelMain_supplied (by decide) bootSetup_supplied
    (by rw [← booted, ← bootSetup, madt]; decide)
    (fun a read free => by
      have low := bootSetup_read read
      have high := (bootSetup_free.mp free).1
      rw [page] at high
      omega) returns
  exact ⟨b, returns⟩

theorem booted_enters : ∃ b, booted.kernelMain bootImage bootArgs bootEnv = some (.ring3 b) ∧
    UserEntered bootImage b := by
  obtain ⟨b, returns⟩ := booted_ring3
  exact ⟨b, returns, kernelMain_enters returns⟩

end Coolos.Theorems
