import Coolos.Kernel.Entry
import Coolos.Logic.Schedule

/-!
# The interrupt entry

A context is what a task needs to go on: its registers and the five words the
processor saves. The interrupt entry leaves the context of ring 3 as a frame
right below `tss.rsp0`, whatever task it came from, and the call of the handler
does not touch it.
-/

namespace Coolos

open Lib Lib.X86

/-- The state of a task in ring 3. -/
@[ext] structure Context where
  regs : Reg → Word
  rip : Word
  cs : BitVec 16
  rflags : Word
  ss : BitVec 16

/-- The context a processor is in. -/
def cpuContext (c : Cpu) : Context := ⟨c.regs, c.rip, c.cs, c.rflags, c.ss⟩

/-- The context a frame holds: of the words in the places of CS and SS `iretq` takes the lower
16 bits. -/
def InterruptFrame.context (f : InterruptFrame) : Context where
  regs
    | .rax => f.rax
    | .rbx => f.rbx
    | .rcx => f.rcx
    | .rdx => f.rdx
    | .rsi => f.rsi
    | .rdi => f.rdi
    | .rbp => f.rbp
    | .rsp => f.rsp
    | .r8 => f.r8
    | .r9 => f.r9
    | .r10 => f.r10
    | .r11 => f.r11
    | .r12 => f.r12
    | .r13 => f.r13
    | .r14 => f.r14
    | .r15 => f.r15
  rip := f.rip
  cs := f.cs.truncate 16
  rflags := f.rflags
  ss := f.ss.truncate 16

/-- A frame is read from its own bytes. -/
theorem InterruptFrame.read_congr {m m' : Mem} {p : Word}
    (same : ∀ j < frameSize, m' (p + loc j) = m (p + loc j)) : read m' p = read m p := by
  have word : ∀ i < 22, m'.read64 (p + loc (8 * i)) = m.read64 (p + loc (8 * i)) := by
    intro i hi
    refine Mem.read64_congr fun j hj => ?_
    have inside : 8 * i + j < frameSize := by rw [frameSize]; omega
    have := same (8 * i + j) inside
    rwa [loc_add, ← BitVec.add_assoc] at this
  simp only [read, word, Nat.reduceLT]

/-- The frame that the last 22 words pushed make up. -/
theorem InterruptFrame.read_pushed {m : Mem} {sp : Word} {ws : List Word} {f : InterruptFrame}
    (h : ws.reverse = [f.r15, f.r14, f.r13, f.r12, f.r11, f.r10, f.r9, f.r8, f.rsi, f.rdi, f.rbp,
      f.rdx, f.rcx, f.rbx, f.rax, f.intNo, f.errCode, f.rip, f.cs, f.rflags, f.rsp, f.ss]) :
    read (m.pushAll sp ws).1 (frameBelow sp) = f := by
  have count : ws.length = 22 := by rw [← List.length_reverse, h]; rfl
  have bottom : frameBelow sp = sp - loc (8 * ws.length) := by rw [count]; rfl
  have word : ∀ i w, ws.reverse[i]? = some w →
      (m.pushAll sp ws).1.read64 (frameBelow sp + loc (8 * i)) = w := by
    intro i w hw
    rw [bottom]
    exact Mem.read64_pushed (by rw [count]; decide) hw
  rw [h] at word
  simp only [read]
  rw [word 0 _ rfl, word 1 _ rfl, word 2 _ rfl, word 3 _ rfl, word 4 _ rfl, word 5 _ rfl,
    word 6 _ rfl, word 7 _ rfl, word 8 _ rfl, word 9 _ rfl, word 10 _ rfl, word 11 _ rfl,
    word 12 _ rfl, word 13 _ rfl, word 14 _ rfl, word 15 _ rfl, word 16 _ rfl, word 17 _ rfl,
    word 18 _ rfl, word 19 _ rfl, word 20 _ rfl, word 21 _ rfl]

namespace Machine

variable (m : Machine) (vector : Word)

/-- The frame an interrupt makes. -/
def frame : InterruptFrame where
  r15 := m.cpu.regs .r15
  r14 := m.cpu.regs .r14
  r13 := m.cpu.regs .r13
  r12 := m.cpu.regs .r12
  r11 := m.cpu.regs .r11
  r10 := m.cpu.regs .r10
  r9 := m.cpu.regs .r9
  r8 := m.cpu.regs .r8
  rsi := m.cpu.regs .rsi
  rdi := m.cpu.regs .rdi
  rbp := m.cpu.regs .rbp
  rdx := m.cpu.regs .rdx
  rcx := m.cpu.regs .rcx
  rbx := m.cpu.regs .rbx
  rax := m.cpu.regs .rax
  intNo := vector
  errCode := 0
  rip := m.cpu.rip
  cs := m.cpu.cs.zeroExtend 64
  rflags := m.cpu.rflags
  rsp := m.cpu.regs .rsp
  ss := m.cpu.ss.zeroExtend 64

theorem frame_context : (m.frame vector).context = cpuContext m.cpu := by
  refine Context.ext ?_ rfl (truncate_zeroExtend_selector _) rfl (truncate_zeroExtend_selector _)
  funext r
  cases r <;> rfl

/-- What the processor pushes, and what the stub adds. -/
def gateWords : List Word :=
  [m.cpu.ss.zeroExtend 64, m.cpu.regs .rsp, m.cpu.rflags, m.cpu.cs.zeroExtend 64, m.cpu.rip]

def stubWords : List Word := [0, vector] ++ isrRegs.map m.cpu.regs

/-- `isr_common` pushes the registers and passes their address on. -/
theorem run_isrCommon (s : State Sym) : run s isrCommon =
    run (s.pushWords (isrRegs.map s.cpu.regs))
      [.mov .rcx .rsp, .mov .rbp .rsp, .andImm .rsp (-16), .subImm .rsp 32] := by
  rw [isrCommon, run_append, run_pushes _ _ (by decide)]

/-- RSP is not among the registers pushed. -/
theorem isrRegs_map {regs regs' : Reg → Word} (same : ∀ r, r ≠ .rsp → regs' r = regs r) :
    isrRegs.map regs' = isrRegs.map regs := by
  apply List.map_congr_left
  intro r hr
  apply same
  intro pointer
  rw [pointer] at hr
  exact absurd hr (by decide)

/-- The registers pushed are those that were pushed on. -/
theorem isrRegs_pushWords (s : State Sym) (ws : List Word) :
    isrRegs.map (s.pushWords ws).cpu.regs = isrRegs.map s.cpu.regs :=
  isrRegs_map fun _ => pushWords_regs

/-- RCX is where the registers end. -/
theorem run_passFrame (s : State Sym) : (run s
    [.mov .rcx .rsp, .mov .rbp .rsp, .andImm .rsp (-16), .subImm .rsp 32]).cpu.regs .rcx =
      s.cpu.regs .rsp := by
  simp only [run_cons, run_nil, Instr.exec, State.setReg, Cpu.setReg, Cpu.flag, reduceCtorEq,
    if_false, if_true]

/-- The state in which `isr_common` calls `ExceptionHandler`. -/
def entered : State Sym :=
  run (m.state.interrupt m.rsp0 (m.idt vector) (kernelCodeSel.truncate 16))
    (isrNoErr vector ++ isrCommon)

/-- The pushes done. -/
theorem entered_eq : m.entered vector =
    run ((m.state.interrupt m.rsp0 (m.idt vector) (kernelCodeSel.truncate 16)).pushWords
        (m.stubWords vector))
      [.mov .rcx .rsp, .mov .rbp .rsp, .andImm .rsp (-16), .subImm .rsp 32] := by
  let s := m.state.interrupt m.rsp0 (m.idt vector) (kernelCodeSel.truncate 16)
  have stub : run s (isrNoErr vector) = s.pushWords [0, vector] :=
    (pushWords_append s [0] [vector]).symm
  have regs : isrRegs.map s.cpu.regs = isrRegs.map m.cpu.regs :=
    isrRegs_map fun _ => interrupt_regs
  rw [entered, run_append, stub, run_isrCommon, isrRegs_pushWords, regs, ← pushWords_append]
  rfl

theorem entered_mem : (m.entered vector).mem =
    (m.kernel.mem.pushAll m.rsp0 (m.gateWords ++ m.stubWords vector)).1 := by
  rw [entered_eq, Mem.pushAll_append]
  rfl

/-- Right below `tss.rsp0` stands the frame. -/
theorem entered_frame :
    InterruptFrame.read (m.entered vector).mem (frameBelow m.rsp0) = m.frame vector := by
  rw [entered_mem]
  exact InterruptFrame.read_pushed rfl

theorem stub_rsp :
    ((m.state.interrupt m.rsp0 (m.idt vector) (kernelCodeSel.truncate 16)).pushWords
      (m.stubWords vector)).cpu.regs .rsp = frameBelow m.rsp0 := by
  rw [pushWords_rsp, interrupt_rsp, Mem.pushAll_snd]
  show m.rsp0 - loc 40 - loc 136 = m.rsp0 - loc 176
  simp only [loc]
  bv_omega

/-- The handler is given its address. -/
theorem entered_rcx : (m.entered vector).cpu.regs .rcx = frameBelow m.rsp0 := by
  rw [entered_eq, run_passFrame, stub_rsp]

/-- The handler's stack is below the frame, aligned. -/
theorem entered_rsp : (m.entered vector).cpu.regs .rsp = (frameBelow m.rsp0 &&& ~~~0xF) - 32 := by
  rw [entered_eq]
  simp only [run_cons, run_nil, Instr.exec, State.setReg, Cpu.setReg, Cpu.flag, reduceCtorEq,
    if_false, if_true, stub_rsp]
  rfl

/-- What the handler may write on its stack ends below the frame. -/
theorem frame_not_inCallee {j : Nat} (hj : j < frameSize) :
    ¬ InCallee ((frameBelow m.rsp0 &&& ~~~0xF) - 32) 32 kernelStackSize
      (frameBelow m.rsp0 + loc j) := by
  have mask := toNat_and_not_mask (x := frameBelow m.rsp0) (a := 0x10) (k := 4) (by decide)
    (by decide)
  have mask : (frameBelow m.rsp0 &&& ~~~0xF).toNat = (frameBelow m.rsp0).toNat / 16 * 16 := mask
  have size : frameSize = 176 := rfl
  simp only [InCallee, kernelStackSize, loc]
  generalize frameBelow m.rsp0 &&& ~~~0xF = a at mask
  generalize frameBelow m.rsp0 = f at mask
  bv_omega

/-! ## Leaving -/

theorem restore_eq (s : State Sym) : run s (.mov .rsp .rax :: isrRestore) =
    run (run (s.setReg .rsp (s.cpu.regs .rax)) (isrRegs.reverse.map .pop))
      [.addImm .rsp 16, .iretq] := by
  rw [isrRestore, run_cons, run_append]
  rfl

theorem restore_mem (s : State Sym) : (run s (.mov .rsp .rax :: isrRestore)).mem = s.mem := by
  have last (p : State Sym) : (run p [.addImm .rsp 16, .iretq]).mem = p.mem := rfl
  rw [restore_eq, last, run_pops_mem]
  rfl

/-- `isr_restore` resumes the context of the frame it is given. -/
theorem restore_context (s : State Sym) :
    cpuContext (run s (.mov .rsp .rax :: isrRestore)).cpu =
      (InterruptFrame.read s.mem (s.cpu.regs .rax)).context := by
  obtain ⟨top, words⟩ := run_pops isrRegs.reverse (s.setReg .rsp (s.cpu.regs .rax))
    (by decide) (by decide)
  have mem := run_pops_mem isrRegs.reverse (s.setReg .rsp (s.cpu.regs .rax))
  have mem : _ = s.mem := mem
  rw [restore_eq]
  generalize run (s.setReg .rsp (s.cpu.regs .rax)) (isrRegs.reverse.map .pop) = p at top words mem
  have word (i : Nat) : p.mem.read64 (p.cpu.regs .rsp + 16 + loc (8 * i)) =
      s.mem.read64 (s.cpu.regs .rax + loc (8 * (17 + i))) := by
    have place : p.cpu.regs .rsp + 16 + loc (8 * i) = s.cpu.regs .rax + loc (8 * (17 + i)) := by
      have base : loc (8 * isrRegs.reverse.length) + 16 = loc (8 * 17) := by decide
      have top : p.cpu.regs .rsp = s.cpu.regs .rax + loc (8 * isrRegs.reverse.length) := top
      rw [top, BitVec.add_assoc _ _ 16, base, BitVec.add_assoc, ← loc_add, Nat.mul_add]
    rw [mem, place]
  have reg (i : Nat) (r : Reg) (h : isrRegs.reverse[i]? = some r) :
      p.cpu.regs r = s.mem.read64 (s.cpu.regs .rax + loc (8 * i)) := words i r h
  -- what `iretq` finds behind the registers
  have last : cpuContext (run p [.addImm .rsp 16, .iretq]).cpu =
      { regs := fun r =>
          if r = .rsp then p.mem.read64 (p.cpu.regs .rsp + 16 + loc (8 * 3)) else p.cpu.regs r
        rip := p.mem.read64 (p.cpu.regs .rsp + 16 + loc (8 * 0))
        cs := (p.mem.read64 (p.cpu.regs .rsp + 16 + loc (8 * 1))).truncate 16
        rflags := p.mem.read64 (p.cpu.regs .rsp + 16 + loc (8 * 2))
        ss := (p.mem.read64 (p.cpu.regs .rsp + 16 + loc (8 * 4))).truncate 16 } := by
    simp only [run_cons, run_nil, Instr.exec, State.stackWord, Cpu.setReg, Cpu.flag, cpuContext,
      if_true, Context.mk.injEq, and_true]
    funext r
    split <;> rfl
  rw [last, word, word, word, word, word]
  refine Context.ext ?_ rfl rfl rfl rfl
  funext r
  cases r with
  | rsp => rfl
  | rax => exact reg 14 _ rfl
  | rbx => exact reg 13 _ rfl
  | rcx => exact reg 12 _ rfl
  | rdx => exact reg 11 _ rfl
  | rbp => exact reg 10 _ rfl
  | rdi => exact reg 9 _ rfl
  | rsi => exact reg 8 _ rfl
  | r8 => exact reg 7 _ rfl
  | r9 => exact reg 6 _ rfl
  | r10 => exact reg 5 _ rfl
  | r11 => exact reg 4 _ rfl
  | r12 => exact reg 3 _ rfl
  | r13 => exact reg 2 _ rfl
  | r14 => exact reg 1 _ rfl
  | r15 => exact reg 0 _ rfl

/-! ## The whole interrupt -/

/-- The call of `ExceptionHandler`. -/
def serviced (env : Env) : Kernel × Option Word :=
  { m.kernel with mem := (m.entered vector).mem }.exceptionHandler (frameBelow m.rsp0)
    env.scancode env.cr2

/-- An interrupt that is handled resumes the context of the frame the handler
returned. The kernel is as the handler left it but for the stack below the new
frame. -/
theorem interrupt_some {m : Machine} {vector frame : Word} {env : Env} {k : Kernel}
    (h : m.serviced vector env = (k, some frame)) :
    ∃ m', m.interrupt vector env = some m' ∧ m'.rsp0 = m.rsp0 ∧
      m'.kernel = { k with
        mem := fun a =>
          if InCallee ((frameBelow m.rsp0 &&& ~~~0xF) - 32) 32 kernelStackSize a
          then env.junk.bytes a else k.mem a } ∧
      cpuContext m'.cpu = (InterruptFrame.read m'.kernel.mem frame).context := by
  obtain ⟨s, hs⟩ : ∃ s, s = (m.entered vector).afterCall 32 kernelStackSize frame k.mem env.junk :=
    ⟨_, rfl⟩
  obtain ⟨r, hr⟩ : ∃ r, r = run s (.mov .rsp .rax :: isrRestore) := ⟨_, rfl⟩
  have same : r.mem = s.mem := by rw [hr, restore_mem]
  have mem : r.mem = fun a =>
      if InCallee ((frameBelow m.rsp0 &&& ~~~0xF) - 32) 32 kernelStackSize a
      then env.junk.bytes a else k.mem a := by
    rw [same, hs]
    simp only [State.afterCall, entered_rsp]
  have context : cpuContext r.cpu = (InterruptFrame.read r.mem frame).context := by
    rw [same, hr, restore_context, hs, afterCall_rax]
  have result : m.interrupt vector env =
      some { m with cpu := r.cpu, kernel := { k with mem := r.mem } } := by
    unfold serviced at h
    rw [← entered_rcx m vector] at h
    unfold interrupt
    simp only [entered] at h hs
    simp only [h, hr, hs]
  refine ⟨_, result, rfl, ?_, context⟩
  rw [mem]

end Machine

/-- CapsLock switches, ESC terminates, any other key shows on the screen. -/
theorem Kernel.keyboardHandler_cases (k : Kernel) (frame : Word) (scancode : BitVec 8) :
    (scancode = 0x3A ∧ k.keyboardHandler frame scancode = k.sendEOI.switch frame) ∨
    (scancode = 0x01 ∧
      k.keyboardHandler frame scancode = k.sendEOI.terminateCurrentTask frame) ∨
    (scancode ≠ 0x3A ∧ scancode ≠ 0x01 ∧ ∃ g c, k.keyboardHandler frame scancode =
      ({ k.sendEOI with graphics := g, lastChar := c }, frame)) := by
  unfold keyboardHandler
  dsimp only
  split
  · exact .inl ⟨‹_›, rfl⟩
  split
  · exact .inr (.inl ⟨‹_›, rfl⟩)
  refine .inr (.inr ⟨‹_›, ‹_›, ?_⟩)
  split
  · exact ⟨_, _, rfl⟩
  split
  · split
    · exact ⟨_, _, rfl⟩
    · exact ⟨_, _, rfl⟩
  · exact ⟨_, _, rfl⟩

end Coolos
