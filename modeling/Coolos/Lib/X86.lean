import Coolos.Lib.Memory
import Mathlib.Logic.Function.Iterate

/-!
# A fragment of x86-64

The instructions system code is written in by hand: stack operations, moves,
the arithmetic of stack frames, and the four ways into and out of ring 0. `S`
names the static objects that instructions address by symbol; they are cells of
their own, apart from memory. Of the status flags only ZF is kept.

A call to compiled code is its result and what the Win64 convention lets the
callee change: the volatile registers and the stack below its caller
(`afterCall`).
-/

namespace Lib.X86

inductive Reg where
  | rax | rbx | rcx | rdx | rsi | rdi | rbp | rsp
  | r8 | r9 | r10 | r11 | r12 | r13 | r14 | r15
  deriving DecidableEq

structure Cpu where
  regs : Reg → Word
  rip : Word
  rflags : Word
  cs : BitVec 16
  ss : BitVec 16
  gsBase : Word
  /-- The KERNEL_GS_BASE register. -/
  kernelGsBase : Word
  star : Word
  lstar : Word
  sfmask : Word

structure State (S : Type) where
  cpu : Cpu
  mem : Mem
  sym : S → Word

inductive Instr (S : Type) where
  | push (src : Reg)
  | pushImm (value : Word)
  | pop (dst : Reg)
  | mov (dst src : Reg)
  /-- `mov src, disp(base)`. -/
  | store (base : Reg) (disp : Word) (src : Reg)
  /-- `mov src, gs:disp`. -/
  | storeGs (disp : Word) (src : Reg)
  /-- `mov gs:disp, dst`. -/
  | loadGs (dst : Reg) (disp : Word)
  /-- `mov sym(%rip), dst`. -/
  | loadSym (dst : Reg) (sym : S)
  | addImm (dst : Reg) (value : Word)
  | subImm (dst : Reg) (value : Word)
  | andImm (dst : Reg) (value : Word)
  | test (a b : Reg)
  | swapgs
  | sysretq
  | iretq

/-- A selector pushed as a word and loaded again. -/
theorem truncate_zeroExtend_selector (sel : BitVec 16) : (sel.zeroExtend 64).truncate 16 = sel := by
  simp

/-- Bit 6 of RFLAGS. -/
def zf : Word := 0x40

/-- Bit 9 of RFLAGS, which enables interrupts. -/
def interruptFlag : Word := 0x200

/-- TF, IF, NT, RF and VM, which an interrupt gate clears. -/
def gateMask : Word := 0x34300

namespace Cpu

def setReg (c : Cpu) (r : Reg) (v : Word) : Cpu :=
  { c with regs := fun q => if q = r then v else c.regs q }

/-- Set ZF by a result. -/
def flag (c : Cpu) (result : Word) : Cpu :=
  { c with rflags := if result = 0 then c.rflags ||| zf else c.rflags &&& ~~~zf }

/-- `SYSCALL` executed at the instruction before `rip`. -/
def syscall (c : Cpu) : Cpu :=
  { (c.setReg .rcx c.rip).setReg .r11 c.rflags with
    rip := c.lstar
    rflags := c.rflags &&& ~~~c.sfmask
    cs := (c.star >>> 32).truncate 16 &&& 0xFFFC
    ss := (c.star >>> 32).truncate 16 + 8 }

end Cpu

namespace State

variable {S : Type}

def setReg (s : State S) (r : Reg) (v : Word) : State S := { s with cpu := s.cpu.setReg r v }

/-- Push words, the stack pointer following. -/
def pushWords (s : State S) (ws : List Word) : State S :=
  let (mem, sp) := s.mem.pushAll (s.cpu.regs .rsp) ws
  { s with mem := mem }.setReg .rsp sp

/-- The word `i` above the top of the stack. -/
def stackWord (s : State S) (i : Nat) : Word := s.mem.read64 (s.cpu.regs .rsp + loc (8 * i))

/-- An interrupt taken in ring 3 through a gate to `handler`: the five words go
on the stack that starts at `rsp0`. -/
def interrupt (s : State S) (rsp0 handler : Word) (codeSel : BitVec 16) : State S :=
  let c := s.cpu
  let s := (s.setReg .rsp rsp0).pushWords
    [c.ss.zeroExtend 64, c.regs .rsp, c.rflags, c.cs.zeroExtend 64, c.rip]
  { s with
    cpu := { s.cpu with
      rip := handler, rflags := c.rflags &&& ~~~gateMask, cs := codeSel, ss := 0 } }

end State

/-- The vectors for which the processor pushes an error code. -/
def pushesErrorCode (vector : BitVec 8) : Bool :=
  [8, 10, 11, 12, 13, 14, 17, 21, 29, 30].contains vector

/-- What the processor saves on the way into a handler. `errCode` is pushed for some vectors
only. -/
structure Saved where
  rip : Word
  cs : BitVec 16
  rflags : Word
  rsp : Word
  ss : BitVec 16
  errCode : Word

/-- The words pushed. -/
def Saved.words (p : Saved) (vector : BitVec 8) : List Word :=
  [p.ss.zeroExtend 64, p.rsp, p.rflags, p.cs.zeroExtend 64, p.rip] ++
    if pushesErrorCode vector then [p.errCode] else []

/-- An interrupt or exception delivered through a gate to `handler`. In ring 0 it stays on the
stack it finds, from outside it goes to the one that starts at `rsp0`; both are aligned first. -/
def State.deliver {S : Type} (s : State S) (rsp0 handler : Word) (codeSel : BitVec 16)
    (vector : BitVec 8) (p : Saved) : State S :=
  let c := s.cpu
  let kernel := c.cs &&& 3 = 0
  let top := (if kernel then c.regs .rsp else rsp0) &&& ~~~0xF
  let s := (s.setReg .rsp top).pushWords (p.words vector)
  { s with
    cpu := { s.cpu with
      rip := handler, rflags := c.rflags &&& ~~~gateMask, cs := codeSel
      ss := if kernel then c.ss else 0 } }

variable {S : Type}

def Instr.exec (s : State S) : Instr S → State S
  | .push src => s.pushWords [s.cpu.regs src]
  | .pushImm value => s.pushWords [value]
  | .pop dst => (s.setReg .rsp (s.cpu.regs .rsp + 8)).setReg dst (s.stackWord 0)
  | .mov dst src => s.setReg dst (s.cpu.regs src)
  | .store base disp src =>
      { s with mem := s.mem.write64 (s.cpu.regs base + disp) (s.cpu.regs src) }
  | .storeGs disp src =>
      { s with mem := s.mem.write64 (s.cpu.gsBase + disp) (s.cpu.regs src) }
  | .loadGs dst disp => s.setReg dst (s.mem.read64 (s.cpu.gsBase + disp))
  | .loadSym dst sym => s.setReg dst (s.sym sym)
  | .addImm dst value =>
      let v := s.cpu.regs dst + value
      { s with cpu := (s.cpu.setReg dst v).flag v }
  | .subImm dst value =>
      let v := s.cpu.regs dst - value
      { s with cpu := (s.cpu.setReg dst v).flag v }
  | .andImm dst value =>
      let v := s.cpu.regs dst &&& value
      { s with cpu := (s.cpu.setReg dst v).flag v }
  | .test a b => { s with cpu := s.cpu.flag (s.cpu.regs a &&& s.cpu.regs b) }
  | .swapgs =>
      { s with cpu := { s.cpu with gsBase := s.cpu.kernelGsBase, kernelGsBase := s.cpu.gsBase } }
  | .sysretq =>
      { s with
        cpu := { s.cpu with
          rip := s.cpu.regs .rcx
          rflags := s.cpu.regs .r11 &&& 0x3C7FD7 ||| 2
          cs := (s.cpu.star >>> 48).truncate 16 + 16 ||| 3
          ss := (s.cpu.star >>> 48).truncate 16 + 8 ||| 3 } }
  | .iretq =>
      -- with other selectors than the user's it may fault instead, or stay in ring 0
      { s with
        cpu := { s.cpu.setReg .rsp (s.stackWord 3) with
          rip := s.stackWord 0
          cs := (s.stackWord 1).truncate 16
          rflags := s.stackWord 2
          ss := (s.stackWord 4).truncate 16 } }

/-- Straight-line code. -/
def run (s : State S) (code : List (Instr S)) : State S := code.foldl Instr.exec s

@[simp] theorem run_nil (s : State S) : run s [] = s := rfl

@[simp] theorem run_cons (s : State S) (i : Instr S) (code : List (Instr S)) :
    run s (i :: code) = run (i.exec s) code := rfl

theorem run_append (s : State S) (xs ys : List (Instr S)) : run s (xs ++ ys) = run (run s xs) ys :=
  List.foldl_append ..

/-! ## Calls -/

/-- What a callee leaves in the volatile registers and below its caller's
frame. -/
structure Junk where
  regs : Reg → Word
  bytes : Mem

/-- The registers a callee may change. -/
def Reg.Volatile (r : Reg) : Prop :=
  r = .rcx ∨ r = .rdx ∨ r = .r8 ∨ r = .r9 ∨ r = .r10 ∨ r = .r11

instance (r : Reg) : Decidable r.Volatile := inferInstanceAs (Decidable (_ ∨ _))

/-- The bytes of a stack of `depth` bytes below the `params` bytes of parameter
space at `sp`, that space included. -/
def InCallee (sp : Word) (params depth : Nat) (a : Word) : Prop :=
  (sp + loc params - 1 - a).toNat < depth

instance (sp : Word) (params depth : Nat) (a : Word) : Decidable (InCallee sp params depth a) :=
  inferInstanceAs (Decidable (_ < _))

/-- The state a callee returns to: `ret` in RAX, `mem` with what the callee
left on its stack, `junk` in the volatile registers. -/
def State.afterCall (s : State S) (params depth : Nat) (ret : Word) (mem : Mem) (junk : Junk) :
    State S :=
  { s with
    mem := fun a => if InCallee (s.cpu.regs .rsp) params depth a then junk.bytes a else mem a
    cpu := { s.cpu with
      regs := fun r =>
        if r = .rax then ret else if r.Volatile then junk.regs r else s.cpu.regs r } }

@[simp] theorem afterCall_rax (s : State S) (params depth : Nat) (ret : Word) (mem : Mem)
    (junk : Junk) : (s.afterCall params depth ret mem junk).cpu.regs .rax = ret := by
  simp only [State.afterCall, if_true]

/-! ## Runs of pushes and pops -/

@[simp] theorem setReg_self (c : Cpu) (r : Reg) (v : Word) : (c.setReg r v).regs r = v :=
  if_pos rfl

theorem setReg_of_ne {c : Cpu} {r q : Reg} {v : Word} (h : q ≠ r) :
    (c.setReg r v).regs q = c.regs q :=
  if_neg h

theorem setReg_same (c : Cpu) (r : Reg) : c.setReg r (c.regs r) = c := by
  have same : (fun q => if q = r then c.regs r else c.regs q) = c.regs := by
    funext q
    split
    · rename_i h; rw [h]
    · rfl
  rw [Cpu.setReg, same]

theorem setReg_setReg (c : Cpu) (r : Reg) (v w : Word) :
    (c.setReg r v).setReg r w = c.setReg r w := by
  simp only [Cpu.setReg, Cpu.mk.injEq, and_true]
  funext q
  split <;> rfl

@[simp] theorem pushWords_rsp (s : State S) (ws : List Word) :
    (s.pushWords ws).cpu.regs .rsp = s.cpu.regs .rsp - loc (8 * ws.length) :=
  (setReg_self ..).trans (Mem.pushAll_snd ..)

/-- Only the stack pointer moves. -/
theorem pushWords_regs {s : State S} {ws : List Word} {r : Reg} (h : r ≠ .rsp) :
    (s.pushWords ws).cpu.regs r = s.cpu.regs r :=
  setReg_of_ne h

@[simp] theorem pushWords_mem (s : State S) (ws : List Word) :
    (s.pushWords ws).mem = (s.mem.pushAll (s.cpu.regs .rsp) ws).1 := rfl

theorem pushWords_append (s : State S) (xs ys : List Word) :
    s.pushWords (xs ++ ys) = (s.pushWords xs).pushWords ys := by
  simp only [State.pushWords, State.setReg, Mem.pushAll_append, setReg_self, setReg_setReg]

/-- Words pushed are on the stack, the last one first. -/
theorem stackWord_pushWords {s : State S} {ws : List Word} {i : Nat} {w : Word}
    (small : 8 * ws.length ≤ 2 ^ 64) (h : ws.reverse[i]? = some w) :
    (s.pushWords ws).stackWord i = w := by
  rw [State.stackWord, pushWords_rsp, pushWords_mem]
  exact Mem.read64_pushed small h

/-- What was on the stack is below the words pushed. -/
theorem stackWord_below {s : State S} {ws : List Word} {i : Nat}
    (small : 8 * ws.length + 8 * i + 8 ≤ 2 ^ 64) :
    (s.pushWords ws).stackWord (ws.length + i) = s.stackWord i := by
  have place : s.cpu.regs .rsp - loc (8 * ws.length) + loc (8 * (ws.length + i)) =
      s.cpu.regs .rsp + loc (8 * i) := by
    rw [Nat.mul_add, loc_add]
    exact BitVec.eq_of_toNat_eq (by bv_omega)
  rw [State.stackWord, pushWords_rsp, pushWords_mem, place]
  refine Mem.read64_congr fun j hj => Mem.pushAll_apply ws ?_
  simp only [loc]
  bv_omega

/-- An interrupt puts its words at the top of the stack it is given. -/
theorem interrupt_rsp (s : State S) (rsp0 handler : Word) (codeSel : BitVec 16) :
    (s.interrupt rsp0 handler codeSel).cpu.regs .rsp =
      (s.mem.pushAll rsp0 [s.cpu.ss.zeroExtend 64, s.cpu.regs .rsp, s.cpu.rflags,
        s.cpu.cs.zeroExtend 64, s.cpu.rip]).2 := rfl

theorem interrupt_regs {s : State S} {rsp0 handler : Word} {codeSel : BitVec 16} {r : Reg}
    (h : r ≠ .rsp) :
    (s.interrupt rsp0 handler codeSel).cpu.regs r = s.cpu.regs r := by
  simp only [State.interrupt]
  rw [pushWords_regs h]
  exact setReg_of_ne h

/-- Pushing registers one by one pushes their values. -/
theorem run_pushes (rs : List Reg) : ∀ s : State S, .rsp ∉ rs →
    run s (rs.map .push) = s.pushWords (rs.map s.cpu.regs) := by
  induction rs with
  | nil =>
      intro s _
      exact congrArg (fun c => { s with cpu := c }) (setReg_same s.cpu .rsp).symm
  | cons r rs ih =>
      intro s h
      obtain ⟨hr, hrs⟩ := not_or.mp (mt List.mem_cons.mpr h)
      have same : rs.map (s.pushWords [s.cpu.regs r]).cpu.regs = rs.map s.cpu.regs :=
        List.map_congr_left fun q hq => pushWords_regs fun h => hrs (h ▸ hq)
      rw [List.map_cons, List.map_cons, run_cons, Instr.exec, ih _ hrs, same, ← pushWords_append]
      rfl

/-- Pops do not write. -/
theorem run_pops_mem (rs : List Reg) : ∀ s : State S, (run s (rs.map .pop)).mem = s.mem := by
  induction rs with
  | nil => intro s; rfl
  | cons r rs ih => intro s; exact ih _

/-- Pops change the registers popped into and the stack pointer. -/
theorem run_pops_regs {q : Reg} (rs : List Reg) : ∀ s : State S, q ∉ rs → q ≠ .rsp →
    (run s (rs.map .pop)).cpu.regs q = s.cpu.regs q := by
  induction rs with
  | nil => intro s _ _; rfl
  | cons r rs ih =>
      intro s h hq
      obtain ⟨hr, hrs⟩ := not_or.mp (mt List.mem_cons.mpr h)
      rw [List.map_cons, run_cons, ih _ hrs hq, Instr.exec, State.setReg, setReg_of_ne hr]
      exact setReg_of_ne hq

/-- Popping registers one by one loads the words on the stack, in order. -/
theorem run_pops (rs : List Reg) : ∀ s : State S, .rsp ∉ rs → rs.Nodup →
    (run s (rs.map .pop)).cpu.regs .rsp = s.cpu.regs .rsp + loc (8 * rs.length) ∧
      ∀ i r, rs[i]? = some r → (run s (rs.map .pop)).cpu.regs r = s.stackWord i := by
  induction rs with
  | nil => intro s _ _; exact ⟨by simp [loc], fun i r h => by simp at h⟩
  | cons q rs ih =>
      intro s hsp nodup
      obtain ⟨hq, hrs⟩ := not_or.mp (mt List.mem_cons.mpr hsp)
      obtain ⟨fresh, nodup⟩ := List.nodup_cons.mp nodup
      obtain ⟨top, words⟩ := ih (Instr.exec s (.pop q)) hrs nodup
      have sp : (Instr.exec s (.pop q)).cpu.regs .rsp = s.cpu.regs .rsp + 8 := by
        simp only [Instr.exec, State.setReg]
        rw [setReg_of_ne hq, setReg_self]
      rw [sp] at top
      rw [List.map_cons, run_cons]
      refine ⟨?_, fun i r h => ?_⟩
      · rw [top, List.length_cons, Nat.mul_succ, Nat.add_comm, loc_add, BitVec.add_assoc]
        rfl
      · cases i with
        | zero =>
            obtain rfl : q = r := by simpa using h
            have loaded : (Instr.exec s (.pop q)).cpu.regs q = s.stackWord 0 := setReg_self ..
            rw [run_pops_regs rs _ fresh (Ne.symm hq), loaded]
        | succ i =>
            rw [words i r (by simpa using h), State.stackWord, State.stackWord, sp, Nat.mul_succ,
              Nat.add_comm, loc_add, BitVec.add_assoc]
            rfl

/-- ZF is set by a zero result. -/
theorem zf_flag (c : Cpu) (v : Word) : (c.flag v).rflags &&& zf ≠ 0 ↔ v = 0 := by
  unfold Cpu.flag
  by_cases h : v = 0
  · simp only [h, if_true, iff_true]
    intro e
    have := congrArg (fun b => BitVec.getLsbD b 6) e
    simp [zf] at this
  · have off : ~~~zf &&& zf = 0 := by decide
    simp only [h, if_false, iff_false, not_not, BitVec.and_assoc, off]
    exact BitVec.and_zero

/-! ## The two GS bases -/

/-- GS.base and the base that `swapgs` would exchange for it. -/
def Cpu.bases (c : Cpu) : Word × Word := (c.gsBase, c.kernelGsBase)

def Instr.isSwapgs : Instr S → Bool
  | .swapgs => true
  | _ => false

/-- `swapgs` exchanges the bases, no other instruction changes them. -/
theorem exec_bases (s : State S) (i : Instr S) :
    (i.exec s).cpu.bases = if i.isSwapgs then s.cpu.bases.swap else s.cpu.bases := by
  cases i <;> rfl

/-- Code exchanges the bases as often as it executes `swapgs`. -/
theorem run_bases (code : List (Instr S)) : ∀ s : State S,
    (run s code).cpu.bases = Prod.swap^[code.countP Instr.isSwapgs] s.cpu.bases := by
  induction code with
  | nil => intro s; rfl
  | cons i code ih =>
      intro s
      rw [run_cons, ih, exec_bases, List.countP_cons]
      cases i.isSwapgs with
      | true =>
          simp only [if_true]
          rw [Function.iterate_succ_apply]
      | false =>
          simp only [Bool.false_eq_true, if_false]
          rw [Nat.add_zero]

@[simp] theorem afterCall_bases (s : State S) (params depth : Nat) (ret : Word) (mem : Mem)
    (junk : Junk) : (s.afterCall params depth ret mem junk).cpu.bases = s.cpu.bases := rfl

theorem interrupt_bases (s : State S) (rsp0 handler : Word) (codeSel : BitVec 16) :
    (s.interrupt rsp0 handler codeSel).cpu.bases = s.cpu.bases := rfl

/-! ## The interrupt flag -/

/-- SFMASK stays what it was set to. -/
theorem run_sfmask (code : List (Instr S)) : ∀ s : State S,
    (run s code).cpu.sfmask = s.cpu.sfmask := by
  induction code with
  | nil => intro s; rfl
  | cons i code ih =>
      intro s
      rw [run_cons, ih]
      cases i <;> rfl

theorem afterCall_sfmask (s : State S) (params depth : Nat) (ret : Word) (mem : Mem)
    (junk : Junk) : (s.afterCall params depth ret mem junk).cpu.sfmask = s.cpu.sfmask := rfl

theorem interrupt_sfmask (s : State S) (rsp0 handler : Word) (codeSel : BitVec 16) :
    (s.interrupt rsp0 handler codeSel).cpu.sfmask = s.cpu.sfmask := rfl

/-! ## The registers of `SYSCALL` -/

/-- STAR, LSTAR and SFMASK. -/
def Cpu.msrs (c : Cpu) : Word × Word × Word := (c.star, c.lstar, c.sfmask)

end Lib.X86
