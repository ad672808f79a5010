import Coolos.Kernel.Idt
import Coolos.Theorems.Slots

/-!
# The frame, written five times

The stubs and `isr_common` push a frame, `InterruptFrame` reads it, `isr_restore` and `iretq`
pop it, and `Scheduler_AddUserTask` makes one up. A stub pushes an error code of its own
exactly when the processor has not, so all of them mean the same 22 words.
-/

namespace Coolos.Theorems

open Lib Lib.X86 Machine

/-! ## The gates -/

theorem truncate_mask (x : Word) (n : Nat) {mask : Word}
    (ones : mask.truncate n = BitVec.allOnes n) :
    (x &&& mask).truncate n = x.truncate n := by
  have both : (x &&& mask).truncate n = x.truncate n &&& mask.truncate n := BitVec.setWidth_and
  rw [both, ones, BitVec.and_allOnes]

/-- The three parts of an offset make up the address. -/
theorem gate_offset (handler : Word) (selector : BitVec 16) (typeAttr : BitVec 8) :
    (IDTEntry.gate handler selector typeAttr).offset = handler := by
  rw [IDTEntry.offset, IDTEntry.gate]
  dsimp only
  rw [truncate_mask _ 16 (by decide), truncate_mask _ 16 (by decide),
    truncate_mask _ 32 (by decide)]
  apply BitVec.eq_of_getLsbD_eq
  intro i hi
  rw [BitVec.getLsbD_append, BitVec.getLsbD_append]
  by_cases low : i < 16
  · have half : i < 32 := by omega
    simp [low, half]
  · by_cases mid : i < 32
    · have back : 16 + (i - 16) = i := by omega
      have part : i - 16 < 16 := by omega
      simp [low, mid, back, part]
    · have back : 32 + (i - 32) = i := by omega
      have part : i - 32 < 32 := by omega
      simp [mid, back, part]

/-- What a row of `IDT_SetGate` calls leaves in the table. -/
theorem foldl_setGate (gates : List (BitVec 8)) (handler : BitVec 8 → Word) (v : BitVec 8)
    (selector : BitVec 16) (typeAttr : BitVec 8) : ∀ idt : Idt,
      gates.foldl (fun idt n => idt.setGate n (handler n) selector typeAttr) idt v =
        if v ∈ gates then .gate (handler v) selector typeAttr else idt v := by
  induction gates with
  | nil => intro idt; rfl
  | cons n gates ih =>
      intro idt
      rw [List.foldl_cons, ih, Idt.setGate]
      by_cases later : v ∈ gates
      · rw [if_pos later, if_pos (List.mem_cons_of_mem n later)]
      · rw [if_neg later]
        by_cases here : v = n
        · subst here
          rw [if_pos List.mem_cons_self, Function.update_self]
        · rw [if_neg (by simp [here, later]), Function.update_of_ne here]

/-- The stub behind a vector. -/
def stubOf (v : BitVec 8) : IsrStub := if Idt.ownStubs.contains v then .isr v else .generic

theorem init_gate (idt : Idt) (addr : IsrStub → Word) (v : BitVec 8) :
    idt.init addr v = .gate (addr (stubOf v)) (kernelCodeSel.truncate 16) 0x8E := by
  have all : v ∈ (List.range 256).map (BitVec.ofNat 8) := by
    rw [List.mem_map]
    exact ⟨v.toNat, List.mem_range.mpr v.isLt, by simp⟩
  have generic := foldl_setGate ((List.range 256).map (BitVec.ofNat 8)) (fun _ => addr .generic) v
    (kernelCodeSel.truncate 16) 0x8E idt
  rw [List.foldl_map, if_pos all] at generic
  have member : Idt.ownStubs.contains v = true ↔ v ∈ Idt.ownStubs := List.contains_iff_mem
  rw [Idt.init, foldl_setGate, generic, stubOf]
  by_cases own : v ∈ Idt.ownStubs
  · rw [if_pos own, if_pos (member.mpr own)]
  · rw [if_neg own, if_neg (mt member.mp own)]

/-! ## The frame -/

/-- The vector a stub reports: isr_generic stands for all vectors without a stub. -/
def vectorNumber (v : BitVec 8) : Word := if Idt.ownStubs.contains v then v.zeroExtend 64 else 255

/-- The frame for what was saved and the registers as they were. -/
def trapFrame (m : Machine) (v : BitVec 8) (p : Saved) : InterruptFrame :=
  { m.frame (vectorNumber v) with
    errCode := if pushesErrorCode v then p.errCode else 0
    rip := p.rip, cs := p.cs.zeroExtend 64, rflags := p.rflags, rsp := p.rsp
    ss := p.ss.zeroExtend 64 }

/-- Processor and stub together push the five words, the error code or 0, and the number. -/
theorem run_stub {s : State Sym} {v : BitVec 8} {p : Saved} :
    run (s.pushWords (p.words v)) (stubOf v).code =
      s.pushWords [p.ss.zeroExtend 64, p.rsp, p.rflags, p.cs.zeroExtend 64, p.rip,
        if pushesErrorCode v then p.errCode else 0, vectorNumber v] := by
  have pushes : pushesErrorCode v = true ↔ v ∈ isrErrStubs := List.contains_iff_mem
  have own : ∀ v ∈ isrErrStubs, Idt.ownStubs.contains v = true := by decide
  by_cases err : v ∈ isrErrStubs
  · rw [Saved.words, stubOf, vectorNumber, if_pos (pushes.mpr err), if_pos (pushes.mpr err),
      if_pos (own v err), if_pos (own v err), IsrStub.code, if_pos err, isrErr, run_cons, run_nil]
    exact (pushWords_append s _ [_]).symm
  · have none : ¬ pushesErrorCode v = true := fun h => err (pushes.mp h)
    rw [Saved.words, stubOf, vectorNumber, if_neg none, if_neg none]
    split
    · rw [IsrStub.code, if_neg err, isrNoErr, run_cons, run_cons, run_nil]
      simp only [Instr.exec, ← pushWords_append, List.append_nil, List.cons_append, List.nil_append]
    · rw [IsrStub.code, isrGeneric, run_cons, run_cons, run_nil]
      simp only [Instr.exec, ← pushWords_append, List.append_nil, List.cons_append, List.nil_append]

/-- Where the processor starts to push. -/
def stackTop (m : Machine) : Word :=
  (if m.cpu.cs &&& 3 = 0 then m.cpu.regs .rsp else m.rsp0) &&& ~~~0xF

/-- The stubs are at the addresses that `IDT_Init` stores. -/
def Linked (addr : IsrStub → Word) (text : Word → List (Instr Sym)) : Prop :=
  ∀ v, text (addr (stubOf v)) = (stubOf v).code

section Trap

variable (m : Machine) (idt : Idt) {addr : IsrStub → Word} {text : Word → List (Instr Sym)}

/-- All the pushes done. -/
theorem trapped_eq (linked : Linked addr text) (v : BitVec 8) (p : Saved) :
    ∃ s : State Sym, s.mem = m.kernel.mem ∧ s.cpu.regs .rsp = stackTop m ∧
      m.trapped (idt.init addr) text v p = run (s.pushWords ([p.ss.zeroExtend 64, p.rsp, p.rflags,
        p.cs.zeroExtend 64, p.rip, if pushesErrorCode v then p.errCode else 0, vectorNumber v] ++
          isrRegs.map m.cpu.regs))
        [.mov .rcx .rsp, .mov .rbp .rsp, .andImm .rsp (-16), .subImm .rsp 32] := by
  have offset : (idt.init addr v).offset = addr (stubOf v) := by rw [init_gate, gate_offset]
  -- on another stack, and on its way to the handler
  let s : State Sym := { m.state with
    cpu := { m.cpu.setReg .rsp (stackTop m) with
      rip := addr (stubOf v)
      rflags := m.cpu.rflags &&& ~~~gateMask
      cs := (idt.init addr v).selector
      ss := if m.cpu.cs &&& 3 = 0 then m.cpu.ss else 0 } }
  have delivered : m.state.deliver m.rsp0 (addr (stubOf v))
      (idt.init addr v).selector v p = s.pushWords (p.words v) := rfl
  have regs : isrRegs.map s.cpu.regs = isrRegs.map m.cpu.regs :=
    isrRegs_map fun _ => setReg_of_ne
  have rsp : s.cpu.regs .rsp = stackTop m := setReg_self m.cpu .rsp _
  refine ⟨s, rfl, rsp, ?_⟩
  rw [Machine.trapped, offset, delivered, run_append, linked, run_stub, run_isrCommon,
    isrRegs_pushWords, regs, ← pushWords_append]

/-- The handler is given the address of the frame. -/
theorem trapped_rcx (linked : Linked addr text) (v : BitVec 8) (p : Saved) :
    (m.trapped (idt.init addr) text v p).cpu.regs .rcx = frameBelow (stackTop m) := by
  obtain ⟨s, -, rsp, run⟩ := trapped_eq m idt linked v p
  rw [run, run_passFrame, pushWords_rsp, rsp]
  rfl

/-- It finds each word in the field of its name. -/
theorem trapped_frame (linked : Linked addr text) (v : BitVec 8) (p : Saved) :
    InterruptFrame.read (m.trapped (idt.init addr) text v p).mem (frameBelow (stackTop m)) =
      trapFrame m v p := by
  obtain ⟨s, mem, rsp, run⟩ := trapped_eq m idt linked v p
  have last (q : State Sym) : (Lib.X86.run q
      [.mov .rcx .rsp, .mov .rbp .rsp, .andImm .rsp (-16), .subImm .rsp 32]).mem = q.mem := rfl
  rw [run, last, pushWords_mem, rsp]
  exact InterruptFrame.read_pushed rfl

end Trap

/-! ## The way back -/

/-- What the processor runs on with after `isr_restore`, from the frame in RAX. -/
def restored (t : State Sym) : Context := cpuContext (run t (.mov .rsp .rax :: isrRestore)).cpu

/-- The context that was interrupted. -/
def interrupted (m : Machine) (p : Saved) : Context where
  regs r := if r = .rsp then p.rsp else m.cpu.regs r
  rip := p.rip
  cs := p.cs
  rflags := p.rflags
  ss := p.ss

theorem trapFrame_context (m : Machine) (v : BitVec 8) (p : Saved) :
    (trapFrame m v p).context = interrupted m p := by
  refine Context.ext ?_ rfl (truncate_zeroExtend_selector _) rfl (truncate_zeroExtend_selector _)
  funext r
  cases r <;> rfl

/-- A user task that starts at `fn` on a stack of `stackPages` pages. -/
def started (fn stackBase stackPages : Word) : Context where
  regs r := if r = .rsp then stackBase + 4096 * stackPages else 0
  rip := fn
  cs := userCodeSel.truncate 16
  rflags := 0x202
  ss := userDataSel.truncate 16

theorem startFrame_context (fn stackBase stackPages : Word) :
    (startFrame fn (stackBase + stackPages * 4096)).context = started fn stackBase stackPages := by
  rw [BitVec.mul_comm]
  refine Context.ext ?_ rfl rfl rfl rfl
  funext r
  cases r <;> rfl

/-- The frame of a new user task. -/
theorem addUserTask_frame {k : Kernel} (room : k.sched.totalTasks < maxTasks)
    (ok : (k.pages.alloc 1).2 ≠ 0) (fn stackBase stackPages : Word) :
    let k' := k.addUserTask fn stackBase stackPages
    InterruptFrame.read k'.mem (k'.sched.tasks k.sched.totalTasks).rsp =
      startFrame fn (stackBase + stackPages * 4096) := by
  intro k'
  have entry : k'.sched.tasks k.sched.totalTasks =
      ⟨frameBelow ((k.pages.alloc 1).2 + 4096), true, stackBase, stackPages⟩ := by
    obtain ⟨m, added⟩ := k.addUserTask_room room fn stackBase stackPages ok
    rw [show k' = _ from added]
    exact Scheduler.setTask_tasks_self ..
  rw [entry, show k'.mem = _ from k.addUserTask_mem room fn stackBase stackPages ok]
  exact InterruptFrame.read_pushed rfl

/-- On every vector `ExceptionHandler` finds each register and each word saved in the field of
its name, and with the frame as it was the interrupted context goes on; and a new user task
starts at `fn` on top of its stack with registers of 0. -/
theorem frame_layouts_agree :
    (∀ (m : Machine) (idt : Idt) (addr : IsrStub → Word) (text : Word → List (Instr Sym))
      (v : BitVec 8) (p : Saved), Linked addr text →
        let s := m.trapped (idt.init addr) text v p
        let frame := s.cpu.regs .rcx
        InterruptFrame.read s.mem frame = trapFrame m v p ∧
          ∀ t : State Sym, t.cpu.regs .rax = frame →
            InterruptFrame.read t.mem frame = InterruptFrame.read s.mem frame →
              restored t = interrupted m p) ∧
    ∀ (k : Kernel) (fn stackBase stackPages : Word), k.sched.totalTasks < maxTasks →
      (k.pages.alloc 1).2 ≠ 0 →
        let k' := k.addUserTask fn stackBase stackPages
        let frame := (k'.sched.tasks k.sched.totalTasks).rsp
        ∀ t : State Sym, t.cpu.regs .rax = frame →
          InterruptFrame.read t.mem frame = InterruptFrame.read k'.mem frame →
            restored t = started fn stackBase stackPages := by
  constructor
  · intro m idt addr text v p linked s frame
    have found : InterruptFrame.read s.mem frame = trapFrame m v p := by
      rw [show frame = frameBelow (stackTop m) from trapped_rcx m idt linked v p]
      exact trapped_frame m idt linked v p
    refine ⟨found, ?_⟩
    intro t rax unmodified
    rw [restored, restore_context, rax, unmodified, found, trapFrame_context]
  · intro k fn stackBase stackPages room ok k' frame t rax unmodified
    have built := addUserTask_frame room ok fn stackBase stackPages
    rw [restored, restore_context, rax, unmodified, show _ = _ from built, startFrame_context]

/-- Stubs one byte apart, for the sake of an example. -/
def stubAddr : IsrStub → Word
  | .isr n => n.zeroExtend 64
  | .generic => 256

def stubText (a : Word) : List (Instr Sym) :=
  if a = 256 then IsrStub.generic.code else (IsrStub.isr (a.truncate 8)).code

theorem stubs_linked : Linked stubAddr stubText := by
  intro v
  generalize stubOf v = stub
  cases stub with
  | isr n =>
      have apart : n.zeroExtend 64 ≠ (256 : Word) := by bv_omega
      have back : (n.zeroExtend 64 : Word).truncate 8 = n := by simp
      rw [stubAddr, stubText, if_neg apart, back]
  | generic => rfl

/-- A machine with pages 1 to 30 clear, in ring 3. -/
def ring3 : Machine where
  cpu :=
    { regs := fun _ => 7, rip := 0x400000, rflags := 0x202
      cs := userCodeSel.truncate 16, ss := userDataSel.truncate 16
      gsBase := 0, kernelGsBase := 0, star := 0, lstar := 0, sfmask := 0 }
  kernel := thirtyPages.kernel
  rsp0 := 0x20000
  idt := fun _ => 0

/-- A page fault there, with the error code of a write. -/
def faulted : State Sym :=
  ring3.trapped (Idt.init (fun _ => .gate 0 0 0) stubAddr) stubText 14
    ⟨0x400123, 0x23, 0x202, 0x7FF0, 0x1B, 6⟩

/-- The handler of the fault reads that code, and a first task starts on top of its stack. -/
theorem frame_layouts_agree_ring3 :
    (InterruptFrame.read faulted.mem (faulted.cpu.regs .rcx)).errCode = 6 ∧
    let k' := ring3.kernel.addUserTask 0x400000 0x8000 2
    ∀ t : State Sym, t.cpu.regs .rax = (k'.sched.tasks 1).rsp → t.mem = k'.mem →
      (restored t).regs .rsp = 0xA000 := by
  constructor
  · have found := (frame_layouts_agree.1 ring3 (fun _ => .gate 0 0 0) stubAddr stubText 14
      ⟨0x400123, 0x23, 0x202, 0x7FF0, 0x1B, 6⟩ stubs_linked).1
    rw [show InterruptFrame.read faulted.mem (faulted.cpu.regs .rcx) = _ from found]
    rfl
  · intro k' t rax mem
    have starts := frame_layouts_agree.2 ring3.kernel 0x400000 0x8000 2 (by decide)
      (by decide +kernel) t rax (by rw [mem])
    rw [starts]
    rfl

end Coolos.Theorems
