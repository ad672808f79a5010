import Coolos.Kernel.Entry
import Mathlib.Logic.Function.Basic

/-!
# The interrupt descriptor table (`interrupt.c`)

`IDT_Init` puts the address of `isr_generic` into every gate and then those of the stubs
that know their vector. Where the stubs lie is the linker's choice.
-/

namespace Coolos

open Lib Lib.X86

/-- `IDTEntry`. -/
structure IDTEntry where
  offsetLow : BitVec 16
  selector : BitVec 16
  ist : BitVec 8
  typeAttr : BitVec 8
  offsetMid : BitVec 16
  offsetHigh : BitVec 32
  zero : BitVec 32
  deriving DecidableEq

/-- Where the processor goes through the gate. -/
def IDTEntry.offset (e : IDTEntry) : Word := e.offsetHigh ++ (e.offsetMid ++ e.offsetLow)

/-- What `IDT_SetGate` stores. -/
def IDTEntry.gate (handler : Word) (selector : BitVec 16) (typeAttr : BitVec 8) : IDTEntry where
  offsetLow := (handler &&& 0xFFFF).truncate 16
  selector := selector
  ist := 0
  typeAttr := typeAttr
  offsetMid := ((handler >>> 16) &&& 0xFFFF).truncate 16
  offsetHigh := ((handler >>> 32) &&& 0xFFFFFFFF).truncate 32
  zero := 0

abbrev Idt : Type := BitVec 8 → IDTEntry

/-- The symbols `isr0`, `isr1` and so on, and `isr_generic`. -/
inductive IsrStub where
  | isr (n : BitVec 8)
  | generic
  deriving DecidableEq

/-- The stubs made with `ISR_ERR`; the others are made with `ISR_NOERR`. -/
def isrErrStubs : List (BitVec 8) := [8, 10, 11, 12, 13, 14, 17, 21, 29, 30]

namespace Machine

/-- `ISR_ERR(n)`, up to `isr_common`. -/
def isrErr (n : Word) : List (Instr Sym) := [.pushImm n]

/-- `isr_generic`, up to `isr_common`. -/
def isrGeneric : List (Instr Sym) := [.pushImm 0, .pushImm 255]

end Machine

/-- The code of a stub, up to `isr_common`. -/
def IsrStub.code : IsrStub → List (Instr Sym)
  | .isr n =>
      if n ∈ isrErrStubs then Machine.isrErr (n.zeroExtend 64)
      else Machine.isrNoErr (n.zeroExtend 64)
  | .generic => Machine.isrGeneric

namespace Idt

/-- `IDT_SetGate`. -/
def setGate (idt : Idt) (vector : BitVec 8) (handler : Word) (selector : BitVec 16)
    (typeAttr : BitVec 8) : Idt :=
  Function.update idt vector (.gate handler selector typeAttr)

/-- The vectors that `IDT_Init` gives a stub of their own: the exceptions, the keyboard and
the timer. -/
def ownStubs : List (BitVec 8) :=
  [0, 1, 2, 3, 4, 5, 6, 7, 8, 9, 10, 11, 12, 13, 14, 15, 16, 17, 18, 19, 20, 21, 22, 23, 24, 25,
    26, 27, 28, 29, 30, 31, 33, 64]

/-- `IDT_Init`, for stubs at `addr`. -/
def init (idt : Idt) (addr : IsrStub → Word) : Idt :=
  let idt := (List.range 256).foldl (fun idt i =>
    setGate idt (BitVec.ofNat 8 i) (addr .generic) (kernelCodeSel.truncate 16) 0x8E) idt
  ownStubs.foldl (fun idt n =>
    setGate idt n (addr (.isr n)) (kernelCodeSel.truncate 16) 0x8E) idt

end Idt

/-- The state in which `isr_common` calls `ExceptionHandler` once an interrupt or exception is
delivered on `vector`. `text` is the code at an address, up to `isr_common`. -/
def Machine.trapped (m : Machine) (idt : Idt) (text : Word → List (Instr Sym))
    (vector : BitVec 8) (p : Saved) : State Sym :=
  let handler := (idt vector).offset
  run (m.state.deliver m.rsp0 handler (idt vector).selector vector p)
    (text handler ++ isrCommon)

end Coolos
