import Coolos.Kernel.Schedule

/-!
# Interrupts (`interrupt.c`, `timer.c`, `keyboard.c`)

The frame the entry stubs leave on the stack, the handlers of the two devices
and `ExceptionHandler`, which calls the handler of the vector or reports the
exception and stops.
-/

namespace Coolos

open Lib

/-- `INT_TIMER` of `interrupt.h` and `INT_KEYBOARD` of `keyboard.h`. -/
def intTimer : Word := 0x40
def intKeyboard : Word := 0x21

/-- `InterruptFrame`. -/
structure InterruptFrame where
  r15 : Word
  r14 : Word
  r13 : Word
  r12 : Word
  r11 : Word
  r10 : Word
  r9 : Word
  r8 : Word
  rsi : Word
  rdi : Word
  rbp : Word
  rdx : Word
  rcx : Word
  rbx : Word
  rax : Word
  intNo : Word
  errCode : Word
  rip : Word
  cs : Word
  rflags : Word
  rsp : Word
  ss : Word
  deriving DecidableEq

/-- The frame at `p`. -/
def InterruptFrame.read (m : Mem) (p : Word) : InterruptFrame :=
  let word (i : Nat) := m.read64 (p + loc (8 * i))
  { r15 := word 0, r14 := word 1, r13 := word 2, r12 := word 3, r11 := word 4, r10 := word 5
    r9 := word 6, r8 := word 7, rsi := word 8, rdi := word 9, rbp := word 10, rdx := word 11
    rcx := word 12, rbx := word 13, rax := word 14, intNo := word 15, errCode := word 16
    rip := word 17, cs := word 18, rflags := word 19, rsp := word 20, ss := word 21 }

/-- `exception_messages`. -/
def exceptionMessages : List String :=
  [ "DIVISION BY ZERO",
    "DEBUG",
    "NON MASKABLE INTERRUPT",
    "BREAKPOINT",
    "INTO DETECTED OVERFLOW",
    "OUT OF BOUNDS",
    "INVALID OPCODE",
    "NO COPROCESSOR",
    "DOUBLE FAULT",
    "COPROCESSOR SEGMENT OVERRUN",
    "BAD TSS",
    "SEGMENT NOT PRESENT",
    "STACK FAULT",
    "GENERAL PROTECTION FAULT",
    "PAGE FAULT",
    "UNKNOWN INTERRUPT",
    "CO-PROCESSOR FAULT",
    "ALIGNMENT CHECK",
    "MACHINE CHECK",
    "SIMD FLOATING POINT EXCEPTION",
    "VIRTUALIZATION EXCEPTION",
    "CONTROL PROTECTION EXCEPTION",
    "RESERVED",
    "RESERVED",
    "RESERVED",
    "RESERVED",
    "RESERVED",
    "RESERVED",
    "HYPervisor INJECTION EXCEPTION",
    "VMX COMMUNICATION EXCEPTION",
    "SECURITY EXCEPTION",
    "RESERVED" ]

/-- `scancode_to_ascii`. -/
def scancodeToAscii : List (BitVec 8) :=
  [
    0, 27, 49, 50, 51, 52, 53, 54, 55, 56, 57, 48, 45, 61, 8, 9, 113, 119, 101, 114, 116,
    121, 117, 105, 111, 112, 91, 93, 10, 0, 97, 115, 100, 102, 103, 104, 106, 107, 108, 59,
    39, 96, 0, 92, 122, 120, 99, 118, 98, 110, 109, 44, 46, 47, 0, 42, 0, 32, 0, 0, 0, 0, 0,
    0, 0, 0, 0, 0, 0, 0, 0, 0, 0, 0, 45, 0, 0, 0, 43, 0, 0, 0, 0, 0, 0, 0, 0, 0, 0, 0 ]

namespace Kernel

/-- `LAPIC_SendEOI`. -/
def sendEOI (k : Kernel) : Kernel := { k with eois := k.eois + 1 }

/-- `Timer_Handler`. -/
def timerHandler (k : Kernel) (frame : Word) : Kernel × Word :=
  ({ k with ticks := k.ticks + 1 }.sendEOI, frame)

/-- `Keyboard_Handler`, with the byte `inb(0x60)` reads: the kernel and
`*frame_ptr`. -/
def keyboardHandler (k : Kernel) (frame : Word) (scancode : BitVec 8) : Kernel × Word :=
  let k := k.sendEOI
  if scancode = 0x3A then k.switch frame
  else if scancode = 0x01 then k.terminateCurrentTask frame
  else if scancode &&& 0x80 ≠ 0 then (k, frame)
  else if scancode.toNat < scancodeToAscii.length then
    let k := { k with lastChar := scancodeToAscii.getD scancode.toNat 0 }
    if k.lastChar ≠ 0 then
      ({ k with
          graphics := k.graphics.putChar (100 + ((k.ticks % 50) * 8).truncate 32) 550 k.lastChar
            0xFFFFFF }, frame)
    else (k, frame)
  else (k, frame)

/-- The report of `ExceptionHandler` on an interrupt without a handler. `cr2` is
the faulting address, shown for page faults. -/
def reportException (k : Kernel) (frame : InterruptFrame) (cr2 : Word) : Kernel :=
  let text (g : Graphics) (x y : BitVec 32) (s : String) (color : BitVec 32) :=
    g.print x y (Graphics.ascii s) color
  let g := text k.graphics 100 100 "EXCEPTION OCCURRED!" 0xFFFFFF
  let g := text g 100 130 "INTERRUPT: " 0xFFFFFF
  let g :=
    if frame.intNo < 32 then
      let g := text g 250 130 (exceptionMessages.getD frame.intNo.toNat "") 0xFFFFFF
      if frame.intNo = 14 then
        (text g 100 280 "CR2 (ADDR): " 0xDC322F).printHex 250 280 cr2 0xDC322F
      else g
    else g.printHex 250 130 frame.intNo 0xFFFFFF
  let g := (text g 100 160 "ERROR CODE: " 0xFFFFFF).printHex 250 160 frame.errCode 0xFFFFFF
  let g := (text g 100 190 "RIP: " 0xFFFFFF).printHex 250 190 frame.rip 0xFFFFFF
  let g := (text g 100 220 "RAX: " 0xFFFFFF).printHex 250 220 frame.rax 0xFFFFFF
  let g := (text g 100 250 "RSP: " 0xFFFFFF).printHex 250 250 frame.rsp 0xFFFFFF
  { k with graphics := g }

/-- `ExceptionHandler`: the kernel and the frame to resume from, `none` when it
stops for good. -/
def exceptionHandler (k : Kernel) (frame : Word) (scancode : BitVec 8) (cr2 : Word) :
    Kernel × Option Word :=
  let f := InterruptFrame.read k.mem frame
  match k.handlerTable f.intNo.toNat with
  | some .timer =>
      let (k, frame) := k.timerHandler frame
      (k, some frame)
  | some .keyboard =>
      let (k, frame) := k.keyboardHandler frame scancode
      (k, some frame)
  | none => (k.reportException f cr2, none)

end Kernel
end Coolos
