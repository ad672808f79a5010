import Coolos.Kernel.Boot

/-!
# The interrupt controllers (`apic.c`, `ioapic.c`)

What the two drivers store to device registers and ports, oldest first. What the devices
answer is given; a loop has not ended, `none` here, when the answers run out before the one
it waits for.
-/

namespace Coolos

open Lib

/-- A store that a device can see. -/
inductive DeviceStore where
  | outb (port : BitVec 16) (value : BitVec 8)
  | mmio (addr : Word) (value : BitVec 32)
  deriving DecidableEq

/-- `g_lapic_base`, `g_ioapic_base`, and the stores made so far. -/
structure Apic where
  lapicBase : Word
  ioapicBase : Word
  stores : List DeviceStore

/-- The statics as they are loaded. -/
def Apic.statics : Apic := ⟨0, 0, []⟩

/-- `PIT_FREQ`. -/
def pitFreq : BitVec 32 := 1193182

/-- The registers of `apic.h` that are used. -/
def lapicRegSIVR : BitVec 32 := 0x00F0
def lapicRegLVTTimer : BitVec 32 := 0x0320
def lapicRegTICR : BitVec 32 := 0x0380
def lapicRegTDCR : BitVec 32 := 0x03E0

/-- `LAPIC_TIMER_PERIODIC`. -/
def lapicTimerPeriodic : BitVec 32 := 0x00020000

/-- `IOAPIC_REG_REDTBL`. -/
def ioapicRegREDTBL : Nat := 0x10

/-- What the devices answer `LAPIC_Init` and `LAPIC_CalibrateTimer`: the spurious vector
register, port 0x61 before the delay and each time it is polled, and the timer's current
count. -/
structure ApicAnswers where
  sivr : BitVec 32
  port61 : BitVec 8
  polls : List (BitVec 8)
  current : BitVec 32

namespace Apic

/-- `outb`. -/
def outb (a : Apic) (port : BitVec 16) (value : BitVec 8) : Apic :=
  { a with stores := a.stores ++ [.outb port value] }

/-- `lapic_write`. -/
def lapicWrite (a : Apic) (reg val : BitVec 32) : Apic :=
  { a with stores := a.stores ++ [.mmio (a.lapicBase + reg.zeroExtend 64) val] }

/-- `LAPIC_Init`. -/
def lapicInit (a : Apic) (base : Word) (answers : ApicAnswers) : Apic :=
  let a := { a with lapicBase := base }
  -- 1. Disable legacy PIC
  let a := (a.outb 0xA1 0xFF).outb 0x21 0xFF
  -- 2. Set Spurious Interrupt Vector Register
  a.lapicWrite lapicRegSIVR (answers.sivr ||| 0x1FF)

/-- The count `pit_delay` loads. -/
def pitCount (ms : BitVec 16) : BitVec 32 :=
  let count := pitFreq / 1000 * ms.zeroExtend 32
  if 0xFFFF < count then 0xFFFF else count

/-- `pit_delay`. -/
def pitDelay (a : Apic) (ms : BitVec 16) (answers : ApicAnswers) : Option Apic :=
  let count := pitCount ms
  let a := a.outb 0x43 0xB2
  let a := a.outb 0x42 ((count &&& 0xFF).truncate 8)
  let a := a.outb 0x42 (((count >>> 8) &&& 0xFF).truncate 8)
  let val := answers.port61
  let a := a.outb 0x61 (val &&& 0xFD)
  let a := a.outb 0x61 (val ||| 1)
  -- wait for the output of channel 2 to go high
  if answers.polls.all (fun port => port &&& 0x20 = 0) then none
  else some (a.outb 0x61 (val &&& 0xFC))

/-- `LAPIC_CalibrateTimer`. -/
def calibrateTimer (a : Apic) (answers : ApicAnswers) : Option (Apic × BitVec 32) := do
  let a := a.lapicWrite lapicRegTDCR 0x3
  let a := a.lapicWrite lapicRegTICR 0xFFFFFFFF
  let a ← a.pitDelay 10 answers
  let ticks := 0xFFFFFFFF - answers.current
  some (a.lapicWrite lapicRegTICR 0, ticks)

/-- `LAPIC_TimerInit`. -/
def timerInit (a : Apic) (count : BitVec 32) : Apic :=
  let a := a.lapicWrite lapicRegTDCR 0x3
  let a := a.lapicWrite lapicRegLVTTimer (0x40 ||| lapicTimerPeriodic)
  a.lapicWrite lapicRegTICR count

/-- `ioapic_write`: the register goes to the select register, the value to the window. -/
def ioapicWrite (a : Apic) (reg : BitVec 8) (val : BitVec 32) : Apic :=
  { a with
    stores := a.stores ++
      [.mmio (a.ioapicBase + 0x00) (reg.zeroExtend 32), .mmio (a.ioapicBase + 0x10) val] }

/-- `IOAPIC_Init`. -/
def ioapicInit (a : Apic) (base : Word) : Apic := { a with ioapicBase := base }

/-- `IOAPIC_MapIRQ`. The number of the register is computed as an `int` and passed as a
`uint8_t`. -/
def mapIRQ (a : Apic) (irq vector apicId : BitVec 8) : Apic :=
  let low := vector.zeroExtend 32
  let high := apicId.zeroExtend 32 <<< 24
  let a := a.ioapicWrite (BitVec.ofNat 8 (ioapicRegREDTBL + 2 * irq.toNat)) low
  a.ioapicWrite (BitVec.ofNat 8 (ioapicRegREDTBL + 2 * irq.toNat + 1)) high

end Apic
end Coolos
