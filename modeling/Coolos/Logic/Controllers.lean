import Coolos.Kernel.Apic
import Coolos.Lib.RegisterFile

/-!
# The interrupt controllers

What the stores of the two drivers make of the devices: the ports, of which those of the two PICs
take masks, the registers of the local APIC, and those of the I/O APIC behind its select register
and its window.
-/

namespace Coolos

open Lib

structure Controllers where
  /-- Where the two APICs are, 0 where there is none. -/
  lapicBase : Word
  ioapicBase : Word
  /-- The byte last written to each port. -/
  ports : BitVec 16 → BitVec 8
  /-- The registers of the local APIC, by offset. -/
  lapic : Word → BitVec 32
  ioapic : RegisterFile (BitVec 8) (BitVec 32)

/-- An entry of the redirection table. -/
structure Redirection where
  vector : BitVec 8
  delivery : BitVec 3
  logical : Bool
  activeLow : Bool
  level : Bool
  masked : Bool
  destination : BitVec 8
  deriving DecidableEq

/-- As the I/O APIC takes it from two registers. -/
def Redirection.ofWords (low high : BitVec 32) : Redirection where
  vector := low.truncate 8
  delivery := low.extractLsb' 8 3
  logical := low.getLsbD 11
  activeLow := low.getLsbD 13
  level := low.getLsbD 15
  masked := low.getLsbD 16
  destination := high.extractLsb' 24 8

namespace Controllers

def step (c : Controllers) : DeviceStore → Controllers
  | .outb port value => { c with ports := Function.update c.ports port value }
  | .mmio addr value =>
      if addr = c.ioapicBase then
        { c with ioapic := c.ioapic.step (.select (value.truncate 8)) }
      else if addr = c.ioapicBase + 0x10 then
        { c with ioapic := c.ioapic.step (.window value) }
      else { c with lapic := Function.update c.lapic (addr - c.lapicBase) value }

/-- Entry `n` of the redirection table. -/
def redirection (c : Controllers) (n : Nat) : Redirection :=
  .ofWords (c.ioapic.regs (BitVec.ofNat 8 (0x10 + 2 * n)))
    (c.ioapic.regs (BitVec.ofNat 8 (0x10 + 2 * n + 1)))

/-- The devices behind all stores of a driver. -/
def behind (c : Controllers) (a : Apic) : Controllers := a.stores.foldl step c

/-- The drivers have the right addresses, and the select register and the window of the I/O APIC
are not on the page of the local APIC. -/
structure Drives (a : Apic) (c : Controllers) : Prop where
  lapic : a.lapicBase = c.lapicBase
  select : 4096 ≤ (c.ioapicBase - c.lapicBase).toNat
  window : 4096 ≤ (c.ioapicBase + 0x10 - c.lapicBase).toNat

section Stores

variable {a : Apic} {c : Controllers}

theorem step_bases (c : Controllers) (s : DeviceStore) :
    (c.step s).lapicBase = c.lapicBase ∧ (c.step s).ioapicBase = c.ioapicBase := by
  cases s with
  | outb port value => exact ⟨rfl, rfl⟩
  | mmio addr value =>
      rw [step]
      split
      · exact ⟨rfl, rfl⟩
      · split <;> exact ⟨rfl, rfl⟩

theorem foldl_bases (stores : List DeviceStore) : ∀ c : Controllers,
    (stores.foldl step c).lapicBase = c.lapicBase ∧
      (stores.foldl step c).ioapicBase = c.ioapicBase := by
  induction stores with
  | nil => intro c; exact ⟨rfl, rfl⟩
  | cons s stores ih =>
      intro c
      obtain ⟨lapic, ioapic⟩ := ih (c.step s)
      obtain ⟨lapic', ioapic'⟩ := c.step_bases s
      exact ⟨lapic.trans lapic', ioapic.trans ioapic'⟩

theorem behind_append (c : Controllers) (a : Apic) (stores : List DeviceStore) :
    c.behind { a with stores := a.stores ++ stores } = stores.foldl step (c.behind a) :=
  List.foldl_append

theorem behind_bases (c : Controllers) (a : Apic) :
    (c.behind a).lapicBase = c.lapicBase ∧ (c.behind a).ioapicBase = c.ioapicBase :=
  foldl_bases a.stores c

/-! ## The local APIC and the ports -/

theorem behind_outb (port : BitVec 16) (value : BitVec 8) :
    c.behind (a.outb port value) =
      { c.behind a with ports := Function.update (c.behind a).ports port value } :=
  behind_append ..

theorem behind_lapicWrite (drives : Drives a c) {reg : BitVec 32} (low : reg.toNat < 4096)
    (val : BitVec 32) :
    c.behind (a.lapicWrite reg val) =
      { c.behind a with
        lapic := Function.update (c.behind a).lapic (reg.zeroExtend 64) val } := by
  obtain ⟨same, select, window⟩ := drives
  obtain ⟨lapic, ioapic⟩ := c.behind_bases a
  rw [← lapic] at same
  rw [← lapic, ← ioapic] at select window
  rw [Apic.lapicWrite, behind_append, same]
  generalize c.behind a = d at select window
  have offset : (reg.zeroExtend 64 : Word).toNat = reg.toNat := by
    simp only [BitVec.truncate_eq_setWidth, BitVec.toNat_setWidth]
    omega
  have distance : d.lapicBase + reg.zeroExtend 64 - d.lapicBase = reg.zeroExtend 64 := by
    rw [BitVec.add_comm, BitVec.add_sub_cancel]
  have first : d.lapicBase + reg.zeroExtend 64 ≠ d.ioapicBase := by
    intro h
    rw [← h, distance] at select
    omega
  have second : d.lapicBase + reg.zeroExtend 64 ≠ d.ioapicBase + 0x10 := by
    intro h
    rw [← h, distance] at window
    omega
  show step d (.mmio (d.lapicBase + reg.zeroExtend 64) val) = _
  rw [step, if_neg first, if_neg second, distance]

/-! ## The I/O APIC -/

theorem behind_ioapicWrite (same : a.ioapicBase = c.ioapicBase) (reg : BitVec 8)
    (val : BitVec 32) :
    c.behind (a.ioapicWrite reg val) =
      { c.behind a with ioapic := (c.behind a).ioapic.write (reg, val) } := by
  obtain ⟨-, ioapic⟩ := c.behind_bases a
  rw [← ioapic] at same
  rw [Apic.ioapicWrite, behind_append, same]
  generalize c.behind a = d
  have other : d.ioapicBase + 0x10 ≠ d.ioapicBase := by bv_omega
  have zero : d.ioapicBase + 0x00 = d.ioapicBase := BitVec.add_zero _
  have back : ((reg.zeroExtend 32).truncate 8 : BitVec 8) = reg := by simp
  have select : d.step (.mmio (d.ioapicBase + 0x00) (reg.zeroExtend 32)) =
      { d with ioapic := d.ioapic.step (.select reg) } := by
    rw [step, zero, if_pos rfl, back]
  show step (d.step (.mmio (d.ioapicBase + 0x00) (reg.zeroExtend 32)))
    (.mmio (d.ioapicBase + 0x10) val) = _
  rw [select, step, if_neg other, if_pos rfl]
  rfl

/-- The register that `IOAPIC_MapIRQ` writes first, its number a `uint8_t`. -/
def redirectionRegister (irq : BitVec 8) : BitVec 8 :=
  BitVec.ofNat 8 (ioapicRegREDTBL + 2 * irq.toNat)

/-- What it writes. -/
def redirectionWrites (irq vector apicId : BitVec 8) : List (BitVec 8 × BitVec 32) :=
  [(redirectionRegister irq, vector.zeroExtend 32),
    (redirectionRegister irq + 1, apicId.zeroExtend 32 <<< 24)]

theorem behind_mapIRQ (same : a.ioapicBase = c.ioapicBase) (irq vector apicId : BitVec 8) :
    c.behind (a.mapIRQ irq vector apicId) =
      { c.behind a with
        ioapic := (redirectionWrites irq vector apicId).foldl RegisterFile.write
          (c.behind a).ioapic } := by
  have next : BitVec.ofNat 8 (ioapicRegREDTBL + 2 * irq.toNat + 1) = redirectionRegister irq + 1 :=
    BitVec.ofNat_add ..
  rw [Apic.mapIRQ, behind_ioapicWrite, behind_ioapicWrite same, next]
  · rfl
  · exact same

/-! ## Setting them up -/

theorem Drives.lapicWrite (drives : Drives a c) (reg val : BitVec 32) :
    Drives (a.lapicWrite reg val) c := ⟨drives.lapic, drives.select, drives.window⟩

/-- The delay leaves the APICs and the PICs alone. -/
theorem behind_pitDelay {ms : BitVec 16} {answers : ApicAnswers} {a' : Apic}
    (h : a.pitDelay ms answers = some a') : a'.lapicBase = a.lapicBase ∧
      a'.ioapicBase = a.ioapicBase ∧ (c.behind a').lapic = (c.behind a).lapic ∧
      (c.behind a').ioapic = (c.behind a).ioapic ∧
      ∀ port : BitVec 16, port ≠ 0x42 → port ≠ 0x43 → port ≠ 0x61 →
        (c.behind a').ports port = (c.behind a).ports port := by
  unfold Apic.pitDelay at h
  dsimp only at h
  split at h
  · cases h
  obtain rfl := Option.some.inj h
  refine ⟨rfl, rfl, ?_, ?_, fun port data command gate => ?_⟩
  · simp only [behind_outb]
  · simp only [behind_outb]
  · simp only [behind_outb, Function.update_of_ne data, Function.update_of_ne command,
      Function.update_of_ne gate]

/-- The registers of the local APIC that `LAPIC_CalibrateTimer` writes. -/
theorem behind_calibrateTimer (drives : Drives a c) {answers : ApicAnswers} {a' : Apic}
    {ticks : BitVec 32} (h : a.calibrateTimer answers = some (a', ticks)) :
    ticks = 0xFFFFFFFF - answers.current ∧ Drives a' c ∧ a'.ioapicBase = a.ioapicBase ∧
      (c.behind a').ioapic = (c.behind a).ioapic ∧
      (∀ x, x ≠ lapicRegTDCR.zeroExtend 64 → x ≠ lapicRegTICR.zeroExtend 64 →
        (c.behind a').lapic x = (c.behind a).lapic x) ∧
      ∀ port : BitVec 16, port ≠ 0x42 → port ≠ 0x43 → port ≠ 0x61 →
        (c.behind a').ports port = (c.behind a).ports port := by
  rw [Apic.calibrateTimer, Option.bind_eq_bind, Option.bind_eq_some_iff] at h
  obtain ⟨delayed, delay, h⟩ := h
  obtain ⟨rfl, rfl⟩ := Prod.mk.inj (Option.some.inj h)
  have drives₁ := drives.lapicWrite lapicRegTDCR 0x3
  have divide := behind_lapicWrite drives (show lapicRegTDCR.toNat < 4096 by decide) 0x3
  have start := behind_lapicWrite drives₁ (show lapicRegTICR.toNat < 4096 by decide) 0xFFFFFFFF
  obtain ⟨lapicBase, ioapicBase, lapic, ioapic, ports⟩ := behind_pitDelay (c := c) delay
  have drives₂ : Drives delayed c :=
    ⟨lapicBase.trans drives.lapic, drives.select, drives.window⟩
  have stop := behind_lapicWrite drives₂ (show lapicRegTICR.toNat < 4096 by decide) 0
  refine ⟨rfl, drives₂.lapicWrite _ _, ioapicBase, ?_, fun x first second => ?_,
    fun port data command gate => ?_⟩
  · rw [stop]
    show (c.behind delayed).ioapic = _
    rw [ioapic, start, divide]
  · rw [stop]
    show Function.update _ _ _ x = _
    rw [Function.update_of_ne second, lapic, start]
    show Function.update _ _ _ x = _
    rw [Function.update_of_ne second, divide]
    exact Function.update_of_ne first ..
  · rw [stop]
    show (c.behind delayed).ports port = _
    rw [ports port data command gate, start, divide]

/-- `LAPIC_Init`. -/
theorem behind_lapicInit {base : Word} {answers : ApicAnswers}
    (drives : Drives (a.lapicInit base answers) c) :
    (c.behind (a.lapicInit base answers)).ioapic = (c.behind a).ioapic ∧
      (c.behind (a.lapicInit base answers)).ports 0x21 = 0xFF ∧
      (c.behind (a.lapicInit base answers)).ports 0xA1 = 0xFF ∧
      (c.behind (a.lapicInit base answers)).lapic (lapicRegSIVR.zeroExtend 64) =
        answers.sivr ||| 0x1FF := by
  obtain ⟨masked, hm⟩ : ∃ m, m = (({ a with lapicBase := base } : Apic).outb 0xA1 0xFF).outb 0x21
    0xFF := ⟨_, rfl⟩
  have init : a.lapicInit base answers =
      masked.lapicWrite lapicRegSIVR (answers.sivr ||| 0x1FF) := by
    rw [hm]
    rfl
  have drives' : Drives masked c := by
    rw [init] at drives
    exact ⟨drives.lapic, drives.select, drives.window⟩
  have ports : (c.behind masked).ports = Function.update (Function.update (c.behind a).ports 0xA1
      0xFF) 0x21 0xFF := by
    rw [hm, behind_outb, behind_outb]
    rfl
  have ioapic : (c.behind masked).ioapic = (c.behind a).ioapic := by
    rw [hm, behind_outb, behind_outb]
    rfl
  rw [init, behind_lapicWrite drives' (show lapicRegSIVR.toNat < 4096 by decide)]
  refine ⟨ioapic, ?_, ?_, ?_⟩
  · show (c.behind masked).ports 0x21 = _
    rw [ports, Function.update_self]
  · show (c.behind masked).ports 0xA1 = _
    rw [ports, Function.update_of_ne (by decide), Function.update_self]
  · dsimp only
    rw [Function.update_self]

/-- `LAPIC_TimerInit`. -/
theorem behind_timerInit (drives : Drives a c) (count : BitVec 32) :
    (c.behind (a.timerInit count)).ioapic = (c.behind a).ioapic ∧
      (c.behind (a.timerInit count)).ports = (c.behind a).ports ∧
      (c.behind (a.timerInit count)).lapic = Function.update (Function.update (Function.update
        (c.behind a).lapic (lapicRegTDCR.zeroExtend 64) 0x3)
        (lapicRegLVTTimer.zeroExtend 64) (0x40 ||| lapicTimerPeriodic))
        (lapicRegTICR.zeroExtend 64) count := by
  have divide := behind_lapicWrite drives (show lapicRegTDCR.toNat < 4096 by decide) 0x3
  have drives₁ := drives.lapicWrite lapicRegTDCR 0x3
  have vector := behind_lapicWrite drives₁ (show lapicRegLVTTimer.toNat < 4096 by decide)
    (0x40 ||| lapicTimerPeriodic)
  have drives₂ := drives₁.lapicWrite lapicRegLVTTimer (0x40 ||| lapicTimerPeriodic)
  have start := behind_lapicWrite drives₂ (show lapicRegTICR.toNat < 4096 by decide) count
  rw [Apic.timerInit, start, vector, divide]
  exact ⟨rfl, rfl, rfl⟩

/-- The timer set up: `LAPIC_Init`, `LAPIC_CalibrateTimer` and `LAPIC_TimerInit`. -/
structure Ticking (c d : Controllers) (sivr count : BitVec 32) : Prop where
  master : d.ports 0x21 = 0xFF
  slave : d.ports 0xA1 = 0xFF
  spurious : d.lapic (lapicRegSIVR.zeroExtend 64) = sivr ||| 0x1FF
  vector : d.lapic (lapicRegLVTTimer.zeroExtend 64) = 0x40 ||| lapicTimerPeriodic
  count : d.lapic (lapicRegTICR.zeroExtend 64) = count
  ioapic : d.ioapic = c.ioapic

theorem behind_setup {base : Word} {answers : ApicAnswers} {a' : Apic} {ticks : BitVec 32}
    (none : a.stores = []) (drives : Drives (a.lapicInit base answers) c)
    (h : (a.lapicInit base answers).calibrateTimer answers = some (a', ticks)) (count : BitVec 32) :
    ticks = 0xFFFFFFFF - answers.current ∧ (a'.timerInit count).ioapicBase = a.ioapicBase ∧
      Ticking c (c.behind (a'.timerInit count)) answers.sivr count := by
  obtain ⟨ioapic₁, master, slave, spurious⟩ := behind_lapicInit drives
  obtain ⟨elapsed, drives₁, ioapicBase, ioapic₂, lapic, ports⟩ := behind_calibrateTimer drives h
  obtain ⟨ioapic₃, ports', lapic'⟩ := behind_timerInit drives₁ count
  have start : c.behind a = c := by rw [behind, none, List.foldl_nil]
  refine ⟨elapsed, ioapicBase, ?_⟩
  constructor
  case master => rw [ports', ports _ (by decide) (by decide) (by decide), master]
  case slave => rw [ports', ports _ (by decide) (by decide) (by decide), slave]
  case spurious =>
    rw [lapic', Function.update_of_ne (by decide), Function.update_of_ne (by decide),
      Function.update_of_ne (by decide), lapic _ (by decide) (by decide), spurious]
  case vector => rw [lapic', Function.update_of_ne (by decide), Function.update_self]
  case count => rw [lapic', Function.update_self]
  case ioapic => rw [ioapic₃, ioapic₂, ioapic₁, start]

theorem behind_ioapicInit (base : Word) : c.behind (a.ioapicInit base) = c.behind a := rfl

end Stores
end Controllers
end Coolos
