import Coolos.Logic.Controllers
import Coolos.Theorems.KernelMain

/-!
# Which interrupts arrive where

What any calls of `IOAPIC_MapIRQ` make of the redirection table, and what `KernelMain` has made of
the interrupt controllers when ring 3 is entered.
-/

namespace Coolos.Theorems

open Lib Lib.X86 Controllers

/-! ## The redirection table -/

/-- A call of `IOAPIC_MapIRQ`. -/
structure IrqCall where
  irq : BitVec 8
  vector : BitVec 8
  apicId : BitVec 8

namespace IrqCall

def run (a : Apic) (call : IrqCall) : Apic := a.mapIRQ call.irq call.vector call.apicId

def writes (call : IrqCall) : List (BitVec 8 × BitVec 32) :=
  redirectionWrites call.irq call.vector call.apicId

/-- The entry it names: `irq` in a table of 128, of which there are 120. -/
def entry (call : IrqCall) : Nat := call.irq.toNat % 128

theorem run_ioapicBase (calls : List IrqCall) : ∀ a : Apic,
    (calls.foldl run a).ioapicBase = a.ioapicBase := by
  induction calls with
  | nil => intro a; rfl
  | cons call calls ih => intro a; exact ih (run a call)

theorem behind_run {c : Controllers} (calls : List IrqCall) : ∀ a : Apic,
    a.ioapicBase = c.ioapicBase →
      c.behind (calls.foldl run a) =
        { c.behind a with
          ioapic := (calls.flatMap writes).foldl RegisterFile.write (c.behind a).ioapic } := by
  induction calls with
  | nil => intro a _; rfl
  | cons call calls ih =>
      intro a same
      have first : c.behind (run a call) = { c.behind a with
          ioapic := call.writes.foldl RegisterFile.write (c.behind a).ioapic } :=
        behind_mapIRQ same ..
      rw [List.foldl_cons, ih (run a call) same, first, List.flatMap_cons, List.foldl_append]

theorem redirectionRegister_eq (irq : BitVec 8) :
    redirectionRegister irq = BitVec.ofNat 8 (0x10 + 2 * (irq.toNat % 128)) := by
  apply BitVec.eq_of_toNat_eq
  simp only [redirectionRegister, ioapicRegREDTBL, BitVec.toNat_ofNat]
  omega

/-- It writes to no entry but its own. -/
theorem ne_of_mem_writes {call : IrqCall} {n : Nat} (hn : n < 128) (other : call.entry ≠ n)
    {a : BitVec 8 × BitVec 32} (ha : a ∈ call.writes) :
    a.1 ≠ BitVec.ofNat 8 (0x10 + 2 * n) ∧ a.1 ≠ BitVec.ofNat 8 (0x10 + 2 * n + 1) := by
  rw [entry] at other
  have low := Nat.mod_lt call.irq.toNat (show 128 > 0 by decide)
  rcases List.mem_pair.mp ha with rfl | rfl
  · rw [redirectionRegister_eq]
    generalize call.irq.toNat % 128 = m at other low
    bv_omega
  · rw [redirectionRegister_eq]
    generalize call.irq.toNat % 128 = m at other low
    bv_omega

/-- Entries not named stay as they are. -/
theorem redirection_run {c : Controllers} {a : Apic} (same : a.ioapicBase = c.ioapicBase) {n : Nat}
    (hn : n < 128) {calls : List IrqCall} (others : ∀ call ∈ calls, call.entry ≠ n) :
    (c.behind (calls.foldl run a)).redirection n = (c.behind a).redirection n := by
  have apart : ∀ w ∈ calls.flatMap writes, w.1 ≠ BitVec.ofNat 8 (0x10 + 2 * n) ∧
      w.1 ≠ BitVec.ofNat 8 (0x10 + 2 * n + 1) := by
    intro w hw
    obtain ⟨call, hc, hw⟩ := List.mem_flatMap.mp hw
    exact ne_of_mem_writes hn (others call hc) hw
  rw [behind_run calls a same, redirection, redirection,
    RegisterFile.regs_writes_of_not_mem _ fun w hw => (apart w hw).1,
    RegisterFile.regs_writes_of_not_mem _ fun w hw => (apart w hw).2]

end IrqCall

/-- The two words that are written mean what was asked for. -/
theorem ofWords_entry (vector apicId : BitVec 8) :
    Redirection.ofWords (vector.zeroExtend 32) (apicId.zeroExtend 32 <<< 24) =
      ⟨vector, 0, false, false, false, false, apicId⟩ := by
  have low : ((vector.zeroExtend 32).truncate 8 : BitVec 8) = vector := by simp
  have delivery : (vector.zeroExtend 32 : BitVec 32).extractLsb' 8 3 = 0 := by
    ext i hi
    simp
  have flag (i : Nat) (hi : 8 ≤ i) : (vector.zeroExtend 32 : BitVec 32).getLsbD i = false := by
    simp only [BitVec.truncate_eq_setWidth, BitVec.getLsbD_setWidth, BitVec.getLsbD_of_ge _ _ hi,
      Bool.and_false]
  have high : (apicId.zeroExtend 32 <<< 24 : BitVec 32).extractLsb' 24 8 = apicId := by
    ext i hi
    have inside : 24 + i < 32 := by omega
    simp [inside, BitVec.getLsbD_eq_getElem hi]
  rw [Redirection.ofWords, low, delivery, high, flag 11 (by decide), flag 13 (by decide),
    flag 15 (by decide), flag 16 (by decide)]

/-- A call is found in the table. -/
theorem redirection_run_self {a : Apic} {c : Controllers} (same : a.ioapicBase = c.ioapicBase)
    (call : IrqCall) : (c.behind (IrqCall.run a call)).redirection call.entry =
      ⟨call.vector, 0, false, false, false, false, call.apicId⟩ := by
  have first : redirectionRegister call.irq = BitVec.ofNat 8 (0x10 + 2 * call.entry) :=
    IrqCall.redirectionRegister_eq call.irq
  have second : redirectionRegister call.irq + 1 = BitVec.ofNat 8 (0x10 + 2 * call.entry + 1) := by
    rw [first]
    exact (BitVec.ofNat_add ..).symm
  have other : redirectionRegister call.irq + 1 ≠ redirectionRegister call.irq := by bv_omega
  have written := behind_mapIRQ same call.irq call.vector call.apicId
  rw [← ofWords_entry, redirection, ← second, ← first, IrqCall.run, written]
  dsimp only
  -- the second write is to another register than the first
  have after : ∀ w ∈ [(redirectionRegister call.irq + 1, (call.apicId.zeroExtend 32 <<< 24 :
      BitVec 32))], w.1 ≠ redirectionRegister call.irq := by
    intro w hw
    rw [List.mem_singleton.mp hw]
    exact other
  have low := RegisterFile.regs_last_write [] _ (call.vector.zeroExtend 32) after
    (c.behind a).ioapic
  have none : ∀ w ∈ ([] : List (BitVec 8 × BitVec 32)), w.1 ≠ redirectionRegister call.irq + 1 :=
    fun w hw => nomatch hw
  have high := RegisterFile.regs_last_write
    [(redirectionRegister call.irq, (call.vector.zeroExtend 32 : BitVec 32))] []
    (call.apicId.zeroExtend 32 <<< 24) none (c.behind a).ioapic
  exact congrArg₂ Redirection.ofWords low high

/-- After any calls of `IOAPIC_MapIRQ` the last one for an interrupt is what the I/O APIC has in its
table; entries that no call names are as they were, and no other device has changed. -/
theorem irq_round_trip {a : Apic} {c : Controllers} (same : a.ioapicBase = c.ioapicBase)
    (before after : List IrqCall) (call : IrqCall) (there : call.entry < 120)
    (last : ∀ d ∈ after, d.entry ≠ call.entry) :
    (c.behind ((before ++ call :: after).foldl IrqCall.run a)).redirection call.entry =
      ⟨call.vector, 0, false, false, false, false, call.apicId⟩ ∧
    (∀ n < 120, (∀ d ∈ before ++ call :: after, d.entry ≠ n) →
      (c.behind ((before ++ call :: after).foldl IrqCall.run a)).redirection n =
        (c.behind a).redirection n) ∧
    (c.behind ((before ++ call :: after).foldl IrqCall.run a)).lapic = (c.behind a).lapic ∧
    (c.behind ((before ++ call :: after).foldl IrqCall.run a)).ports = (c.behind a).ports := by
  refine ⟨?_, fun n hn others => ?_, ?_, ?_⟩
  · have base := (IrqCall.run_ioapicBase before a).trans same
    have next : (IrqCall.run (before.foldl IrqCall.run a) call).ioapicBase = c.ioapicBase := base
    have low : call.entry < 128 := by omega
    rw [List.foldl_append, List.foldl_cons, IrqCall.redirection_run next low last]
    exact redirection_run_self base call
  · exact IrqCall.redirection_run same (by omega) others
  · rw [IrqCall.behind_run _ a same]
  · rw [IrqCall.behind_run _ a same]

/-! ## The boot -/

section Boot

variable {image : Image} {args : BootArgs} {env : BootEnv} {cpu : Cpu} {mem : Mem}
  {idt : Word → Word} {b b' : Boot} {madt : Word}

/-- What `KernelMain` stores from `LAPIC_Init` on. -/
theorem interrupts_apic (h : b.interrupts madt env = some b') : ∃ a ticks entry,
    (b.apic.lapicInit (Acpi.localApicAddress b.machine.kernel.mem madt) env.apic).calibrateTimer
      env.apic = some (a, ticks) ∧
    (Acpi.searchIoApic b.machine.kernel.mem madt (2 ^ 64)).2 = some entry ∧
    (entry = none ∧ b'.apic = a.timerInit (ticks / 10) ∨
      ∃ ptr, entry = some ptr ∧ b'.apic = IrqCall.run ((a.timerInit (ticks / 10)).ioapicInit
        (Acpi.ioApicAddress b.machine.kernel.mem madt ptr)) ⟨1, 0x21, 0⟩) := by
  rw [Boot.interrupts, Option.bind_eq_bind, Option.bind_eq_some_iff] at h
  obtain ⟨⟨a, ticks⟩, calibrated, h⟩ := h
  obtain ⟨entry, found, h⟩ := Option.bind_eq_some_iff.mp h
  refine ⟨a, ticks, entry, calibrated, found, ?_⟩
  obtain rfl := Option.some.inj h
  cases entry with
  | none => exact .inl ⟨rfl, rfl⟩
  | some ptr => exact .inr ⟨ptr, rfl, rfl⟩

theorem ring3_of_kernelMain
    (boot : (Boot.loaded cpu mem idt).kernelMain image args env = some (.ring3 b)) :
    ∃ b₁ b₂ : Boot, ((Boot.loaded cpu mem idt).setup image args).memory image args env = some b₁ ∧
      b₁.apic = Apic.statics ∧ b₁.interrupts (b₁.madt image) env = some b₂ ∧
        b.apic = b₂.apic := by
  rw [Boot.kernelMain, Option.bind_eq_bind, Option.bind_eq_some_iff] at boot
  obtain ⟨b₁, memory, boot⟩ := boot
  split at boot
  swap
  · cases boot
  obtain ⟨b₂, interrupts, boot⟩ := Option.bind_eq_some_iff.mp boot
  obtain ⟨m₀, -, -, -, zero, -⟩ := @Boot.setup_machine image args cpu mem idt
  have statics : ((Boot.loaded cpu mem idt).setup image args).apic = Apic.statics := rfl
  generalize (Boot.loaded cpu mem idt).setup image args = b₀ at *
  have sched := Boot.sched_memory zero memory
  obtain ⟨k, pml4, -, left⟩ := Boot.memory_some memory
  refine ⟨b₁, b₂, memory, by rw [left]; exact statics, interrupts, ?_⟩
  obtain ⟨apic, rfl⟩ := Boot.interrupts_some interrupts
  exact Boot.apic_userMode (Boot.schedulerSetup_handlers sched).1 boot rfl

/-- `KernelMain` enters ring 3 with the timer ticking at the vector of `Timer_Handler`, ten times
in what was measured as 10 ms, and, if the MADT has an I/O APIC, with the keyboard's interrupt at
the vector of `Keyboard_Handler`. The other interrupts are as they were, masked in the PICs. -/
theorem kernelMain_routes
    (boot : (Boot.loaded cpu mem idt).kernelMain image args env = some (.ring3 b))
    (c : Controllers) (drives : Drives b.apic c) (ioapic : b.apic.ioapicBase = c.ioapicBase) :
    ((c.behind b.apic).ports 0x21 = 0xFF ∧ (c.behind b.apic).ports 0xA1 = 0xFF) ∧
    ((c.behind b.apic).lapic (lapicRegSIVR.zeroExtend 64)).getLsbD 8 = true ∧
    ((c.behind b.apic).lapic (lapicRegLVTTimer.zeroExtend 64) =
        intTimer.truncate 32 ||| lapicTimerPeriodic ∧
      (c.behind b.apic).lapic (lapicRegTICR.zeroExtend 64) =
        (0xFFFFFFFF - env.apic.current) / 10 ∧
      b.machine.kernel.handlerTable intTimer.toNat = some .timer) ∧
    b.machine.kernel.handlerTable intKeyboard.toNat = some .keyboard ∧
    ∃ b₁ entry, ((Boot.loaded cpu mem idt).setup image args).memory image args env = some b₁ ∧
      (Acpi.searchIoApic b₁.machine.kernel.mem (b₁.madt image) (2 ^ 64)).2 = some entry ∧
      b.apic.lapicBase = Acpi.localApicAddress b₁.machine.kernel.mem (b₁.madt image) ∧
      match entry with
      | none => (c.behind b.apic).ioapic = c.ioapic
      | some ptr =>
          b.apic.ioapicBase = Acpi.ioApicAddress b₁.machine.kernel.mem (b₁.madt image) ptr ∧
          (c.behind b.apic).redirection 1 =
            ⟨intKeyboard.truncate 8, 0, false, false, false, false, 0⟩ ∧
          ∀ n < 120, n ≠ 1 → (c.behind b.apic).redirection n = c.redirection n := by
  obtain ⟨m, start, ready, -, machine⟩ := Boot.kernelMain_ring3 boot
  have timer : b.machine.kernel.handlerTable intTimer.toNat = some .timer := by
    rw [machine]
    exact ready.timer
  have keyboard : b.machine.kernel.handlerTable intKeyboard.toNat = some .keyboard := by
    rw [machine]
    exact ready.keyboard
  obtain ⟨b₁, b₂, memory, statics, interrupts, left⟩ := ring3_of_kernelMain boot
  have base := Boot.lapicBase_interrupts interrupts
  obtain ⟨a, ticks, entry, calibrated, found, apic⟩ := interrupts_apic interrupts
  rw [statics] at calibrated
  rw [← left] at apic base
  have drives₀ : Drives (Apic.statics.lapicInit (Acpi.localApicAddress b₁.machine.kernel.mem
      (b₁.madt image)) env.apic) c := ⟨base.symm.trans drives.lapic, drives.select, drives.window⟩
  obtain ⟨elapsed, -, ticking⟩ := behind_setup rfl drives₀ calibrated (ticks / 10)
  rw [elapsed] at apic ticking
  generalize (0xFFFFFFFF - env.apic.current) / 10 = count at apic ticking ⊢
  generalize a.timerInit count = a' at apic ticking
  have spurious : (env.apic.sivr ||| 0x1FF).getLsbD 8 = true := by
    rw [BitVec.getLsbD_or]
    exact Bool.or_true _
  rcases apic with ⟨rfl, apic⟩ | ⟨ptr, rfl, apic⟩
  · rw [apic, ticking.master, ticking.slave, ticking.spurious, ticking.vector, ticking.count]
    refine ⟨⟨rfl, rfl⟩, spurious, ⟨rfl, rfl, timer⟩, keyboard, b₁, none, memory, found, ?_,
      ticking.ioapic⟩
    rw [← apic]
    exact base
  · obtain ⟨given, hg⟩ : ∃ x, x = a'.ioapicInit
        (Acpi.ioApicAddress b₁.machine.kernel.mem (b₁.madt image) ptr) := ⟨_, rfl⟩
    have address : given.ioapicBase =
        Acpi.ioApicAddress b₁.machine.kernel.mem (b₁.madt image) ptr := by rw [hg, Apic.ioapicInit]
    have before : c.behind given = c.behind a' := by rw [hg, behind_ioapicInit]
    rw [← hg] at apic
    have kept : b.apic.ioapicBase = given.ioapicBase := by
      rw [apic]
      exact IrqCall.run_ioapicBase [⟨1, 0x21, 0⟩] given
    have same := kept.symm.trans ioapic
    have written := IrqCall.behind_run [⟨1, 0x21, 0⟩] given same
    rw [before] at written
    have ports : (c.behind b.apic).ports = (c.behind a').ports := by
      rw [apic]
      exact (congrArg Controllers.ports written :)
    have lapic : (c.behind b.apic).lapic = (c.behind a').lapic := by
      rw [apic]
      exact (congrArg Controllers.lapic written :)
    rw [ports, lapic, ticking.master, ticking.slave, ticking.spurious, ticking.vector,
      ticking.count]
    refine ⟨⟨rfl, rfl⟩, spurious, ⟨rfl, rfl, timer⟩, keyboard, b₁, some ptr, memory, found,
      base, kept.trans address, ?_, fun n hn other => ?_⟩
    · rw [apic]
      exact redirection_run_self same ⟨1, 0x21, 0⟩
    · have others : ∀ call ∈ [(⟨1, 0x21, 0⟩ : IrqCall)], call.entry ≠ n := by
        intro call hc
        rw [List.mem_singleton.mp hc]
        exact other.symm
      have left := IrqCall.redirection_run same (show n < 128 by omega) others
      rw [before] at left
      rw [apic]
      refine left.trans ?_
      rw [redirection, redirection, ticking.ioapic]

end Boot

/-! ## On a machine -/

/-- The two APICs where they mostly are, and nothing written to any device yet. -/
def usualControllers : Controllers where
  lapicBase := 0xFEE00000
  ioapicBase := 0xFEC00000
  ports := fun _ => 0
  lapic := fun _ => 0
  ioapic := ⟨0, fun _ => 0⟩

/-- The keyboard's interrupt is moved to another vector and another processor. -/
theorem irq_round_trip_moved :
    (usualControllers.behind (([IrqCall.mk 1 0x21 0] ++ IrqCall.mk 1 0x31 2 ::
      [IrqCall.mk 4 0x24 0]).foldl IrqCall.run
        (Apic.statics.ioapicInit 0xFEC00000))).redirection 1 =
      ⟨0x31, 0, false, false, false, false, 2⟩ := by
  have other : ∀ d ∈ [(⟨4, 0x24, 0⟩ : IrqCall)], d.entry ≠ 1 := by
    intro d hd
    rw [List.mem_singleton.mp hd]
    decide
  exact (irq_round_trip (c := usualControllers) rfl [⟨1, 0x21, 0⟩] [⟨4, 0x24, 0⟩]
    ⟨1, 0x31, 2⟩ (by decide) other).1

/-- The boot of the small machine finds both APICs. -/
theorem booted_apics {b : Boot}
    (boot : booted.kernelMain bootImage bootArgs bootEnv = some (.ring3 b)) :
    Drives b.apic usualControllers ∧ b.apic.ioapicBase = 0xFEC00000 := by
  obtain ⟨b₁, b₂, memory, -, interrupts, left⟩ := ring3_of_kernelMain boot
  obtain ⟨-, madt⟩ := bootMemory_low memory
  obtain ⟨search, lapic, ioapic⟩ := bootMemory_madt memory
  rw [madt] at interrupts
  have base := Boot.lapicBase_interrupts interrupts
  obtain ⟨a, ticks, entry, -, found, apic⟩ := interrupts_apic interrupts
  obtain rfl := Option.some.inj (search.symm.trans found)
  rw [← left, lapic] at base
  refine ⟨⟨base, by decide, by decide⟩, ?_⟩
  rcases apic with ⟨none, -⟩ | ⟨ptr, same, apic⟩
  · cases none
  · obtain rfl := Option.some.inj same
    rw [left, apic, ← ioapic]
    exact IrqCall.run_ioapicBase [⟨1, 0x21, 0⟩] _

/-- Its keyboard interrupts arrive. -/
theorem kernelMain_routes_boot : ∃ b, booted.kernelMain bootImage bootArgs bootEnv =
    some (.ring3 b) ∧ (usualControllers.behind b.apic).redirection 1 =
      ⟨0x21, 0, false, false, false, false, 0⟩ := by
  obtain ⟨b, boot⟩ := booted_ring3
  obtain ⟨drives, ioapic⟩ := booted_apics boot
  obtain ⟨-, -, -, -, b₁, entry, memory, search, -, routes⟩ :=
    kernelMain_routes boot usualControllers drives ioapic
  obtain ⟨-, madt⟩ := bootMemory_low memory
  obtain ⟨found, -⟩ := bootMemory_madt memory
  rw [madt] at search
  obtain rfl := Option.some.inj (found.symm.trans search)
  exact ⟨b, boot, routes.2.1⟩

end Coolos.Theorems
