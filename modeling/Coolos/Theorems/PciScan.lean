import Coolos.Logic.Pci

/-!
# The controller the scan finds

The scan decides by what configuration space held before it: one controller is recorded when
there is one, and memory space and bus master are set in the command of each. The status
shares its register with the command and is cleared by writing ones, so zeros leave it.
-/

namespace Coolos.Theorems

open Lib FunctionSpace Pci

/-- Bits 1 and 2 come to the command, and the status is given zeros. -/
def Enabled (before after : FunctionSpace) : Prop :=
  (∀ i, after.command.getLsbD i = (decide (i = 1 ∨ i = 2) || before.command.getLsbD i)) ∧
    after.status = 0

theorem getLsbD_enable (i : Nat) : (0x0006 : BitVec 16).getLsbD i = decide (i = 1 ∨ i = 2) := by
  by_cases inside : i < 16
  · revert i
    decide
  · have apart : ¬ (i = 1 ∨ i = 2) := by omega
    rw [BitVec.getLsbD_of_ge _ _ (Nat.not_lt.mp inside), decide_eq_false apart]

/-- The two halves of what is written. -/
theorem enabled_of_register {p : Pci} {f : PciFunction} {before : FunctionSpace}
    (written : p.config (f.address commandRegister) = enabledCommand before) :
    Enabled before (p.space f) := by
  have command : (p.space f).command = before.command ||| 0x0006 := by
    rw [FunctionSpace.command, Pci.space, ConfigSpace.ofRegisters, word_ofRegisters (by decide)]
    exact (congrArg _ written).trans BitVec.extractLsb'_append_eq_right
  have status : (p.space f).status = 0 := by
    rw [FunctionSpace.status, Pci.space, ConfigSpace.ofRegisters, word_ofRegisters (by decide)]
    exact (congrArg _ written).trans BitVec.extractLsb'_append_eq_left
  refine ⟨?_, status⟩
  intro i
  rw [command, BitVec.getLsbD_or, getLsbD_enable, Bool.or_comm]

/-- Every function is before the end of the scan. -/
theorem nvmeBefore_all {s : ConfigSpace} {f : PciFunction} :
    NvmeBefore s 65536 f ↔ IsNvme s f :=
  and_iff_left f.position_lt

variable {config : BitVec 32 → BitVec 32}

theorem controller_ne_none_iff : (Pci.statics config).scanBus.getNVMeController ≠ none ↔
    ∃ f, IsNvme (ConfigSpace.ofRegisters config) f := by
  have h := Scanned.scanBus config
  constructor
  · intro something
    obtain ⟨d, some⟩ := Option.ne_none_iff_exists'.mp something
    obtain ⟨f, last, -⟩ := h.found d some
    exact ⟨f, last.1.1⟩
  · intro any nothing
    obtain ⟨f, nvme⟩ := any
    exact h.absent nothing f (nvmeBefore_all.mpr nvme)

/-- Of several controllers the last is recorded. -/
theorem controller_eq_last {d : PciDevice}
    (some : (Pci.statics config).scanBus.getNVMeController = some d) :
    ∃ f, IsNvme (ConfigSpace.ofRegisters config) f ∧
      (∀ g, IsNvme (ConfigSpace.ofRegisters config) g → g.position ≤ f.position) ∧
      d = PciDevice.ofFunction f (ConfigSpace.ofRegisters config f) := by
  obtain ⟨f, last, record⟩ := (Scanned.scanBus config).found d some
  refine ⟨f, last.1.1, ?_, record⟩
  intro g nvme
  exact last.2 g (nvmeBefore_all.mpr nvme)

/-- The scan finds a controller when there is one, records one, and enables all of them. -/
theorem scanBus_controller (config : BitVec 32 → BitVec 32) :
    let space := ConfigSpace.ofRegisters config
    let after := (Pci.statics config).scanBus
    (after.getNVMeController ≠ none ↔ ∃ f, IsNvme space f) ∧
    (∀ d, after.getNVMeController = some d →
      ∃ f, IsNvme space f ∧ d = PciDevice.ofFunction f (space f)) ∧
    (∀ f, IsNvme space f → Enabled (space f) (after.space f)) ∧
    (∀ a, (∀ f, IsNvme space f → a ≠ f.address commandRegister) → after.config a = config a) := by
  intro space after
  have h : Scanned config 65536 after := Scanned.scanBus config
  refine ⟨controller_ne_none_iff, ?_, ?_, ?_⟩
  · intro d some
    obtain ⟨f, nvme, -, record⟩ := controller_eq_last some
    exact ⟨f, nvme, record⟩
  · intro f nvme
    exact enabled_of_register (h.enabled f (nvmeBefore_all.mpr nvme))
  · intro a untouched
    apply h.rest
    intro f before
    exact untouched f before.1

end Coolos.Theorems
