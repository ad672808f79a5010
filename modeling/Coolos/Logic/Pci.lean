import Coolos.Kernel.Pci
import Coolos.Lib.Loop
import Coolos.Lib.PciConfig

/-!
# The scan, function by function

The scan passes over the functions by bus, device and number. `Scanned config n` is what it
has done with the functions before place `n`: of the controllers among them the last is
recorded, and each has its command register written. Nothing the scan reads later is in a
register it has written, so it decides by the configuration space it began with.
-/

namespace Coolos

open Lib FunctionSpace

/-- The class of an NVMe controller. -/
def NvmeClass (h : FunctionSpace) : Prop :=
  h.classCode = 0x01 ∧ h.subclass = 0x08 ∧ h.progIF = 0x02

instance (h : FunctionSpace) : Decidable (NvmeClass h) :=
  inferInstanceAs (Decidable (_ ∧ _ ∧ _))

/-- A controller that is there. -/
def IsNvme (s : ConfigSpace) (f : PciFunction) : Prop := s.Present f ∧ NvmeClass (s f)

instance (s : ConfigSpace) (f : PciFunction) : Decidable (IsNvme s f) :=
  inferInstanceAs (Decidable (_ ∧ _))

example : IsNvme (.ofRegisters fun a => if a = 0x80000800 then 0x00101B36
    else if a = 0x80000808 then 0x01080202 else 0xFFFFFFFF) ⟨0, 1, 0⟩ := by decide

/-- The record of one function. -/
def PciDevice.ofFunction (f : PciFunction) (h : FunctionSpace) : PciDevice where
  bus := f.bus
  device := f.device.zeroExtend 8
  function := f.function.zeroExtend 8
  vendorID := h.vendorID
  deviceID := h.deviceID
  baseAddress0 := h.bar0
  baseAddress1 := h.bar1

/-- Memory space and bus master set in the command, zeros for the status. -/
def enabledCommand (h : FunctionSpace) : BitVec 32 := 0#16 ++ (h.command ||| 0x0006)

namespace Pci

/-- Configuration space as it reads now. -/
def space (p : Pci) : ConfigSpace := .ofRegisters p.config

variable {config : BitVec 32 → BitVec 32} {s : ConfigSpace} {p : Pci}
  {f g : PciFunction} {n m : Nat}

/-! ## Reads -/

/-- The mask drops the position in the register. -/
theorem offset_register (offset : BitVec 8) :
    (offset &&& 0xFC).zeroExtend 32 = (registerOf offset).setWidth 32 <<< 2 := by
  revert offset
  decide

theorem configAddress_eq (f : PciFunction) (offset : BitVec 8) :
    configAddress f.bus (f.device.zeroExtend 8) (f.function.zeroExtend 8) offset =
      f.address (registerOf offset) := by
  rw [configAddress, offset_register, f.address_eq_or]
  simp

theorem read32_eq (p : Pci) (f : PciFunction) {offset : BitVec 8}
    (aligned : offset.toNat % 4 = 0) :
    p.read32 f.bus (f.device.zeroExtend 8) (f.function.zeroExtend 8) offset =
      (p.space f).dword offset := by
  rw [read32, configAddress_eq, space, ConfigSpace.ofRegisters, dword_ofRegisters aligned]

theorem read16_eq (p : Pci) (f : PciFunction) {offset : BitVec 8} (even : offset.toNat % 2 = 0) :
    p.read16 f.bus (f.device.zeroExtend 8) (f.function.zeroExtend 8) offset =
      (p.space f).word offset := by
  have shift : (offset &&& 2).toNat * 8 = 8 * (offset.toNat % 4) := by
    revert offset
    decide
  rw [read16, read32, configAddress_eq, space, ConfigSpace.ofRegisters, word_ofRegisters even,
    shift]
  exact BitVec.setWidth_ushiftRight_eq_extractLsb

theorem read8_eq (p : Pci) (f : PciFunction) (offset : BitVec 8) :
    p.read8 f.bus (f.device.zeroExtend 8) (f.function.zeroExtend 8) offset =
      p.space f offset := by
  have shift : (offset &&& 3).toNat * 8 = 8 * (offset.toNat % 4) := by
    revert offset
    decide
  rw [read8, read32, configAddress_eq, shift]
  exact BitVec.setWidth_ushiftRight_eq_extractLsb

theorem zeroExtend_eq_append (cmd : BitVec 16) : cmd.zeroExtend 32 = 0#16 ++ cmd := by
  rw [BitVec.zeroExtend, BitVec.setWidth_eq_append (by decide)]
  rfl

/-- `PCI_CheckFunction` in terms of the function's bytes. -/
theorem checkFunction_eq (p : Pci) (f : PciFunction) :
    p.checkFunction f.bus (f.device.zeroExtend 8) (f.function.zeroExtend 8) =
      if NvmeClass (p.space f) then
        { config := Function.update p.config (f.address commandRegister)
            (enabledCommand (p.space f))
          nvmeDevice := .ofFunction f (p.space f)
          nvmeFound := true }
      else p := by
  have classRead : (p.read8 f.bus (f.device.zeroExtend 8) (f.function.zeroExtend 8) 0x0B =
        pciClassStorage ∧
      p.read8 f.bus (f.device.zeroExtend 8) (f.function.zeroExtend 8) 0x0A = pciSubclassNvme ∧
      p.read8 f.bus (f.device.zeroExtend 8) (f.function.zeroExtend 8) 0x09 = pciProgIfNvme) ↔
      NvmeClass (p.space f) := by
    rw [read8_eq, read8_eq, read8_eq]
    rfl
  rw [checkFunction]
  by_cases nvme : NvmeClass (p.space f)
  · simp only [if_pos nvme, if_pos (classRead.mpr nvme), write32, configAddress_eq]
    rw [read16_eq p f (by decide), read16_eq p f (by decide), read16_eq _ f (by decide),
      read32_eq p f (by decide), read32_eq p f (by decide), zeroExtend_eq_append]
    rfl
  · simp only [if_neg nvme, if_neg fun h => nvme (classRead.mp h)]

/-! ## What the scan has done -/

/-- A controller among the functions before place `n`. -/
def NvmeBefore (s : ConfigSpace) (n : Nat) (f : PciFunction) : Prop := IsNvme s f ∧ f.position < n

/-- The last controller before place `n`. -/
def LastBefore (s : ConfigSpace) (n : Nat) (f : PciFunction) : Prop :=
  NvmeBefore s n f ∧ ∀ g, NvmeBefore s n g → g.position ≤ f.position

/-- The scan is done with the functions before place `n`. -/
structure Scanned (config : BitVec 32 → BitVec 32) (n : Nat) (p : Pci) : Prop where
  enabled : ∀ f, NvmeBefore (.ofRegisters config) n f →
    p.config (f.address commandRegister) = enabledCommand (ConfigSpace.ofRegisters config f)
  rest : ∀ a, (∀ f, NvmeBefore (.ofRegisters config) n f → a ≠ f.address commandRegister) →
    p.config a = config a
  found : ∀ d, p.getNVMeController = some d → ∃ f, LastBefore (.ofRegisters config) n f ∧
    d = .ofFunction f (ConfigSpace.ofRegisters config f)
  absent : p.getNVMeController = none → ∀ f, ¬ NvmeBefore (.ofRegisters config) n f

namespace Scanned

theorem start (config : BitVec 32 → BitVec 32) : Scanned config 0 (statics config) where
  enabled f before := absurd before.2 (Nat.not_lt_zero _)
  rest _ _ := rfl
  found d some := by
    have nothing : (statics config).getNVMeController = none := rfl
    rw [nothing] at some
    cases some
  absent _ f before := absurd before.2 (Nat.not_lt_zero _)

/-- All but the command registers of functions behind reads as it did. -/
theorem byte (h : Scanned config n p) {offset : BitVec 8}
    (other : registerOf offset ≠ commandRegister ∨ n ≤ f.position) :
    p.space f offset = ConfigSpace.ofRegisters config f offset := by
  have register : p.config (f.address (registerOf offset)) =
      config (f.address (registerOf offset)) := by
    apply h.rest
    intro g before same
    obtain ⟨rfl, command⟩ := PciFunction.address_inj.mp same
    cases other with
    | inl other => exact other command
    | inr ahead => exact absurd before.2 (Nat.not_lt.mpr ahead)
  rw [space, ConfigSpace.ofRegisters, ConfigSpace.ofRegisters, FunctionSpace.ofRegisters,
    FunctionSpace.ofRegisters, register]

theorem ahead (h : Scanned config n p) (ahead : n ≤ f.position) :
    p.space f = ConfigSpace.ofRegisters config f := by
  funext offset
  exact h.byte (.inr ahead)

/-- The vendor and the header type are no part of what the scan writes. -/
theorem vendor (h : Scanned config n p) (f : PciFunction) :
    p.read16 f.bus (f.device.zeroExtend 8) (f.function.zeroExtend 8) 0x00 =
      (ConfigSpace.ofRegisters config f).vendorID := by
  rw [read16_eq p f (by decide), FunctionSpace.vendorID, word, word, h.byte (.inl (by decide)),
    h.byte (.inl (by decide))]

theorem header (h : Scanned config n p) (f : PciFunction) :
    p.read8 f.bus (f.device.zeroExtend 8) (f.function.zeroExtend 8) 0x0E =
      (ConfigSpace.ofRegisters config f).headerType := by
  rw [read8_eq, FunctionSpace.headerType, h.byte (.inl (by decide))]

/-- Functions that are no controllers need nothing done. -/
theorem skip (h : Scanned config n p) (le : n ≤ m)
    (others : ∀ f, n ≤ f.position → f.position < m → ¬ IsNvme (.ofRegisters config) f) :
    Scanned config m p := by
  have same (f : PciFunction) :
      NvmeBefore (.ofRegisters config) m f ↔ NvmeBefore (.ofRegisters config) n f := by
    constructor
    · intro before
      by_cases behind : f.position < n
      · exact ⟨before.1, behind⟩
      · exact absurd before.1 (others f (Nat.not_lt.mp behind) before.2)
    · intro before
      exact ⟨before.1, Nat.lt_of_lt_of_le before.2 le⟩
  constructor
  · intro f before
    exact h.enabled f ((same f).mp before)
  · intro a untouched
    exact h.rest a fun f before => untouched f ((same f).mpr before)
  · intro d some
    obtain ⟨f, last, rfl⟩ := h.found d some
    refine ⟨f, ⟨(same f).mpr last.1, ?_⟩, rfl⟩
    intro g before
    exact last.2 g ((same g).mp before)
  · intro nothing f before
    exact h.absent nothing f ((same f).mp before)

theorem before_succ : NvmeBefore s (f.position + 1) g ↔
    g = f ∧ IsNvme s f ∨ NvmeBefore s f.position g := by
  constructor
  · intro before
    by_cases same : g = f
    · subst same
      exact .inl ⟨rfl, before.1⟩
    · have apart : g.position ≠ f.position := fun h => same (PciFunction.position_inj.mp h)
      have bound := before.2
      exact .inr ⟨before.1, by omega⟩
  · intro h
    rcases h with new | before
    · obtain ⟨rfl, nvme⟩ := new
      exact ⟨nvme, Nat.lt_succ_self _⟩
    · exact ⟨before.1, Nat.lt_succ_of_lt before.2⟩

/-- A function that is no controller needs nothing done. -/
theorem next (h : Scanned config f.position p) (other : ¬ IsNvme (.ofRegisters config) f) :
    Scanned config (f.position + 1) p := by
  apply h.skip (Nat.le_succ _)
  intro g lower upper nvme
  have same : g = f := PciFunction.position_inj.mp (by omega)
  rw [same] at nvme
  exact other nvme

/-- A function that is there is checked. -/
theorem check (h : Scanned config f.position p)
    (present : (ConfigSpace.ofRegisters config).Present f) :
    Scanned config (f.position + 1)
      (p.checkFunction f.bus (f.device.zeroExtend 8) (f.function.zeroExtend 8)) := by
  rw [checkFunction_eq, h.ahead (Nat.le_refl _)]
  by_cases nvme : NvmeClass (ConfigSpace.ofRegisters config f)
  · rw [if_pos nvme]
    constructor
    · intro g before
      rcases before_succ.mp before with new | before
      · rw [new.1]
        exact Function.update_self ..
      · have apart : g.address commandRegister ≠ f.address commandRegister := by
          intro same
          obtain ⟨rfl, -⟩ := PciFunction.address_inj.mp same
          exact Nat.lt_irrefl _ before.2
        exact (Function.update_of_ne apart ..).trans (h.enabled g before)
    · intro a untouched
      have apart := untouched f (before_succ.mpr (.inl ⟨rfl, present, nvme⟩))
      refine (Function.update_of_ne apart ..).trans (h.rest a ?_)
      intro g before
      exact untouched g (before_succ.mpr (.inr before))
    · intro d some
      refine ⟨f, ⟨before_succ.mpr (.inl ⟨rfl, present, nvme⟩), ?_⟩, ?_⟩
      · intro g before
        exact Nat.le_of_lt_succ before.2
      · exact (Option.some.inj some).symm
    · intro nothing
      cases nothing
  · rw [if_neg nvme]
    apply h.next
    intro hit
    exact nvme hit.2

/-! ## Devices, buses, the whole -/

/-- A counter below its bound as a field of the address. -/
theorem exists_toNat_eq {w n : Nat} (h : n < 2 ^ w) : ∃ x : BitVec w, x.toNat = n :=
  ⟨.ofNat w n, Nat.mod_eq_of_lt h⟩

/-- A turn of the loop over functions 1 to 7. -/
theorem function_turn {bus : BitVec 8} {device : BitVec 5} {i : Nat} (lower : 1 ≤ i)
    (upper : i < 8) (there : (ConfigSpace.ofRegisters config ⟨bus, device, 0⟩).vendorID ≠ 0xFFFF)
    (multi : (ConfigSpace.ofRegisters config ⟨bus, device, 0⟩).headerType.getLsbD 7 = true)
    (h : Scanned config (256 * bus.toNat + 8 * device.toNat + i) p) :
    Scanned config (256 * bus.toNat + 8 * device.toNat + (i + 1))
      (if p.read16 bus (device.zeroExtend 8) (.ofNat 8 i) 0x00 ≠ 0xFFFF then
        p.checkFunction bus (device.zeroExtend 8) (.ofNat 8 i)
      else p) := by
  obtain ⟨function, rfl⟩ := exists_toNat_eq (w := 3) upper
  have place : (⟨bus, device, function⟩ : PciFunction).position =
      256 * bus.toNat + 8 * device.toNat + function.toNat := rfl
  rw [← place] at h
  rw [BitVec.ofNat_toNat, ← Nat.add_assoc, ← place]
  have read := h.vendor ⟨bus, device, function⟩
  by_cases vendor : (ConfigSpace.ofRegisters config ⟨bus, device, function⟩).vendorID = 0xFFFF
  · rw [if_neg (not_not_intro (read.trans vendor))]
    apply h.next
    intro nvme
    rcases nvme.1.2 with zero | answers
    · have positive : function.toNat ≠ 0 := by omega
      exact positive (congrArg BitVec.toNat zero)
    · exact answers.2 vendor
  · rw [if_pos (ne_of_eq_of_ne read vendor)]
    exact h.check ⟨there, .inr ⟨multi, vendor⟩⟩

/-- Bit 7 of the header type. -/
theorem header_multi (header : BitVec 8) : header &&& 0x80 ≠ 0 ↔ header.getLsbD 7 = true := by
  revert header
  decide

/-- A turn of the loop over devices. -/
theorem device_turn {bus : BitVec 8} {device : BitVec 5}
    (h : Scanned config (256 * bus.toNat + 8 * device.toNat) p) :
    Scanned config (256 * bus.toNat + 8 * (device.toNat + 1))
      (p.checkDevice bus (device.zeroExtend 8)) := by
  have place : (⟨bus, device, 0⟩ : PciFunction).position =
      256 * bus.toNat + 8 * device.toNat := rfl
  have vendor : p.read16 bus (device.zeroExtend 8) 0 0x00 =
      (ConfigSpace.ofRegisters config ⟨bus, device, 0⟩).vendorID := h.vendor ⟨bus, device, 0⟩
  rw [checkDevice, vendor]
  by_cases there : (ConfigSpace.ofRegisters config ⟨bus, device, 0⟩).vendorID = 0xFFFF
  · rw [if_pos there]
    apply h.skip (by omega)
    intro f lower upper nvme
    have vendor := nvme.1.1
    rw [PciFunction.first_eq lower upper] at vendor
    exact vendor there
  · rw [if_neg there]
    rw [← place] at h
    have first : Scanned config (256 * bus.toNat + 8 * device.toNat + 1)
        (p.checkFunction bus (device.zeroExtend 8) 0) := h.check ⟨there, .inl rfl⟩
    have header : (p.checkFunction bus (device.zeroExtend 8) 0).read8 bus (device.zeroExtend 8) 0
        0x0E = (ConfigSpace.ofRegisters config ⟨bus, device, 0⟩).headerType :=
      first.header ⟨bus, device, 0⟩
    simp only [header, header_multi]
    by_cases multi :
        (ConfigSpace.ofRegisters config ⟨bus, device, 0⟩).headerType.getLsbD 7 = true
    · rw [if_pos multi]
      apply foldl_range'_inv (n := 7)
        (P := fun i p => Scanned config (256 * bus.toNat + 8 * device.toNat + i) p) first
      intro i p lower upper h
      exact function_turn lower upper there multi h
    · rw [if_neg multi]
      apply first.skip (by omega)
      intro f lower upper nvme
      have same := PciFunction.first_eq (by omega) upper
      rcases nvme.1.2 with zero | answers
      · have itself : f.first = f := by rw [PciFunction.first, ← zero]
        rw [← itself, same, place] at lower
        omega
      · rw [same] at answers
        exact multi answers.1

/-- A turn of the loop over buses. -/
theorem bus_turn {bus : Nat} (upper : bus < 256) (h : Scanned config (256 * bus) p) :
    Scanned config (256 * (bus + 1)) ((List.range 32).foldl (fun p dev =>
      p.checkDevice (BitVec.ofNat 8 bus) (BitVec.ofNat 8 dev)) p) := by
  apply foldl_range_inv (n := 32) (P := fun dev p => Scanned config (256 * bus + 8 * dev) p) h
  intro dev p inside h
  obtain ⟨bus, rfl⟩ := exists_toNat_eq (w := 8) upper
  obtain ⟨dev, rfl⟩ := exists_toNat_eq (w := 5) inside
  rw [BitVec.ofNat_toNat, BitVec.ofNat_toNat, BitVec.setWidth_eq]
  exact device_turn h

/-- `PCI_ScanBus` is done with every function. -/
theorem scanBus (config : BitVec 32 → BitVec 32) :
    Scanned config 65536 (statics config).scanBus := by
  apply foldl_range_inv (n := 256) (P := fun bus p => Scanned config (256 * bus) p) (start config)
  intro bus p upper h
  exact bus_turn upper h

end Scanned

end Pci
end Coolos
