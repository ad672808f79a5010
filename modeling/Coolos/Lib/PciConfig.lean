import Mathlib.Data.Nat.Bitwise
import Mathlib.Logic.Function.Basic

/-!
# PCI configuration space

Functions are numbered by bus, device and function, and each has 256 bytes of configuration
space with a header of fixed layout. The bytes are reached in registers of 32 bits, a
register by the address that goes to the configuration port. `ConfigSpace.ofRegisters` is
the bytes behind the registers.
-/

namespace Lib

/-- Concatenation as arithmetic. -/
theorem toNat_append_eq {n m : Nat} (x : BitVec n) (y : BitVec m) :
    (x ++ y).toNat = 2 ^ m * x.toNat + y.toNat := by
  rw [BitVec.toNat_append, ← Nat.shiftLeft_add_eq_or_of_lt y.isLt, Nat.shiftLeft_eq, Nat.mul_comm]

/-- A function of a device on a bus. -/
structure PciFunction where
  bus : BitVec 8
  device : BitVec 5
  function : BitVec 3
  deriving DecidableEq

namespace PciFunction

/-- Function 0 of the same device. -/
def first (f : PciFunction) : PciFunction := { f with function := 0 }

/-- The place in the order by bus, device and function. -/
def position (f : PciFunction) : Nat :=
  256 * f.bus.toNat + 8 * f.device.toNat + f.function.toNat

/-- The address of a register: the enable bit, seven reserved bits, the function, the register
and two zeros. -/
def address (f : PciFunction) (register : BitVec 6) : BitVec 32 :=
  1#1 ++ 0#7 ++ f.bus ++ f.device ++ f.function ++ register ++ 0#2

variable {f g : PciFunction}

theorem position_lt (f : PciFunction) : f.position < 65536 := by
  have := f.bus.isLt
  have := f.device.isLt
  have := f.function.isLt
  rw [position]
  omega

/-- A function is known from its place. -/
theorem position_inj : f.position = g.position ↔ f = g := by
  constructor
  · intro same
    rw [position, position] at same
    obtain ⟨fb, fd, ff⟩ := f
    obtain ⟨gb, gd, gf⟩ := g
    simp only at same
    simp only [mk.injEq, BitVec.toNat_eq]
    omega
  · rintro rfl
    rfl

/-- The eight places of a device. -/
theorem first_eq {bus : BitVec 8} {device : BitVec 5}
    (lower : 256 * bus.toNat + 8 * device.toNat ≤ f.position)
    (upper : f.position < 256 * bus.toNat + 8 * (device.toNat + 1)) :
    f.first = ⟨bus, device, 0⟩ := by
  have := device.isLt
  have := f.device.isLt
  have := f.function.isLt
  rw [position] at lower upper
  simp only [first, mk.injEq, BitVec.toNat_eq, and_true]
  omega

theorem toNat_address (f : PciFunction) (register : BitVec 6) :
    (f.address register).toNat = 2 ^ 31 + 256 * f.position + 4 * register.toNat := by
  simp only [address, toNat_append_eq, BitVec.toNat_ofNat, position]
  omega

/-- No two registers have one address. -/
theorem address_inj {r r' : BitVec 6} : f.address r = g.address r' ↔ f = g ∧ r = r' := by
  constructor
  · intro same
    have value := congrArg BitVec.toNat same
    rw [toNat_address, toNat_address] at value
    have place : f.position = g.position := by omega
    have register : r.toNat = r'.toNat := by omega
    exact ⟨position_inj.mp place, BitVec.eq_of_toNat_eq register⟩
  · intro h
    rw [h.1, h.2]

/-- The address put together by shifts. -/
theorem address_eq_or (f : PciFunction) (register : BitVec 6) :
    f.address register = f.bus.setWidth 32 <<< 16 ||| f.device.setWidth 32 <<< 11 |||
      f.function.setWidth 32 <<< 8 ||| register.setWidth 32 <<< 2 ||| 0x80000000 := by
  have fields := BitVec.setWidth_eq (f.address register)
  simp only [address, BitVec.setWidth_append_eq_shiftLeft_setWidth_or,
    BitVec.shiftLeft_or_distrib, ← BitVec.shiftLeft_add] at fields
  rw [address, ← fields, BitVec.or_comm _ 0x80000000]
  simp [BitVec.or_assoc]

end PciFunction

/-- The configuration space of one function, by offset. -/
abbrev FunctionSpace := BitVec 8 → BitVec 8

namespace FunctionSpace

def word (h : FunctionSpace) (offset : BitVec 8) : BitVec 16 := h (offset + 1) ++ h offset

def dword (h : FunctionSpace) (offset : BitVec 8) : BitVec 32 :=
  h.word (offset + 2) ++ h.word offset

def vendorID (h : FunctionSpace) : BitVec 16 := h.word 0x00
def deviceID (h : FunctionSpace) : BitVec 16 := h.word 0x02
def command (h : FunctionSpace) : BitVec 16 := h.word 0x04
def status (h : FunctionSpace) : BitVec 16 := h.word 0x06
def progIF (h : FunctionSpace) : BitVec 8 := h 0x09
def subclass (h : FunctionSpace) : BitVec 8 := h 0x0A
def classCode (h : FunctionSpace) : BitVec 8 := h 0x0B
def headerType (h : FunctionSpace) : BitVec 8 := h 0x0E
def bar0 (h : FunctionSpace) : BitVec 32 := h.dword 0x10
def bar1 (h : FunctionSpace) : BitVec 32 := h.dword 0x14

/-- The register that holds the command and, in its upper half, the status. -/
def commandRegister : BitVec 6 := 1

/-- The register an offset lies in. -/
def registerOf (offset : BitVec 8) : BitVec 6 := offset.extractLsb' 2 6

/-- The bytes of 64 little-endian registers. -/
def ofRegisters (registers : BitVec 6 → BitVec 32) : FunctionSpace := fun offset =>
  (registers (registerOf offset)).extractLsb' (8 * (offset.toNat % 4)) 8

variable {registers : BitVec 6 → BitVec 32}

theorem word_ofRegisters {offset : BitVec 8} (even : offset.toNat % 2 = 0) :
    (ofRegisters registers).word offset =
      (registers (registerOf offset)).extractLsb' (8 * (offset.toNat % 4)) 16 := by
  have same : registerOf (offset + 1) = registerOf offset := by
    revert offset
    decide
  have next : (offset + 1).toNat % 4 = offset.toNat % 4 + 1 := by
    revert offset
    decide
  rw [word, ofRegisters, ofRegisters, same, next]
  exact BitVec.extractLsb'_append_extractLsb'_eq_extractLsb' (by omega)

theorem dword_ofRegisters {offset : BitVec 8} (aligned : offset.toNat % 4 = 0) :
    (ofRegisters registers).dword offset = registers (registerOf offset) := by
  have same : registerOf (offset + 2) = registerOf offset := by
    revert offset
    decide
  have next : (offset + 2).toNat % 4 = 2 := by
    revert offset
    decide
  rw [dword, word_ofRegisters (by omega), word_ofRegisters (by omega), same, next, aligned,
    BitVec.extractLsb'_append_extractLsb'_eq_extractLsb' (by omega)]
  exact BitVec.extractLsb'_eq_self

end FunctionSpace

/-- The configuration spaces of all functions. -/
abbrev ConfigSpace := PciFunction → FunctionSpace

namespace ConfigSpace

/-- The bytes behind the registers. -/
def ofRegisters (config : BitVec 32 → BitVec 32) : ConfigSpace := fun f =>
  FunctionSpace.ofRegisters fun r => config (f.address r)

/-- A function that is there: of a device that is there the first function, and of one with
many functions those that answer. No vendor is `0xFFFF`. -/
def Present (s : ConfigSpace) (f : PciFunction) : Prop :=
  (s f.first).vendorID ≠ 0xFFFF ∧
    (f.function = 0 ∨ (s f.first).headerType.getLsbD 7 = true ∧ (s f).vendorID ≠ 0xFFFF)

instance (s : ConfigSpace) (f : PciFunction) : Decidable (s.Present f) :=
  inferInstanceAs (Decidable (_ ∧ (_ ∨ _ ∧ _)))

end ConfigSpace
end Lib
