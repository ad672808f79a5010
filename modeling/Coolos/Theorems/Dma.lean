import Coolos.Lib.Prp
import Coolos.Logic.NvmeRing

/-!
# What the controller reads and writes

`NVMe_Read` and `NVMe_Write` put the buffer into PRP1 and leave PRP2 zero. The
command they submit (`NvmeCall.run_stores`) describes the buffer exactly when that
lies in one page.
-/

namespace Coolos.Theorems

open Lib Prp

/-- The bytes a command moves: the blocks of CDW12, a zero-based value, of `blockSize`
bytes each. -/
def transferLength (cmd : NvmeSQEntry) (blockSize : Nat) : Nat :=
  ((cmd.cdw12 &&& 0xFFFF).toNat + 1) * blockSize

/-- The memory of a command by the PRP rules, for pages of 4096 bytes. -/
def dataOf (cmd : NvmeSQEntry) (blockSize : Nat) (entry : Nat → Nat) : Segments :=
  segments 4096 cmd.prp1.toNat cmd.prp2.toNat (transferLength cmd blockSize) entry

def bufferOf : NvmeCall → Word
  | .read _ _ buffer _ => buffer
  | .write _ _ buffer _ => buffer

def countOf : NvmeCall → Nat
  | .read _ _ _ count => count.toNat
  | .write _ _ _ count => count.toNat

/-- Whatever is in memory, the command describes the bytes of the caller's buffer. -/
def DescribesBuffer (c : NvmeCall) (blockSize : Nat) : Prop :=
  ∀ entry, Describes (dataOf c.command blockSize entry) (bufferOf c).toNat (countOf c * blockSize)

/-- The block count of CDW12: zero stands for 65536 blocks, and larger counts lose their
upper half. -/
theorem blocks_command (c : NvmeCall) :
    (c.command.cdw12 &&& 0xFFFF).toNat + 1 = (countOf c + 65535) % 65536 + 1 := by
  have field (count : BitVec 32) :
      (((count - 1) &&& 0xFFFF) &&& 0xFFFF).toNat + 1 = (count.toNat + 65535) % 65536 + 1 := by
    have mask (x : Nat) : x &&& 65535 = x % 65536 := Nat.and_two_pow_sub_one_eq_mod x 16
    have less : (count - 1).toNat = (2 ^ 32 - 1 + count.toNat) % 2 ^ 32 := BitVec.toNat_sub ..
    rw [BitVec.and_assoc, BitVec.and_self, BitVec.toNat_and, less]
    show ((2 ^ 32 - 1 + count.toNat) % 2 ^ 32 &&& 65535) + 1 = _
    rw [mask]
    omega
  cases c with
  | read nsid lba buffer count => exact field count
  | write nsid lba buffer count => exact field count

/-- The count survives the trip through CDW12. -/
theorem transferLength_command {c : NvmeCall} (low : 1 ≤ countOf c) (high : countOf c ≤ 65536)
    (blockSize : Nat) : transferLength c.command blockSize = countOf c * blockSize := by
  have same : (countOf c + 65535) % 65536 + 1 = countOf c := by omega
  rw [transferLength, blocks_command, same]

theorem dataOf_command {c : NvmeCall} (low : 1 ≤ countOf c) (high : countOf c ≤ 65536)
    (blockSize : Nat) (entry : Nat → Nat) :
    dataOf c.command blockSize entry =
      segments 4096 (bufferOf c).toNat 0 (countOf c * blockSize) entry := by
  rw [dataOf, transferLength_command low high]
  cases c <;> rfl

/-- The controller stays in the caller's buffer exactly when that is dword-aligned and
does not cross the end of its page, or has no bytes. -/
theorem dma_in_buffer_iff (c : NvmeCall) (low : 1 ≤ countOf c) (high : countOf c ≤ 65536)
    (blockSize : Nat) : DescribesBuffer c blockSize ↔
      blockSize = 0 ∨ (bufferOf c).toNat % 4 = 0 ∧
        (bufferOf c).toNat % 4096 + countOf c * blockSize ≤ 4096 := by
  have data := dataOf_command low high blockSize
  constructor
  · intro describes
    by_cases none : blockSize = 0
    · exact .inl none
    · have here := describes fun _ => 0
      rw [data] at here
      have some : 0 < countOf c * blockSize := Nat.mul_pos low (Nat.pos_of_ne_zero none)
      exact .inr (one_page_of_describes (by decide) some here)
  · intro fits entry
    rw [data]
    rcases fits with rfl | ⟨aligned, fits⟩
    · exact describes_none _
    · exact describes_one_page aligned fits

/-- Eight blocks of 512 bytes at the start of a page. -/
theorem dma_in_buffer_page :
    DescribesBuffer (.read 1 0 0x400000 8) 512 ↔
      512 = 0 ∨ (bufferOf (.read 1 0 0x400000 8)).toNat % 4 = 0 ∧
        (bufferOf (.read 1 0 0x400000 8)).toNat % 4096 +
          countOf (.read 1 0 0x400000 8) * 512 ≤ 4096 :=
  dma_in_buffer_iff (.read 1 0 0x400000 8) (by decide) (by decide) 512

/-- Nine blocks at the start of a page: the ninth goes to address 0. -/
theorem dma_leaves_buffer : ¬ ∀ (c : NvmeCall) (blockSize : Nat), 1 ≤ countOf c →
    countOf c ≤ 65536 → DescribesBuffer c blockSize := by
  intro claim
  have here := claim (.read 1 0 0x400000 9) 512 (by decide) (by decide) fun _ => 0
  have outside : Covers (dataOf (NvmeCall.read 1 0 0x400000 9).command 512 fun _ => 0) 0 :=
    ⟨(0, 512), by decide, by decide, by decide⟩
  exact absurd ((here 0).mp outside).1 (by decide)

end Coolos.Theorems
