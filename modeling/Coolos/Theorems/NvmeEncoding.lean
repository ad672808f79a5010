import Coolos.Theorems.Dma

/-!
# What a command asks for

CDW12 holds the block count less one in 16 bits, and `NVMe_Read` and `NVMe_Write` take the
count in 32. They submit a command whatever the count is.
-/

namespace Coolos.Theorems

open Lib

/-- A transfer of whole blocks. -/
structure BlockRequest where
  opcode : BitVec 8
  nsid : BitVec 32
  slba : Word
  blocks : Nat
  deriving DecidableEq

/-- What the controller takes a command for. -/
def decodeRequest (cmd : NvmeSQEntry) : BlockRequest where
  opcode := cmd.opcode
  nsid := cmd.nsid
  slba := cmd.cdw11 ++ cmd.cdw10
  blocks := (cmd.cdw12 &&& 0xFFFF).toNat + 1

/-- What the caller asks for. -/
def requestOf : NvmeCall → BlockRequest
  | .read nsid lba _ count => ⟨0x02, nsid, lba, count.toNat⟩
  | .write nsid lba _ count => ⟨0x01, nsid, lba, count.toNat⟩

/-- The command of a store into a slot. -/
def storedCommand : NvmeStore → Option NvmeSQEntry
  | .slot _ cmd => some cmd
  | .doorbell _ _ => none

/-- The commands submitted on the way from `q` to `q'`. -/
def submitted (q q' : NvmeQueue) : List NvmeSQEntry :=
  (q'.stores.drop q.stores.length).filterMap storedCommand

/-- The call submits one command, for what it was asked; or none, and says so. -/
def EncodesRequest (c : NvmeCall) (q : NvmeQueue) (polls : List NvmeCQEntry) : Prop :=
  (∃ cmd, submitted q (c.run q polls).1 = [cmd] ∧ decodeRequest cmd = requestOf c) ∨
    submitted q (c.run q polls).1 = [] ∧ ∃ r, (c.run q polls).2 = some r ∧ r ≠ 0

/-- Head doorbells are no commands. -/
theorem filterMap_doorbells (addr : Word) (values : List (BitVec 32)) :
    (values.map (NvmeStore.doorbell addr)).filterMap storedCommand = [] := by
  rw [List.filterMap_map, List.filterMap_eq_nil_iff]
  intro value _
  rfl

/-- Every call submits its command. -/
theorem submitted_run (c : NvmeCall) (q : NvmeQueue) (polls : List NvmeCQEntry) :
    submitted q (c.run q polls).1 = [c.command] := by
  obtain ⟨tail, values, stores⟩ := c.run_stores q polls
  rw [submitted, stores, List.append_assoc, List.drop_left, List.filterMap_append,
    filterMap_doorbells]
  rfl

/-- The two halves of an LBA. -/
theorem lba_halves (lba : Word) :
    ((lba >>> 32).truncate 32 : BitVec 32) ++ (lba.truncate 32 : BitVec 32) = lba := by
  apply BitVec.eq_of_getLsbD_eq
  intro i hi
  rw [BitVec.getLsbD_append]
  by_cases low : i < 32
  · simp [low]
  · have back : 32 + (i - 32) = i := by omega
    simp [low, back]
    omega

/-- All but the count arrives as it was given. -/
theorem decodeRequest_command (c : NvmeCall) :
    decodeRequest c.command = { requestOf c with blocks := (countOf c + 65535) % 65536 + 1 } := by
  have blocks := blocks_command c
  cases c with
  | read nsid lba buffer count =>
      rw [decodeRequest, blocks]
      exact congrArg (BlockRequest.mk _ _ · _) (lba_halves lba)
  | write nsid lba buffer count =>
      rw [decodeRequest, blocks]
      exact congrArg (BlockRequest.mk _ _ · _) (lba_halves lba)

theorem requestOf_blocks (c : NvmeCall) : (requestOf c).blocks = countOf c := by
  cases c <;> rfl

/-- A call submits what it was asked for exactly when the count has a zero-based 16-bit
form. -/
theorem encodes_request_iff (c : NvmeCall) (q : NvmeQueue) (polls : List NvmeCQEntry) :
    EncodesRequest c q polls ↔ 1 ≤ countOf c ∧ countOf c ≤ 65536 := by
  have one := submitted_run c q polls
  have decoded := decodeRequest_command c
  constructor
  · rintro (⟨cmd, only, asked⟩ | ⟨none, -⟩)
    · rw [one] at only
      obtain rfl : c.command = cmd := List.head_eq_of_cons_eq only
      have blocks : (countOf c + 65535) % 65536 + 1 = countOf c := by
        rw [decoded] at asked
        exact (congrArg BlockRequest.blocks asked).trans (requestOf_blocks c)
      omega
    · rw [one] at none
      exact absurd none (List.cons_ne_nil _ _)
  · rintro ⟨low, high⟩
    refine .inl ⟨c.command, one, ?_⟩
    have blocks : (countOf c + 65535) % 65536 + 1 = (requestOf c).blocks := by
      rw [requestOf_blocks]
      omega
    rw [decoded, blocks]

/-- Zero blocks are taken for 65536. -/
theorem zero_blocks_submitted : ¬ ∀ (c : NvmeCall) (q : NvmeQueue) (polls : List NvmeCQEntry),
    EncodesRequest c q polls := by
  intro claim
  have here := claim (.read 1 0 0x400000 0) (NvmeQueue.setupIOQueue 0 0x1000 0x2000) []
  rcases here with ⟨cmd, only, asked⟩ | ⟨none, -⟩
  · rw [submitted_run] at only
    obtain rfl := List.head_eq_of_cons_eq only
    exact absurd asked (by decide)
  · rw [submitted_run] at none
    exact absurd none (List.cons_ne_nil _ _)

end Coolos.Theorems
