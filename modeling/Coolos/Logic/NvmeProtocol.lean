import Coolos.Kernel.NvmeRegisters

/-!
# What an NVMe controller lets a driver do

The controller as an automaton on the driver's events. It is configured while it is disabled and
has said so, takes commands while it is enabled and has said so, one at a time here, and
completes them in the order of its completion ring.
-/

namespace Coolos

open Lib

/-! ## Completions -/

/-- Bits 15:1 of the status word. -/
def statusField (e : NvmeCQEntry) : BitVec 16 := e.status >>> 1

/-- Of the entries found at the head of the queue, the one consumed for `cid`: the first that
is new and has this ID. -/
inductive CompletedBy (cid : BitVec 16) : NvmeQueue → List NvmeCQEntry → NvmeCQEntry → Prop
  | own {q e polls} (new : e.status &&& 0x1 = q.phase) (same : e.commandID = cid) :
      CompletedBy cid q (e :: polls) e
  | other {q e e' polls} (new : e.status &&& 0x1 = q.phase) (foreign : e.commandID ≠ cid)
      (rest : CompletedBy cid q.consume polls e') : CompletedBy cid q (e :: polls) e'
  | old {q e e' polls} (old : e.status &&& 0x1 ≠ q.phase) (rest : CompletedBy cid q polls e') :
      CompletedBy cid q (e :: polls) e'

/-- A command completes once. -/
theorem CompletedBy.unique {cid : BitVec 16} {q : NvmeQueue} {polls : List NvmeCQEntry}
    {e e' : NvmeCQEntry} (first : CompletedBy cid q polls e) (second : CompletedBy cid q polls e') :
    e = e' := by
  induction first with
  | own new same =>
      cases second with
      | own _ _ => rfl
      | other _ foreign _ => exact absurd same foreign
      | old old _ => exact absurd new old
  | other new foreign _ ih =>
      cases second with
      | own _ same => exact absurd same foreign
      | other _ _ rest => exact ih rest
      | old old _ => exact absurd new old
  | old old _ ih =>
      cases second with
      | own new _ => exact absurd new old
      | other new _ _ => exact absurd new old
      | old _ rest => exact ih rest

/-- Waiting ends with the completion of the command. -/
theorem NvmeQueue.waitForCompletion_returned (cid : BitVec 16) (polls : List NvmeCQEntry) :
    ∀ q : NvmeQueue, (q.waitForCompletion cid polls).2 = true ↔ ∃ e, CompletedBy cid q polls e := by
  induction polls with
  | nil =>
      intro q
      constructor
      · intro returned
        cases returned
      · intro h
        obtain ⟨e, completed⟩ := h
        cases completed
  | cons entry polls ih =>
      intro q
      rw [NvmeQueue.waitForCompletion]
      by_cases new : entry.status &&& 0x1 = q.phase
      · rw [if_pos new]
        by_cases same : entry.commandID = cid
        · rw [if_pos same]
          exact ⟨fun _ => ⟨entry, .own new same⟩, fun _ => rfl⟩
        · rw [if_neg same, ih]
          constructor
          · intro h
            obtain ⟨e, rest⟩ := h
            exact ⟨e, .other new same rest⟩
          · intro h
            obtain ⟨e, completed⟩ := h
            cases completed with
            | own _ own => exact absurd own same
            | other _ _ rest => exact ⟨e, rest⟩
            | old old _ => exact absurd new old
      · rw [if_neg new, ih]
        constructor
        · intro h
          obtain ⟨e, rest⟩ := h
          exact ⟨e, .old new rest⟩
        · intro h
          obtain ⟨e, completed⟩ := h
          cases completed with
          | own now _ => exact absurd now new
          | other now _ _ => exact absurd now new
          | old _ rest => exact ⟨e, rest⟩

/-! ## The controller -/

structure NvmeDevice where
  /-- Where its registers are. -/
  regs : Word
  /-- CC.EN. -/
  enabled : Bool
  /-- CSTS.RDY, once it was read since CC.EN changed. -/
  ready : Option Bool
  sqSize : Nat
  cqSize : Nat
  asq : Option Word
  acq : Option Word
  tail : Nat
  head : Nat
  /-- The phase tag of the entries that are new. -/
  phase : Bool
  /-- Stored in the slot at the tail. -/
  stored : Option NvmeSQEntry
  /-- Submitted, its completion not consumed. -/
  outstanding : Option NvmeSQEntry
  /-- The entry at the head that the driver has looked at. -/
  seen : Option NvmeCQEntry
  /-- The I/O queues there are, by number, with their sizes. -/
  cqs : List (BitVec 16 × Nat)
  sqs : List (BitVec 16 × Nat)

/-- The queue that a command creates. -/
def NvmeSQEntry.queue (cmd : NvmeSQEntry) : BitVec 16 × Nat :=
  (cmd.cdw10.truncate 16, (cmd.cdw10 >>> 16).toNat + 1)

namespace NvmeDevice

/-- Disabled, and no longer ready. -/
def Idle (c : NvmeDevice) : Prop := c.enabled = false ∧ c.ready = some false

instance (c : NvmeDevice) : Decidable c.Idle := inferInstanceAs (Decidable (_ ∧ _))

/-- Enabled, and ready. -/
def Running (c : NvmeDevice) : Prop := c.enabled = true ∧ c.ready = some true

instance (c : NvmeDevice) : Decidable c.Running := inferInstanceAs (Decidable (_ ∧ _))

/-- The commands taken: IDENTIFY; the creation of a completion queue with a new number; that of
a submission queue with a new number whose completion queue exists. Buffers are pages. -/
def Takes (c : NvmeDevice) (cmd : NvmeSQEntry) : Prop :=
  cmd.prp1.toNat % 4096 = 0 ∧
    (cmd.opcode = 0x06 ∨
      cmd.opcode = 0x05 ∧ cmd.queue.1 ≠ 0 ∧
        (c.cqs.map Prod.fst).contains cmd.queue.1 = false ∧ cmd.cdw11 &&& 1 = 1 ∨
      cmd.opcode = 0x01 ∧ cmd.queue.1 ≠ 0 ∧
        (c.sqs.map Prod.fst).contains cmd.queue.1 = false ∧ cmd.cdw11 &&& 1 = 1 ∧
        (c.cqs.map Prod.fst).contains ((cmd.cdw11 >>> 16).truncate 16) = true)

instance (c : NvmeDevice) (cmd : NvmeSQEntry) : Decidable (c.Takes cmd) :=
  inferInstanceAs (Decidable (_ ∧ (_ ∨ _ ∧ _ ∧ _ ∧ _ ∨ _ ∧ _ ∧ _ ∧ _ ∧ _)))

/-- `cmd` is complete with the status in `e`: it has created its queue, or failed. -/
def executed (c : NvmeDevice) (cmd : NvmeSQEntry) (e : NvmeCQEntry) : NvmeDevice :=
  { c with
    outstanding := none
    cqs := if cmd.opcode = 0x05 ∧ statusField e = 0 then cmd.queue :: c.cqs else c.cqs
    sqs := if cmd.opcode = 0x01 ∧ statusField e = 0 then cmd.queue :: c.sqs else c.sqs }

/-- The entry `e` is consumed, and the head is at `head`. -/
def consumed (c : NvmeDevice) (e : NvmeCQEntry) (head : Nat) : NvmeDevice :=
  let c := { c with head := head, phase := if head = 0 then !c.phase else c.phase, seen := none }
  match c.outstanding with
  | none => c
  | some cmd => if cmd.commandID = e.commandID then c.executed cmd e else c

/-- CC.EN goes from 0 to 1. -/
def enable (c : NvmeDevice) : NvmeDevice :=
  { c with
    enabled := true, ready := none, tail := 0, head := 0, phase := true, stored := none
    outstanding := none, seen := none, cqs := [], sqs := [] }

/-- The state behind an event, `none` where the event is not allowed. -/
def step (c : NvmeDevice) : NvmeInitEvent → Option NvmeDevice
  | .readCc value =>
      let enabled := value &&& 0x1 != 0
      some { c with enabled := enabled, ready := if enabled = c.enabled then c.ready else none }
  | .readCsts value => some { c with ready := some (value &&& 0x1 != 0) }
  | .writeCc value =>
      if value &&& 0x1 = 0 then some { c with enabled := false, ready := none }
      -- with entries of 64 and 16 bytes
      else if c.Idle ∧ 2 ≤ c.sqSize ∧ 2 ≤ c.cqSize ∧ c.asq.isSome ∧ c.acq.isSome ∧
          (value >>> 16) &&& 0xF = 6 ∧ (value >>> 20) &&& 0xF = 4 then some c.enable
      else none
  | .writeAqa value =>
      if c.Idle then
        some { c with
          sqSize := (value &&& 0xFFF).toNat + 1
          cqSize := ((value >>> 16) &&& 0xFFF).toNat + 1 }
      else none
  | .writeAsq value =>
      if c.Idle ∧ value.toNat % 4096 = 0 then some { c with asq := some value } else none
  | .writeAcq value =>
      if c.Idle ∧ value.toNat % 4096 = 0 then some { c with acq := some value } else none
  | .poll entry => if c.Running then some { c with seen := some entry } else none
  | .store (.slot addr cmd) =>
      if c.Running ∧ c.stored = none ∧ c.outstanding = none ∧ c.Takes cmd ∧
          c.asq.map (· + 64 * loc c.tail) = some addr then
        some { c with stored := some cmd }
      else none
  | .store (.doorbell addr value) =>
      if addr = c.regs + 0x1000 then
        match c.stored with
        | none => none
        | some cmd =>
            if c.Running ∧ value.toNat = (c.tail + 1) % c.sqSize then
              some { c with tail := value.toNat, stored := none, outstanding := some cmd }
            else none
      else if addr = c.regs + 0x1004 then
        match c.seen with
        | none => none
        | some e =>
            if c.Running ∧ (e.status &&& 0x1 != 0) = c.phase ∧
                value.toNat = (c.head + 1) % c.cqSize then
              some (c.consumed e value.toNat)
            else none
      else none

end NvmeDevice

/-! ## The admin queue -/

/-- The driver's record of the admin queue is right. -/
structure AdminRep (c : NvmeDevice) (q : NvmeQueue) : Prop where
  running : c.Running
  sqSize : c.sqSize = 64
  cqSize : c.cqSize = 64
  size : q.size = 64
  base : c.asq = some q.sqBase
  tail : q.tail.toNat = c.tail
  head : q.head.toNat = c.head
  tailBelow : c.tail < 64
  headBelow : c.head < 64
  phase : q.phase = if c.phase then 1 else 0
  stored : c.stored = none
  doorbellTail : q.doorbellTail = c.regs + 0x1000
  doorbellHead : q.doorbellHead = c.regs + 0x1004

namespace AdminRep

variable {c : NvmeDevice} {q : NvmeQueue}

/-- The next index in a ring of 64. -/
theorem next_index {i : BitVec 16} (below : i.toNat < 64) :
    (if (64 : BitVec 16) ≤ i + 1 then 0 else i + 1).toNat = (i.toNat + 1) % 64 := by
  have size : (64 : BitVec 16).toNat = 64 := rfl
  split
  · rename_i wraps
    rw [BitVec.le_def] at wraps
    bv_omega
  · rename_i inside
    rw [BitVec.le_def] at inside
    bv_omega

theorem toNat_widened (i : BitVec 16) : (i.zeroExtend 32).toNat = i.toNat := by
  simp only [BitVec.truncate_eq_setWidth, BitVec.toNat_setWidth]
  omega

theorem submitted_tail (rep : AdminRep c q) (cmd : NvmeSQEntry) :
    (q.submitCommand cmd).tail.toNat = (c.tail + 1) % 64 := by
  rw [NvmeQueue.submitCommand]
  dsimp only
  rw [rep.size, next_index (by rw [rep.tail]; exact rep.tailBelow), rep.tail]

theorem consumed_head (rep : AdminRep c q) : q.consume.head.toNat = (c.head + 1) % 64 := by
  rw [NvmeQueue.consume]
  dsimp only
  rw [rep.size, next_index (by rw [rep.head]; exact rep.headBelow), rep.head]

/-- The phase changes when the head comes round. -/
theorem consumed_phase (rep : AdminRep c q) : q.consume.phase =
    if (if (c.head + 1) % 64 = 0 then !c.phase else c.phase) then 1 else 0 := by
  have below := rep.headBelow
  have head := rep.head
  have size : (64 : BitVec 16).toNat = 64 := rfl
  rw [NvmeQueue.consume]
  dsimp only
  rw [rep.size, rep.phase]
  by_cases wraps : (64 : BitVec 16) ≤ q.head + 1
  · have last : (c.head + 1) % 64 = 0 := by
      rw [BitVec.le_def] at wraps
      bv_omega
    rw [if_pos wraps, if_pos last]
    cases c.phase <;> rfl
  · have inside : (c.head + 1) % 64 ≠ 0 := by
      rw [BitVec.le_def] at wraps
      bv_omega
    rw [if_neg wraps, if_neg inside]

/-- `NVMe_SubmitCommand`. -/
theorem submitCommand (rep : AdminRep c q) (free : c.outstanding = none) {cmd : NvmeSQEntry}
    (takes : c.Takes cmd) :
    Driver.Allows NvmeDevice.step c (NvmeDriver.submitCommand q cmd) fun q' c' =>
      AdminRep c' q' ∧ c'.outstanding = some cmd ∧ c'.cqs = c.cqs ∧ c'.sqs = c.sqs ∧
        c'.regs = c.regs := by
  have slot : c.asq.map (· + 64 * loc c.tail) =
      some (q.sqBase + 64 * q.tail.zeroExtend 64) := by
    have index : loc c.tail = q.tail.zeroExtend 64 := by
      have below := rep.tailBelow
      have tail := rep.tail
      apply BitVec.eq_of_toNat_eq
      simp only [loc, BitVec.truncate_eq_setWidth, BitVec.toNat_setWidth, BitVec.toNat_ofNat]
      omega
    rw [rep.base, index]
    rfl
  have tail := rep.submitted_tail cmd
  have below : (c.tail + 1) % 64 < 64 := Nat.mod_lt _ (by decide)
  have fill : c.step (.store (.slot (q.sqBase + 64 * q.tail.zeroExtend 64) cmd)) =
      some { c with stored := some cmd } := if_pos ⟨rep.running, rep.stored, free, takes, slot⟩
  have ring : NvmeDevice.step { c with stored := some cmd } (.store (.doorbell
      (q.submitCommand cmd).doorbellTail ((q.submitCommand cmd).tail.zeroExtend 32))) =
      some { c with
        tail := (c.tail + 1) % 64, stored := none, outstanding := some cmd } := by
    have value : ((q.submitCommand cmd).tail.zeroExtend 32).toNat = (c.tail + 1) % 64 :=
      (toNat_widened _).trans tail
    have bell : (q.submitCommand cmd).doorbellTail = c.regs + 0x1000 := rep.doorbellTail
    have size : c.sqSize = 64 := rep.sqSize
    simp only [NvmeDevice.step, bell, if_true, value, size]
    exact if_pos ⟨rep.running, trivial⟩
  refine Driver.Allows.emit_bind fill (Driver.Allows.emit_bind ring ?_)
  refine Driver.Allows.pure ⟨?_, rfl, rfl, rfl, rfl⟩
  exact
    { running := rep.running, sqSize := rep.sqSize, cqSize := rep.cqSize, size := rep.size
      base := rep.base, tail := tail, head := rep.head, tailBelow := below
      headBelow := rep.headBelow, phase := rep.phase, stored := rfl
      doorbellTail := rep.doorbellTail, doorbellHead := rep.doorbellHead }

/-- An entry that is new is consumed, and completes the command if it has its number. -/
theorem consume (rep : AdminRep c q) {e : NvmeCQEntry} (seen : c.seen = some e)
    (new : e.status &&& 0x1 = q.phase) {cmd : NvmeSQEntry} (waiting : c.outstanding = some cmd) :
    Driver.Allows NvmeDevice.step c (NvmeDriver.consume q) fun q' c' =>
      AdminRep c' q' ∧ c'.regs = c.regs ∧
        if cmd.commandID = e.commandID then
          c'.outstanding = none ∧ c'.cqs = (c.executed cmd e).cqs ∧
            c'.sqs = (c.executed cmd e).sqs
        else c'.outstanding = some cmd ∧ c'.cqs = c.cqs ∧ c'.sqs = c.sqs := by
  have head := rep.consumed_head
  have phase := rep.consumed_phase
  have below : (c.head + 1) % 64 < 64 := Nat.mod_lt _ (by decide)
  have ring : c.step (.store (.doorbell q.consume.doorbellHead (q.consume.head.zeroExtend 32))) =
      some (c.consumed e ((c.head + 1) % 64)) := by
    have value : (q.consume.head.zeroExtend 32).toNat = (c.head + 1) % 64 :=
      (toNat_widened _).trans head
    have bell : q.consume.doorbellHead = c.regs + 0x1004 := rep.doorbellHead
    have apart : c.regs + 0x1004 ≠ c.regs + 0x1000 := by bv_omega
    have tag : (e.status &&& 0x1 != 0) = c.phase := by
      rw [new, rep.phase]
      cases c.phase <;> rfl
    simp only [NvmeDevice.step, bell, if_neg apart, if_true, seen, value, rep.cqSize]
    exact if_pos ⟨rep.running, tag, trivial⟩
  refine Driver.Allows.emit_bind ring (Driver.Allows.pure ?_)
  rw [NvmeDevice.consumed]
  simp only [waiting]
  by_cases own : cmd.commandID = e.commandID
  · rw [if_pos own, if_pos own]
    refine ⟨?_, rfl, rfl, rfl, rfl⟩
    exact
      { running := rep.running, sqSize := rep.sqSize, cqSize := rep.cqSize, size := rep.size
        base := rep.base, tail := rep.tail, head := head, tailBelow := rep.tailBelow
        headBelow := below, phase := phase, stored := rep.stored
        doorbellTail := rep.doorbellTail, doorbellHead := rep.doorbellHead }
  · rw [if_neg own, if_neg own]
    refine ⟨?_, rfl, rfl, rfl, rfl⟩
    exact
      { running := rep.running, sqSize := rep.sqSize, cqSize := rep.cqSize, size := rep.size
        base := rep.base, tail := rep.tail, head := head, tailBelow := rep.tailBelow
        headBelow := below, phase := phase, stored := rep.stored
        doorbellTail := rep.doorbellTail, doorbellHead := rep.doorbellHead }

/-- `NVMe_WaitForCompletion`, whatever it finds. -/
theorem waitForCompletion {cmd : NvmeSQEntry} (polls : List NvmeCQEntry) :
    ∀ {c : NvmeDevice} {q : NvmeQueue}, AdminRep c q → c.outstanding = some cmd →
      Driver.Allows NvmeDevice.step c (NvmeDriver.waitForCompletion cmd.commandID polls q)
        fun q' c' => AdminRep c' q' ∧ c'.regs = c.regs ∧ c'.outstanding = none ∧
          ∃ e, CompletedBy cmd.commandID q polls e ∧
            c'.cqs = (c.executed cmd e).cqs ∧ c'.sqs = (c.executed cmd e).sqs := by
  induction polls with
  | nil => intro c q rep waiting; exact Driver.Allows.waits
  | cons e polls ih =>
      intro c q rep waiting
      rw [NvmeDriver.waitForCompletion]
      have looked : AdminRep { c with seen := some e } q := { rep with }
      have look : c.step (.poll e) = some { c with seen := some e } := if_pos rep.running
      refine Driver.Allows.emit_bind look ?_
      split
      · rename_i new
        refine Driver.Allows.bind ((looked.consume rfl new waiting).and_result)
          fun q' c' post => ?_
        obtain ⟨⟨rep', regs, left⟩, taken⟩ := post
        obtain rfl := Option.some.inj taken
        by_cases own : e.commandID = cmd.commandID
        · rw [if_pos own]
          rw [if_pos own.symm] at left
          obtain ⟨done, made⟩ := left
          exact Driver.Allows.pure ⟨rep', regs, done, e, .own new own, made⟩
        · rw [if_neg own]
          rw [if_neg fun same => own same.symm] at left
          obtain ⟨waiting', cqs, sqs⟩ := left
          refine (ih rep' waiting').mono fun q'' c'' post => ?_
          obtain ⟨rep'', regs', done, e', completed, cqs', sqs'⟩ := post
          refine ⟨rep'', regs'.trans regs, done, e', .other new own completed, ?_, ?_⟩
          · rw [cqs', NvmeDevice.executed, NvmeDevice.executed, cqs]
          · rw [sqs', NvmeDevice.executed, NvmeDevice.executed, sqs]
      · rename_i old
        refine (ih looked waiting).mono fun q' c' post => ?_
        obtain ⟨rep', regs, done, e', completed, made⟩ := post
        exact ⟨rep', regs, done, e', .old old completed, made⟩

/-- A command the controller takes is carried out or refused. -/
theorem execute (rep : AdminRep c q) (free : c.outstanding = none) {cmd : NvmeSQEntry}
    (takes : c.Takes cmd) (polls : List NvmeCQEntry) :
    Driver.Allows NvmeDevice.step c (NvmeDriver.execute q cmd cmd.commandID polls)
      fun q' c' => AdminRep c' q' ∧ c'.regs = c.regs ∧ c'.outstanding = none ∧
        ∃ e, CompletedBy cmd.commandID (q.submitCommand cmd) polls e ∧
          c'.cqs = (c.executed cmd e).cqs ∧ c'.sqs = (c.executed cmd e).sqs := by
  refine Driver.Allows.bind (rep.submitCommand free takes).and_result fun q' c' post => ?_
  obtain ⟨⟨rep', waiting, cqs, sqs, regs⟩, submitted⟩ := post
  obtain rfl := Option.some.inj submitted
  refine (waitForCompletion polls rep' waiting).mono fun q'' c'' post => ?_
  obtain ⟨rep'', regs', done, e, completed, cqs', sqs'⟩ := post
  refine ⟨rep'', regs'.trans regs, done, e, completed, ?_, ?_⟩
  · rw [cqs', NvmeDevice.executed, NvmeDevice.executed, cqs]
  · rw [sqs', NvmeDevice.executed, NvmeDevice.executed, sqs]

end AdminRep
end Coolos
