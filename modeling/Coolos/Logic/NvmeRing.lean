import Coolos.Kernel.Nvme
import Coolos.Lib.PhaseRing
import Coolos.Lib.TSys

/-!
# The I/O rings and the controller

The driver of `nvme.c` beside a controller that completes commands in its own
time. What the driver stores arrives at the device later, one store after the
other. Commands are numbered in the order they are submitted; the numbers, and
which command each completion answers, are known to no party.
-/

namespace Coolos

open Lib PhaseRing

/-- A call of `NVMe_Read` or `NVMe_Write`. -/
inductive NvmeCall where
  | read (nsid : BitVec 32) (lba buffer : Word) (count : BitVec 32)
  | write (nsid : BitVec 32) (lba buffer : Word) (count : BitVec 32)

namespace NvmeCall

/-- The command it submits. -/
def command : NvmeCall → NvmeSQEntry
  | .read nsid lba buffer count => NvmeQueue.ioCommand 0x02 100 nsid lba buffer count
  | .write nsid lba buffer count => NvmeQueue.ioCommand 0x01 101 nsid lba buffer count

/-- The command ID it waits for. -/
def cid : NvmeCall → BitVec 16
  | .read .. => 100
  | .write .. => 101

theorem command_cid (c : NvmeCall) : c.command.commandID = c.cid := by
  cases c <;> rfl

def run (c : NvmeCall) (q : NvmeQueue) (polls : List NvmeCQEntry) :
    NvmeQueue × Option (BitVec 32) :=
  match c with
  | .read nsid lba buffer count => q.read nsid lba buffer count polls
  | .write nsid lba buffer count => q.write nsid lba buffer count polls

/-- Both functions submit their command and wait for its ID. -/
theorem run_eq (c : NvmeCall) (q : NvmeQueue) (polls : List NvmeCQEntry) :
    (c.run q polls).1 = ((q.submitCommand c.command).waitForCompletion c.cid polls).1 := by
  cases c <;> rfl

end NvmeCall

/-- Waiting stores to the head doorbell at most. -/
theorem NvmeQueue.waitForCompletion_doorbells (cid : BitVec 16) (polls : List NvmeCQEntry) :
    ∀ q : NvmeQueue, ∃ values : List (BitVec 32), (q.waitForCompletion cid polls).1.stores =
      q.stores ++ values.map (.doorbell q.doorbellHead) := by
  induction polls with
  | nil =>
      intro q
      exact ⟨[], (List.append_nil _).symm⟩
  | cons entry polls ih =>
      intro q
      rw [waitForCompletion_cons, poll]
      by_cases new : entry.status &&& 0x1 = q.phase
      · rw [if_pos new]
        by_cases own : (entry.commandID == cid) = true
        · rw [if_pos own]
          exact ⟨[q.consume.head.zeroExtend 32], rfl⟩
        · rw [if_neg own]
          obtain ⟨values, rest⟩ := ih q.consume
          refine ⟨q.consume.head.zeroExtend 32 :: values, ?_⟩
          rw [rest, List.map_cons, List.append_cons]
          rfl
      · rw [if_neg new]
        exact ih q

/-- What a call stores: its command in the next slot, the tail doorbell, and the head
doorbell for each completion it consumes. -/
theorem NvmeCall.run_stores (c : NvmeCall) (q : NvmeQueue) (polls : List NvmeCQEntry) :
    ∃ (tail : BitVec 32) (values : List (BitVec 32)), (c.run q polls).1.stores = q.stores ++
      [.slot (q.sqBase + 64 * q.tail.zeroExtend 64) c.command, .doorbell q.doorbellTail tail] ++
        values.map (.doorbell q.doorbellHead) := by
  obtain ⟨values, stores⟩ := (q.submitCommand c.command).waitForCompletion_doorbells c.cid polls
  refine ⟨(q.submitCommand c.command).tail.zeroExtend 32, values, ?_⟩
  rw [c.run_eq, stores]
  rfl

/-- The slot `i` of the submission queue. -/
def NvmeQueue.slotAddr (q : NvmeQueue) (i : Nat) : Word := q.sqBase + 64 * loc i

/-- The entry `i` of the completion queue. -/
def NvmeQueue.entryAddr (q : NvmeQueue) (i : Nat) : Word := q.cqBase + 16 * loc i

/-- The size both queues were created with. -/
def ringSize : Nat := 64

structure NvmeController where
  /-- The last value that arrived at the tail doorbell. -/
  tailDoorbell : BitVec 32
  /-- The slot of the next command to fetch. -/
  sqHead : Nat
  /-- The commands fetched and not completed, with their numbers. -/
  inFlight : List (Nat × NvmeSQEntry)
  /-- The entry of the next completion to post. -/
  cqTail : Nat
  phase : Bool

structure NvmeSystem where
  queue : NvmeQueue
  /-- The number and the command ID of the command the driver waits for. -/
  waiting : Option (Nat × BitVec 16)
  /-- How many of the driver's stores have arrived. -/
  arrived : Nat
  sq : Word → NvmeSQEntry
  cq : Word → NvmeCQEntry
  controller : NvmeController
  /-- Commands submitted, commands that have arrived in their slots, completions
  posted, and calls that have returned. -/
  submitted : Nat
  written : Nat
  posted : Nat
  completed : Nat
  /-- The number of the command in a slot, and of the one a completion answers. -/
  sqNumber : Word → Nat
  cqNumber : Word → Option Nat
  /-- The completions consumed: the command waited for, the command answered. -/
  consumed : List (Nat × Option Nat)

/-- The driver calls and polls; its stores arrive; the controller fetches a command and
posts the completion of one it has fetched, with anything in the fields that are the
controller's to choose. -/
inductive NvmeEvent where
  | call (c : NvmeCall)
  | poll
  | arrive
  | fetch
  | post (command : Nat × NvmeSQEntry) (cdw0 reserved : BitVec 32) (sqHead sqId code : BitVec 16)

namespace NvmeSystem

/-- A store of the driver arrives. -/
def deliver (s : NvmeSystem) : NvmeStore → NvmeSystem
  | .slot addr cmd =>
      { s with
        sq := Function.update s.sq addr cmd
        sqNumber := Function.update s.sqNumber addr s.written
        written := s.written + 1 }
  | .doorbell addr value =>
      if addr = s.queue.doorbellTail then { s with controller.tailDoorbell := value } else s

/-- The controller posts a completion at the tail of the completion queue. -/
def post (s : NvmeSystem) (command : Nat × NvmeSQEntry) (cdw0 reserved : BitVec 32)
    (sqHead sqId code : BitVec 16) : NvmeSystem :=
  let c := s.controller
  let addr := s.queue.entryAddr c.cqTail
  let status := (code <<< 1) ||| (if c.phase then 1 else 0)
  let wraps := c.cqTail + 1 = ringSize
  { s with
    cq := Function.update s.cq addr
      ⟨cdw0, reserved, sqHead, sqId, command.2.commandID, status⟩
    cqNumber := Function.update s.cqNumber addr (some command.1)
    posted := s.posted + 1
    controller := { c with
      inFlight := c.inFlight.erase command
      cqTail := if wraps then 0 else c.cqTail + 1
      phase := if wraps then !c.phase else c.phase } }

/-- The driver looks at the head of the completion queue. -/
def look (s : NvmeSystem) (number : Nat) (cid : BitVec 16) : NvmeSystem :=
  let addr := s.queue.entryAddr s.queue.head.toNat
  let entry := s.cq addr
  let (queue, returned) := s.queue.poll cid entry
  { s with
    queue := queue
    waiting := if returned then none else s.waiting
    completed := if returned then s.completed + 1 else s.completed
    consumed :=
      if entry.status &&& 0x1 = s.queue.phase then (number, s.cqNumber addr) :: s.consumed
      else s.consumed }

def step (s : NvmeSystem) : NvmeEvent → Option NvmeSystem
  | .call c =>
      match s.waiting with
      | some _ => none
      | none => some { s with
          queue := s.queue.submitCommand c.command
          waiting := some (s.submitted, c.cid)
          submitted := s.submitted + 1 }
  | .poll => s.waiting.map fun w => s.look w.1 w.2
  | .arrive => s.queue.stores[s.arrived]?.map fun store =>
      { s.deliver store with arrived := s.arrived + 1 }
  | .fetch =>
      let c := s.controller
      let addr := s.queue.slotAddr c.sqHead
      if c.sqHead = c.tailDoorbell.toNat then none
      else some { s with controller := { c with
        sqHead := if c.sqHead + 1 = ringSize then 0 else c.sqHead + 1
        inFlight := c.inFlight ++ [(s.sqNumber addr, s.sq addr)] } }
  | .post command cdw0 reserved sqHead sqId code =>
      if command ∈ s.controller.inFlight then
        some (s.post command cdw0 reserved sqHead sqId code)
      else none

/-- Runs from `NVMe_Init`: both sides at the start of the rings, the completion queue
zero. -/
def sys : TSys NvmeSystem NvmeEvent where
  init s := (∃ regs sqBase cqBase, s.queue = NvmeQueue.setupIOQueue regs sqBase cqBase) ∧
    s.waiting = none ∧ s.arrived = 0 ∧ (∀ i < ringSize, (s.cq (s.queue.entryAddr i)).status = 0) ∧
    s.controller = ⟨0, 0, [], 0, true⟩ ∧ s.submitted = 0 ∧ s.written = 0 ∧ s.posted = 0 ∧
    s.completed = 0 ∧ s.consumed = []
  next s e s' := s.step e = some s'

end NvmeSystem

/-! ## Indices, tags and addresses -/

section Index

variable (k : Nat)

/-- The driver's index of entry `k`. -/
def ringIndex : BitVec 16 := BitVec.ofNat 16 (k % ringSize)

theorem ringIndex_toNat : (ringIndex k).toNat = k % ringSize := by
  have lt : k % ringSize < 64 := Nat.mod_lt k (by decide)
  rw [ringIndex, BitVec.toNat_ofNat, Nat.mod_eq_of_lt (by omega)]

theorem ringIndex_wraps : (64 : BitVec 16) ≤ ringIndex k + 1 ↔ ringSize ≤ k % ringSize + 1 := by
  have lt : k % ringSize < 64 := Nat.mod_lt k (by decide)
  have size : ringSize = 64 := rfl
  rw [BitVec.le_def, BitVec.toNat_add, ringIndex_toNat, size]
  show 64 ≤ (k % 64 + 1) % 65536 ↔ _
  rw [size] at lt
  omega

/-- The driver's indices follow the entries. -/
theorem ringIndex_succ :
    (if (64 : BitVec 16) ≤ ringIndex k + 1 then 0 else ringIndex k + 1) = ringIndex (k + 1) := by
  have next := succ_mod (n := ringSize) (by decide) k
  by_cases wraps : ringSize ≤ k % ringSize + 1
  · rw [if_pos ((ringIndex_wraps k).mpr wraps), ringIndex, next, if_pos wraps]
    rfl
  · rw [if_neg (mt (ringIndex_wraps k).mp wraps), ringIndex, ringIndex, next, if_neg wraps,
      BitVec.ofNat_add]
    rfl

/-- The controller's indices do, too. -/
theorem succ_index : (if k % ringSize + 1 = ringSize then 0 else k % ringSize + 1) =
    (k + 1) % ringSize := by
  have lt : k % ringSize < ringSize := Nat.mod_lt k (by decide)
  rw [succ_mod (n := ringSize) (by decide) k]
  by_cases wraps : k % ringSize + 1 = ringSize
  · rw [if_pos wraps, if_pos (Nat.le_of_eq wraps.symm)]
  · rw [if_neg wraps, if_neg (by omega)]

theorem succ_tag : (if k % ringSize + 1 = ringSize then !tag ringSize k else tag ringSize k) =
    tag ringSize (k + 1) := by
  have lt : k % ringSize < ringSize := Nat.mod_lt k (by decide)
  rw [tag_succ (n := ringSize) (by decide) k]
  by_cases wraps : k % ringSize + 1 = ringSize
  · rw [if_pos wraps, if_pos (Nat.le_of_eq wraps.symm)]
  · rw [if_neg wraps, if_neg (by omega)]

/-- The value of `Phase` on the pass of entry `k`. -/
def ringPhase : BitVec 16 := if tag ringSize k then 1 else 0

theorem ringPhase_succ :
    (if (64 : BitVec 16) ≤ ringIndex k + 1 then (if ringPhase k = 0 then 1 else 0)
      else ringPhase k) = ringPhase (k + 1) := by
  rw [ringPhase, ringPhase, tag_succ (n := ringSize) (by decide) k]
  by_cases wraps : ringSize ≤ k % ringSize + 1
  · rw [if_pos ((ringIndex_wraps k).mpr wraps), if_pos wraps]
    cases tag ringSize k <;> rfl
  · rw [if_neg (mt (ringIndex_wraps k).mp wraps), if_neg wraps]

end Index

/-- Bit 0 of the status is the tag. -/
theorem status_tag (status : BitVec 16) (b : Bool) :
    status &&& 0x1 = (if b then 1 else 0) ↔ status.getLsbD 0 = b := by
  have low : status &&& 0x1 = BitVec.setWidth 16 (BitVec.ofBool (status.getLsbD 0)) :=
    BitVec.and_one_eq_setWidth_ofBool_getLsbD
  rw [low]
  cases status.getLsbD 0 <;> cases b <;> decide

theorem posted_tag (code : BitVec 16) (b : Bool) :
    ((code <<< 1) ||| (if b then 1 else 0)).getLsbD 0 = b := by
  rw [BitVec.getLsbD_or, BitVec.getLsbD_shiftLeft]
  cases b <;> simp

section Addresses

variable (q : NvmeQueue) {i j : Nat} (hi : i < ringSize) (hj : j < ringSize)
include hi hj

theorem entryAddr_ne (ne : i ≠ j) : q.entryAddr i ≠ q.entryAddr j := by
  have size : ringSize = 64 := rfl
  simp only [NvmeQueue.entryAddr, loc]
  bv_omega

end Addresses

theorem slotAddr_tail (q : NvmeQueue) (k : Nat) :
    q.sqBase + 64 * (ringIndex k).zeroExtend 64 = q.slotAddr (k % ringSize) := by
  have lt : k % ringSize < 64 := Nat.mod_lt k (by decide)
  have wide : (ringIndex k).zeroExtend 64 = loc (k % ringSize) := by
    apply BitVec.eq_of_toNat_eq
    rw [BitVec.zeroExtend, BitVec.toNat_setWidth, ringIndex_toNat, loc, BitVec.toNat_ofNat]
  rw [wide, NvmeQueue.slotAddr]

/-! ## The invariant -/

/-- A store that has to do with a submission. -/
def NvmeQueue.submits (q : NvmeQueue) : NvmeStore → Bool
  | .slot _ _ => true
  | .doorbell addr _ => addr != q.doorbellHead

/-- The driver's side: its indices follow the calls that have returned. -/
structure DriverInv (s : NvmeSystem) : Prop where
  size : s.queue.size = 64
  doorbells : s.queue.doorbellTail ≠ s.queue.doorbellHead
  tail : s.queue.tail = ringIndex s.submitted
  head : s.queue.head = ringIndex s.completed
  phase : s.queue.phase = ringPhase s.completed
  waiting : s.waiting = none ∧ s.submitted = s.completed ∨
    ∃ cid, s.waiting = some (s.completed, cid) ∧ s.submitted = s.completed + 1
  arrived : s.arrived ≤ s.queue.stores.length
  consumed : s.consumed = (List.range s.completed).reverse.map fun n => (n, some n)

/-- The device's side. `rung` commands have been announced at the doorbell, `fetched`
fetched; `cmd` is the one that is under way, if any. -/
structure DeviceInv (s : NvmeSystem) (rung fetched : Nat) (cmd : NvmeSQEntry) : Prop where
  /-- Every command goes through the stages in order, one at a time. -/
  stages : s.completed ≤ s.posted ∧ s.posted ≤ fetched ∧ fetched ≤ rung ∧ rung ≤ s.written ∧
    s.written ≤ s.submitted ∧ s.submitted ≤ s.completed + 1
  cid : ∀ n cid, s.waiting = some (n, cid) → cmd.commandID = cid
  pending : (s.queue.stores.drop s.arrived).filter s.queue.submits =
    (if s.written < s.submitted then
      [.slot (s.queue.slotAddr (s.completed % ringSize)) cmd] else []) ++
    if rung < s.submitted then
      [.doorbell s.queue.doorbellTail ((ringIndex s.submitted).zeroExtend 32)] else []
  slot : s.completed < s.written →
    s.sq (s.queue.slotAddr (s.completed % ringSize)) = cmd ∧
      s.sqNumber (s.queue.slotAddr (s.completed % ringSize)) = s.completed
  tailDoorbell : s.controller.tailDoorbell = (ringIndex rung).zeroExtend 32
  sqHead : s.controller.sqHead = fetched % ringSize
  inFlight : s.controller.inFlight = if s.posted < fetched then [(s.completed, cmd)] else []
  cqTail : s.controller.cqTail = s.posted % ringSize
  phase : s.controller.phase = tag ringSize s.posted
  tags : Tagged ringSize (fun i => (s.cq (s.queue.entryAddr i)).status.getLsbD 0) s.posted
  answer : s.completed < s.posted →
    (s.cq (s.queue.entryAddr (s.completed % ringSize))).commandID = cmd.commandID ∧
      s.cqNumber (s.queue.entryAddr (s.completed % ringSize)) = some s.completed

structure RingInv (s : NvmeSystem) : Prop where
  driver : DriverInv s
  device : ∃ rung fetched cmd, DeviceInv s rung fetched cmd

/-! ## One step -/

section Step

variable {s s' : NvmeSystem}

theorem ringInv_init (start : NvmeSystem.sys.init s) : RingInv s := by
  obtain ⟨⟨regs, sqBase, cqBase, queue⟩, waiting, arrived, clear, controller, submitted, written,
    posted, completed, consumed⟩ := start
  have apart : (NvmeQueue.setupIOQueue regs sqBase cqBase).doorbellTail ≠
      (NvmeQueue.setupIOQueue regs sqBase cqBase).doorbellHead := by
    show regs + 0x1000 + 8 ≠ regs + 0x1000 + 12
    bv_omega
  refine ⟨⟨?_, ?_, ?_, ?_, ?_, ?_, ?_, ?_⟩, 0, 0, NvmeSQEntry.zero,
    ?_, ?_, ?_, ?_, ?_, ?_, ?_, ?_, ?_, ?_, ?_⟩
  · rw [queue]
    rfl
  · rw [queue]
    exact apart
  · rw [queue, submitted]
    rfl
  · rw [queue, completed]
    rfl
  · rw [queue, completed]
    rfl
  · exact .inl ⟨waiting, by rw [submitted, completed]⟩
  · rw [arrived]
    exact Nat.zero_le _
  · rw [consumed, completed]
    rfl
  · rw [submitted, written, posted, completed]
    decide
  · intro n cid h
    rw [waiting] at h
    cases h
  · rw [submitted, written, arrived, queue]
    rfl
  · rw [written, completed]
    exact fun h => absurd h (Nat.lt_irrefl 0)
  · rw [controller]
    rfl
  · rw [controller]
    rfl
  · rw [controller, posted]
    rfl
  · rw [controller, posted]
    rfl
  · rw [controller, posted]
    rfl
  · rw [posted]
    apply Tagged.init
    intro i hi
    rw [clear i hi]
    rfl
  · rw [posted, completed]
    exact fun h => absurd h (Nat.lt_irrefl 0)

theorem DriverInv.submits_tail (inv : DriverInv s) (value : BitVec 32) :
    s.queue.submits (.doorbell s.queue.doorbellTail value) = true :=
  bne_iff_ne.mpr inv.doorbells

/-- A submission goes into the slot of its number. -/
theorem DriverInv.submit (inv : DriverInv s) (cmd : NvmeSQEntry) :
    s.queue.submitCommand cmd = { s.queue with
      tail := ringIndex (s.submitted + 1)
      stores := s.queue.stores ++
        [.slot (s.queue.slotAddr (s.submitted % ringSize)) cmd,
          .doorbell s.queue.doorbellTail ((ringIndex (s.submitted + 1)).zeroExtend 32)] } := by
  simp only [NvmeQueue.submitCommand, inv.size, inv.tail, slotAddr_tail, ringIndex_succ]

/-- A completion consumed moves the head on. -/
theorem DriverInv.consume (inv : DriverInv s) :
    s.queue.consume = { s.queue with
      head := ringIndex (s.completed + 1)
      phase := ringPhase (s.completed + 1)
      stores := s.queue.stores ++
        [.doorbell s.queue.doorbellHead ((ringIndex (s.completed + 1)).zeroExtend 32)] } := by
  simp only [NvmeQueue.consume, inv.size, inv.head, inv.phase, ringIndex_succ, ringPhase_succ]

theorem RingInv.call (inv : RingInv s) (idle : s.waiting = none) (c : NvmeCall) :
    RingInv { s with
      queue := s.queue.submitCommand c.command
      waiting := some (s.submitted, c.cid)
      submitted := s.submitted + 1 } := by
  obtain ⟨driver, rung, fetched, cmd, device⟩ := inv
  have same : s.submitted = s.completed := by
    rcases driver.waiting with ⟨-, same⟩ | ⟨cid, busy, -⟩
    · exact same
    · rw [idle] at busy
      cases busy
  obtain ⟨posted, fetches, rings, writes, submits, -⟩ := device.stages
  rw [driver.submit]
  refine ⟨{ driver with tail := rfl, waiting := ?_, arrived := ?_ }, rung, fetched, c.command,
    { device with
      stages := ?_, cid := ?_, pending := ?_, slot := ?_, inFlight := ?_, answer := ?_ }⟩
  · exact .inr ⟨c.cid, by rw [same], by rw [same]⟩
  · show s.arrived ≤ (s.queue.stores ++ _).length
    rw [List.length_append]
    exact Nat.le_add_right_of_le driver.arrived
  · show s.completed ≤ s.posted ∧ s.posted ≤ fetched ∧ fetched ≤ rung ∧ rung ≤ s.written ∧
      s.written ≤ s.submitted + 1 ∧ s.submitted + 1 ≤ s.completed + 1
    omega
  · intro n cid busy
    obtain ⟨-, rfl⟩ := Prod.mk.inj (Option.some.inj busy)
    exact c.command_cid
  · -- behind what was pending come the slot and the doorbell
    show (List.drop s.arrived (s.queue.stores ++ _)).filter s.queue.submits =
      (if s.written < s.submitted + 1 then _ else []) ++ if rung < s.submitted + 1 then _ else []
    have nothing : (s.queue.stores.drop s.arrived).filter s.queue.submits = [] := by
      rw [device.pending, if_neg (by omega), if_neg (by omega)]
      rfl
    rw [List.drop_append_of_le_length driver.arrived, List.filter_append, nothing,
      if_pos (by omega), if_pos (by omega), same, List.nil_append, List.filter_cons_of_pos rfl,
      List.filter_cons_of_pos (driver.submits_tail _)]
    rfl
  · intro late
    have late : s.completed < s.written := late
    omega
  · show s.controller.inFlight = if s.posted < fetched then _ else []
    rw [device.inFlight, if_neg (by omega), if_neg (by omega)]
  · intro late
    have late : s.completed < s.posted := late
    omega

theorem RingInv.arrive (inv : RingInv s) {store : NvmeStore}
    (next : s.queue.stores[s.arrived]? = some store) :
    RingInv { s.deliver store with arrived := s.arrived + 1 } := by
  obtain ⟨driver, rung, fetched, cmd, device⟩ := inv
  obtain ⟨posted, fetches, rings, writes, submits, busy⟩ := device.stages
  obtain ⟨lt, get⟩ := List.getElem?_eq_some_iff.mp next
  have split : s.queue.stores.drop s.arrived = store :: s.queue.stores.drop (s.arrived + 1) := by
    rw [List.drop_eq_getElem_cons lt, get]
  have pending := device.pending
  rw [split] at pending
  cases store with
  | slot addr value =>
      rw [List.filter_cons_of_pos rfl] at pending
      by_cases late : s.written < s.submitted
      · -- the command reaches its slot; its doorbell is still to come
        rw [if_pos late, if_pos (by omega)] at pending
        obtain ⟨here, rest⟩ := List.cons.inj pending
        obtain ⟨rfl, rfl⟩ := NvmeStore.slot.inj here
        refine ⟨{ driver with arrived := lt }, rung, fetched, value,
          { device with stages := ?_, pending := ?_, slot := ?_ }⟩
        · show s.completed ≤ s.posted ∧ s.posted ≤ fetched ∧ fetched ≤ rung ∧
            rung ≤ s.written + 1 ∧ s.written + 1 ≤ s.submitted ∧ s.submitted ≤ s.completed + 1
          omega
        · show (s.queue.stores.drop (s.arrived + 1)).filter s.queue.submits =
            (if s.written + 1 < s.submitted then _ else []) ++ if rung < s.submitted then _ else []
          rw [rest, if_neg (by omega), if_pos (by omega)]
          rfl
        · intro _
          have number : s.written = s.completed := by omega
          exact ⟨Function.update_self .., (Function.update_self ..).trans number⟩
      · -- no slot is pending
        rw [if_neg late] at pending
        split at pending
        · cases (List.cons.inj pending).1
        · cases pending
  | doorbell addr value =>
      by_cases head : addr = s.queue.doorbellHead
      · -- the head doorbell
        subst head
        have other : (s.queue.doorbellHead != s.queue.doorbellHead) = false := bne_self_eq_false _
        rw [List.filter_cons_of_neg (by rw [NvmeQueue.submits, other]; decide)] at pending
        have same : s.deliver (.doorbell s.queue.doorbellHead value) = s :=
          if_neg driver.doorbells.symm
        rw [same]
        exact ⟨{ driver with arrived := lt }, rung, fetched, cmd,
          { device with pending := pending }⟩
      · have this : s.queue.submits (.doorbell addr value) = true := bne_iff_ne.mpr head
        rw [List.filter_cons_of_pos this] at pending
        by_cases late : s.written < s.submitted
        · -- the slot comes first
          rw [if_pos late] at pending
          cases (List.cons.inj pending).1
        · by_cases ring : rung < s.submitted
          · -- the command has reached its slot, and now it is announced
            rw [if_neg late, if_pos ring] at pending
            obtain ⟨here, rest⟩ := List.cons.inj pending
            obtain ⟨rfl, rfl⟩ := NvmeStore.doorbell.inj here
            have same : s.deliver (.doorbell s.queue.doorbellTail
                ((ringIndex s.submitted).zeroExtend 32)) = { s with
                  controller.tailDoorbell := (ringIndex s.submitted).zeroExtend 32 } := if_pos rfl
            rw [same]
            refine ⟨{ driver with arrived := lt }, s.submitted, fetched, cmd,
              { device with stages := ?_, pending := ?_, tailDoorbell := rfl }⟩
            · show s.completed ≤ s.posted ∧ s.posted ≤ fetched ∧ fetched ≤ s.submitted ∧
                s.submitted ≤ s.written ∧ s.written ≤ s.submitted ∧ s.submitted ≤ s.completed + 1
              omega
            · show (s.queue.stores.drop (s.arrived + 1)).filter s.queue.submits =
                (if s.written < s.submitted then _ else []) ++
                  if s.submitted < s.submitted then _ else []
              rw [rest, if_neg late, if_neg (Nat.lt_irrefl _)]
              rfl
          · -- nothing is pending
            rw [if_neg late, if_neg ring] at pending
            cases pending

theorem RingInv.fetch (inv : RingInv s)
    (ahead : s.controller.sqHead ≠ s.controller.tailDoorbell.toNat) :
    RingInv { s with controller := { s.controller with
      sqHead := if s.controller.sqHead + 1 = ringSize then 0 else s.controller.sqHead + 1
      inFlight := s.controller.inFlight ++ [(s.sqNumber (s.queue.slotAddr s.controller.sqHead),
        s.sq (s.queue.slotAddr s.controller.sqHead))] } } := by
  obtain ⟨driver, rung, fetched, cmd, device⟩ := inv
  obtain ⟨posted, fetches, rings, writes, submits, busy⟩ := device.stages
  have value : s.controller.tailDoorbell.toNat = rung % ringSize := by
    have lt : rung % ringSize < 64 := Nat.mod_lt rung (by decide)
    rw [device.tailDoorbell, BitVec.zeroExtend, BitVec.toNat_setWidth, ringIndex_toNat]
    omega
  -- one command at a time: the one announced and not fetched is the one waited for
  rw [device.sqHead, value] at ahead
  have late : fetched ≠ rung := fun same => ahead (by rw [same])
  have here : fetched = s.completed := by omega
  obtain ⟨command, number⟩ := device.slot (by omega)
  rw [device.sqHead, here, command, number]
  refine ⟨{ driver with }, rung, fetched + 1, cmd,
    { device with stages := ?_, sqHead := ?_, inFlight := ?_ }⟩
  · show s.completed ≤ s.posted ∧ s.posted ≤ fetched + 1 ∧ fetched + 1 ≤ rung ∧ rung ≤ s.written ∧
      s.written ≤ s.submitted ∧ s.submitted ≤ s.completed + 1
    omega
  · rw [here]
    exact succ_index s.completed
  · show s.controller.inFlight ++ [(s.completed, cmd)] =
      if s.posted < fetched + 1 then [(s.completed, cmd)] else []
    rw [device.inFlight, if_neg (by omega), if_pos (by omega)]
    rfl

theorem RingInv.post (inv : RingInv s) {command : Nat × NvmeSQEntry}
    (fetched : command ∈ s.controller.inFlight) (cdw0 reserved : BitVec 32)
    (sqHead sqId code : BitVec 16) :
    RingInv (s.post command cdw0 reserved sqHead sqId code) := by
  obtain ⟨driver, rung, fetches, cmd, device⟩ := inv
  obtain ⟨posted, later, rings, writes, submits, busy⟩ := device.stages
  have late : s.posted < fetches := by
    rw [device.inFlight] at fetched
    by_contra none
    rw [if_neg none] at fetched
    cases fetched
  -- and the one fetched and not answered, too
  have alone : s.controller.inFlight = [(s.completed, cmd)] := by rw [device.inFlight, if_pos late]
  obtain rfl : command = (s.completed, cmd) := by
    rw [alone] at fetched
    exact List.mem_singleton.mp fetched
  have here : s.posted = s.completed := by omega
  have tail := device.cqTail
  have phase := device.phase
  refine ⟨{ driver with }, rung, fetches, cmd,
    { device with
      stages := ?_, inFlight := ?_, cqTail := ?_, phase := ?_, tags := ?_, answer := ?_ }⟩
  · show s.completed ≤ s.posted + 1 ∧ s.posted + 1 ≤ fetches ∧ fetches ≤ rung ∧ rung ≤ s.written ∧
      s.written ≤ s.submitted ∧ s.submitted ≤ s.completed + 1
    omega
  · show s.controller.inFlight.erase (s.completed, cmd) =
      if s.posted + 1 < fetches then [(s.completed, cmd)] else []
    rw [alone, if_neg (by omega), List.erase_cons_head]
  · show (if s.controller.cqTail + 1 = ringSize then 0 else s.controller.cqTail + 1) = _
    rw [tail]
    exact succ_index s.posted
  · show (if s.controller.cqTail + 1 = ringSize then !s.controller.phase
      else s.controller.phase) = _
    rw [tail, phase]
    exact succ_tag s.posted
  · -- the tags of the other entries stay
    intro i hi
    have written := device.tags.write (by decide) i hi
    refine Eq.trans ?_ written
    show (Function.update s.cq (s.queue.entryAddr s.controller.cqTail) _
      (s.queue.entryAddr i)).status.getLsbD 0 = _
    rw [tail]
    by_cases same : i = s.posted % ringSize
    · subst same
      rw [Function.update_self, Function.update_self, phase]
      exact posted_tag code _
    · have apart := entryAddr_ne s.queue hi (Nat.mod_lt s.posted (by decide)) same
      rw [Function.update_of_ne apart, Function.update_of_ne same]
  · intro _
    have addr : s.queue.entryAddr s.controller.cqTail =
        s.queue.entryAddr (s.completed % ringSize) := by rw [tail, here]
    show (Function.update s.cq (s.queue.entryAddr s.controller.cqTail) _
        (s.queue.entryAddr (s.completed % ringSize))).commandID = _ ∧
      Function.update s.cqNumber (s.queue.entryAddr s.controller.cqTail) _
        (s.queue.entryAddr (s.completed % ringSize)) = _
    rw [addr, Function.update_self, Function.update_self]
    exact ⟨rfl, rfl⟩

/-- The entry at the head is new exactly when the completion waited for has been
posted. -/
theorem RingInv.new_iff (inv : RingInv s) :
    (s.cq (s.queue.entryAddr s.queue.head.toNat)).status &&& 0x1 = s.queue.phase ↔
      s.completed < s.posted := by
  obtain ⟨driver, rung, fetched, cmd, device⟩ := inv
  obtain ⟨posted, later, rings, writes, submits, busy⟩ := device.stages
  have size : ringSize = 64 := rfl
  rw [driver.phase, ringPhase, status_tag, driver.head, ringIndex_toNat]
  exact device.tags.new_iff (by decide) posted (by omega)

/-- Until then the driver sees what the pass before left, and waits. -/
theorem RingInv.look_old (inv : RingInv s) (wait : ¬ s.completed < s.posted) (n : Nat)
    (cid : BitVec 16) : s.look n cid = s := by
  have old := mt inv.new_iff.mp wait
  simp only [NvmeSystem.look, NvmeQueue.poll, if_neg old, Bool.false_eq_true, if_false]

/-- Then it consumes that completion and returns. -/
theorem RingInv.look_new (inv : RingInv s) (ready : s.completed < s.posted) {cid : BitVec 16}
    (waits : s.waiting = some (s.completed, cid)) :
    s.look s.completed cid = { s with
      queue := s.queue.consume
      waiting := none
      completed := s.completed + 1
      consumed := (s.completed, some s.completed) :: s.consumed } := by
  have new := inv.new_iff.mpr ready
  obtain ⟨driver, rung, fetched, cmd, device⟩ := inv
  obtain ⟨own, number⟩ := device.answer ready
  rw [device.cid _ _ waits, ← ringIndex_toNat, ← driver.head] at own
  rw [← ringIndex_toNat, ← driver.head] at number
  have same : ((s.cq (s.queue.entryAddr s.queue.head.toNat)).commandID == cid) = true :=
    beq_iff_eq.mpr own
  simp only [NvmeSystem.look, NvmeQueue.poll, if_pos new, same, number, if_true]

theorem RingInv.poll (inv : RingInv s) {n : Nat} {cid : BitVec 16}
    (waits : s.waiting = some (n, cid)) : RingInv (s.look n cid) := by
  obtain ⟨same, next⟩ : n = s.completed ∧ s.submitted = s.completed + 1 := by
    rcases inv.driver.waiting with ⟨idle, -⟩ | ⟨cid', busy, next⟩
    · rw [idle] at waits
      cases waits
    · rw [busy] at waits
      exact ⟨(Prod.mk.inj (Option.some.inj waits)).1.symm, next⟩
  subst same
  by_cases ready : s.completed < s.posted
  · rw [inv.look_new ready waits]
    obtain ⟨driver, rung, fetched, cmd, device⟩ := inv
    obtain ⟨posted, later, rings, writes, submits, busy⟩ := device.stages
    have number := (device.answer ready).2
    rw [driver.consume]
    refine ⟨{ driver with
        head := rfl, phase := rfl, waiting := .inl ⟨rfl, next⟩, arrived := ?_, consumed := ?_ },
      rung, fetched, cmd, { device with
        stages := ?_, cid := ?_, pending := ?_, slot := ?_, inFlight := ?_, answer := ?_ }⟩
    · show s.arrived ≤ (s.queue.stores ++ _).length
      rw [List.length_append]
      exact Nat.le_add_right_of_le driver.arrived
    · show (s.completed, some s.completed) :: s.consumed =
        (List.range (s.completed + 1)).reverse.map fun n => (n, some n)
      rw [List.range_succ, List.reverse_append, List.reverse_singleton, List.singleton_append,
        List.map_cons, driver.consumed]
    · show s.completed + 1 ≤ s.posted ∧ s.posted ≤ fetched ∧ fetched ≤ rung ∧ rung ≤ s.written ∧
        s.written ≤ s.submitted ∧ s.submitted ≤ s.completed + 1 + 1
      omega
    · intro n cid h
      cases h
    · -- only the head doorbell is pending
      show (List.drop s.arrived (s.queue.stores ++ _)).filter s.queue.submits =
        (if s.written < s.submitted then _ else []) ++ if rung < s.submitted then _ else []
      have nothing : (s.queue.stores.drop s.arrived).filter s.queue.submits = [] := by
        rw [device.pending, if_neg (by omega), if_neg (by omega)]
        rfl
      have head (value : BitVec 32) :
          ¬ s.queue.submits (.doorbell s.queue.doorbellHead value) = true := by
        rw [NvmeQueue.submits, bne_self_eq_false]
        decide
      rw [List.drop_append_of_le_length driver.arrived, List.filter_append, nothing,
        List.filter_cons_of_neg (head _), if_neg (by omega), if_neg (by omega)]
      rfl
    · intro more
      have more : s.completed + 1 < s.written := more
      omega
    · show s.controller.inFlight = if s.posted < fetched then _ else []
      rw [device.inFlight, if_neg (by omega), if_neg (by omega)]
    · intro more
      have more : s.completed + 1 < s.posted := more
      omega
  · rw [inv.look_old ready]
    exact inv

end Step

/-- `RingInv` holds in every run. -/
theorem NvmeSystem.invariant : NvmeSystem.sys.Invariant RingInv := by
  refine TSys.Inductive.invariant ⟨?_, ?_⟩
  · intro s start
    exact ringInv_init start
  · intro s e s' inv next
    have next : s.step e = some s' := next
    cases e with
    | call c =>
        cases idle : s.waiting with
        | some w =>
            simp only [NvmeSystem.step, idle] at next
            cases next
        | none =>
            simp only [NvmeSystem.step, idle, Option.some.injEq] at next
            rw [← next]
            exact inv.call idle c
    | poll =>
        obtain ⟨w, waits, rfl⟩ := Option.map_eq_some_iff.mp next
        exact inv.poll waits
    | arrive =>
        obtain ⟨store, here, rfl⟩ := Option.map_eq_some_iff.mp next
        exact inv.arrive here
    | fetch =>
        simp only [NvmeSystem.step] at next
        split at next
        · cases next
        · rename_i ahead
          rw [← Option.some.inj next]
          exact inv.fetch ahead
    | post command cdw0 reserved sqHead sqId code =>
        simp only [NvmeSystem.step] at next
        split at next
        · rename_i fetched
          rw [← Option.some.inj next]
          exact inv.post fetched cdw0 reserved sqHead sqId code
        · cases next

end Coolos
