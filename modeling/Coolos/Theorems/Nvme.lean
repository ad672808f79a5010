import Coolos.Logic.NvmeRing

/-!
# The NVMe I/O rings

Driver and controller keep their own indices and phase over rings that always
hold stale entries. They agree after any number of calls and with any timing of
the controller.
-/

namespace Coolos.Theorems

open Lib PhaseRing

/-- The indices and the phase follow the number of calls that have returned, each of
which consumed the completion of its own command and no other. -/
structure RingsAgree (s : NvmeSystem) : Prop where
  tail : s.waiting = none → s.queue.tail.toNat = s.completed % 64
  head : s.queue.head.toNat = s.completed % 64
  phase : s.queue.phase = if s.completed / 64 % 2 = 0 then 1 else 0
  consumed : s.consumed = (List.range s.completed).reverse.map fun n => (n, some n)
  /-- A completion posted and not consumed is the one waited for, at the head. -/
  kept : s.posted = s.completed ∨ s.posted = s.completed + 1 ∧
    (∃ cid, s.waiting = some (s.completed, cid)) ∧
      s.cqNumber (s.queue.entryAddr s.queue.head.toNat) = some s.completed
  /-- Until it is posted a poll changes nothing. -/
  early : ∀ n cid, s.waiting = some (n, cid) → s.posted ≤ n → s.step .poll = some s
  /-- Then the first poll consumes it and returns. -/
  returns : ∀ n cid, s.waiting = some (n, cid) → n < s.posted →
    ∃ s', s.step .poll = some s' ∧ s'.waiting = none ∧ s'.completed = s.completed + 1 ∧
      s'.consumed = (n, some n) :: s.consumed
  /-- A slot is written when all commands that were in slots are completed. -/
  slots : ∀ addr cmd, s.queue.stores[s.arrived]? = some (.slot addr cmd) → s.posted = s.written

/-- The next store is a command only when all before are completed. -/
theorem RingInv.slots {s : NvmeSystem} (inv : RingInv s) {addr : Word} {cmd : NvmeSQEntry}
    (next : s.queue.stores[s.arrived]? = some (.slot addr cmd)) : s.posted = s.written := by
  obtain ⟨driver, rung, fetched, current, device⟩ := inv
  obtain ⟨posted, later, rings, writes, submits, busy⟩ := device.stages
  obtain ⟨lt, get⟩ := List.getElem?_eq_some_iff.mp next
  have pending := device.pending
  rw [List.drop_eq_getElem_cons lt, get, List.filter_cons_of_pos rfl] at pending
  by_cases late : s.written < s.submitted
  · omega
  · rw [if_neg late] at pending
    split at pending
    · cases (List.cons.inj pending).1
    · cases pending

/-- The ring protocol holds in every run, whenever the driver calls, its stores arrive
and the controller answers. -/
theorem rings_agree : NvmeSystem.sys.Invariant RingsAgree := by
  intro s hs
  have inv : RingInv s := NvmeSystem.invariant s hs
  have waited : ∀ n cid, s.waiting = some (n, cid) → n = s.completed := by
    intro n cid waits
    rcases inv.driver.waiting with ⟨idle, -⟩ | ⟨cid', busy, -⟩
    · rw [idle] at waits
      cases waits
    · rw [busy] at waits
      exact (Prod.mk.inj (Option.some.inj waits)).1.symm
  refine ⟨?_, ?_, ?_, inv.driver.consumed, ?_, ?_, ?_, ?_⟩
  · intro idle
    rcases inv.driver.waiting with ⟨-, same⟩ | ⟨cid, busy, -⟩
    · rw [inv.driver.tail, ringIndex_toNat, same]
      rfl
    · rw [idle] at busy
      cases busy
  · rw [inv.driver.head, ringIndex_toNat]
    rfl
  · rw [inv.driver.phase, ringPhase, tag]
    simp only [beq_iff_eq]
    rfl
  · obtain ⟨rung, fetched, cmd, device⟩ := inv.device
    obtain ⟨posted, later, rings, writes, submits, busy⟩ := device.stages
    by_cases same : s.posted = s.completed
    · exact .inl same
    · have next : s.completed < s.posted := by omega
      refine .inr ⟨by omega, ?_, ?_⟩
      · rcases inv.driver.waiting with ⟨-, idle⟩ | ⟨cid, waits, -⟩
        · omega
        · exact ⟨cid, waits⟩
      · rw [inv.driver.head, ringIndex_toNat]
        exact (device.answer next).2
  · intro n cid waits early
    obtain rfl := waited n cid waits
    show s.waiting.map _ = some s
    rw [waits]
    exact congrArg some (inv.look_old (Nat.not_lt.mpr early) s.completed cid)
  · intro n cid waits ready
    obtain rfl := waited n cid waits
    refine ⟨s.look s.completed cid, ?_, ?_⟩
    · show s.waiting.map _ = _
      rw [waits]
      rfl
    · rw [inv.look_new ready waits]
      exact ⟨rfl, rfl, rfl⟩
  · intro addr cmd next
    exact RingInv.slots inv next

/-- Both sides after `NVMe_Init`, the registers at 0xF0000000. -/
def afterInit : NvmeSystem where
  queue := NvmeQueue.setupIOQueue 0xF0000000 0x30000 0x31000
  waiting := none
  arrived := 0
  sq := fun _ => NvmeSQEntry.zero
  cq := fun _ => ⟨0, 0, 0, 0, 0, 0⟩
  controller := ⟨0, 0, [], 0, true⟩
  submitted := 0
  written := 0
  posted := 0
  completed := 0
  sqNumber := fun _ => 0
  cqNumber := fun _ => none
  consumed := []

/-- A block is read, and the driver polls once too early. -/
def readBlock : List NvmeEvent :=
  [.call (.read 1 0 0x400000 1), .poll, .arrive, .arrive, .fetch,
    .post (0, NvmeQueue.ioCommand 0x02 100 1 0 0x400000 1) 0 0 1 1 0, .poll]

/-- One event after the other. -/
def afterEvents (s : NvmeSystem) : List NvmeEvent → Option NvmeSystem
  | [] => some s
  | e :: events => (s.step e).bind fun s => afterEvents s events

theorem reachable_events (events : List NvmeEvent) : ∀ {s s' : NvmeSystem},
    NvmeSystem.sys.Reachable s → afterEvents s events = some s' → NvmeSystem.sys.Reachable s' := by
  induction events with
  | nil =>
      intro s s' hs h
      exact Option.some.inj h ▸ hs
  | cons e events ih =>
      intro s s' hs h
      obtain ⟨next, step, rest⟩ := Option.bind_eq_some_iff.mp h
      exact ih (.step hs step) rest

def blockRead : NvmeSystem := (afterEvents afterInit readBlock).getD afterInit

theorem blockRead_reachable : NvmeSystem.sys.Reachable blockRead := by
  have start : NvmeSystem.sys.Reachable afterInit :=
    .init ⟨⟨_, _, _, rfl⟩, rfl, rfl, fun _ _ => rfl, rfl, rfl, rfl, rfl, rfl, rfl⟩
  have possible : (afterEvents afterInit readBlock).isSome = true := by decide +kernel
  obtain ⟨s, hs⟩ := Option.isSome_iff_exists.mp possible
  have same : blockRead = s := by rw [blockRead, hs, Option.getD_some]
  rw [same]
  exact reachable_events readBlock start hs

theorem rings_agree_blockRead : blockRead.completed = 1 ∧ RingsAgree blockRead :=
  ⟨by decide +kernel, rings_agree blockRead blockRead_reachable⟩

end Coolos.Theorems
