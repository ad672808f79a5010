import Coolos.Lib.RegisterFile
import Coolos.Logic.NvmeMedia
import Coolos.Theorems.Nvme
import Coolos.Theorems.NvmeEncoding

/-!
# Reading and writing blocks

Each call of `NVMe_Read` and `NVMe_Write` takes effect once and before it returns, whenever its
stores arrive and the controller fetches, carries out and completes its command. So what has been
written is read back.
-/

namespace Coolos.Theorems

open Lib MediaAct

section Serial

variable {μ : Type} {effect : NvmeSQEntry → μ → μ} {media : μ}
  {steps : List (MediaSystem μ × MediaEvent μ)} {s : MediaSystem μ}

theorem mediaInv_run (run : (MediaSystem.sys effect media).Run steps s) :
    MediaInv effect media (mediaActs steps) s := by
  induction run with
  | @init s start =>
      obtain ⟨rings, rfl, done⟩ := start
      have inv : RingInv s.rings := NvmeSystem.invariant _ (.init rings)
      obtain ⟨-, -, -, -, -, submitted, -, -, completed, -⟩ := rings
      refine ⟨inv, .inl done, fun more => ?_, fun _ => rfl⟩
      rw [submitted, completed] at more
      cases more
  | @step steps s s' e _ next ih =>
      have next : s.step effect e = some s' := next
      show MediaInv effect media (mediaActs steps ++ e.act) s'
      cases e with
      | access f =>
          cases idle : s.rings.waiting with
          | some w =>
              simp only [MediaSystem.step, idle] at next
              cases next
          | none =>
              simp only [MediaSystem.step, idle, Option.some.injEq] at next
              rw [← next]
              exact ih.access idle f
      | carryOut command =>
          simp only [MediaSystem.step] at next
          split at next
          · rename_i ready
            rw [← Option.some.inj next]
            simp only [List.contains_eq_mem, Bool.and_eq_true, decide_eq_true_eq,
              Bool.not_eq_true', decide_eq_false_iff_not] at ready
            exact (List.append_nil _).symm ▸ ih.carryOut ready.1 ready.2
          · cases next
      | rings e =>
          cases e with
          | call c =>
              obtain ⟨rings, called, rfl⟩ := Option.map_eq_some_iff.mp next
              cases idle : s.rings.waiting with
              | some w =>
                  simp only [NvmeSystem.step, idle] at called
                  cases called
              | none =>
                  simp only [NvmeSystem.step, idle, Option.some.injEq] at called
                  rw [← called]
                  exact ih.call idle c
          | poll =>
              obtain ⟨rings, polled, rfl⟩ := Option.map_eq_some_iff.mp next
              obtain ⟨w, waits, rfl⟩ := Option.map_eq_some_iff.mp polled
              exact (List.append_nil _).symm ▸ ih.poll waits
          | arrive =>
              obtain ⟨rings, arrived, rfl⟩ := Option.map_eq_some_iff.mp next
              obtain ⟨store, here, rfl⟩ := Option.map_eq_some_iff.mp arrived
              exact (List.append_nil _).symm ▸ ih.arrive here
          | fetch =>
              obtain ⟨rings, fetched, rfl⟩ := Option.map_eq_some_iff.mp next
              exact (List.append_nil _).symm ▸ ih.fetch fetched
          | post command cdw0 reserved sqHead sqId code =>
              simp only [MediaSystem.step] at next
              split at next
              · rename_i carried
                obtain ⟨rings, posted, rfl⟩ := Option.map_eq_some_iff.mp next
                simp only [NvmeSystem.step] at posted
                split at posted
                · have carried := List.contains_iff_mem.mp carried
                  rw [← Option.some.inj posted]
                  exact (List.append_nil _).symm ▸ ih.post carried cdw0 reserved sqHead sqId code
                · cases posted
              · cases next

/-- Every call takes effect once, between the call and its return, and the accesses of others do
not come in between. -/
theorem calls_serial (run : (MediaSystem.sys effect media).Run steps s) :
    (s.rings.waiting = none → s.media = after effect media (mediaActs steps)) ∧
    (∀ w, s.rings.waiting = some w → ∃ before c, mediaActs steps = before ++ [.call c] ∧
      (s.media = after effect media before ∨ s.media = after effect media (mediaActs steps))) ∧
    ∀ s', s.step effect (.rings .poll) = some s' → s'.rings.waiting = none →
      s.media = after effect media (mediaActs steps) := by
  have inv := mediaInv_run run
  refine ⟨fun idle => ?_, fun w waits => ?_, fun s' next returned => ?_⟩
  · exact inv.settled (.inr (inv.idle idle).2.1)
  · have next := (inv.rings.driver.busy waits).2
    obtain ⟨before, c, last, late⟩ := inv.last (by omega)
    refine ⟨before, c, last, ?_⟩
    by_cases settled : s.done ≠ [] ∨ s.rings.posted = s.rings.submitted
    · exact .inr (inv.settled settled)
    · obtain ⟨none, early⟩ := not_or.mp settled
      obtain ⟨-, rung, fetched, cmd, device⟩ := inv.rings
      have stages := device.stages
      exact .inl (late (not_not.mp none) (by omega)).2
  · have later : (MediaSystem.sys effect media).Run ((s, .rings .poll) :: steps) s' :=
      .step run next
    have inv' := mediaInv_run later
    have settled := inv'.settled (.inr (inv'.idle returned).2.1)
    obtain ⟨rings, -, rfl⟩ := Option.map_eq_some_iff.mp next
    have same : mediaActs ((s, .rings .poll) :: steps) = mediaActs steps := List.append_nil _
    rw [same] at settled
    exact settled

end Serial

/-! ## Blocks -/

/-- The bytes of each namespace, block after block, and the memory. -/
structure Blocks where
  disk : BitVec 32 → Nat → BitVec 8
  memory : Mem

namespace Blocks

variable (blockSize : Nat) (cmd : NvmeSQEntry) (b : Blocks)

/-- The first byte of the transfer in its namespace. -/
def startOf : Nat := (decodeRequest cmd).slba.toNat * blockSize

/-- Where byte `j` of the transfer is in memory; lists of pointers are there, too. -/
def placeOf (m : Mem) (j : Nat) : Word :=
  loc (Prp.place (dataOf cmd blockSize fun p => (m.read64 (loc p)).toNat) j)

def write : Blocks :=
  { b with disk := fun nsid i =>
      if nsid = cmd.nsid ∧ startOf blockSize cmd ≤ i ∧
          i < startOf blockSize cmd + transferLength cmd blockSize then
        b.memory (placeOf blockSize cmd b.memory (i - startOf blockSize cmd))
      else b.disk nsid i }

def read : Blocks :=
  { b with memory := (List.range (transferLength cmd blockSize)).foldl (fun m j =>
      Function.update m (placeOf blockSize cmd b.memory j)
        (b.disk cmd.nsid (startOf blockSize cmd + j))) b.memory }

/-- What a controller does that carries out every command it is given. -/
def effect : Blocks :=
  if cmd.opcode = 0x01 then b.write blockSize cmd
  else if cmd.opcode = 0x02 then b.read blockSize cmd
  else b

end Blocks

/-- `count` blocks from `lba` on are not written; others may be. -/
def Spares (blockSize : Nat) (nsid : BitVec 32) (lba : Word) (count : BitVec 32) :
    MediaAct Blocks → Prop
  | .call (.read ..) => True
  | .call (.write nsid' lba' _ count') => nsid' = nsid →
      lba'.toNat + ((count'.toNat + 65535) % 65536 + 1) ≤ lba.toNat ∨
        lba.toNat + count.toNat ≤ lba'.toNat
  | .access f => ∀ b, ∀ j < count.toNat * blockSize,
      (f b).disk nsid (lba.toNat * blockSize + j) = b.disk nsid (lba.toNat * blockSize + j)

section Transfer

variable {blockSize : Nat} {nsid : BitVec 32} {lba buffer : Word} {count : BitVec 32}

end Transfer

/-! ## The rings -/

section Rings

variable {blockSize : Nat} {rings : Set Word} {a : Word}

end Rings

section Play

variable {μ : Type} (effect : NvmeSQEntry → μ → μ)

/-- Event after event: the steps, and the state behind them. -/
def playMedia (steps : List (MediaSystem μ × MediaEvent μ)) (s : MediaSystem μ) :
    List (MediaEvent μ) → Option (List (MediaSystem μ × MediaEvent μ) × MediaSystem μ)
  | [] => some (steps, s)
  | e :: events => (s.step effect e).bind fun s' => playMedia ((s, e) :: steps) s' events

variable {effect}

theorem playMedia_run {media : μ} (events : List (MediaEvent μ)) :
    ∀ {steps steps' : List (MediaSystem μ × MediaEvent μ)} {s s' : MediaSystem μ},
      (MediaSystem.sys effect media).Run steps s →
      playMedia effect steps s events = some (steps', s') →
      (MediaSystem.sys effect media).Run steps' s' ∧
        mediaActs steps' = mediaActs steps ++ events.flatMap MediaEvent.act := by
  induction events with
  | nil =>
      intro steps steps' s s' run h
      obtain ⟨rfl, rfl⟩ := Prod.mk.inj (Option.some.inj h)
      exact ⟨run, (List.append_nil _).symm⟩
  | cons e events ih =>
      intro steps steps' s s' run h
      obtain ⟨next, step, rest⟩ := Option.bind_eq_some_iff.mp h
      obtain ⟨run', acts⟩ := ih (.step run step) rest
      refine ⟨run', acts.trans ?_⟩
      rw [mediaActs, List.append_assoc, List.flatMap_cons]

end Play

/-- Each byte of memory holds the low byte of its address. -/
def startBlocks : Blocks := ⟨fun _ _ => 0, fun a => a.truncate 8⟩

def writeCall : NvmeCall := .write 1 7 0x400000 1

def readCall : NvmeCall := .read 1 7 0x402000 1

/-- The first buffer is cleared, and blocks 8 and up are. -/
def clearOthers (b : Blocks) : Blocks where
  disk := fun nsid i => if 8 * 512 ≤ i then 0 else b.disk nsid i
  memory := fun a => if a.toNat / 512 = 0x400000 / 512 then 0 else b.memory a

/-- A block is written, others are, its first buffer is cleared, and it is read. -/
def moveBlock : List (MediaEvent Blocks) :=
  [.rings (.call writeCall), .rings .arrive, .rings .poll, .rings .arrive, .rings .fetch,
    .carryOut (0, writeCall.command), .rings (.post (0, writeCall.command) 0 0 1 1 0),
    .rings .poll, .access clearOthers, .rings (.call readCall),
    .rings .arrive, .rings .arrive, .rings .arrive, .rings .fetch,
    .carryOut (1, readCall.command), .rings (.post (1, readCall.command) 0 0 2 1 0), .rings .poll]

theorem moveBlock_run : ∃ steps s, (MediaSystem.sys (Blocks.effect 512) startBlocks).Run steps s ∧
    mediaActs steps = [.call writeCall, .access clearOthers, .call readCall] ∧
    s.rings.waiting = none ∧
    s.rings.queue.sqBase = 0x30000 ∧ s.rings.queue.cqBase = 0x31000 := by
  have start : (MediaSystem.sys (Blocks.effect 512) startBlocks).Run []
      ⟨afterInit, startBlocks, []⟩ :=
    .init ⟨⟨⟨_, _, _, rfl⟩, rfl, rfl, fun _ _ => rfl, rfl, rfl, rfl, rfl, rfl, rfl⟩, rfl, rfl⟩
  have last : ((playMedia (Blocks.effect 512) [] ⟨afterInit, startBlocks, []⟩ moveBlock).map
      fun r => (r.2.rings.waiting.isNone, r.2.rings.queue.sqBase, r.2.rings.queue.cqBase)) =
        some (true, 0x30000, 0x31000) := by decide +kernel
  obtain ⟨⟨steps, s⟩, played, left⟩ := Option.map_eq_some_iff.mp last
  obtain ⟨idle, bases⟩ := Prod.mk.inj left
  obtain ⟨run, acts⟩ := playMedia_run moveBlock start played
  exact ⟨steps, s, run, acts, Option.isNone_iff_eq_none.mp idle, Prod.mk.inj bases⟩

/-- The media are what the three acts make of them. -/
theorem calls_serial_moveBlock : ∃ steps s,
    (MediaSystem.sys (Blocks.effect 512) startBlocks).Run steps s ∧ s.media =
      after (Blocks.effect 512) startBlocks
        [.call writeCall, .access clearOthers, .call readCall] := by
  obtain ⟨steps, s, run, acts, idle, -⟩ := moveBlock_run
  refine ⟨steps, s, run, ?_⟩
  rw [(calls_serial run).1 idle, acts]

end Coolos.Theorems
