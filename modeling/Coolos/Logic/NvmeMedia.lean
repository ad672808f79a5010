import Coolos.Logic.NvmeRing

/-!
# What the commands do

The rings beside the media the commands work on: the blocks of the controller, the memory. When
the controller carries out a command it has fetched is its own affair, and what that does is a
parameter here. Between two calls of the driver others have access to the media, too.
-/

namespace Coolos

open Lib PhaseRing

variable {μ : Type}

structure MediaSystem (μ : Type) where
  rings : NvmeSystem
  media : μ
  /-- The commands carried out whose completion is still to come. -/
  done : List (Nat × NvmeSQEntry)

inductive MediaEvent (μ : Type) where
  | rings (e : NvmeEvent)
  | carryOut (command : Nat × NvmeSQEntry)
  | access (f : μ → μ)

/-- What the media are for: the calls of the driver, and what others do. -/
inductive MediaAct (μ : Type) where
  | call (c : NvmeCall)
  | access (f : μ → μ)

namespace MediaSystem

/-- A completion is posted for a command that has been carried out. Nobody runs beside the driver
while it waits. -/
def step (effect : NvmeSQEntry → μ → μ) (s : MediaSystem μ) : MediaEvent μ → Option (MediaSystem μ)
  | .access f =>
      match s.rings.waiting with
      | some _ => none
      | none => some { s with media := f s.media }
  | .carryOut command =>
      if s.rings.controller.inFlight.contains command && !s.done.contains command then
        some { s with media := effect command.2 s.media, done := command :: s.done }
      else none
  | .rings (.post command cdw0 reserved sqHead sqId code) =>
      if s.done.contains command then
        (s.rings.step (.post command cdw0 reserved sqHead sqId code)).map fun rings =>
          { s with rings := rings, done := s.done.erase command }
      else none
  | .rings e => (s.rings.step e).map fun rings => { s with rings := rings }

def sys (effect : NvmeSQEntry → μ → μ) (media : μ) : TSys (MediaSystem μ) (MediaEvent μ) where
  init s := NvmeSystem.sys.init s.rings ∧ s.media = media ∧ s.done = []
  next s e s' := s.step effect e = some s'

end MediaSystem

/-! ## One after the other -/

namespace MediaAct

def run (effect : NvmeSQEntry → μ → μ) (m : μ) : MediaAct μ → μ
  | .call c => effect c.command m
  | .access f => f m

/-- The media when each act is over before the next begins. -/
def after (effect : NvmeSQEntry → μ → μ) (media : μ) (acts : List (MediaAct μ)) : μ :=
  acts.foldl (run effect) media

variable {effect : NvmeSQEntry → μ → μ} {media : μ}

theorem after_append (acts acts' : List (MediaAct μ)) :
    after effect media (acts ++ acts') = after effect (after effect media acts) acts' :=
  List.foldl_append

theorem after_concat (acts : List (MediaAct μ)) (act : MediaAct μ) :
    after effect media (acts ++ [act]) = act.run effect (after effect media acts) :=
  after_append acts [act]

end MediaAct

/-- The act an event begins. -/
def MediaEvent.act : MediaEvent μ → List (MediaAct μ)
  | .rings (.call c) => [.call c]
  | .access f => [.access f]
  | _ => []

/-- The acts of a run, in the order they begin. -/
def mediaActs : List (MediaSystem μ × MediaEvent μ) → List (MediaAct μ)
  | [] => []
  | (_, e) :: steps => mediaActs steps ++ e.act

/-! ## The command under way -/

/-- While the driver does not wait all its calls have returned. -/
theorem DriverInv.idle {s : NvmeSystem} (driver : DriverInv s) (idle : s.waiting = none) :
    s.submitted = s.completed := by
  rcases driver.waiting with ⟨-, same⟩ | ⟨cid, busy, -⟩
  · exact same
  · rw [idle] at busy
    cases busy

/-- While it waits all but one have. -/
theorem DriverInv.busy {s : NvmeSystem} (driver : DriverInv s) {w : Nat × BitVec 16}
    (waits : s.waiting = some w) : w.1 = s.completed ∧ s.submitted = s.completed + 1 := by
  rcases driver.waiting with ⟨idle, -⟩ | ⟨cid, busy, next⟩
  · rw [idle] at waits
    cases waits
  · rw [busy] at waits
    obtain rfl := Option.some.inj waits
    exact ⟨rfl, next⟩

def NvmeStore.command : NvmeStore → Option NvmeSQEntry
  | .slot _ cmd => some cmd
  | .doorbell _ _ => none

/-- The command the driver waits for: still on its way to its slot, or in it. -/
def NvmeSystem.underWay (s : NvmeSystem) : NvmeSQEntry :=
  ((s.queue.stores.drop s.arrived).filterMap NvmeStore.command).headD
    (s.sq (s.queue.slotAddr (s.completed % ringSize)))

section UnderWay

variable {s : NvmeSystem} {rung fetched : Nat} {cmd : NvmeSQEntry}

theorem filterMap_submits (q : NvmeQueue) (stores : List NvmeStore) :
    (stores.filter q.submits).filterMap NvmeStore.command = stores.filterMap NvmeStore.command := by
  rw [List.filterMap_filter]
  congr 1
  funext store
  cases store with
  | slot addr cmd => rfl
  | doorbell addr value =>
      show (if _ then none else none) = none
      rw [ite_self]

theorem DeviceInv.pending_commands (device : DeviceInv s rung fetched cmd) :
    (s.queue.stores.drop s.arrived).filterMap NvmeStore.command =
      if s.written < s.submitted then [cmd] else [] := by
  rw [← filterMap_submits s.queue, device.pending, List.filterMap_append]
  have bell : (if rung < s.submitted then [NvmeStore.doorbell s.queue.doorbellTail
      ((ringIndex s.submitted).zeroExtend 32)] else []).filterMap NvmeStore.command = [] := by
    split <;> rfl
  rw [bell, List.append_nil]
  split <;> rfl

theorem DeviceInv.underWay (device : DeviceInv s rung fetched cmd)
    (busy : s.completed < s.submitted) : s.underWay = cmd := by
  rw [NvmeSystem.underWay, device.pending_commands]
  by_cases late : s.written < s.submitted
  · rw [if_pos late]
    rfl
  · rw [if_neg late]
    exact (device.slot (by have := device.stages; omega)).1

/-- A call is under way as soon as it is made. -/
theorem RingInv.underWay_call (inv : RingInv s) (idle : s.waiting = none) (c : NvmeCall) :
    NvmeSystem.underWay { s with
      queue := s.queue.submitCommand c.command
      waiting := some (s.submitted, c.cid)
      submitted := s.submitted + 1 } = c.command := by
  obtain ⟨driver, rung, fetched, cmd, device⟩ := inv
  have same := driver.idle idle
  have none : (s.queue.stores.drop s.arrived).filterMap NvmeStore.command = [] := by
    rw [device.pending_commands, if_neg (by have := device.stages; omega)]
  rw [driver.submit, NvmeSystem.underWay]
  dsimp only
  rw [List.drop_append_of_le_length driver.arrived, List.filterMap_append, none]
  rfl

/-- And on its way into the slot. -/
theorem RingInv.underWay_arrive (inv : RingInv s) (busy : s.completed < s.submitted)
    {store : NvmeStore} (next : s.queue.stores[s.arrived]? = some store) :
    NvmeSystem.underWay { s.deliver store with arrived := s.arrived + 1 } = s.underWay := by
  have after : RingInv { s.deliver store with arrived := s.arrived + 1 } := inv.arrive next
  obtain ⟨lt, get⟩ := List.getElem?_eq_some_iff.mp next
  have split : s.queue.stores.drop s.arrived = store :: s.queue.stores.drop (s.arrived + 1) := by
    rw [List.drop_eq_getElem_cons lt, get]
  cases store with
  | doorbell addr value =>
      have same : (s.deliver (.doorbell addr value)).sq = s.sq ∧
          (s.deliver (.doorbell addr value)).queue = s.queue ∧
          (s.deliver (.doorbell addr value)).completed = s.completed := by
        rw [NvmeSystem.deliver]
        split <;> exact ⟨rfl, rfl, rfl⟩
      rw [NvmeSystem.underWay, NvmeSystem.underWay, split]
      dsimp only
      rw [same.1, same.2.1, same.2.2]
      rfl
  | slot addr value =>
      -- it is the one pending, and the slot is the one looked at
      obtain ⟨driver, rung, fetched, cmd, device⟩ := inv
      have pending := device.pending_commands
      rw [split] at pending
      have here : value :: (s.queue.stores.drop (s.arrived + 1)).filterMap NvmeStore.command =
          if s.written < s.submitted then [cmd] else [] := pending
      have late : s.written < s.submitted := by
        by_contra early
        rw [if_neg early] at here
        cases here
      rw [if_pos late] at here
      obtain ⟨rfl, rest⟩ := List.cons.inj here
      have stored := device.pending
      rw [split, if_pos late, List.filter_cons_of_pos rfl] at stored
      obtain ⟨same, -⟩ := List.cons.inj stored
      obtain ⟨rfl, -⟩ := NvmeStore.slot.inj same
      rw [device.underWay busy, NvmeSystem.underWay]
      dsimp only [NvmeSystem.deliver]
      rw [rest]
      exact Function.update_self ..

end UnderWay

/-! ## The invariant -/

/-- `acts` have begun. All of them are over, but for the last one while its command has not been
carried out. -/
structure MediaInv (effect : NvmeSQEntry → μ → μ) (media : μ) (acts : List (MediaAct μ))
    (s : MediaSystem μ) : Prop where
  rings : RingInv s.rings
  done : s.done = [] ∨ s.done = s.rings.controller.inFlight ∧ s.done ≠ []
  last : s.rings.completed < s.rings.submitted → ∃ before c, acts = before ++ [.call c] ∧
    (s.done = [] → s.rings.posted < s.rings.submitted →
      s.rings.underWay = c.command ∧ s.media = MediaAct.after effect media before)
  settled : s.done ≠ [] ∨ s.rings.posted = s.rings.submitted →
    s.media = MediaAct.after effect media acts

namespace MediaInv

variable {effect : NvmeSQEntry → μ → μ} {media : μ} {acts : List (MediaAct μ)}
  {s : MediaSystem μ}

/-- The command fetched, if there is one, is the one under way. -/
theorem inFlight (inv : MediaInv effect media acts s) :
    s.rings.controller.inFlight = [] ∨
      s.rings.controller.inFlight = [(s.rings.completed, s.rings.underWay)] ∧
        s.rings.posted = s.rings.completed ∧ s.rings.submitted = s.rings.completed + 1 := by
  obtain ⟨driver, rung, fetched, cmd, device⟩ := inv.rings
  have stages := device.stages
  rw [device.inFlight]
  by_cases late : s.rings.posted < fetched
  · rw [if_pos late, device.underWay (by omega)]
    exact .inr ⟨rfl, by omega⟩
  · exact .inl (if_neg late)

/-- While the driver does not wait nothing is under way. -/
theorem idle (inv : MediaInv effect media acts s) (idle : s.rings.waiting = none) :
    s.rings.submitted = s.rings.completed ∧ s.rings.posted = s.rings.submitted ∧ s.done = [] := by
  have same := inv.rings.driver.idle idle
  have posted : s.rings.posted = s.rings.submitted := by
    obtain ⟨-, rung, fetched, cmd, device⟩ := inv.rings
    have := device.stages
    omega
  refine ⟨same, posted, ?_⟩
  rcases inv.done with none | ⟨carried, some⟩
  · exact none
  · rcases inv.inFlight with empty | ⟨-, -, more⟩
    · exact absurd (carried.trans empty) some
    · omega

theorem call (inv : MediaInv effect media acts s) (free : s.rings.waiting = none) (c : NvmeCall) :
    MediaInv effect media (acts ++ [.call c]) { s with rings := { s.rings with
      queue := s.rings.queue.submitCommand c.command
      waiting := some (s.rings.submitted, c.cid)
      submitted := s.rings.submitted + 1 } } := by
  obtain ⟨same, posted, none⟩ := inv.idle free
  refine ⟨inv.rings.call free c, .inl none, fun _ => ⟨acts, c, rfl, fun _ _ => ⟨?_, ?_⟩⟩, ?_⟩
  · exact inv.rings.underWay_call free c
  · exact inv.settled (.inr posted)
  · rintro (some | all)
    · exact absurd none some
    · have all : s.rings.posted = s.rings.submitted + 1 := all
      omega

theorem access (inv : MediaInv effect media acts s) (free : s.rings.waiting = none) (f : μ → μ) :
    MediaInv effect media (acts ++ [.access f]) { s with media := f s.media } := by
  obtain ⟨same, posted, none⟩ := inv.idle free
  refine ⟨inv.rings, .inl none, fun more => ?_, fun _ => ?_⟩
  · have more : s.rings.completed < s.rings.submitted := more
    omega
  · rw [MediaAct.after_concat, ← inv.settled (.inr posted)]
    rfl

theorem carryOut (inv : MediaInv effect media acts s) {command : Nat × NvmeSQEntry}
    (fetched : command ∈ s.rings.controller.inFlight) (fresh : command ∉ s.done) :
    MediaInv effect media acts
      { s with media := effect command.2 s.media, done := command :: s.done } := by
  have none : s.done = [] := by
    rcases inv.done with none | ⟨all, -⟩
    · exact none
    · rw [all] at fresh
      exact absurd fetched fresh
  rcases inv.inFlight with empty | ⟨one, posted, submitted⟩
  · rw [empty] at fetched
    cases fetched
  · rw [one] at fetched
    obtain rfl := List.mem_singleton.mp fetched
    obtain ⟨before, c, last, late⟩ := inv.last (by omega)
    obtain ⟨command, media'⟩ := late none (by omega)
    refine ⟨inv.rings, .inr ⟨?_, List.cons_ne_nil _ _⟩, fun _ => ⟨before, c, last, ?_⟩, fun _ => ?_⟩
    · dsimp only
      rw [none, one]
    · intro empty
      cases empty
    · rw [last, MediaAct.after_concat, ← media', MediaAct.run, ← command]

theorem post (inv : MediaInv effect media acts s) {command : Nat × NvmeSQEntry}
    (carried : command ∈ s.done) (cdw0 reserved : BitVec 32) (sqHead sqId code : BitVec 16) :
    MediaInv effect media acts { s with
      rings := s.rings.post command cdw0 reserved sqHead sqId code
      done := s.done.erase command } := by
  have some : s.done ≠ [] := List.ne_nil_of_mem carried
  have all : s.done = s.rings.controller.inFlight := by
    rcases inv.done with none | ⟨all, -⟩
    · exact absurd none some
    · exact all
  rcases inv.inFlight with empty | ⟨one, posted, submitted⟩
  · exact absurd (all.trans empty) some
  · have rings := inv.rings.post (all ▸ carried) cdw0 reserved sqHead sqId code
    rw [all, one] at carried ⊢
    obtain rfl := List.mem_singleton.mp carried
    obtain ⟨before, c, last, -⟩ := inv.last (by omega)
    rw [List.erase_cons_head]
    refine ⟨rings, .inl rfl, fun _ => ⟨before, c, last, fun _ more => ?_⟩, fun _ => ?_⟩
    · have more : s.rings.posted + 1 < s.rings.submitted := more
      omega
    · exact inv.settled (.inl some)

/-- The other steps of the rings leave the commands where they are, and what the driver waits
for. -/
theorem of_rings (inv : MediaInv effect media acts s) {rings : NvmeSystem} (after : RingInv rings)
    (inFlight : s.done = [] ∨ rings.controller.inFlight = s.rings.controller.inFlight)
    (posted : rings.posted = s.rings.posted) (submitted : rings.submitted = s.rings.submitted)
    (completed : s.rings.completed ≤ rings.completed)
    (underWay : rings.posted < rings.submitted → rings.underWay = s.rings.underWay) :
    MediaInv effect media acts { s with rings := rings } := by
  refine ⟨after, ?_, fun more => ?_, fun h => ?_⟩
  · rcases inv.done with none | ⟨all, some⟩
    · exact .inl none
    · rcases inFlight with none | same
      · exact absurd none some
      · exact .inr ⟨all.trans same.symm, some⟩
  · have more : rings.completed < rings.submitted := more
    obtain ⟨before, c, last, late⟩ := inv.last (by omega)
    refine ⟨before, c, last, fun none early => ?_⟩
    have early : rings.posted < rings.submitted := early
    obtain ⟨command, media'⟩ := late none (by omega)
    exact ⟨(underWay early).trans command, media'⟩
  · have h : s.done ≠ [] ∨ rings.posted = rings.submitted := h
    rw [posted, submitted] at h
    exact inv.settled h

theorem arrive (inv : MediaInv effect media acts s) {store : NvmeStore}
    (next : s.rings.queue.stores[s.rings.arrived]? = some store) :
    MediaInv effect media acts
      { s with rings := { s.rings.deliver store with arrived := s.rings.arrived + 1 } } := by
  have same : (s.rings.deliver store).controller.inFlight = s.rings.controller.inFlight ∧
      (s.rings.deliver store).posted = s.rings.posted ∧
      (s.rings.deliver store).submitted = s.rings.submitted ∧
      (s.rings.deliver store).completed = s.rings.completed := by
    cases store with
    | slot addr cmd => exact ⟨rfl, rfl, rfl, rfl⟩
    | doorbell addr value =>
        rw [NvmeSystem.deliver]
        split <;> exact ⟨rfl, rfl, rfl, rfl⟩
  obtain ⟨inFlight, posted, submitted, completed⟩ := same
  apply inv.of_rings (inv.rings.arrive next) (.inr inFlight) posted submitted
    (Nat.le_of_eq completed.symm)
  intro early
  have early : (s.rings.deliver store).posted < (s.rings.deliver store).submitted := early
  obtain ⟨-, rung, fetched, cmd, device⟩ := inv.rings
  have stages := device.stages
  exact inv.rings.underWay_arrive (by omega) next

theorem fetch (inv : MediaInv effect media acts s) {rings : NvmeSystem}
    (next : s.rings.step .fetch = some rings) :
    MediaInv effect media acts { s with rings := rings } := by
  simp only [NvmeSystem.step] at next
  split at next
  · cases next
  · rename_i ahead
    have after := inv.rings.fetch ahead
    rw [Option.some.inj next] at after
    have same := Option.some.inj next
    refine inv.of_rings after ?_ (by rw [← same]) (by rw [← same]) (by rw [← same])
      fun _ => by rw [← same]; rfl
    -- one at a time
    rcases inv.inFlight with empty | ⟨one, -⟩
    · rcases inv.done with none | ⟨all, some⟩
      · exact .inl none
      · exact absurd (all.trans empty) some
    · exfalso
      obtain ⟨-, rung, fetched, cmd, device⟩ := after
      have many := congrArg List.length device.inFlight
      rw [← same] at many
      dsimp only at many
      rw [one] at many
      split at many <;> cases many

theorem poll (inv : MediaInv effect media acts s) {n : Nat} {cid : BitVec 16}
    (waits : s.rings.waiting = some (n, cid)) :
    MediaInv effect media acts { s with rings := s.rings.look n cid } := by
  have after := inv.rings.poll waits
  by_cases ready : s.rings.completed < s.rings.posted
  · obtain rfl : n = s.rings.completed := (inv.rings.driver.busy waits).1
    rw [inv.rings.look_new ready waits] at after ⊢
    refine inv.of_rings after (.inr rfl) rfl rfl (Nat.le_succ _) fun early => ?_
    have early : s.rings.posted < s.rings.submitted := early
    obtain ⟨-, rung, fetched, cmd, device⟩ := inv.rings
    have := device.stages
    omega
  · rw [inv.rings.look_old ready]
    exact inv

end MediaInv
end Coolos
