import Coolos.Theorems.NvmeErrors

/-!
# `NVMe_Init` keeps to the controller's protocol

However long the controller takes and whatever it answers, unless it refuses the completion
queue: the submission queue is then asked for all the same.
-/

namespace Coolos.Theorems

open Lib

/-- The buffers are declared with `aligned(4096)`. -/
structure Aligned (buffers : NvmeBuffers) : Prop where
  adminSq : buffers.adminSq.toNat % 4096 = 0
  adminCq : buffers.adminCq.toNat % 4096 = 0
  identify : buffers.identify.toNat % 4096 = 0
  ioSq : buffers.ioSq.toNat % 4096 = 0
  ioCq : buffers.ioCq.toNat % 4096 = 0

variable {regs : Word} {cc cc' : BitVec 32} {buffers : NvmeBuffers} {answers : NvmeAnswers}
  {c : NvmeDevice}

/-! ## What is returned -/

namespace NvmeDriver

theorem waitForCompletion_result (cid : BitVec 16) (polls : List NvmeCQEntry) : ∀ q : NvmeQueue,
    (NvmeDriver.waitForCompletion cid polls q).result =
      if (q.waitForCompletion cid polls).2 then some (q.waitForCompletion cid polls).1
      else none := by
  induction polls with
  | nil => intro q; rfl
  | cons e polls ih =>
      intro q
      rw [NvmeDriver.waitForCompletion, NvmeQueue.waitForCompletion, Driver.bind_result,
        Driver.emit_result, Option.bind_some]
      by_cases new : e.status &&& 0x1 = q.phase
      · rw [if_pos new, if_pos new, Driver.bind_result]
        have left : (NvmeDriver.consume q).result = some q.consume := rfl
        rw [left, Option.bind_some]
        by_cases own : e.commandID = cid
        · rw [if_pos own, if_pos own]
          rfl
        · rw [if_neg own, if_neg own]
          exact ih q.consume
      · rw [if_neg new, if_neg new]
        exact ih q

theorem execute_result (q : NvmeQueue) (cmd : NvmeSQEntry) (cid : BitVec 16)
    (polls : List NvmeCQEntry) :
    (NvmeDriver.execute q cmd cid polls).result = q.execute cmd cid polls := by
  have left : (NvmeDriver.submitCommand q cmd).result = some (q.submitCommand cmd) := rfl
  rw [NvmeDriver.execute, Driver.bind_result, left, Option.bind_some, waitForCompletion_result,
    NvmeQueue.execute]

theorem disable_result (cc cc' : BitVec 32) : (NvmeDriver.disable cc cc').result = some () := by
  rw [NvmeDriver.disable]
  split <;> rfl

/-- The command is completed by the entry that the driver consumes for it. -/
theorem execute_completed {q : NvmeQueue} {cmd : NvmeSQEntry} {cid : BitVec 16}
    {polls : List NvmeCQEntry} {e : NvmeCQEntry}
    (done : CompletedBy cid (q.submitCommand cmd) polls e) :
    ∃ q', q.execute cmd cid polls = some q' := by
  have returned := (NvmeQueue.waitForCompletion_returned cid polls _).mpr ⟨e, done⟩
  exact ⟨_, if_pos returned⟩

theorem waitReady_result (rdy : Bool) (polls : List (BitVec 32)) :
    (NvmeDriver.waitReady rdy polls).result =
      if polls.all (fun csts => (csts &&& 0x1 != 0) != rdy) then none else some () := by
  induction polls with
  | nil => rfl
  | cons csts polls ih =>
      rw [NvmeDriver.waitReady, Driver.bind_result, Driver.emit_result, Option.bind_some,
        List.all_cons]
      by_cases there : (csts &&& 0x1 != 0) = rdy
      · rw [if_pos there, there]
        simp
      · have other : ((csts &&& 0x1 != 0) != rdy) = true := by simpa using there
        rw [if_neg there, ih, other, Bool.true_and]

/-- Waiting ends when CSTS.RDY has the value waited for. -/
theorem waitReady_returned (rdy : Bool) (polls : List (BitVec 32)) :
    (NvmeDriver.waitReady rdy polls).result = some () ↔
      ∃ csts ∈ polls, (csts &&& 0x1 != 0) = rdy := by
  rw [waitReady_result]
  split
  · rename_i never
    refine iff_of_false (Option.some_ne_none _).symm ?_
    rintro ⟨csts, there, ready⟩
    have other := List.all_eq_true.mp never csts there
    rw [ready] at other
    simp at other
  · rename_i ready
    refine iff_of_true rfl ?_
    by_contra none
    apply ready
    rw [List.all_eq_true]
    intro csts there
    rw [bne_iff_ne]
    exact fun same => none ⟨csts, there, same⟩

end NvmeDriver

/-! ## Step by step -/

theorem disable_allows (cc cc' : BitVec 32) (c : NvmeDevice) :
    Driver.Allows NvmeDevice.step c (NvmeDriver.disable cc cc') fun _ c' =>
      c'.enabled = false ∧ c'.regs = c.regs := by
  have read (c : NvmeDevice) (v : BitVec 32) : ∃ d, c.step (.readCc v) = some d ∧
      d.enabled = (v &&& 0x1 != 0) ∧ d.regs = c.regs := ⟨_, rfl, rfl, rfl⟩
  obtain ⟨c₁, first, on₁, regs₁⟩ := read c cc
  refine Driver.Allows.emit_bind first ?_
  split
  · obtain ⟨c₂, second, -, regs₂⟩ := read c₁ cc'
    have off : (cc' &&& ~~~0x1) &&& 0x1 = 0 := by
      rw [BitVec.and_assoc]
      simp
    have write : c₂.step (.writeCc (cc' &&& ~~~0x1)) =
        some { c₂ with enabled := false, ready := none } := if_pos off
    exact Driver.Allows.emit_bind second (Driver.Allows.emit write ⟨rfl, regs₂.trans regs₁⟩)
  · rename_i off
    refine Driver.Allows.pure ⟨?_, regs₁⟩
    rw [on₁]
    simpa using off

/-- When the wait is over CSTS.RDY has the value waited for. -/
theorem waitReady_allows (rdy : Bool) (polls : List (BitVec 32)) : ∀ c : NvmeDevice,
    Driver.Allows NvmeDevice.step c (NvmeDriver.waitReady rdy polls) fun _ c' =>
      c' = { c with ready := some rdy } := by
  induction polls with
  | nil => intro c; exact Driver.Allows.waits
  | cons csts polls ih =>
      intro c
      have read : c.step (.readCsts csts) = some { c with ready := some (csts &&& 0x1 != 0) } := rfl
      refine Driver.Allows.emit_bind read ?_
      split
      · rename_i there
        exact Driver.Allows.pure (by rw [there])
      · refine (ih _).mono fun _ d same => ?_
        rw [same]

/-- Enabled, with an admin queue of 64 entries that nothing has gone through. -/
structure Fresh (buffers : NvmeBuffers) (regs : Word) (d : NvmeDevice) : Prop where
  enabled : d.enabled = true
  sqSize : d.sqSize = 64
  cqSize : d.cqSize = 64
  asq : d.asq = some buffers.adminSq
  regs : d.regs = regs
  tail : d.tail = 0
  head : d.head = 0
  phase : d.phase = true
  stored : d.stored = none
  outstanding : d.outstanding = none
  cqs : d.cqs = []
  sqs : d.sqs = []

/-- Once it is ready the driver's record of the admin queue is right. -/
theorem Fresh.rep {d : NvmeDevice} (fresh : Fresh buffers regs d) :
    AdminRep { d with ready := some true }
      (NvmeQueue.setupAdminQueue regs buffers.adminSq buffers.adminCq) where
  running := ⟨fresh.enabled, rfl⟩
  sqSize := fresh.sqSize
  cqSize := fresh.cqSize
  size := rfl
  base := fresh.asq
  tail := fresh.tail.symm
  head := fresh.head.symm
  tailBelow := by
    have tail := fresh.tail
    show d.tail < 64
    omega
  headBelow := by
    have head := fresh.head
    show d.head < 64
    omega
  phase := by
    show 1 = if d.phase then (1 : BitVec 16) else 0
    rw [fresh.phase]
    rfl
  stored := fresh.stored
  doorbellTail := by
    show regs + 0x1000 = d.regs + 0x1000
    rw [fresh.regs]
  doorbellHead := by
    show regs + 0x1000 + 4 = d.regs + 0x1004
    rw [fresh.regs, BitVec.add_assoc]
    rfl

/-- "3. Configure Admin Queue" and "5. Enable Controller". -/
theorem configure_allows (aligned : Aligned buffers) (idle : c.Idle) :
    ∃ d, Fresh buffers c.regs d ∧ ∀ {α : Type} (rest : NvmeDriver α),
      let configured : NvmeDriver α := do
        Driver.emit (.writeAqa (((64 : BitVec 32) - 1) <<< 16 ||| ((64 : BitVec 32) - 1)))
        Driver.emit (.writeAsq buffers.adminSq)
        Driver.emit (.writeAcq buffers.adminCq)
        Driver.emit (.writeCc (4 <<< 20 ||| 6 <<< 16 ||| 1))
        rest
      (∀ Q, Driver.Allows NvmeDevice.step d rest Q →
        Driver.Allows NvmeDevice.step c configured Q) ∧
      (Driver.Permits NvmeDevice.step c configured ↔ Driver.Permits NvmeDevice.step d rest) := by
  have aqa : c.step (.writeAqa (((64 : BitVec 32) - 1) <<< 16 ||| ((64 : BitVec 32) - 1))) =
      some { c with sqSize := 64, cqSize := 64 } := if_pos idle
  have asq : NvmeDevice.step { c with sqSize := 64, cqSize := 64 } (.writeAsq buffers.adminSq) =
      some { c with sqSize := 64, cqSize := 64, asq := some buffers.adminSq } :=
    if_pos ⟨idle, aligned.adminSq⟩
  have acq : NvmeDevice.step { c with sqSize := 64, cqSize := 64, asq := some buffers.adminSq }
      (.writeAcq buffers.adminCq) = some { c with
        sqSize := 64, cqSize := 64, asq := some buffers.adminSq, acq := some buffers.adminCq } :=
    if_pos ⟨idle, aligned.adminCq⟩
  obtain ⟨d, hd⟩ : ∃ d : NvmeDevice, d = { c with
    sqSize := 64, cqSize := 64, asq := some buffers.adminSq
    acq := some buffers.adminCq } := ⟨_, rfl⟩
  rw [← hd] at acq
  have on : ¬ ((4 <<< 20 ||| 6 <<< 16 ||| 1 : BitVec 32) &&& 0x1 = 0) := by decide
  have enables : d.step (.writeCc (4 <<< 20 ||| 6 <<< 16 ||| 1)) = some d.enable := by
    rw [NvmeDevice.step, if_neg on, hd]
    have size : 2 ≤ 64 := by decide
    exact if_pos ⟨idle, size, size, rfl, rfl, by decide, by decide⟩
  refine ⟨d.enable, ?_, fun rest => ⟨fun Q next => ?_, ?_⟩⟩
  · rw [hd]
    exact ⟨rfl, rfl, rfl, rfl, rfl, rfl, rfl, rfl, rfl, rfl, rfl, rfl⟩
  · exact Driver.Allows.emit_bind aqa (Driver.Allows.emit_bind asq
      (Driver.Allows.emit_bind acq (Driver.Allows.emit_bind enables next)))
  · exact (Driver.permits_emit aqa).trans ((Driver.permits_emit asq).trans
      ((Driver.permits_emit acq).trans (Driver.permits_emit enables)))

/-! ## The three admin commands -/

section Commands

variable {buffer : Word} (page : buffer.toNat % 4096 = 0)
include page

theorem identify_takes (c : NvmeDevice) : c.Takes (NvmeDriver.identify buffer) :=
  ⟨page, .inl rfl⟩

theorem createCq_takes (none : c.cqs = []) : c.Takes (NvmeDriver.createCq buffer) ∧
    ∀ e, (c.executed (NvmeDriver.createCq buffer) e).cqs =
        (if statusField e = 0 then [(1, 64)] else []) ∧
      (c.executed (NvmeDriver.createCq buffer) e).sqs = c.sqs := by
  have queue : (NvmeDriver.createCq buffer).queue = (1, 64) := by
    show ((((64 - 1 : BitVec 32) <<< 16 ||| 1).truncate 16 : BitVec 16),
      (((64 - 1 : BitVec 32) <<< 16 ||| 1) >>> 16).toNat + 1) = _
    decide
  have contiguous : (NvmeDriver.createCq buffer).cdw11 &&& 1 = 1 := by
    show (1 : BitVec 32) &&& 1 = 1
    decide
  refine ⟨⟨page, .inr (.inl ⟨rfl, ?_, ?_, contiguous⟩)⟩, fun e => ⟨?_, rfl⟩⟩
  · rw [queue]
    decide
  · rw [queue, none]
    rfl
  · have creates : (NvmeDriver.createCq buffer).opcode = 0x05 := rfl
    rw [NvmeDevice.executed]
    simp only [creates, true_and, queue, none]

/-- Its completion queue has to be there. -/
theorem createSq_takes (none : c.sqs = []) (cq : c.cqs = [(1, 64)]) :
    c.Takes (NvmeDriver.createSq buffer) ∧
    ∀ e, (c.executed (NvmeDriver.createSq buffer) e).cqs = c.cqs ∧
      (c.executed (NvmeDriver.createSq buffer) e).sqs =
        if statusField e = 0 then [(1, 64)] else [] := by
  have queue : (NvmeDriver.createSq buffer).queue = (1, 64) := by
    show ((((64 - 1 : BitVec 32) <<< 16 ||| 1).truncate 16 : BitVec 16),
      (((64 - 1 : BitVec 32) <<< 16 ||| 1) >>> 16).toNat + 1) = _
    decide
  have completion : ((NvmeDriver.createSq buffer).cdw11 >>> 16).truncate 16 = (1 : BitVec 16) := by
    show ((((1 : BitVec 32) <<< 16 ||| 1) >>> 16).truncate 16 : BitVec 16) = 1
    decide
  have contiguous : (NvmeDriver.createSq buffer).cdw11 &&& 1 = 1 := by
    show ((1 : BitVec 32) <<< 16 ||| 1) &&& 1 = 1
    decide
  refine ⟨⟨page, .inr (.inr ⟨rfl, ?_, ?_, contiguous, ?_⟩)⟩, fun e => ⟨rfl, ?_⟩⟩
  · rw [queue]
    decide
  · rw [queue, none]
    rfl
  · rw [completion, cq]
    rfl
  · have creates : (NvmeDriver.createSq buffer).opcode = 0x01 := rfl
    rw [NvmeDevice.executed]
    simp only [creates, true_and, queue, none]

omit page in
/-- Without a completion queue it is not taken. -/
theorem not_createSq_takes (cq : c.cqs = []) : ¬ c.Takes (NvmeDriver.createSq buffer) := by
  have creates : (NvmeDriver.createSq buffer).opcode = 0x01 := rfl
  rintro ⟨-, identify | completion | submission⟩
  · rw [creates] at identify
    exact absurd identify (by decide)
  · rw [creates] at completion
    exact absurd completion.1 (by decide)
  · rw [cq] at submission
    cases submission.2.2.2.2

end Commands

/-! ## From `NVMe_IdentifyController` on -/

section Chain

variable {q : NvmeQueue}

/-- With a completion queue that is not refused. -/
theorem commands_allow (aligned : Aligned buffers) (rep : AdminRep c q)
    (free : c.outstanding = none) (cqs : c.cqs = []) (sqs : c.sqs = [])
    (accepted : ∀ admin e, q.execute (NvmeDriver.identify buffers.identify) 1 answers.identify =
        some admin → CompletedBy 2 (admin.submitCommand (NvmeDriver.createCq buffers.ioCq))
          answers.createCq e → statusField e = 0) :
    Driver.Allows NvmeDevice.step c
      (do
        let q ← NvmeDriver.identifyController q buffers answers
        NvmeDriver.setupIOQueues q regs buffers answers) fun q' d =>
      (q'.id = 1 ∧ q'.size = 64) ∧ d.Running ∧ d.outstanding = none ∧ d.cqs = [(1, 64)] ∧
        ∃ admin admin' e,
          q.execute (NvmeDriver.identify buffers.identify) 1 answers.identify = some admin ∧
          admin.execute (NvmeDriver.createCq buffers.ioCq) 2 answers.createCq = some admin' ∧
          CompletedBy 3 (admin'.submitCommand (NvmeDriver.createSq buffers.ioSq))
            answers.createSq e ∧
          d.sqs = if statusField e = 0 then [(1, 64)] else [] := by
  refine Driver.Allows.bind (rep.execute free (identify_takes aligned.identify c)
    answers.identify).and_result fun q₁ c₁ post => ?_
  obtain ⟨⟨rep₁, -, free₁, _, -, cqs₁, sqs₁⟩, identified⟩ := post
  have identified := (NvmeDriver.execute_result ..).symm.trans identified
  have cqs₁ : c₁.cqs = [] := cqs₁.trans cqs
  have sqs₁ : c₁.sqs = [] := sqs₁.trans sqs
  obtain ⟨takes₁, makes₁⟩ := createCq_takes (c := c₁) aligned.ioCq cqs₁
  refine Driver.Allows.bind (rep₁.execute free₁ takes₁ answers.createCq).and_result
    fun q₂ c₂ post => ?_
  obtain ⟨⟨rep₂, -, free₂, e, done, cqs₂, sqs₂⟩, created⟩ := post
  have created := (NvmeDriver.execute_result ..).symm.trans created
  rw [(makes₁ e).1, if_pos (accepted q₁ e identified done)] at cqs₂
  rw [(makes₁ e).2, sqs₁] at sqs₂
  obtain ⟨takes₂, makes₂⟩ := createSq_takes (c := c₂) aligned.ioSq sqs₂ cqs₂
  refine Driver.Allows.bind (rep₂.execute free₂ takes₂ answers.createSq) fun q₃ c₃ post => ?_
  obtain ⟨rep₃, -, free₃, e', done', cqs₃, sqs₃⟩ := post
  rw [(makes₂ e').1, cqs₂] at cqs₃
  rw [(makes₂ e').2] at sqs₃
  exact Driver.Allows.pure ⟨⟨rfl, rfl⟩, rep₃.running, free₃, cqs₃, q₁, q₂, e', identified,
    created, done', sqs₃⟩

/-- Otherwise the submission queue is asked for without its completion queue. -/
theorem commands_refused (aligned : Aligned buffers) (rep : AdminRep c q)
    (free : c.outstanding = none) (cqs : c.cqs = []) {admin : NvmeQueue} {e : NvmeCQEntry}
    (identified : q.execute (NvmeDriver.identify buffers.identify) 1 answers.identify = some admin)
    (done : CompletedBy 2 (admin.submitCommand (NvmeDriver.createCq buffers.ioCq))
      answers.createCq e) (error : statusField e ≠ 0) :
    ¬ Driver.Permits NvmeDevice.step c
      (do
        let q ← NvmeDriver.identifyController q buffers answers
        NvmeDriver.setupIOQueues q regs buffers answers) := by
  have identified := (NvmeDriver.execute_result q _ _ _).trans identified
  refine Driver.Allows.not_permits_bind (rep.execute free (identify_takes aligned.identify c)
    answers.identify) identified fun c₁ post => ?_
  obtain ⟨rep₁, -, free₁, _, -, cqs₁, -⟩ := post
  have cqs₁ : c₁.cqs = [] := cqs₁.trans cqs
  obtain ⟨takes₁, makes₁⟩ := createCq_takes (c := c₁) aligned.ioCq cqs₁
  obtain ⟨admin', created⟩ := NvmeDriver.execute_completed done
  have created := (NvmeDriver.execute_result admin _ _ _).trans created
  refine Driver.Allows.not_permits_bind (rep₁.execute free₁ takes₁ answers.createCq) created
    fun c₂ post => ?_
  obtain ⟨-, -, -, e', done', cqs₂, -⟩ := post
  rw [(makes₁ e').1, done'.unique done, if_neg error] at cqs₂
  intro permits
  have submits := Driver.permits_of_bind (Driver.permits_of_bind permits)
  refine Driver.not_permits_emit (if_neg ?_) submits
  rintro ⟨-, -, -, takes, -⟩
  exact not_createSq_takes cqs₂ takes

end Chain

/-! ## `NVMe_Init` -/

/-- The controller gets ready, identifies itself and then refuses the completion queue. -/
structure Refuses (device : PciDevice) (buffers : NvmeBuffers) (answers : NvmeAnswers) : Prop where
  disabled : ∃ csts ∈ answers.disabling, csts &&& 0x1 = 0
  enabled : ∃ csts ∈ answers.enabling, csts &&& 0x1 ≠ 0
  refused : ∃ admin e, identified device buffers answers = some admin ∧
    CompletedBy 2 (admin.submitCommand (createCq buffers)) answers.createCq e ∧ statusField e ≠ 0

section Init

variable {device : PciDevice}

theorem init_allows (aligned : Aligned buffers) (here : c.regs = device.bar)
    (accepted : ¬ Refuses device buffers answers) (cc cc' : BitVec 32) :
    Driver.Allows NvmeDevice.step c (NvmeDriver.init device.bar cc cc' buffers answers)
      fun q d => (q.id = 1 ∧ q.size = 64) ∧ d.Running ∧ d.outstanding = none ∧
        d.cqs = [(1, 64)] ∧ (d.sqs = [(1, 64)] ↔ ¬ CreationError device buffers answers) := by
  refine Driver.Allows.bind (disable_allows cc cc' c) fun _ c₁ post => ?_
  obtain ⟨off, regs₁⟩ := post
  refine Driver.Allows.bind (waitReady_allows false answers.disabling c₁).and_result
    fun _ c₂ post => ?_
  obtain ⟨rfl, disabled⟩ := post
  obtain ⟨d, fresh, turn⟩ := configure_allows (c := { c₁ with ready := some false }) aligned
    ⟨off, rfl⟩
  have fresh : Fresh buffers device.bar d := here ▸ regs₁ ▸ fresh
  refine (turn _).1 _ ?_
  refine Driver.Allows.bind (waitReady_allows true answers.enabling d).and_result
    fun _ d' post => ?_
  obtain ⟨rfl, enabled⟩ := post
  have success : ∀ admin e, identified device buffers answers = some admin →
      CompletedBy 2 (admin.submitCommand (createCq buffers)) answers.createCq e →
        statusField e = 0 := by
    intro admin e start done
    by_contra error
    obtain ⟨csts, there, low⟩ := (NvmeDriver.waitReady_returned ..).mp disabled
    obtain ⟨csts', there', high⟩ := (NvmeDriver.waitReady_returned ..).mp enabled
    refine accepted ⟨⟨csts, there, ?_⟩, ⟨csts', there', ?_⟩, admin, e, start, done, error⟩
    · simpa using low
    · simpa using high
  refine (commands_allow aligned fresh.rep fresh.outstanding fresh.cqs fresh.sqs success).mono
    fun q' d' post => ?_
  obtain ⟨record, running, free, cqs, admin, admin', e, start, created, done, sqs⟩ := post
  refine ⟨record, running, free, cqs, ?_⟩
  rw [sqs]
  by_cases made : statusField e = 0
  · rw [if_pos made]
    refine iff_of_true rfl fun failed => ?_
    cases failed with
    | completionQueue start' done' error => exact error (success _ _ start' done')
    | submissionQueue start' created' done' error =>
        obtain rfl := Option.some.inj (start'.symm.trans start)
        obtain rfl := Option.some.inj (created'.symm.trans created)
        exact error (done'.unique done ▸ made)
  · rw [if_neg made]
    refine iff_of_false (List.cons_ne_nil _ _).symm fun none => ?_
    exact none (.submissionQueue start created done made)

theorem init_refused (aligned : Aligned buffers) (here : c.regs = device.bar)
    (refuses : Refuses device buffers answers) (cc cc' : BitVec 32) :
    ¬ Driver.Permits NvmeDevice.step c
      (NvmeDriver.init device.bar cc cc' buffers answers) := by
  obtain ⟨⟨csts, there, low⟩, ⟨csts', there', high⟩, admin, e, start, done, error⟩ := refuses
  refine Driver.Allows.not_permits_bind (disable_allows cc cc' c)
    (NvmeDriver.disable_result cc cc') fun c₁ post => ?_
  obtain ⟨off, regs₁⟩ := post
  refine Driver.Allows.not_permits_bind (waitReady_allows false answers.disabling c₁)
    ((NvmeDriver.waitReady_returned ..).mpr ⟨csts, there, by simpa using low⟩) ?_
  rintro _ rfl
  obtain ⟨d, fresh, turn⟩ := configure_allows (c := { c₁ with ready := some false }) aligned
    ⟨off, rfl⟩
  have fresh : Fresh buffers device.bar d := here ▸ regs₁ ▸ fresh
  refine mt (turn _).2.mp ?_
  refine Driver.Allows.not_permits_bind (waitReady_allows true answers.enabling d)
    ((NvmeDriver.waitReady_returned ..).mpr ⟨csts', there', by simpa using high⟩) ?_
  rintro _ rfl
  exact commands_refused aligned fresh.rep fresh.outstanding fresh.cqs start done error

end Init

/-- The driver returns with the I/O queue that `NVMe_Init` leaves. -/
theorem init_result {k k' : Kernel} {pml4 : Word} {device : PciDevice} (cc cc' : BitVec 32)
    (h : k.nvmeInit pml4 buffers answers (some device) = some k') :
    (NvmeDriver.init device.bar cc cc' buffers answers).result = some k'.ioQueue := by
  rw [Kernel.nvmeInit, Option.bind_eq_bind, Option.bind_eq_some_iff] at h
  obtain ⟨mapped, -, h⟩ := h
  split at h
  · cases h
  rename_i disabled
  split at h
  · cases h
  rename_i enabled
  obtain ⟨⟨shown, admin⟩, identified, h⟩ := Option.bind_eq_some_iff.mp h
  obtain ⟨⟨admin', ioQueue⟩, created, h⟩ := Option.bind_eq_some_iff.mp h
  have off := NvmeDriver.disable_result cc cc'
  have waited : (NvmeDriver.waitReady false answers.disabling).result = some () := by
    rw [NvmeDriver.waitReady_result, if_neg]
    simpa using disabled
  have ready : (NvmeDriver.waitReady true answers.enabling).result = some () := by
    rw [NvmeDriver.waitReady_result, if_neg]
    simpa using enabled
  have first : (NvmeDriver.identifyController (NvmeQueue.setupAdminQueue device.bar
      buffers.adminSq buffers.adminCq) buffers answers).result = some admin := by
    rw [Kernel.identifyController, Option.bind_eq_bind, Option.bind_eq_some_iff] at identified
    obtain ⟨admin₁, run, last⟩ := identified
    obtain ⟨-, rfl⟩ := Prod.mk.inj (Option.some.inj last)
    rw [NvmeDriver.identifyController, NvmeDriver.execute_result]
    exact run
  have rest : (NvmeDriver.setupIOQueues admin device.bar buffers answers).result =
      some ioQueue := by
    rw [NvmeQueue.setupIOQueues, Option.bind_eq_bind, Option.bind_eq_some_iff] at created
    obtain ⟨admin₁, cq, created⟩ := created
    obtain ⟨admin₂, sq, last⟩ := Option.bind_eq_some_iff.mp created
    obtain ⟨-, rfl⟩ := Prod.mk.inj (Option.some.inj last)
    have cq : admin.execute (NvmeDriver.createCq buffers.ioCq) 2 answers.createCq =
        some admin₁ := cq
    have sq : admin₁.execute (NvmeDriver.createSq buffers.ioSq) 3 answers.createSq =
        some admin₂ := sq
    simp only [NvmeDriver.setupIOQueues, Driver.bind_result, NvmeDriver.execute_result, cq, sq,
      Option.bind_some, Driver.pure_result]
  obtain rfl := Option.some.inj h
  simp only [NvmeDriver.init, Driver.bind_result, off, waited, ready, first, rest,
    Driver.emit_result, Option.bind_some]
  rfl

/-- `NVMe_Init` drives the controller as the controller's protocol allows, as far as it gets:
the admin queue is configured while the controller is disabled, the controller is enabled only
then, admin commands are submitted one at a time and once it is ready, and only new entries are
consumed. The completion queue is there before the submission queue that uses it unless the
controller refuses it. When `NVMe_Init` returns nothing is outstanding, and the I/O queues have
the number and the size that the kernel's record of them has: the completion queue is there, and
the submission queue unless its creation has failed. -/
theorem nvmeInit_protocol {device : PciDevice} (aligned : Aligned buffers)
    (here : c.regs = device.bar) (cc cc' : BitVec 32) (answers : NvmeAnswers) :
    (Driver.Permits NvmeDevice.step c (NvmeDriver.init device.bar cc cc' buffers answers) ↔
      ¬ Refuses device buffers answers) ∧
    ∀ d, (NvmeDriver.init device.bar cc cc' buffers answers).events.foldlM NvmeDevice.step c =
        some d → ∀ (k k' : Kernel) (pml4 : Word),
      k.nvmeInit pml4 buffers answers (some device) = some k' →
        d.Running ∧ d.outstanding = none ∧ d.cqs = [(k'.ioQueue.id, k'.ioQueue.size.toNat)] ∧
          (d.sqs = [(k'.ioQueue.id, k'.ioQueue.size.toNat)] ↔
            ¬ CreationError device buffers answers) := by
  have allows (accepted : ¬ Refuses device buffers answers) :=
    init_allows (c := c) aligned here accepted cc cc'
  have accepted (permits : Driver.Permits NvmeDevice.step c
      (NvmeDriver.init device.bar cc cc' buffers answers)) : ¬ Refuses device buffers answers :=
    fun refuses => init_refused aligned here refuses cc cc' permits
  refine ⟨⟨accepted, fun h => (allows h).permits⟩, ?_⟩
  intro d run k k' pml4 returns
  obtain ⟨d', run', post⟩ := allows (accepted ⟨d, run⟩)
  obtain rfl := Option.some.inj (run'.symm.trans run)
  obtain ⟨⟨number, size⟩, running, free, cqs, sqs⟩ := post _ (init_result cc cc' returns)
  rw [number, size]
  exact ⟨running, free, cqs, sqs⟩

/-! ## A controller that was in use -/

def initBuffers : NvmeBuffers := ⟨0x214000, 0x215000, 0x216000, 0x217000, 0x218000⟩

/-- It takes its time, and an old entry is still in the completion queue. -/
def initAnswers : NvmeAnswers where
  disabling := [1, 1, 0]
  enabling := [0, 1]
  identify := [⟨0, 0, 0, 0, 7, 0⟩, ⟨0, 0, 1, 0, 1, 1⟩]
  createCq := [⟨0, 0, 2, 0, 2, 1⟩]
  createSq := [⟨0, 0, 2, 0, 2, 0⟩, ⟨0, 0, 3, 0, 3, 1⟩]
  model := []

def usedDevice : NvmeDevice :=
  ⟨0xFEBF0000, true, none, 32, 32, none, none, 5, 5, false, none, none, none, [(1, 32)], [(1, 32)]⟩

def usedController : PciDevice := ⟨0, 0, 0, 0x8086, 0x5845, 0xFEBF0000, 0⟩

theorem nvmeInit_protocol_used :
    (NvmeDriver.init usedController.bar 1 1 initBuffers initAnswers).result.isSome = true ∧
    Driver.Permits NvmeDevice.step usedDevice
      (NvmeDriver.init usedController.bar 1 1 initBuffers initAnswers) := by
  refine ⟨by decide +kernel, ?_⟩
  have aligned : Aligned initBuffers := ⟨rfl, rfl, rfl, rfl, rfl⟩
  have here : usedDevice.regs = usedController.bar := by decide
  rw [(nvmeInit_protocol aligned here 1 1 initAnswers).1]
  rintro ⟨-, -, admin, e, -, done, error⟩
  cases done with
  | own => exact error (by decide)
  | other _ _ rest => cases rest
  | old _ rest => cases rest

end Coolos.Theorems
