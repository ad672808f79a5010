import Coolos.Kernel.Efi

/-!
# What the firmware lets an application do

The firmware as an automaton on the calls made of it. Its services are there until
`ExitBootServices` succeeds, which takes the key of a memory map that nothing has changed since.
Once it was refused, the services may be shut down in part: the map can still be asked for, and
nothing else.
-/

namespace Coolos

open Lib

inductive EfiPhase where
  /-- Everything is there. -/
  | boot
  /-- `ExitBootServices` was refused. -/
  | closing
  /-- Boot services have ended, with this map key. -/
  | exited (key : Word)
  deriving DecidableEq

structure EfiFirmware where
  /-- The application. -/
  image : Word
  phase : EfiPhase
  /-- The key of the map last asked for, if no call since may have changed the map. -/
  key : Option Word
  /-- The handles the application knows. -/
  handles : List Word

namespace EfiFirmware

/-- An application that has just been started. -/
def atStart (image : Word) : EfiFirmware := ⟨image, .boot, none, [image]⟩

/-- The memory map can be asked for. -/
def Serves (f : EfiFirmware) : Prop := f.phase = .boot ∨ f.phase = .closing

instance (f : EfiFirmware) : Decidable f.Serves := inferInstanceAs (Decidable (_ ∨ _))

/-- The state behind a call, `none` where the call is not allowed. -/
def step (f : EfiFirmware) : EfiEvent → Option EfiFirmware
  | .outputString _ => if f.phase = .boot then some { f with key := none } else none
  | .locateProtocol _ _ => if f.phase = .boot then some { f with key := none } else none
  | .locateHandleBuffer _ status noHandles first =>
      if f.phase = .boot then
        some { f with
          key := none
          handles := if status = Efi.success ∧ 0 < noHandles then first :: f.handles
            else f.handles }
      else none
  | .handleProtocol handle _ _ =>
      if f.phase = .boot ∧ f.handles.contains handle = true then some { f with key := none }
      else none
  | .getMemoryMap _ _ status mapKey =>
      if f.Serves then some { f with key := if status = Efi.success then some mapKey else none }
      else none
  | .exitBootServices handle mapKey status =>
      if f.Serves ∧ f.key = some mapKey ∧ handle = f.image then
        some { f with
          phase := if status = Efi.success then .exited mapKey else .closing, key := none }
      else none

/-- Boot services are there for application `image`. -/
structure Booting (image : Word) (f : EfiFirmware) : Prop where
  phase : f.phase = .boot
  same : f.image = image
  known : f.handles.contains image = true

theorem booting_atStart (image : Word) : Booting image (atStart image) := by
  refine ⟨rfl, rfl, ?_⟩
  show [image].contains image = true
  simp

end EfiFirmware

/-! ## The calls of `EfiMain` -/

namespace Efi

open EfiFirmware

variable {image : Word} {f : EfiFirmware} {α : Type} {Q : α → EfiFirmware → Prop}

theorem output_allows (booting : Booting image f) (text : List (BitVec 16))
    {rest : Unit → EfiDriver α}
    (next : ∀ f', Booting image f' → f'.handles = f.handles → Driver.Allows step f' (rest ()) Q) :
    Driver.Allows step f (output text >>= rest) Q := by
  have allowed : f.step (.outputString text) = some { f with key := none } :=
    if_pos booting.phase
  have booting' : Booting image { f with key := none } :=
    ⟨booting.phase, booting.same, booting.known⟩
  exact Driver.Allows.emit_bind allowed (next _ booting' rfl)

theorem handle_allows (booting : Booting image f) {handle : Word}
    (known : f.handles.contains handle = true) (protocol : EfiGuid) (status : Word)
    {rest : Unit → EfiDriver α}
    (next : ∀ f', Booting image f' → Driver.Allows step f' (rest ()) Q) :
    Driver.Allows step f (Driver.emit (.handleProtocol handle protocol status) >>= rest) Q := by
  have allowed : f.step (.handleProtocol handle protocol status) = some { f with key := none } :=
    if_pos ⟨booting.phase, known⟩
  exact Driver.Allows.emit_bind allowed (next _ ⟨booting.phase, booting.same, booting.known⟩)

theorem return_allows (booting : Booting image f) (gop : Word) :
    Driver.Allows step f (return gop : EfiDriver Word) fun _ f' => Booting image f' :=
  Driver.Allows.pure booting

/-- Of the handles found only the first is used, if there is one. -/
theorem gopByHandle_allows (booting : Booting image f) (answers : EfiAnswers) :
    Driver.Allows step f (gopByHandle answers) fun _ f' => Booting image f' := by
  rw [gopByHandle]
  apply output_allows booting
  intro f booting _
  apply output_allows booting
  intro f booting _
  apply output_allows booting
  intro f booting _
  have found : f.step (.locateHandleBuffer gopGuid answers.handles.1 answers.handles.2.1
      answers.handles.2.2) = some { f with
        key := none
        handles := if answers.handles.1 = success ∧ 0 < answers.handles.2.1 then
          answers.handles.2.2 :: f.handles else f.handles } := if_pos booting.phase
  refine Driver.Allows.emit_bind found ?_
  obtain ⟨f', hf'⟩ : ∃ f', f' = ({ f with
    key := none
    handles := if answers.handles.1 = success ∧ 0 < answers.handles.2.1 then
      answers.handles.2.2 :: f.handles else f.handles } : EfiFirmware) := ⟨_, rfl⟩
  have booting' : Booting image f' := by
    rw [hf']
    refine ⟨booting.phase, booting.same, ?_⟩
    dsimp only
    split
    · rw [List.contains_cons, booting.known, Bool.or_true]
    · exact booting.known
  rw [← hf']
  split
  · rename_i ok
    apply output_allows booting'
    intro f₁ booting₁ same₁
    apply output_allows booting₁
    intro f₂ booting₂ same₂
    apply output_allows booting₂
    intro f₃ booting₃ same₃
    split
    · rename_i any
      have known : f₃.handles.contains answers.handles.2.2 = true := by
        rw [same₃, same₂, same₁, hf']
        dsimp only
        rw [if_pos ⟨ok, any⟩, List.contains_cons, beq_self_eq_true, Bool.true_or]
      apply handle_allows booting₃ known
      intro f₄ booting₄
      split
      · apply output_allows booting₄
        intro f₅ booting₅ _
        exact return_allows booting₅ _
      · exact return_allows booting₄ _
    · exact return_allows booting₃ _
  · apply output_allows booting'
    intro f₁ booting₁ _
    apply output_allows booting₁
    intro f₂ booting₂ _
    apply output_allows booting₂
    intro f₃ booting₃ _
    exact return_allows booting₃ _

theorem locateGop_allows (booting : Booting image f) (answers : EfiAnswers) :
    Driver.Allows step f (locateGop answers) fun _ f' => Booting image f' := by
  rw [locateGop]
  apply output_allows booting
  intro f booting _
  have allowed : f.step (.locateProtocol gopGuid answers.locate.1) =
      some { f with key := none } := if_pos booting.phase
  have booting' : Booting image { f with key := none } :=
    ⟨booting.phase, booting.same, booting.known⟩
  refine Driver.Allows.emit_bind allowed ?_
  split
  · exact gopByHandle_allows booting' answers
  · exact return_allows booting' _

/-- `gop` when it is tested. -/
def gop (answers : EfiAnswers) : Word :=
  if answers.locate.1 ≠ success ∧ answers.handles.1 = success ∧ 0 < answers.handles.2.1 then
    answers.handle.2
  else answers.locate.2

theorem locateGop_result (answers : EfiAnswers) :
    (locateGop answers).result = some (gop answers) := by
  have said (text : List (BitVec 16)) : (output text).result = some () := rfl
  rw [locateGop, gop]
  by_cases located : answers.locate.1 = success
  · simp [said, located]
  by_cases found : answers.handles.1 = success
  · by_cases any : 0#64 < answers.handles.2.1
    · by_cases handled : answers.handle.1 = success
      · simp [said, gopByHandle, printHex, located, found, any, handled]
      · simp [said, gopByHandle, printHex, located, found, any, handled]
    · simp [said, gopByHandle, printHex, located, found, any]
  · simp [said, gopByHandle, printHex, located, found]

/-! ## The loop at the end -/

/-- `GetMemoryMap` goes on to succeed until `ExitBootServices` does. -/
def Leaves : List MapAnswer → Prop
  | [] => False
  | a :: maps => a.status = success ∧ (a.exit = success ∨ Leaves maps)

/-- `GetMemoryMap` does not fail before `ExitBootServices` succeeds. -/
def Answered : List MapAnswer → Prop
  | [] => True
  | a :: maps => a.status = success ∧ (a.exit = success ∨ Answered maps)

/-- It does not fail once `ExitBootServices` was refused. -/
def Steady : List MapAnswer → Prop
  | [] => True
  | a :: maps => a.status = success → a.exit ≠ success → Answered maps

variable {mapBuffer : Word} {a : MapAnswer} {maps : List MapAnswer}

/-- A map, and the attempt to leave with its key. -/
theorem exitLoop_turn (mapBuffer : Word) (serves : f.Serves) (same : f.image = image)
    (ok : a.status = success) :
    ∃ f', f'.image = image ∧
      f'.phase = (if a.exit = success then .exited a.mapKey else .closing) ∧
      ∀ {α : Type} (rest : EfiDriver α),
        (∀ Q, Driver.Allows step f' rest Q → Driver.Allows step f (do
          Driver.emit (.getMemoryMap 16384 mapBuffer a.status a.mapKey)
          Driver.emit (.exitBootServices image a.mapKey a.exit)
          rest) Q) ∧
        (Driver.Permits step f (do
          Driver.emit (.getMemoryMap 16384 mapBuffer a.status a.mapKey)
          Driver.emit (.exitBootServices image a.mapKey a.exit)
          rest) ↔ Driver.Permits step f' rest) := by
  have asked : f.step (.getMemoryMap 16384 mapBuffer a.status a.mapKey) =
      some { f with key := some a.mapKey } := by
    rw [EfiFirmware.step, if_pos serves, if_pos ok]
  have left : EfiFirmware.step { f with key := some a.mapKey }
      (.exitBootServices image a.mapKey a.exit) = some { f with
        phase := if a.exit = success then .exited a.mapKey else .closing, key := none } :=
    if_pos ⟨serves, rfl, same.symm⟩
  refine ⟨{ f with
    phase := if a.exit = success then .exited a.mapKey else .closing, key := none },
    same, rfl, fun rest => ⟨fun Q h => ?_, ?_⟩⟩
  · exact Driver.Allows.emit_bind asked (Driver.Allows.emit_bind left h)
  · rw [Driver.permits_emit asked, Driver.permits_emit left]

theorem exitLoop_leaves (maps : List MapAnswer) :
    (∃ a, (exitLoop image mapBuffer maps).result = some a) ↔ Leaves maps := by
  induction maps with
  | nil => exact iff_of_false (fun ⟨_, h⟩ => nomatch h) id
  | cons b maps ih =>
      rw [exitLoop, Leaves]
      by_cases ok : b.status = success
      · by_cases out : b.exit = success
        · simp [ok, out]
        · simp [ok, out, ih]
      · simp [ok, output]

/-- Where the loop ends boot services have ended, with the key of the map it ends with. -/
theorem exitLoop_allows : ∀ {f : EfiFirmware}, f.Serves → f.image = image →
    (exitLoop image mapBuffer maps).result = some a →
      Driver.Allows step f (exitLoop image mapBuffer maps) fun a' f' => a' ∈ maps ∧
        a'.status = success ∧ a'.exit = success ∧ f'.phase = .exited a'.mapKey := by
  induction maps with
  | nil => intro f _ _ result; cases result
  | cons b maps ih =>
      intro f serves same result
      rw [exitLoop] at result ⊢
      by_cases ok : b.status = success
      · rw [if_neg (not_not.mpr ok)] at result ⊢
        obtain ⟨f', same', phase, turn⟩ := exitLoop_turn mapBuffer serves same ok
        apply (turn _).1
        by_cases out : b.exit = success
        · rw [if_pos out] at result phase ⊢
          exact Driver.Allows.pure ⟨List.mem_cons_self, ok, out, phase⟩
        · rw [if_neg out] at result phase ⊢
          refine (ih (.inr phase) same' ?_).mono fun a' f'' post => ?_
          · simpa using result
          · exact ⟨List.mem_cons_of_mem _ post.1, post.2⟩
      · rw [if_pos ok] at result
        simp [output] at result

/-- Once `ExitBootServices` was refused there is no message any more. -/
theorem exitLoop_closing : ∀ {f : EfiFirmware}, f.phase = .closing → f.image = image →
    (Driver.Permits step f (exitLoop image mapBuffer maps) ↔ Answered maps) := by
  induction maps with
  | nil => intro f _ _; exact iff_of_true ⟨f, rfl⟩ trivial
  | cons b maps ih =>
      intro f phase same
      rw [exitLoop, Answered]
      by_cases ok : b.status = success
      · rw [if_neg (not_not.mpr ok), and_iff_right ok]
        obtain ⟨f', same', phase', turn⟩ :=
          exitLoop_turn mapBuffer (.inr phase) same ok
        rw [(turn _).2]
        by_cases out : b.exit = success
        · rw [if_pos out]
          exact iff_of_true ⟨f', rfl⟩ (.inl out)
        · rw [if_neg out] at phase' ⊢
          rw [ih phase' same', or_iff_right out]
      · rw [if_pos ok]
        refine iff_of_false (fun permits => ?_) fun h => ok h.1
        have asked : f.step (.getMemoryMap 16384 mapBuffer b.status b.mapKey) =
            some { f with key := none } := by
          rw [EfiFirmware.step, if_pos (.inr phase), if_neg ok]
        rw [Driver.permits_emit asked] at permits
        refine Driver.not_permits_emit (if_neg fun boot => ?_) permits
        cases phase.symm.trans boot

theorem exitLoop_boot (phase : f.phase = .boot) (same : f.image = image) :
    Driver.Permits step f (exitLoop image mapBuffer maps) ↔ Steady maps := by
  cases maps with
  | nil => exact iff_of_true ⟨f, rfl⟩ trivial
  | cons b maps =>
      rw [exitLoop, Steady]
      by_cases ok : b.status = success
      · rw [if_neg (not_not.mpr ok)]
        obtain ⟨f', same', phase', turn⟩ :=
          exitLoop_turn mapBuffer (.inl phase) same ok
        rw [(turn _).2]
        by_cases out : b.exit = success
        · rw [if_pos out]
          exact iff_of_true ⟨f', rfl⟩ fun _ refused => absurd out refused
        · rw [if_neg out] at phase' ⊢
          rw [exitLoop_closing phase' same']
          exact ⟨fun h _ _ => h, fun h => h ok out⟩
      · rw [if_pos ok]
        refine iff_of_true ?_ fun done => absurd done ok
        have asked : f.step (.getMemoryMap 16384 mapBuffer b.status b.mapKey) =
            some { f with key := none } := by
          rw [EfiFirmware.step, if_pos (.inl phase), if_neg ok]
        have said : EfiFirmware.step { f with key := none }
            (.outputString (wide "GetMemoryMap failed!\r\n")) = some { f with key := none } :=
          if_pos phase
        rw [Driver.permits_emit asked]
        exact (Driver.permits_emit said).mpr ⟨_, rfl⟩

/-! ## The configuration tables -/

/-- The bytes at `p`. -/
def Holds (m : Mem) : Word → List (BitVec 8) → Prop
  | _, [] => True
  | p, byte :: bytes => m p = byte ∧ Holds m (p + 1) bytes

theorem memcmp_eq_zero (m : Mem) (bytes : List (BitVec 8)) : ∀ p,
    memcmp m p bytes = 0 ↔ Holds m p bytes := by
  induction bytes with
  | nil => intro p; exact iff_of_true rfl trivial
  | cons byte bytes ih =>
      intro p
      rw [memcmp, Holds]
      by_cases same : m p = byte
      · rw [if_neg (not_not.mpr same), and_iff_right same]
        exact ih (p + 1)
      · rw [if_pos same]
        refine iff_of_false (fun zero => same ?_) fun h => same h.1
        apply BitVec.eq_of_toNat_eq
        omega

/-- Configuration table `i` is that of ACPI 2.0. -/
def IsAcpi (m : Mem) (systemTable : Word) (i : Nat) : Prop :=
  Holds m (table m systemTable i) acpi20Guid.bytes

/-- `rsdp` is the vendor table of the first of the tables from `i` to `stop` that is ACPI's. -/
def FirstAcpi (m : Mem) (systemTable : Word) (i stop : Nat) (rsdp : Word) : Prop :=
  (∃ j, i ≤ j ∧ j < stop ∧ IsAcpi m systemTable j ∧
    (∀ before, i ≤ before → before < j → ¬ IsAcpi m systemTable before) ∧
    rsdp = vendorTable m systemTable j) ∨
  (∀ j, i ≤ j → j < stop → ¬ IsAcpi m systemTable j) ∧ rsdp = 0

theorem findFrom_first (m : Mem) (systemTable : Word) (left : Nat) : ∀ i,
    FirstAcpi m systemTable i (i + left) (findFrom m systemTable left i) := by
  induction left with
  | zero => intro i; exact .inr ⟨fun j low high => by omega, rfl⟩
  | succ left ih =>
      intro i
      rw [findFrom]
      by_cases here : IsAcpi m systemTable i
      · rw [if_pos ((memcmp_eq_zero m _ _).mpr here)]
        exact .inl ⟨i, le_rfl, by omega, here, fun before low high => by omega, rfl⟩
      · rw [if_neg fun zero => here ((memcmp_eq_zero m _ _).mp zero)]
        have others (j : Nat) (low : i ≤ j) (after : i + 1 ≤ j → ¬ IsAcpi m systemTable j) :
            ¬ IsAcpi m systemTable j := by
          rcases Nat.eq_or_lt_of_le low with rfl | later
          · exact here
          · exact after later
        rcases ih (i + 1) with ⟨j, low, high, acpi, first, found⟩ | ⟨none, null⟩
        · refine .inl ⟨j, by omega, by omega, acpi, fun before lower upper => ?_, found⟩
          exact others before lower fun later => first before later upper
        · refine .inr ⟨fun j lower upper => ?_, null⟩
          exact others j lower fun later => none j later (by omega)

end Efi
end Coolos
