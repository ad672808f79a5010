import Coolos.Kernel.KernelMain
import Coolos.Logic.Graphics
import Coolos.Logic.NvmeCalls

/-!
# The messages of the kernel

A list of the texts the kernel shows and where it begins them. The functions that show
messages draw these and nothing else beside clearing the screen, and each of these is drawn
by one of them.
-/

namespace Coolos

open Lib Graphics

/-- A text and where it begins. -/
structure Message where
  x : BitVec 32
  y : BitVec 32
  str : List (BitVec 8)
  color : BitVec 32

namespace Message

def pixels (t : Message) : List PixelStore := text t.x t.y t.str t.color

/-- `Graphics_Print` of a string constant. -/
def const (x y : BitVec 32) (s : String) (color : BitVec 32) : Message := ⟨x, y, ascii s, color⟩

/-- `Graphics_PrintHex`. -/
def hex (x y : BitVec 32) (value : Word) (color : BitVec 32) : Message :=
  ⟨x, y, ascii "0x" ++ (List.range 16).map fun i =>
    hexDigit ((value >>> (60 - i * 4)).truncate 8 &&& 0xF), color⟩

end Message

namespace Graphics

/-- Messages one after the other. -/
def printAll (g : Graphics) (ts : List Message) : Graphics :=
  ts.foldl (fun g t => g.print t.x t.y t.str t.color) g

theorem printAll_eq (ts : List Message) : ∀ g : Graphics,
    g.printAll ts = { g with stores := g.stores ++ ts.flatMap Message.pixels } := by
  induction ts with
  | nil =>
      intro g
      rw [List.flatMap_nil, List.append_nil]
      rfl
  | cons t ts ih =>
      intro g
      have first : g.printAll (t :: ts) = (g.print t.x t.y t.str t.color).printAll ts := rfl
      rw [first, ih, print_eq, List.flatMap_cons, ← List.append_assoc]
      rfl

end Graphics

/-- The report of `ExceptionHandler`. -/
def exceptionReport (f : InterruptFrame) (cr2 : Word) : List Message :=
  [.const 100 100 "EXCEPTION OCCURRED!" 0xFFFFFF, .const 100 130 "INTERRUPT: " 0xFFFFFF] ++
    (if f.intNo < 32 then
      .const 250 130 (exceptionMessages.getD f.intNo.toNat "") 0xFFFFFF ::
        if f.intNo = 14 then
          [.const 100 280 "CR2 (ADDR): " 0xDC322F, .hex 250 280 cr2 0xDC322F]
        else []
    else [.hex 250 130 f.intNo 0xFFFFFF]) ++
    [.const 100 160 "ERROR CODE: " 0xFFFFFF, .hex 250 160 f.errCode 0xFFFFFF,
      .const 100 190 "RIP: " 0xFFFFFF, .hex 250 190 f.rip 0xFFFFFF,
      .const 100 220 "RAX: " 0xFFFFFF, .hex 250 220 f.rax 0xFFFFFF,
      .const 100 250 "RSP: " 0xFFFFFF, .hex 250 250 f.rsp 0xFFFFFF]

theorem reportException_graphics (k : Kernel) (f : InterruptFrame) (cr2 : Word) :
    (k.reportException f cr2).graphics = k.graphics.printAll (exceptionReport f cr2) := by
  rw [Kernel.reportException, exceptionReport]
  by_cases low : f.intNo < 32
  · by_cases fault : f.intNo = 14
    · simp only [if_pos low, if_pos fault]
      rfl
    · simp only [if_pos low, if_neg fault]
      rfl
  · simp only [if_neg low]
    rfl

/-- What the keyboard handler shows for a scancode: the code of a key that has a character
and does not belong to the scheduler. -/
structure ShowsKey (scancode : BitVec 8) : Prop where
  capsLock : scancode ≠ 0x3A
  escape : scancode ≠ 0x01
  pressed : scancode &&& 0x80 = 0
  known : scancode.toNat < scancodeToAscii.length
  character : scancodeToAscii.getD scancode.toNat 0 ≠ 0

/-- The texts and where they begin. -/
inductive Shown : Message → Prop
  -- `KernelMain`
  | greeting : Shown (.const 100 100 "HELLO FROM COOLOS KERNEL!" 0x268BD2)
  | noController : Shown (.const 100 600 "PCI: NO NVME FOUND" 0xDC322F)
  | preparing : Shown (.const 100 525 "PREPARING USER MODE..." 0x268BD2)
  | noKernelStack : Shown (.const 100 550 "KSTACK ALLOC FAIL" 0xDC322F)
  | noUserStack : Shown (.const 100 550 "USTACK ALLOC FAIL" 0xDC322F)
  | switching : Shown (.const 100 550 "SWITCHING TO RING 3..." 0x859900)
  -- the NVMe driver
  | model (m : List (BitVec 8)) (size : m.length = 40) :
      Shown ⟨100, 640, ascii "NVME MODEL: " ++ Kernel.trimModel m, 0xCB4B16⟩
  | defaultNsid : Shown (.const 100 660 "NVME: DEFAULT NSID 1 SELECTED" 0x859900)
  -- the keyboard handler
  | key (ticks : Word) {scancode : BitVec 8} (key : ShowsKey scancode) :
      Shown ⟨100 + ((ticks % 50) * 8).truncate 32, 550,
        [scancodeToAscii.getD scancode.toNat 0], 0xFFFFFF⟩
  -- the scheduler
  | mainTask : Shown (.const 100 500 "CANNOT TERMINATE MAIN TASK" 0xFF0000)
  | terminated : Shown (.const 100 500 "TASK TERMINATED            " 0xFFFF00)
  | noNextTask : Shown (.const 100 500 "NO NEXT TASK AVAILABLE" 0xFF0000)
  | switched : Shown (.const 100 500 "SWITCHED TO NEXT TASK     " 0x00FF00)
  -- `ExceptionHandler`
  | exception (f : InterruptFrame) (cr2 : Word) {t : Message} (part : t ∈ exceptionReport f cr2) :
      Shown t

/-- A function that shows messages takes `k` to `k'`. -/
inductive Speaks (k : Kernel) : Kernel → Prop
  | greet : Speaks k k.greet
  | prepareUserMode : Speaks k k.prepareUserMode.1
  | noController {pml4 buffers answers k'}
      (run : k.setupController pml4 buffers answers none = some k') : Speaks k k'
  | identifyController {admin buffers answers k' admin'} (size : answers.model.length = 40)
      (run : k.identifyController admin buffers answers = some (k', admin')) : Speaks k k'
  | identifyNamespace : Speaks k k.identifyNamespace
  | keyboardHandler (frame : Word) (scancode : BitVec 8) :
      Speaks k (k.keyboardHandler frame scancode).1
  | switch (frame : Word) : Speaks k (k.switch frame).1
  | terminateCurrentTask (frame : Word) : Speaks k (k.terminateCurrentTask frame).1
  | exceptionHandler (frame : Word) (scancode : BitVec 8) (cr2 : Word) :
      Speaks k (k.exceptionHandler frame scancode cr2).1

/-! ## Nothing else is drawn -/

/-- A pixel of the screen or of a message. -/
def Drawn (g : Graphics) (p : PixelStore) : Prop :=
  (p.x.toNat < g.screenWidth.toNat ∧ p.y.toNat < g.screenHeight.toNat) ∨
    ∃ t, Shown t ∧ p ∈ t.pixels

variable {k k' : Kernel} {g g₁ : Graphics}

theorem drawn_print {t : Message} (shown : Shown t) (before : Adds (Drawn g) g g₁) :
    Adds (Drawn g) g (g₁.print t.x t.y t.str t.color) :=
  before.trans (print_adds fun _ hp => .inr ⟨t, shown, hp⟩)

theorem say_drawn {x y color : BitVec 32} {s : String} (shown : Shown (.const x y s color))
    (before : Adds (Drawn g) g k.graphics) : Adds (Drawn g) g (k.say x y s color).graphics :=
  drawn_print shown before

theorem drawn_clear (g : Graphics) (color : BitVec 32) : Adds (Drawn g) g (g.clear color) :=
  clear_adds color fun _ hx hy => .inl ⟨hx, hy⟩

theorem drawn_scheduler {s : String} {color : BitVec 32} (shown : Shown (.const 100 500 s color))
    (k : Kernel) : Adds (Drawn k.graphics) k.graphics (k.schedulerMessage s color).graphics :=
  drawn_print shown (drawn_clear k.graphics 0xEEE8D5)

theorem switch_drawn (k : Kernel) (frame : Word) :
    Adds (Drawn k.graphics) k.graphics (k.switch frame).1.graphics := by
  unfold Kernel.switch
  dsimp only
  split
  · exact drawn_scheduler .noNextTask k
  · exact drawn_scheduler .switched k

theorem terminate_drawn (k : Kernel) (frame : Word) :
    Adds (Drawn k.graphics) k.graphics (k.terminateCurrentTask frame).1.graphics := by
  unfold Kernel.terminateCurrentTask
  split
  · exact drawn_scheduler .mainTask k
  · dsimp only
    split
    · exact drawn_scheduler .terminated k
    · exact drawn_scheduler .terminated k

theorem keyboard_drawn (k : Kernel) (frame : Word) (scancode : BitVec 8) :
    Adds (Drawn k.graphics) k.graphics (k.keyboardHandler frame scancode).1.graphics := by
  unfold Kernel.keyboardHandler
  dsimp only
  by_cases capsLock : scancode = 0x3A
  · rw [if_pos capsLock]
    exact switch_drawn k.sendEOI frame
  rw [if_neg capsLock]
  by_cases escape : scancode = 0x01
  · rw [if_pos escape]
    exact terminate_drawn k.sendEOI frame
  rw [if_neg escape]
  by_cases pressed : scancode &&& 0x80 = 0
  · rw [if_neg (not_not.mpr pressed)]
    by_cases known : scancode.toNat < scancodeToAscii.length
    · rw [if_pos known]
      by_cases character : scancodeToAscii.getD scancode.toNat 0 = 0
      · rw [if_neg (not_not.mpr character)]
        exact .refl _
      · rw [if_pos character]
        exact drawn_print (.key k.ticks ⟨capsLock, escape, pressed, known, character⟩) (.refl _)
    · rw [if_neg known]
      exact .refl _
  · rw [if_pos pressed]
    exact .refl _

theorem exception_drawn (k : Kernel) (frame : Word) (scancode : BitVec 8) (cr2 : Word) :
    Adds (Drawn k.graphics) k.graphics (k.exceptionHandler frame scancode cr2).1.graphics := by
  unfold Kernel.exceptionHandler
  dsimp only
  split
  · exact .refl _
  · exact keyboard_drawn k frame scancode
  · rw [reportException_graphics, printAll_eq]
    refine ⟨_, rfl, ?_⟩
    intro p hp
    obtain ⟨t, part, here⟩ := List.mem_flatMap.mp hp
    exact .inr ⟨t, .exception _ cr2 part, here⟩

theorem preparing_drawn (k : Kernel) : Adds (Drawn k.graphics) k.graphics
    (k.say 100 525 "PREPARING USER MODE..." 0x268BD2).graphics :=
  say_drawn .preparing (.refl _)

theorem prepareUserMode_drawn (k : Kernel) :
    Adds (Drawn k.graphics) k.graphics k.prepareUserMode.1.graphics := by
  have preparing := preparing_drawn k
  unfold Kernel.prepareUserMode
  generalize k.say 100 525 "PREPARING USER MODE..." 0x268BD2 = k₁ at preparing
  dsimp only
  split
  · exact preparing
  split
  · exact say_drawn .noKernelStack preparing
  split
  · exact preparing
  split
  · exact say_drawn .noUserStack preparing
  · exact say_drawn .switching preparing

theorem setupController_say (k : Kernel) (pml4 : Word) (buffers : NvmeBuffers)
    (answers : NvmeAnswers) : k.setupController pml4 buffers answers none =
      some (k.say 100 600 "PCI: NO NVME FOUND" 0xDC322F) := by
  rw [Kernel.setupController, Kernel.say]

theorem identifyNamespace_say (k : Kernel) :
    k.identifyNamespace = k.say 100 660 "NVME: DEFAULT NSID 1 SELECTED" 0x859900 := by
  rw [Kernel.identifyNamespace, Kernel.say]

theorem identifyController_graphics {admin admin' : NvmeQueue} {buffers : NvmeBuffers}
    {answers : NvmeAnswers}
    (run : k.identifyController admin buffers answers = some (k', admin')) :
    k'.graphics = k.graphics.print 100 640 (ascii "NVME MODEL: " ++
      Kernel.trimModel answers.model) 0xCB4B16 := by
  rw [Kernel.identifyController, Option.bind_eq_bind, Option.bind_eq_some_iff] at run
  obtain ⟨admin'', -, run⟩ := run
  obtain ⟨same, -⟩ := Prod.mk.inj (Option.some.inj run)
  rw [← same]

/-- What is drawn are messages. -/
theorem Speaks.drawn (speaks : Speaks k k') : Adds (Drawn k.graphics) k.graphics k'.graphics := by
  cases speaks with
  | greet => exact say_drawn .greeting (drawn_clear k.graphics 0xEEE8D5)
  | prepareUserMode => exact prepareUserMode_drawn k
  | noController run =>
      rw [setupController_say] at run
      rw [← Option.some.inj run]
      exact say_drawn .noController (.refl _)
  | identifyController size run =>
      rw [identifyController_graphics run]
      exact drawn_print (.model _ size) (.refl k.graphics)
  | identifyNamespace =>
      rw [identifyNamespace_say]
      exact say_drawn .defaultNsid (.refl _)
  | keyboardHandler frame scancode => exact keyboard_drawn k frame scancode
  | switch frame => exact switch_drawn k frame
  | terminateCurrentTask frame => exact terminate_drawn k frame
  | exceptionHandler frame scancode cr2 => exact exception_drawn k frame scancode cr2

/-! ## Every message is drawn -/

/-- `g'` has the pixels of `t` behind what was stored before. -/
def Graphics.Draws (g g' : Graphics) (t : Message) : Prop :=
  ∃ before after, g'.stores = g.stores ++ (before ++ t.pixels ++ after)

theorem Graphics.Draws.mem {t : Message} (draws : g.Draws g₁ t) {p : PixelStore}
    (hp : p ∈ t.pixels) : p ∈ g₁.stores.drop g.stores.length := by
  obtain ⟨before, after, stores⟩ := draws
  rw [stores, List.drop_left]
  simp [hp]

theorem draws_print (t : Message) (before : Adds (Drawn g) g g₁) :
    g.Draws (g₁.print t.x t.y t.str t.color) t := by
  obtain ⟨added, rfl, -⟩ := before
  refine ⟨added, [], ?_⟩
  simp only [print_eq, List.append_nil, List.append_assoc]
  rfl

theorem say_draws {x y color : BitVec 32} {s : String} (before : Adds (Drawn g) g k.graphics) :
    g.Draws (k.say x y s color).graphics (.const x y s color) :=
  draws_print (.const x y s color) before

/-- What is drawn later is behind the message. -/
theorem Graphics.Draws.later {g₂ : Graphics} {P : PixelStore → Prop} {t : Message}
    (draws : g.Draws g₁ t) (later : Adds P g₁ g₂) : g.Draws g₂ t := by
  obtain ⟨before, after, stores⟩ := draws
  obtain ⟨added, rfl, -⟩ := later
  refine ⟨before, after ++ added, ?_⟩
  simp only [stores, List.append_assoc]

theorem draws_scheduler (s : String) (color : BitVec 32) (k : Kernel) :
    k.graphics.Draws (k.schedulerMessage s color).graphics (.const 100 500 s color) :=
  draws_print (.const 100 500 s color) (drawn_clear k.graphics 0xEEE8D5)

theorem draws_printAll {ts : List Message} {t : Message} (ht : t ∈ ts) (g : Graphics) :
    g.Draws (g.printAll ts) t := by
  obtain ⟨before, after, rfl⟩ := List.append_of_mem ht
  refine ⟨before.flatMap Message.pixels, after.flatMap Message.pixels, ?_⟩
  simp only [printAll_eq, List.flatMap_append, List.flatMap_cons, List.append_assoc]

/-- Some function draws `t` on the screen `g`. -/
def Spoken (g : Graphics) (t : Message) : Prop :=
  ∃ k k', k.graphics = g ∧ Speaks k k' ∧ g.Draws k'.graphics t

/-- The statics, with the screen `g`. -/
def Kernel.showing (g : Graphics) : Kernel := { Kernel.statics with graphics := g }

/-- Two requests of `prepareUserMode`. -/
theorem kmalloc_twice {h : Heap} {r : Word × Word}
    (run : ((h.kmalloc 4096).bind fun first => (first.1.kmalloc 4096).map fun second =>
      (first.2, second.2)) = some r) :
    ∃ h₁ h₂, h.kmalloc 4096 = some (h₁, r.1) ∧ h₁.kmalloc 4096 = some (h₂, r.2) := by
  obtain ⟨⟨h₁, p⟩, first, run⟩ := Option.bind_eq_some_iff.mp run
  obtain ⟨⟨h₂, q⟩, second, rfl⟩ := Option.map_eq_some_iff.mp run
  exact ⟨h₁, h₂, first, second⟩

theorem say_heap (k : Kernel) (x y : BitVec 32) (s : String) (color : BitVec 32) :
    (k.say x y s color).heap = k.heap := by
  rw [Kernel.say]

/-- What `prepareUserMode` says last. -/
theorem prepareUserMode_last {h₁ h₂ : Heap} {r : Word × Word}
    (first : k.heap.kmalloc 4096 = some (h₁, r.1)) (second : h₁.kmalloc 4096 = some (h₂, r.2)) :
    ∃ k₁ : Kernel, Adds (Drawn k.graphics) k.graphics k₁.graphics ∧
      k.graphics.Draws k₁.graphics (.const 100 525 "PREPARING USER MODE..." 0x268BD2) ∧
      k.prepareUserMode.1 = if r.1 = 0 then k₁.say 100 550 "KSTACK ALLOC FAIL" 0xDC322F
      else if r.2 = 0 then k₁.say 100 550 "USTACK ALLOC FAIL" 0xDC322F
      else k₁.say 100 550 "SWITCHING TO RING 3..." 0x859900 := by
  have preparing := preparing_drawn k
  have draws : k.graphics.Draws (k.say 100 525 "PREPARING USER MODE..." 0x268BD2).graphics
      (.const 100 525 "PREPARING USER MODE..." 0x268BD2) := say_draws (.refl _)
  have heap := say_heap k 100 525 "PREPARING USER MODE..." 0x268BD2
  unfold Kernel.prepareUserMode
  generalize k.say 100 525 "PREPARING USER MODE..." 0x268BD2 = k₁ at preparing draws heap
  dsimp only
  rw [heap, first]
  by_cases kernel : r.1 = 0
  · refine ⟨{ k₁ with heap := h₁ }, preparing, draws, ?_⟩
    simp only [if_pos kernel]
  · refine ⟨{ k₁ with heap := h₂ }, preparing, draws, ?_⟩
    simp only [if_neg kernel, second]
    split
    · rfl
    · rfl

/-! The heaps that make it say each of the three: none, one with room for one stack, and one
with room for both. -/

theorem noHeap_twice : ((Kernel.statics.heap.kmalloc 4096).bind fun first =>
    (first.1.kmalloc 4096).map fun second => (first.2, second.2)) = some (0, 0) := by
  decide +kernel

theorem oneStack_twice : (((Heap.init (fun _ => 0) 4096 4128).kmalloc 4096).bind fun first =>
    (first.1.kmalloc 4096).map fun second => (first.2, second.2)) = some (4128, 0) := by
  decide +kernel

theorem twoStacks_twice : (((Heap.init (fun _ => 0) 4096 65536).kmalloc 4096).bind fun first =>
    (first.1.kmalloc 4096).map fun second => (first.2, second.2)) = some (4128, 8256) := by
  decide +kernel

/-- A heap of which the two requests take `r`. -/
theorem spoken_last {h : Heap} {r : Word × Word}
    (run : ((h.kmalloc 4096).bind fun first => (first.1.kmalloc 4096).map fun second =>
      (first.2, second.2)) = some r) (g : Graphics) :
    Spoken g (if r.1 = 0 then .const 100 550 "KSTACK ALLOC FAIL" 0xDC322F
      else if r.2 = 0 then .const 100 550 "USTACK ALLOC FAIL" 0xDC322F
      else .const 100 550 "SWITCHING TO RING 3..." 0x859900) := by
  obtain ⟨h₁, h₂, first, second⟩ := kmalloc_twice run
  let k : Kernel := { Kernel.showing g with heap := h }
  obtain ⟨k₁, before, -, last⟩ := prepareUserMode_last (k := k) first second
  refine ⟨k, k.prepareUserMode.1, rfl, .prepareUserMode, ?_⟩
  rw [last]
  split
  · exact say_draws before
  split
  · exact say_draws before
  · exact say_draws before

/-- The first message of `prepareUserMode` is not taken back. -/
theorem spoken_preparing (g : Graphics) :
    Spoken g (.const 100 525 "PREPARING USER MODE..." 0x268BD2) := by
  let k := Kernel.showing g
  obtain ⟨h₁, h₂, first, second⟩ := kmalloc_twice noHeap_twice
  obtain ⟨k₁, -, draws, last⟩ := prepareUserMode_last (k := k) first second
  refine ⟨k, k.prepareUserMode.1, rfl, .prepareUserMode, ?_⟩
  rw [last, if_pos rfl]
  exact draws.later (P := fun _ => True) (print_adds fun _ _ => trivial)

/-- The controller answers `NVMe_IdentifyController` at once. -/
theorem spoken_model (g : Graphics) {m : List (BitVec 8)} (size : m.length = 40) :
    Spoken g ⟨100, 640, ascii "NVME MODEL: " ++ Kernel.trimModel m, 0xCB4B16⟩ := by
  let k := Kernel.showing g
  let admin := NvmeQueue.setupAdminQueue 0 0 0
  let answers : NvmeAnswers := ⟨[], [], [⟨0, 0, 0, 0, 1, 1⟩], [], [], m⟩
  obtain ⟨⟨k', admin'⟩, run⟩ :
      ∃ r, k.identifyController admin ⟨0, 0, 0, 0, 0⟩ answers = some r := by
    have answer : NvmeCQEntry.Answers ⟨0, 0, 0, 0, 1, 1⟩ 1 := ⟨rfl, rfl⟩
    rw [Kernel.identifyController, NvmeQueue.execute_ready rfl _ answer]
    exact ⟨_, rfl⟩
  refine ⟨k, k', rfl, .identifyController size run, ?_⟩
  rw [identifyController_graphics run]
  exact draws_print ⟨100, 640, ascii "NVME MODEL: " ++ Kernel.trimModel m, 0xCB4B16⟩ (.refl g)

theorem spoken_key (g : Graphics) (ticks : Word) {scancode : BitVec 8} (key : ShowsKey scancode) :
    Spoken g ⟨100 + ((ticks % 50) * 8).truncate 32, 550,
      [scancodeToAscii.getD scancode.toNat 0], 0xFFFFFF⟩ := by
  let k : Kernel := { Kernel.showing g with ticks := ticks }
  refine ⟨k, _, rfl, .keyboardHandler 0 scancode, ?_⟩
  unfold Kernel.keyboardHandler
  dsimp only
  rw [if_neg key.capsLock, if_neg key.escape, if_neg (not_not.mpr key.pressed), if_pos key.known,
    if_pos key.character]
  exact draws_print ⟨100 + ((ticks % 50) * 8).truncate 32, 550,
      [scancodeToAscii.getD scancode.toNat 0], 0xFFFFFF⟩ (.refl g)

/-- An exception without a handler, from a frame that has been pushed. -/
theorem spoken_exception (g : Graphics) (f : InterruptFrame) (cr2 : Word) {t : Message}
    (part : t ∈ exceptionReport f cr2) : Spoken g t := by
  let words := [f.r15, f.r14, f.r13, f.r12, f.r11, f.r10, f.r9, f.r8, f.rsi, f.rdi, f.rbp, f.rdx,
    f.rcx, f.rbx, f.rax, f.intNo, f.errCode, f.rip, f.cs, f.rflags, f.rsp, f.ss]
  let k : Kernel := { Kernel.showing g with
    mem := ((Kernel.showing g).mem.pushAll 0 words.reverse).1 }
  have frame : InterruptFrame.read k.mem (frameBelow 0) = f :=
    InterruptFrame.read_pushed (List.reverse_reverse words)
  have report : (k.exceptionHandler (frameBelow 0) 0 cr2).1 = k.reportException f cr2 := by
    rw [← frame]
    rfl
  refine ⟨k, _, rfl, .exceptionHandler (frameBelow 0) 0 cr2, ?_⟩
  rw [report, reportException_graphics]
  exact draws_printAll part g

theorem Shown.spoken {t : Message} (shown : Shown t) (g : Graphics) : Spoken g t := by
  let k := Kernel.showing g
  cases shown with
  | greeting =>
      exact ⟨k, k.greet, rfl, .greet, say_draws (drawn_clear g 0xEEE8D5)⟩
  | noController =>
      exact ⟨k, k.say 100 600 "PCI: NO NVME FOUND" 0xDC322F, rfl,
        .noController (setupController_say k 0 ⟨0, 0, 0, 0, 0⟩ ⟨[], [], [], [], [], []⟩),
        say_draws (.refl g)⟩
  | preparing => exact spoken_preparing g
  | noKernelStack => exact spoken_last noHeap_twice g
  | noUserStack => exact spoken_last oneStack_twice g
  | switching => exact spoken_last twoStacks_twice g
  | model m size => exact spoken_model g size
  | defaultNsid =>
      refine ⟨k, k.identifyNamespace, rfl, .identifyNamespace, ?_⟩
      rw [identifyNamespace_say]
      exact say_draws (.refl g)
  | key ticks key => exact spoken_key g ticks key
  | mainTask =>
      refine ⟨k, _, rfl, .terminateCurrentTask 0, ?_⟩
      have main : k.sched.currentTaskIndex = 0 := rfl
      rw [Kernel.terminateCurrentTask, if_pos main]
      exact draws_scheduler _ _ k
  | terminated =>
      let k : Kernel := { k with sched.currentTaskIndex := 1 }
      refine ⟨k, _, rfl, .terminateCurrentTask 0, ?_⟩
      have other : k.sched.currentTaskIndex ≠ 0 := Nat.one_ne_zero
      rw [Kernel.terminateCurrentTask, if_neg other]
      exact draws_scheduler _ _ k
  | noNextTask =>
      refine ⟨k, _, rfl, .switch 0, ?_⟩
      exact draws_scheduler _ _ k
  | switched =>
      let k : Kernel := { k with sched := ⟨fun _ => ⟨0, true, 0, 0⟩, 0, 2⟩ }
      refine ⟨k, _, rfl, .switch 0, ?_⟩
      exact draws_scheduler _ _ k
  | exception f cr2 part => exact spoken_exception g f cr2 part

end Coolos
