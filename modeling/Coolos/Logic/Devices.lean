import Coolos.Logic.UserState

/-!
# What the interrupt handlers count

The ticks, the interrupts acknowledged and the last character typed. They are a function of the
interrupts that were taken: no system call, no task and no switch between tasks has a part in it.
-/

namespace Coolos

open Lib Lib.X86

structure Devices where
  ticks : Word
  eois : Nat
  lastChar : BitVec 8

def Kernel.devices (k : Kernel) : Devices := ⟨k.ticks, k.eois, k.lastChar⟩

/-- The key is pressed, neither CapsLock nor ESC, and has an entry in `scancode_to_ascii`. -/
def TypesKey (scancode : BitVec 8) : Prop :=
  scancode ≠ 0x3A ∧ scancode ≠ 0x01 ∧ scancode &&& 0x80 = 0 ∧
    scancode.toNat < scancodeToAscii.length

instance (scancode : BitVec 8) : Decidable (TypesKey scancode) :=
  inferInstanceAs (Decidable (_ ∧ _ ∧ _ ∧ _))

/-- What an event does to them. -/
def Devices.after (d : Devices) : MachineOp → Devices
  | .user _ _ _ _ => d
  | .timer _ => { d with ticks := d.ticks + 1, eois := d.eois + 1 }
  | .keyboard env =>
      { d with
        eois := d.eois + 1
        lastChar :=
          if TypesKey env.scancode then scancodeToAscii.getD env.scancode.toNat 0
          else d.lastChar }
  | .syscall _ => d

/-! ## System calls -/

namespace Kernel

theorem devices_mem (k : Kernel) (mem : Mem) : { k with mem := mem }.devices = k.devices := rfl

theorem devices_graphics (k : Kernel) (g : Graphics) :
    { k with graphics := g }.devices = k.devices := rfl

theorem printChar_devices (k : Kernel) (c : BitVec 8) (color width : BitVec 32) :
    (k.printChar c color width).devices = k.devices := by
  unfold printChar
  split
  · rfl
  split
  · rfl
  dsimp only
  split <;> rfl

theorem printWrap_devices (k : Kernel) (height : BitVec 32) :
    (k.printWrap height).devices = k.devices := by
  unfold printWrap
  split <;> rfl

theorem printLoop_devices (color width height : BitVec 32) : ∀ fuel (k : Kernel) (str : Word),
    (printLoop color width height fuel k str).1.devices = k.devices := by
  intro fuel
  induction fuel with
  | zero => intro k str; rfl
  | succ fuel ih =>
      intro k str
      rw [printLoop]
      split
      · rfl
      · rw [ih, printWrap_devices, printChar_devices]

theorem printCase_devices (k : Kernel) (a1 a2 : Word) :
    (k.printCase a1 a2).1.devices = k.devices :=
  printLoop_devices ..

theorem execCase_devices (k : Kernel) (a1 a2 : Word) :
    (k.execCase a1 a2).1.devices = k.devices := by
  simp only [execCase]
  split
  · rfl
  · obtain ⟨m, pages, sched, run⟩ := addUserTask_touches
      { k with pages := (k.pages.alloc a2).1 } a1 (k.pages.alloc a2).2 a2
    rw [run]
    rfl

theorem switch_devices (k : Kernel) (frame : Word) : (k.switch frame).1.devices = k.devices := by
  obtain ⟨g, sched, run⟩ := k.switch_touches frame
  rw [run]
  rfl

theorem terminate_devices (k : Kernel) (frame : Word) :
    (k.terminateCurrentTask frame).1.devices = k.devices := by
  obtain ⟨g, pages, sched, run⟩ := k.terminateCurrentTask_touches frame
  rw [run]
  rfl

/-- No system call has a part in it. -/
theorem syscallHandler_devices (k : Kernel) (n a1 a2 a3 a4 a5 : Word) (polls : List NvmeCQEntry) :
    (k.syscallHandler n a1 a2 a3 a4 a5 polls).1.devices = k.devices := by
  unfold syscallHandler
  by_cases clear : n = syscallClear
  · rw [if_pos clear]
    rfl
  rw [if_neg clear]
  by_cases print : n = syscallPrint
  · rw [if_pos print]
    exact k.printCase_devices a1 a2
  rw [if_neg print]
  split
  · exact k.execCase_devices a1 a2
  split
  · exact k.terminate_devices 0
  split
  · rfl
  split
  · rfl
  split
  · rfl
  split
  · obtain ⟨⟨h, run⟩, -⟩ := k.kmallocCase_frame a1
    rw [run]
    rfl
  split
  · rfl
  · rw [defaultCase]
    exact k.devices_graphics _

/-- Every key is acknowledged, whatever it does then. -/
theorem keyboardHandler_devices (k : Kernel) (frame : Word) (env : Env) :
    (k.keyboardHandler frame env.scancode).1.devices = k.devices.after (.keyboard env) := by
  unfold keyboardHandler
  dsimp only
  split
  · rename_i capsLock
    rw [switch_devices, Devices.after, if_neg fun typed => typed.1 capsLock]
    rfl
  split
  · rename_i escape
    rw [terminate_devices, Devices.after, if_neg fun typed => typed.2.1 escape]
    rfl
  rename_i switch exit
  split
  · rename_i release
    rw [Devices.after, if_neg fun typed => release typed.2.2.1]
    rfl
  rename_i press
  split
  · rename_i known
    have typed : TypesKey env.scancode := ⟨switch, exit, not_not.mp press, known⟩
    rw [Devices.after, if_pos typed]
    split <;> rfl
  · rename_i unknown
    rw [Devices.after, if_neg fun typed => unknown typed.2.2.2]
    rfl

end Kernel

/-! ## One step -/

namespace Machine

variable {m m' : Machine} {env : Env}

theorem interrupt_devices {vector frame : Word} {k : Kernel}
    (call : m.serviced vector env = (k, some frame)) (h : m.interrupt vector env = some m') :
    m'.kernel.devices = k.devices := by
  obtain ⟨m'', run, -, kernel, -⟩ := interrupt_some call
  obtain rfl : m'' = m' := Option.some.inj (run.symm.trans h)
  rw [kernel, Kernel.devices_mem]

theorem syscall_devices (h : m.syscall env = .returned m' ∨ m.syscall env = .switched m') :
    m'.kernel.devices = m.kernel.devices := by
  obtain ⟨rax, -, -, kernel⟩ := syscall_exit h
  rw [kernel, Kernel.devices_mem, handled_eq, Kernel.syscallHandler_devices, Kernel.devices_mem]

end Machine

namespace MachineRun

variable {s s' : MachineRun} {op : MachineOp}

theorem step_devices (inv : MachineInv s) (h : s.step op = some s') :
    s'.machine.kernel.devices = s.machine.kernel.devices.after op := by
  cases stepped h with
  | user regs rip rflags mem => rfl
  | @timer env m run =>
      obtain ⟨k, hk, -⟩ := s.machine.exists_entered intTimer
      have serviced : s.machine.serviced intTimer env = _ := Machine.serviced_timer hk inv.timer
      have left := Machine.interrupt_devices serviced run
      have entered : k.devices = s.machine.kernel.devices := by
        rw [hk, Kernel.devices_mem]
      rw [leave_machine, left, ← entered]
      rfl
  | @keyboard env m run =>
      obtain ⟨k, hk, -⟩ := s.machine.exists_entered intKeyboard
      have left := Machine.interrupt_devices (Machine.serviced_keyboard env hk inv.keyboard) run
      have entered : k.devices = s.machine.kernel.devices := by
        rw [hk, Kernel.devices_mem]
      rw [leave_machine, left, Kernel.keyboardHandler_devices, entered]
  | returned run =>
      rw [leave_machine]
      exact Machine.syscall_devices (.inl run)
  | switched run =>
      rw [leave_machine]
      exact Machine.syscall_devices (.inr run)

end MachineRun
end Coolos
