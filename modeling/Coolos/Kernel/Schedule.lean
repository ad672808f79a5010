import Coolos.Kernel.State

/-!
# Tasks (`schedule.c`)

The task table is searched round robin from the current task. A task that is
not running is resumed by loading its `rsp`, which is where the registers it
resumes with stand: the frame its creation built, or the one it was switched
out with.
-/

namespace Coolos

open Lib

/-- `KERNEL_CODE_SEL` and the other selectors of `gdt.h`. -/
def kernelCodeSel : Word := 0x08
def kernelDataSel : Word := 0x10
def userDataSel : Word := 0x18 ||| 3
def userCodeSel : Word := 0x20 ||| 3

namespace Scheduler

/-- Store one entry of `tasks`. -/
def setTask (s : Scheduler) (i : Nat) (t : TCB) : Scheduler :=
  { s with tasks := Function.update s.tasks i t }

/-- `Scheduler_Init`. -/
def init (s : Scheduler) : Scheduler :=
  { s with
    tasks := fun i =>
      if i = 0 then { s.tasks 0 with active := true }
      else if i < maxTasks then { s.tasks i with active := false }
      else s.tasks i
    totalTasks := 1 }

/-- The indices visited by the searches of `Scheduler_Switch` and
`Scheduler_TerminateCurrentTask`: `(current_task_index + i) % total_tasks` for
`i` from 1 to `total_tasks`. -/
def ring (s : Scheduler) : List Nat :=
  (List.range' 1 s.totalTasks).map fun i => (s.currentTaskIndex + i) % s.totalTasks

end Scheduler

/-- The words pushed to make a frame that starts `fn`: SS, RSP, RFLAGS, CS, RIP,
the interrupt number and error code, and fifteen zeroed registers. -/
def initialFrame (ss rsp cs rip : Word) : List Word :=
  [ss, rsp, 0x202, cs, rip, 0, 0] ++ List.replicate 15 0

namespace Kernel

/-- `Scheduler_AddTask`. -/
def addTask (k : Kernel) (fn stackBase : Word) : Kernel :=
  if maxTasks ≤ k.sched.totalTasks then k
  else
    let idx := k.sched.totalTasks
    let k := { k with sched.totalTasks := idx + 1 }
    let stackTop := stackBase + 4096
    let (m, stack) := k.mem.pushAll stackTop (initialFrame kernelDataSel stackTop kernelCodeSel fn)
    { k with
      mem := m
      sched := k.sched.setTask idx ⟨stack, true, stackBase, 1⟩ }

/-- `Scheduler_AddUserTask`. -/
def addUserTask (k : Kernel) (fn stackBase stackPages : Word) : Kernel :=
  if maxTasks ≤ k.sched.totalTasks then k
  else
    let idx := k.sched.totalTasks
    let k := { k with sched.totalTasks := idx + 1 }
    let stackTop := stackBase + stackPages * 4096
    let (pages, kstack) := k.pages.alloc 1
    let k := { k with pages := pages }
    if kstack = 0 then k
    else
      let (m, ks) := k.mem.pushAll (kstack + 4096)
        (initialFrame userDataSel stackTop userCodeSel fn)
      { k with
        mem := m
        sched := k.sched.setTask idx ⟨ks, true, stackBase, stackPages⟩ }

/-- The message shown by the scheduler. -/
def schedulerMessage (k : Kernel) (text : String) (color : BitVec 32) : Kernel :=
  { k with
    graphics := (k.graphics.clear 0xEEE8D5).print 100 500 (Graphics.ascii text) color }

/-- `Scheduler_TerminateCurrentTask`: the kernel and `*frame_ptr`. -/
def terminateCurrentTask (k : Kernel) (frame : Word) : Kernel × Word :=
  if k.sched.currentTaskIndex = 0 then
    (k.schedulerMessage "CANNOT TERMINATE MAIN TASK" 0xFF0000, frame)
  else
    let cur := k.sched.currentTaskIndex
    let task := k.sched.tasks cur
    -- free resources
    let (k, task) :=
      if task.stackBase ≠ 0 ∧ task.stackPages ≠ 0 then
        ({ k with pages := k.pages.free task.stackBase task.stackPages },
          { task with stackBase := 0 })
      else (k, task)
    let k := { k with sched := k.sched.setTask cur { task with active := false } }
    let k := k.schedulerMessage "TASK TERMINATED            " 0xFFFF00
    -- the main task when there is no other
    let next := (k.sched.ring.find? fun idx => (k.sched.tasks idx).active).getD 0
    let k := { k with sched.currentTaskIndex := next }
    (k, (k.sched.tasks next).rsp)

/-- `Scheduler_Switch`: the kernel and `*frame_ptr`. -/
def switch (k : Kernel) (frame : Word) : Kernel × Word :=
  let cur := k.sched.currentTaskIndex
  match k.sched.ring.find? fun idx => (k.sched.tasks idx).active && idx != cur with
  | none => (k.schedulerMessage "NO NEXT TASK AVAILABLE" 0xFF0000, frame)
  | some next =>
      let k := { k with sched := k.sched.setTask cur { k.sched.tasks cur with rsp := frame } }
      let k := { k with sched.currentTaskIndex := next }
      let frame := (k.sched.tasks next).rsp
      (k.schedulerMessage "SWITCHED TO NEXT TASK     " 0x00FF00, frame)

end Kernel
end Coolos
