import Coolos.Kernel.Acpi
import Coolos.Kernel.Apic
import Coolos.Kernel.Gdt
import Coolos.Kernel.Idt
import Coolos.Kernel.KernelMain
import Coolos.Kernel.UserMode

/-!
# `KernelMain` (`main.c`)

The whole of it, from the firmware to ring 3. What the linker and the firmware chose, what
the devices answer and what compiled code leaves in the registers are given. A loop that
never ends is `none`. Once `sti` is executed the timer and the keyboard interrupt: the lists
of `BootEnv` say what arrives between the calls that follow.
-/

namespace Coolos

open Lib Lib.X86

/-- Where the linker puts what the code refers to by name. -/
structure Image where
  isr : IsrStub → Word
  syscallEntry : Word
  userMain : Word
  tss : Word
  /-- The string `"APIC"`. -/
  apicName : Word
  nvme : NvmeBuffers

/-- The arguments of `KernelMain` that are read. -/
structure BootArgs where
  fbBase : Word
  width : BitVec 32
  height : BitVec 32
  ppsl : BitVec 32
  map : List MemoryDescriptor
  imageBase : Word
  imageSize : Word
  rsdp : Word

/-- An interrupt in ring 0. -/
inductive Arrival where
  | timer
  | keyboard (scancode : BitVec 8)

/-- What `KernelMain` meets outside the kernel. -/
structure BootEnv where
  apic : ApicAnswers
  config : BitVec 32 → BitVec 32
  nvme : NvmeAnswers
  /-- The stack pointer read in `PageTable_Init`. -/
  rsp : Word
  /-- Behind `sti`, behind the setup of the controller and behind that of the stacks. -/
  arrivals : List Arrival × List Arrival × List Arrival
  /-- The registers and flags in which `SwitchToUserMode` begins. -/
  regs : Reg → Word
  rflags : Word

/-- The machine and the other statics `KernelMain` sets up. -/
structure Boot where
  machine : Machine
  gdt : Gdt
  idt : Idt
  tss : TSS
  apic : Apic
  /-- `g_xsdt`. -/
  xsdt : Word
  /-- `g_kernel_pml4`. -/
  pml4 : Word

/-- Where `KernelMain` ends: in the `hlt` loop behind everything, in `while (1);`, or in
ring 3. -/
inductive BootOutcome where
  | idle (b : Boot)
  | hung (b : Boot)
  | ring3 (b : Boot)

/-- An interrupt taken in ring 0, where the frame is on the stack interrupted. With no task but
the main one the frame is returned as it is. -/
def Kernel.arrive (k : Kernel) : Arrival → Kernel
  | .timer => (k.timerHandler 0).1
  | .keyboard scancode => (k.keyboardHandler 0 scancode).1

def Kernel.arriveAll (k : Kernel) (arrivals : List Arrival) : Kernel := arrivals.foldl arrive k

namespace Boot

/-- The statics as they are loaded, in the machine the firmware calls `KernelMain` in. -/
def loaded (cpu : Cpu) (mem : Mem) (idt : Word → Word) : Boot where
  machine := { cpu := cpu, kernel := { Kernel.statics with mem := mem }, rsp0 := 0, idt := idt }
  gdt := fun _ => ⟨0, 0, 0, 0, 0, 0⟩
  idt := fun _ => ⟨0, 0, 0, 0, 0, 0, 0⟩
  tss := TSS.zero
  apic := Apic.statics
  xsdt := 0
  pml4 := 0

/-- Up to `Graphics_Init`. -/
def setup (b : Boot) (image : Image) (args : BootArgs) : Boot :=
  let m := b.machine
  let m := { m with
    kernel.pages := m.kernel.pages.boot args.map args.imageBase args.imageSize }
  let xsdt := if args.rsdp ≠ 0 then Acpi.init m.kernel.mem args.rsdp b.xsdt else b.xsdt
  let (gdt, tss) := b.gdt.init image.tss
  let m := m.gdtInit
  let idt := b.idt.init image.isr
  let m := { m with
    idt := fun v => (idt (v.truncate 8)).offset
    kernel.handlerTable := fun _ => none }
  let m := m.syscallInit image.syscallEntry
  let m := { m with
    kernel.graphics := m.kernel.graphics.init args.fbBase args.width args.height args.ppsl }
  { b with machine := m, gdt := gdt, tss := tss, idt := idt, xsdt := xsdt }

/-- `ACPI_FindTable("APIC")`. -/
def madt (b : Boot) (image : Image) : Word :=
  (Acpi.findTable b.machine.kernel.mem b.xsdt image.apicName).2

/-- The LAPIC's page, if there is no table to say where. -/
def lapicAddr (b : Boot) (image : Image) (args : BootArgs) : Word :=
  if args.rsdp ≠ 0 ∧ b.madt image ≠ 0 then
    Acpi.localApicAddress b.machine.kernel.mem (b.madt image)
  else 0xFEE00000

/-- `PageTable_Init`, the heap and the greeting. -/
def memory (b : Boot) (image : Image) (args : BootArgs) (env : BootEnv) : Option Boot := do
  let fbSize := args.ppsl.zeroExtend 64 * args.height.zeroExtend 64 * 4
  let (k, pml4) ← b.machine.kernel.pageTableInit args.fbBase fbSize args.map
    (b.lapicAddr image args) env.rsp
  some { b with machine.kernel := k.heapSetup.greet, pml4 := pml4 }

/-- From `LAPIC_Init` to `sti`. -/
def interrupts (b : Boot) (madt : Word) (env : BootEnv) : Option Boot := do
  let mem := b.machine.kernel.mem
  let apic := b.apic.lapicInit (Acpi.localApicAddress mem madt) env.apic
  let (apic, ticks) ← apic.calibrateTimer env.apic
  let apic := apic.timerInit (ticks / 10)
  let ioApic ← (Acpi.searchIoApic mem madt (2 ^ 64)).2
  let apic := match ioApic with
    | some ptr => (apic.ioapicInit (Acpi.ioApicAddress mem madt ptr)).mapIRQ 1 0x21 0
    | none => apic
  some { b with apic := apic, machine.kernel := b.machine.kernel.schedulerSetup }

/-- The controller, the stacks and the way into ring 3. -/
def userMode (b : Boot) (image : Image) (env : BootEnv) : Option BootOutcome := do
  let k := b.machine.kernel.arriveAll env.arrivals.1
  let k ← k.nvmeSetup b.pml4 image.nvme env.nvme env.config
  let k := k.arriveAll env.arrivals.2.1
  let (k, tops) := k.prepareUserMode
  let b := { b with machine.kernel := k }
  match tops with
  | none => some (.hung b)
  | some (kernelStack, userStack) =>
      let m := { b.machine with
        kernel := b.machine.kernel.arriveAll env.arrivals.2.2
        cpu := { b.machine.cpu with regs := env.regs, rflags := env.rflags }
        rsp0 := kernelStack }
      some (.ring3 { b with
        machine := m.switchToUserMode image.userMain userStack
        tss := b.tss.setStack kernelStack })

/-- `KernelMain`. What is fetched and the stack it runs on are not looked up in the page tables. -/
def kernelMain (b : Boot) (image : Image) (args : BootArgs) (env : BootEnv) :
    Option BootOutcome := do
  let b ← (b.setup image args).memory image args env
  if args.rsdp ≠ 0 ∧ b.madt image ≠ 0 then
    let b ← b.interrupts (b.madt image) env
    b.userMode image env
  else some (.idle b)

end Boot
end Coolos
