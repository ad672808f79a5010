import Coolos.Lib.Memory
import Coolos.Lib.BlockList
import Coolos.Lib.BlockGaps
import Coolos.Lib.TSys
import Coolos.Lib.RoundRobin
import Coolos.Lib.PhaseRing
import Coolos.Lib.Prp
import Coolos.Kernel.Heap
import Coolos.Kernel.HeapAccess
import Coolos.Logic.HeapRepr
import Coolos.Logic.HeapOps
import Coolos.Logic.HeapRun
import Coolos.Logic.HeapList
import Coolos.Logic.HeapClients
import Coolos.Lib.PackedBits
import Coolos.Kernel.PageAllocator
import Coolos.Logic.PageAllocator
import Coolos.Logic.PageRun
import Coolos.Theorems.Contexts
import Coolos.Theorems.Heap
import Coolos.Theorems.HeapCanonical
import Coolos.Theorems.HeapGaps
import Coolos.Theorems.AlignedHeap
import Coolos.Theorems.AlignedSum
import Coolos.Theorems.Kfree
import Coolos.Theorems.Pages
import Coolos.Theorems.PageSearch
import Coolos.Theorems.AllocatedPages
import Coolos.Kernel.BitmapAccess
import Coolos.Theorems.BitmapAccess
import Coolos.Kernel.Font
import Coolos.Kernel.Graphics
import Coolos.Logic.Graphics
import Coolos.Kernel.Nvme
import Coolos.Kernel.State
import Coolos.Kernel.Schedule
import Coolos.Kernel.Syscall
import Coolos.Kernel.UserMode
import Coolos.Logic.Schedule
import Coolos.Logic.SchedRun
import Coolos.Logic.SchedRing
import Coolos.Logic.StackRun
import Coolos.Logic.NvmeRing
import Coolos.Logic.NvmeMedia
import Coolos.Logic.PageCount
import Coolos.Theorems.Scheduler
import Coolos.Theorems.RoundRobin
import Coolos.Theorems.Dma
import Coolos.Theorems.NvmeEncoding
import Coolos.Theorems.NvmeMedia
import Coolos.Theorems.NvmeErrors
import Coolos.Theorems.Exec
import Coolos.Theorems.Console
import Coolos.Theorems.GsBase
import Coolos.Theorems.InterruptFlag
import Coolos.Theorems.Nvme
import Coolos.Theorems.Stacks
import Coolos.Theorems.Slots
import Coolos.Theorems.FrameLayout
import Coolos.Logic.Syscall
import Coolos.Lib.X86
import Coolos.Kernel.Interrupt
import Coolos.Theorems.Dispatch
import Coolos.Kernel.Entry
import Coolos.Kernel.Idt
import Coolos.Logic.Entry
import Coolos.Theorems.Arguments
import Coolos.Logic.Interrupt
import Coolos.Logic.MachineRun
import Coolos.Logic.GsBase
import Coolos.Logic.EntryFrames
import Coolos.Logic.InterruptFlag
import Coolos.Theorems.PageTable
import Coolos.Logic.PageTableRun
import Coolos.Logic.IdentityMap
import Coolos.Logic.SelfMap
import Coolos.Logic.BootRun
import Coolos.Logic.InitPhases
import Coolos.Logic.MappedRun
import Coolos.Theorems.IdentityMap
import Coolos.Theorems.BootStack
import Coolos.Logic.PageTable
import Coolos.Kernel.PageTable
import Coolos.Kernel.Boot
import Coolos.Lib.Paging
import Coolos.Logic.UserHeap
import Coolos.Logic.FreeRun
import Coolos.Logic.HeapAccess
import Coolos.Theorems.UserHeap
import Coolos.Kernel.Pci
import Coolos.Lib.Loop
import Coolos.Lib.PciConfig
import Coolos.Logic.Pci
import Coolos.Theorems.PciScan
import Coolos.Kernel.Acpi
import Coolos.Logic.Madt
import Coolos.Theorems.Madt
import Coolos.Theorems.AcpiTables
import Coolos.Kernel.NvmeInit
import Coolos.Kernel.KernelMain
import Coolos.Kernel.NvmeAccess
import Coolos.Logic.NvmeCalls
import Coolos.Logic.Messages
import Coolos.Theorems.Messages
import Coolos.Theorems.NvmeAccess
import Coolos.Logic.MapFailure
import Coolos.Theorems.MapFailure
import Coolos.Theorems.Mmio
import Coolos.Lib.Segment
import Coolos.Kernel.Gdt
import Coolos.Kernel.Apic
import Coolos.Kernel.Main
import Coolos.Logic.Confined
import Coolos.Logic.Booting
import Coolos.Logic.AcpiReads
import Coolos.Logic.BootSupply
import Coolos.Theorems.Gdt
import Coolos.Theorems.KernelMain
import Coolos.Logic.FirstRun
import Coolos.Logic.UserState
import Coolos.Theorems.FirstRun
import Coolos.Logic.Devices
import Coolos.Theorems.UserState
import Coolos.Lib.Driver
import Coolos.Kernel.NvmeRegisters
import Coolos.Logic.NvmeProtocol
import Coolos.Theorems.NvmeInit
import Coolos.Lib.Walk
import Coolos.Kernel.Efi
import Coolos.Logic.EfiProtocol
import Coolos.Theorems.Efi
import Coolos.Logic.MapWalk
import Coolos.Lib.RegisterFile
import Coolos.Logic.Controllers
import Coolos.Theorems.Controllers
