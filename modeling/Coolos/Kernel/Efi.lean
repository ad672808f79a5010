import Coolos.Kernel.Main
import Coolos.Lib.Driver
import Coolos.Lib.Walk

/-!
# From the firmware to the kernel (`main.c`)

`EfiMain` with the calls it makes of the firmware, in order, and the arguments it then passes to
`KernelMain`. The firmware's answers are given, and the memory it leaves. The memory map arrives
as bytes in `map_buffer`: the loops of `PageAllocator_Init` and `PageTable_Init` over it are here
as they go through memory.
-/

namespace Coolos

open Lib

/-! ## What the firmware is asked and answers -/

/-- `EFI_GUID`. -/
structure EfiGuid where
  data1 : BitVec 32
  data2 : BitVec 16
  data3 : BitVec 16
  data4 : List (BitVec 8)
  deriving DecidableEq

/-- A GUID as it lies in memory. -/
def EfiGuid.bytes (g : EfiGuid) : List (BitVec 8) :=
  (List.range 4).map (fun i => g.data1.extractLsb' (8 * i) 8) ++
    (List.range 2).map (fun i => g.data2.extractLsb' (8 * i) 8) ++
    (List.range 2).map (fun i => g.data3.extractLsb' (8 * i) 8) ++ g.data4

/-- `EFI_GRAPHICS_OUTPUT_PROTOCOL_GUID`. -/
def gopGuid : EfiGuid :=
  ⟨0x9042a9de, 0x23dc, 0x4a38, [0x96, 0xfb, 0x7a, 0xde, 0xd0, 0x80, 0x51, 0x6a]⟩

/-- `EFI_LOADED_IMAGE_PROTOCOL_GUID`. -/
def loadedImageGuid : EfiGuid :=
  ⟨0x5B1B31A1, 0x9562, 0x11D2, [0x8E, 0x3F, 0x00, 0xA0, 0xC9, 0x69, 0x72, 0x3B]⟩

/-- `ACPI_20_TABLE_GUID`. -/
def acpi20Guid : EfiGuid :=
  ⟨0x8868e871, 0xe4f1, 0x11d3, [0xbc, 0x22, 0x00, 0x80, 0xc7, 0x3c, 0x88, 0x81]⟩

/-- A call of the firmware: what it is passed, its status and what else of its answer other calls
depend on. -/
inductive EfiEvent where
  | outputString (text : List (BitVec 16))
  | locateProtocol (protocol : EfiGuid) (status : Word)
  /-- `first` is `handles[0]`. -/
  | locateHandleBuffer (protocol : EfiGuid) (status noHandles first : Word)
  | handleProtocol (handle : Word) (protocol : EfiGuid) (status : Word)
  | getMemoryMap (size map status mapKey : Word)
  | exitBootServices (handle mapKey status : Word)
  deriving DecidableEq

abbrev EfiDriver := Driver EfiEvent

/-- The answer to `GetMemoryMap`, the memory behind it, and the status that `ExitBootServices`
returns then. -/
structure MapAnswer where
  status : Word
  mapSize : Word
  mapKey : Word
  descSize : Word
  descVer : BitVec 32
  mem : Mem
  exit : Word

/-- What the firmware answers. -/
structure EfiAnswers where
  /-- `LocateProtocol`: its status, and `gop` behind it. -/
  locate : Word × Word
  /-- `LocateHandleBuffer`: its status, `no_handles`, and `handles[0]`. -/
  handles : Word × Word × Word
  /-- `HandleProtocol` for the first handle: its status, and `gop` behind it. -/
  handle : Word × Word
  /-- `HandleProtocol` for the image: its status, and `loaded_image` behind it. -/
  image : Word × Word
  /-- The memory in which the configuration tables are searched. -/
  mem : Mem
  maps : List MapAnswer

/-- The arguments of `KernelMain`. -/
structure KernelCall where
  fbBase : Word
  width : BitVec 32
  height : BitVec 32
  ppsl : BitVec 32
  mapSize : Word
  map : Word
  mapKey : Word
  descSize : Word
  descVer : BitVec 32
  imageBase : Word
  imageSize : Word
  rsdp : Word
  deriving DecidableEq

/-! ## `EfiMain` -/

namespace Efi

/-- `EFI_SUCCESS`. -/
def success : Word := 0

/-- A string constant of 16-bit characters. -/
def wide (s : String) : List (BitVec 16) := s.toList.map fun c => BitVec.ofNat 16 c.toNat

/-- `SystemTable->ConOut->OutputString`. -/
def output (text : List (BitVec 16)) : EfiDriver Unit := Driver.emit (.outputString text)

/-- The digit for a nibble in `PrintHex`. -/
def hexDigit (nibble : BitVec 8) : BitVec 16 :=
  if nibble < 10 then nibble.zeroExtend 16 + 0x30 else nibble.zeroExtend 16 - 10 + 0x41

/-- What `PrintHex` puts into `out`. -/
def hexText (val : Word) : List (BitVec 16) :=
  wide "0x" ++ (List.range 16).map fun i =>
    hexDigit (((val >>> (60 - i * 4)) &&& 0xF).truncate 8)

/-- `PrintHex`. -/
def printHex (val : Word) : EfiDriver Unit := output (hexText val)

/-- `memcmp` with a GUID on the stack. -/
def memcmp (m : Mem) : Word → List (BitVec 8) → Int
  | _, [] => 0
  | p, byte :: bytes => if m p ≠ byte then (m p).toNat - byte.toNat else memcmp m (p + 1) bytes

/-- `SystemTable->NumberOfTableEntries` and `SystemTable->ConfigurationTable`. -/
def numberOfTableEntries (m : Mem) (systemTable : Word) : Word := m.read64 (systemTable + 104)
def configurationTable (m : Mem) (systemTable : Word) : Word := m.read64 (systemTable + 112)

/-- `&((EFI_CONFIGURATION_TABLE *)SystemTable->ConfigurationTable)[i]`. -/
def table (m : Mem) (systemTable : Word) (i : Nat) : Word :=
  configurationTable m systemTable + loc (24 * i)

/-- `table->VendorTable`. -/
def vendorTable (m : Mem) (systemTable : Word) (i : Nat) : Word :=
  m.read64 (table m systemTable i + 16)

/-- The loop over the configuration tables with `left` to go. -/
def findFrom (m : Mem) (systemTable : Word) : (left i : Nat) → Word
  | 0, _ => 0
  | left + 1, i =>
      if memcmp m (table m systemTable i) acpi20Guid.bytes = 0 then vendorTable m systemTable i
      else findFrom m systemTable left (i + 1)

/-- "Find RSDP from ConfigurationTable". -/
def findRsdp (m : Mem) (systemTable : Word) : Word :=
  findFrom m systemTable (numberOfTableEntries m systemTable).toNat 0

/-- The way to the graphics protocol by its handles, when `LocateProtocol` has failed with
`status`: `gop` behind it. -/
def gopByHandle (answers : EfiAnswers) : EfiDriver Word := do
  let (status, gop) := answers.locate
  output (wide "LocateProtocol failed: ")
  printHex status
  output (wide "\r\n")
  let (status, noHandles, first) := answers.handles
  Driver.emit (.locateHandleBuffer gopGuid status noHandles first)
  if status = success then
    output (wide "Found handles: ")
    printHex noHandles
    output (wide "\r\n")
    -- If handles found, try the first one
    if 0 < noHandles then
      let (status, gop) := answers.handle
      Driver.emit (.handleProtocol first gopGuid status)
      if status = success then
        output (wide "HandleProtocol Succeeded!\r\n")
      return gop
    else return gop
  else
    output (wide "LocateHandleBuffer failed: ")
    printHex status
    output (wide "\r\n")
    return gop

/-- `gop` when it is tested. -/
def locateGop (answers : EfiAnswers) : EfiDriver Word := do
  output (wide "Locating GOP...\r\n")
  Driver.emit (.locateProtocol gopGuid answers.locate.1)
  if answers.locate.1 ≠ success then gopByHandle answers else return answers.locate.2

/-- The loop around `GetMemoryMap` and `ExitBootServices`, the answer it ends with. -/
def exitLoop (imageHandle mapBuffer : Word) : List MapAnswer → EfiDriver MapAnswer
  | [] => Driver.waits
  | a :: maps => do
      Driver.emit (.getMemoryMap 16384 mapBuffer a.status a.mapKey)
      if a.status ≠ success then
        output (wide "GetMemoryMap failed!\r\n")
        Driver.waits
      else
        Driver.emit (.exitBootServices imageHandle a.mapKey a.exit)
        if a.exit = success then return a else exitLoop imageHandle mapBuffer maps

/-- The call of `KernelMain`: what the structures of the firmware hold then. -/
def kernelCall (gop loadedImage mapBuffer rsdp : Word) (a : MapAnswer) : KernelCall :=
  let mode := a.mem.read64 (gop + 24)
  let info := a.mem.read64 (mode + 8)
  { fbBase := a.mem.read64 (mode + 24)
    width := a.mem.read32 (info + 4)
    height := a.mem.read32 (info + 8)
    ppsl := a.mem.read32 (info + 32)
    mapSize := a.mapSize
    map := mapBuffer
    mapKey := a.mapKey
    descSize := a.descSize
    descVer := a.descVer
    imageBase := a.mem.read64 (loadedImage + 64)
    imageSize := a.mem.read64 (loadedImage + 72)
    rsdp := rsdp }

/-- `EfiMain` up to the call of `KernelMain`, and the memory `KernelMain` finds. -/
def main (imageHandle systemTable mapBuffer : Word) (answers : EfiAnswers) :
    EfiDriver (KernelCall × Mem) := do
  let gop ← locateGop answers
  if gop = 0 then
    output (wide "Critical: GOP is NULL. Hanging.\r\n")
    Driver.waits
  else
    let (status, loadedImage) := answers.image
    Driver.emit (.handleProtocol imageHandle loadedImageGuid status)
    if status ≠ success then
      output (wide "Failed to get LoadedImageProtocol\r\n")
      Driver.waits
    else
      let rsdp := findRsdp answers.mem systemTable
      output (if rsdp ≠ 0 then wide "RSDP found!\r\n" else wide "RSDP NOT found!\r\n")
      output (wide "Exiting Boot Services loop...\r\n")
      let a ← exitLoop imageHandle mapBuffer answers.maps
      return (kernelCall gop loadedImage mapBuffer rsdp a, a.mem)

end Efi

/-! ## The memory map in memory -/

/-- The fields of the `EFI_MEMORY_DESCRIPTOR` at `entry` that are read. -/
def descriptorAt (m : Mem) (entry : Word) : MemoryDescriptor :=
  ⟨m.read32 entry, m.read64 (entry + 8), m.read64 (entry + 24)⟩

/-- `PageAllocator_Init`, from entry to entry of the map at `map`. -/
def PageAllocator.initAt (pa : PageAllocator) (m : Mem) (map mapSize descSize : Word) :
    Option PageAllocator :=
  walkRecords (fun pa entry => some (initEntry pa (descriptorAt m entry))) (map + mapSize) descSize
    (2 ^ 64) { pa with bitmap := fun i => if i < maxPages / 8 then 0xFF else pa.bitmap i } map

/-- `PageTable_Init`, from entry to entry of the map at `map`, in the memory that the tables are
written to. -/
def Kernel.pageTableInitAt (k : Kernel) (fbBase fbSize map mapSize descSize lapicAddr rsp : Word) :
    Option (Kernel × Word) := do
  let (pages, pml4) := k.pages.alloc 1
  let k := { k with pages := pages, mem := clearTable k.mem pml4 512 }
  let k ← walkRecords (fun k entry => mapEntry pml4 k (descriptorAt k.mem entry)) (map + mapSize)
    descSize (2 ^ 64) k map
  let k ← mapRange pml4 (fbBase + fbSize) (pageWritable ||| pageUser) (2 ^ 64) k fbBase
  let k := if lapicAddr ≠ 0 then k.pageTableMap pml4 lapicAddr lapicAddr pageWritable else k
  let k ← mapRange pml4 0xFEC01000 pageWritable (2 ^ 64) k ioapicAddr
  let k ← mapRange pml4 (stackWindow rsp + 0x100000) (pageWritable ||| pageUser) (2 ^ 64) k
    (stackWindow rsp)
  some (k, pml4)

/-- The map as a list of `n` descriptors. -/
def descriptors (m : Mem) (map descSize : Word) (n : Nat) : List MemoryDescriptor :=
  (records descSize n map).map (descriptorAt m)

/-- The arguments of `KernelMain` with the map as the descriptors there are. -/
def KernelCall.bootArgs (call : KernelCall) (m : Mem) : BootArgs where
  fbBase := call.fbBase
  width := call.width
  height := call.height
  ppsl := call.ppsl
  map := descriptors m call.map call.descSize (call.mapSize.toNat / call.descSize.toNat)
  imageBase := call.imageBase
  imageSize := call.imageSize
  rsdp := call.rsdp

end Coolos
