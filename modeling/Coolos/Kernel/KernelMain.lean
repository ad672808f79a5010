import Coolos.Kernel.NvmeInit

/-!
# What `KernelMain` shows (`main.c`)

The two stretches of `KernelMain` around its messages that are not in other modules: the
greeting, and the way into ring 3.
-/

namespace Coolos
namespace Kernel

open Lib

/-- `Graphics_Print` of a string constant. -/
def say (k : Kernel) (x y : BitVec 32) (text : String) (color : BitVec 32) : Kernel :=
  { k with graphics := k.graphics.print x y (Graphics.ascii text) color }

/-- The screen once memory is set up. -/
def greet (k : Kernel) : Kernel :=
  { k with graphics := k.graphics.clear 0xEEE8D5 }.say 100 100 "HELLO FROM COOLOS KERNEL!" 0x268BD2

/-- From the setup of the two stacks up to `SwitchToUserMode`: the tops of the kernel stack and
of the user stack, none when it hangs. -/
def prepareUserMode (k : Kernel) : Kernel × Option (Word × Word) :=
  let k := k.say 100 525 "PREPARING USER MODE..." 0x268BD2
  match k.heap.kmalloc 4096 with
  | none => (k, none)
  | some (heap, kernelStack) =>
      let k := { k with heap := heap }
      if kernelStack = 0 then (k.say 100 550 "KSTACK ALLOC FAIL" 0xDC322F, none)
      else
        match k.heap.kmalloc 4096 with
        | none => (k, none)
        | some (heap, userStack) =>
            let k := { k with heap := heap }
            if userStack = 0 then (k.say 100 550 "USTACK ALLOC FAIL" 0xDC322F, none)
            else
              (k.say 100 550 "SWITCHING TO RING 3..." 0x859900,
                some (kernelStack + 4096, userStack + 4096))

end Kernel
end Coolos
