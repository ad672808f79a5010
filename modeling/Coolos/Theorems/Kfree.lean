import Coolos.Logic.FreeRun
import Coolos.Theorems.Heap

/-!
# Untrusted frees

`SYSCALL_KFREE` hands its pointer to `kfree` unchecked. What the list, the
clients and later allocations keep when ring 3 frees harmless pointers, and a
pointer freed twice that breaks all of it.
-/

namespace Coolos.Theorems

open Lib Lib.X86 Lib.BlockList HeapBlock

end Coolos.Theorems
