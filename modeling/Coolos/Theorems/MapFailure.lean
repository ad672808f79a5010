import Coolos.Logic.MapFailure

/-!
# Mapping without pages

`GetOrCreateTable` returns NULL when no page is left, and `PageTable_Map` uses what it
returns as a table. So a mapping is safe exactly when there are pages for all the tables
it lacks, and the identity map only with a page for its root.
-/

namespace Coolos.Theorems

open Lib Lib.Paging PageAllocator

/-- The table that `PageTable_Init` clears and maps into. -/
theorem pageTableInit_root {k k' : Kernel} {fbBase fbSize lapicAddr rsp pml4 : Word}
    {map : List MemoryDescriptor}
    (run : k.pageTableInit fbBase fbSize map lapicAddr rsp = some (k', pml4)) :
    pml4 = (k.pages.alloc 1).2 := by
  rw [Kernel.pageTableInit] at run
  simp only [Option.bind_eq_bind, Option.bind_eq_some_iff] at run
  obtain ⟨k₁, -, k₂, -, k₃, -, k₄, -, last⟩ := run
  exact (congrArg Prod.snd (Option.some.inj last)).symm

/-- `PageTable_Map` survives, from tables that stand or from the NULL that `PageTable_Init`
may pass, exactly when there is a root and a page for each table missing below it;
`PageTable_Init` passes a root exactly when a page was left for it. -/
theorem mapping_survives_iff (k : Kernel) (pml4 virt phys flags : Word) :
    (pml4 = 0 ∨ TablesAt k pml4 →
      (Survives k pml4 virt phys flags ↔
        pml4 ≠ 0 ∧ tablesMissing k.mem virt 3 pml4 ≤ k.pages.clearPages.card)) ∧
    ∀ (k' : Kernel) (fbBase fbSize : Word) (map : List MemoryDescriptor) (lapicAddr rsp : Word),
      k.pageTableInit fbBase fbSize map lapicAddr rsp = some (k', pml4) →
        (pml4 ≠ 0 ↔ 0 < k.pages.clearPages.card) := by
  constructor
  · intro tables
    exact survives_iff tables virt phys flags
  · intro k' fbBase fbSize map lapicAddr rsp run
    rw [pageTableInit_root run]
    exact alloc_one_ne_zero_iff k.pages

/-- An empty root on page 1 of `total`. -/
def rootOnly (total : Word) (bounded : total.toNat < maxPages) : Kernel :=
  { Kernel.statics with
    pages := (PageAllocator.alloc ⟨fun _ => 0, total, bounded⟩ 1).1
    mem := clearTable (fun _ => 0) 0x1000 512 }

theorem rootOnly_tables (total : Word) (bounded : total.toNat < maxPages)
    (first : (PageAllocator.alloc ⟨fun _ => 0, total, bounded⟩ 1).2 = 0x1000) :
    TablesAt (rootOnly total bounded) 0x1000 := by
  let k : Kernel := { Kernel.statics with pages := ⟨fun _ => 0, total, bounded⟩ }
  have own : OwnedInv k.pages [] := ⟨.nil, by simp, by simp⟩
  have run : k.pages.alloc 1 = ((k.pages.alloc 1).1, 0x1000) := Prod.ext rfl first
  obtain ⟨c, hc, inv⟩ := TablesInv.fresh own run (by decide)
  exact ⟨[], c, _, _, hc, inv⟩

/-- Fifteen pages are left for the three tables. -/
theorem mapping_survives_sixteen :
    Survives (rootOnly 16 (by decide)) 0x1000 0x400000 0x9000 pageWritable := by
  have tables := rootOnly_tables 16 (by decide) (by decide)
  apply ((mapping_survives_iff _ 0x1000 0x400000 0x9000 pageWritable).1 (.inr tables)).mpr
  exact ⟨by decide, by decide +kernel⟩

/-- The root took the last page: the mapping goes through tables at address 0. -/
theorem mapping_not_survived : ¬ ∀ (k : Kernel) (pml4 virt phys flags : Word), TablesAt k pml4 →
    Survives k pml4 virt phys flags := by
  intro claim
  have tables := rootOnly_tables 2 (by decide) (by decide)
  have survives := claim _ 0x1000 0x400000 0x9000 pageWritable tables
  have enough := ((survives_iff (.inr tables) _ _ _).mp survives).2
  exact absurd enough (by decide +kernel)

end Coolos.Theorems
