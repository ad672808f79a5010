import Coolos.Logic.PageTable

/-!
# Runs of the page table functions

Mapping and unmapping under one root, while others allocate pages, write to
them and free them. The run keeps the finite map the tables should stand for;
`PageTableInv` says that they do.
-/

namespace Coolos

open Lib Lib.Paging PageAllocator

/-! ## Others at work -/

section Others

variable {pa pa' : PageAllocator} {owned : List (Word × Word)} {ptr pages : Word} {t : Nat}

theorem OwnedInv.alloc (own : OwnedInv pa owned) (h : pa.alloc pages = (pa', ptr))
    (hptr : ptr ≠ 0) :
    OwnedInv pa' ((ptr, pages) :: owned) := by
  obtain ⟨-, bits, range⟩ := alloc_range h hptr
  refine ⟨List.pairwise_cons.mpr ⟨fun b hb p both => ?_, own.disjoint⟩,
    List.forall_mem_cons.mpr ⟨fun p hp clear => ((bits p).mp clear).2 hp,
      fun a ha p hp clear => ?_⟩,
    List.forall_mem_cons.mpr ⟨?_, own.inside⟩⟩
  · exact own.used b hb p both.2 (range p both.1).2.2
  · exact own.used a ha p hp ((bits p).mp clear).1
  · obtain ⟨i, -, addr, -, run, -, -⟩ := alloc_success h hptr
    have := run.high
    have := pa.bounded
    show ptr.toNat / 4096 + pages.toNat ≤ maxPages
    omega

/-- A page that is kept is not the one allocated. -/
theorem Kept.alloc (kept : Kept pa owned t) (h : pa.alloc pages = (pa', ptr)) (hptr : ptr ≠ 0) :
    Kept pa' ((ptr, pages) :: owned) t := by
  obtain ⟨total, bits, range⟩ := alloc_range h hptr
  refine ⟨kept.low, total ▸ kept.high, fun clear => kept.used ((bits t).mp clear).1,
    List.forall_mem_cons.mpr ⟨fun hr => kept.used (range t hr).2.2, kept.apart⟩⟩

theorem OwnedInv.clear_free (own : OwnedInv pa owned) (mine : (ptr, pages) ∈ owned) {p : Nat} :
    (pa.free ptr pages).Clear p ↔ pa.Clear p ∨ p < maxPages ∧ InRange (ptr, pages) p := by
  have inside : ptr.toNat / 4096 + pages.toNat ≤ maxPages := own.inside _ mine
  have small : maxPages = 1048576 := rfl
  exact clear_free_range (by omega)

theorem OwnedInv.free (own : OwnedInv pa owned) (mine : (ptr, pages) ∈ owned) :
    OwnedInv (pa.free ptr pages) (owned.erase (ptr, pages)) := by
  have symm : ∀ {a b : Word × Word}, (∀ p, ¬ (InRange a p ∧ InRange b p)) →
      ∀ p, ¬ (InRange b p ∧ InRange a p) := fun h p both => h p both.symm
  have apart := ((List.perm_cons_erase mine).pairwise_iff symm).mp own.disjoint
  obtain ⟨others, rest⟩ := List.pairwise_cons.mp apart
  have sub : ∀ a ∈ owned.erase (ptr, pages), a ∈ owned := fun a => List.mem_of_mem_erase
  refine ⟨rest, fun a ha p hp clear => ?_, fun a ha => own.inside a (sub a ha)⟩
  rcases (own.clear_free mine).mp clear with before | ⟨-, here⟩
  · exact own.used a (sub a ha) p hp before
  · exact others a ha p ⟨here, hp⟩

theorem Kept.free (kept : Kept pa owned t) (own : OwnedInv pa owned)
    (mine : (ptr, pages) ∈ owned) : Kept (pa.free ptr pages) (owned.erase (ptr, pages)) t := by
  refine ⟨kept.low, kept.high, fun clear => ?_, fun a ha => kept.apart a (List.mem_of_mem_erase ha)⟩
  rcases (own.clear_free mine).mp clear with before | ⟨-, here⟩
  · exact kept.used before
  · exact kept.apart _ mine here

end Others

/-! ## Runs -/

/-- A call to one of the page table functions, or someone else using pages. -/
inductive PageTableOp where
  | map (virt phys flags : Word)
  | unMap (virt : Word)
  | alloc (pages : Word)
  | free (ptr pages : Word)
  | write (addr : Word) (byte : BitVec 8)

/-- The page whose mapping a call is about. -/
def PageTableOp.target : PageTableOp → Option Nat
  | .map virt _ _ => some (page virt)
  | .unMap virt => some (page virt)
  | _ => none

/-- The kernel, the root, what others own, and the map meant: for each page the
frame and the flags it was last mapped with. -/
structure PageTableRun where
  kernel : Kernel
  pml4 : Word
  owned : List (Word × Word)
  mapped : Nat → Option (Word × Word)

/-- Flags drawn from `PAGE_WRITABLE` and `PAGE_USER`. -/
def MapFlags (f : Word) : Prop :=
  f = 0 ∨ f = pageWritable ∨ f = pageUser ∨ f = pageWritable ||| pageUser

instance (f : Word) : Decidable (MapFlags f) := inferInstanceAs (Decidable (_ ∨ _))

namespace PageTableRun

/-- Addresses of 48 bits, frames that are page-aligned and below `2 ^ 52`, and an
allocator that is not exhausted. Others keep to their own pages. -/
def Allowed (s : PageTableRun) : PageTableOp → Prop
  | .map virt phys flags =>
      virt.toNat < 2 ^ 48 ∧ (phys.toNat % 4096 = 0 ∧ phys.toNat < 2 ^ 52) ∧ MapFlags flags ∧
        Supplied s.kernel s.pml4 virt
  | .unMap virt => virt.toNat < 2 ^ 48
  | .alloc _ => True
  | .free ptr pages => (ptr, pages) ∈ s.owned
  | .write addr _ => ∃ a ∈ s.owned, InRange a (addr.toNat / 4096)

def step (s : PageTableRun) : PageTableOp → PageTableRun
  | .map virt phys flags =>
      { s with
        kernel := s.kernel.pageTableMap s.pml4 virt phys flags
        mapped := Function.update s.mapped (page virt) (some (phys, flags)) }
  | .unMap virt =>
      { s with
        kernel := s.kernel.pageTableUnMap s.pml4 virt
        mapped := Function.update s.mapped (page virt) none }
  | .alloc pages =>
      let (pa, ptr) := s.kernel.pages.alloc pages
      { s with
        kernel := { s.kernel with pages := pa }
        owned := if ptr = 0 then s.owned else (ptr, pages) :: s.owned }
  | .free ptr pages =>
      { s with
        kernel := { s.kernel with pages := s.kernel.pages.free ptr pages }
        owned := s.owned.erase (ptr, pages) }
  | .write addr byte =>
      { s with kernel := { s.kernel with mem := Function.update s.kernel.mem addr byte } }

/-- Runs from a zeroed page, the root, that the allocator gave out. -/
def sys : TSys PageTableRun PageTableOp where
  init s := ∃ (k : Kernel) (pa : PageAllocator) (pml4 : Word) (owned : List (Word × Word)),
    OwnedInv k.pages owned ∧ k.pages.alloc 1 = (pa, pml4) ∧ pml4 ≠ 0 ∧
      s = ⟨{ k with pages := pa, mem := clearTable k.mem pml4 512 }, pml4, owned, fun _ => none⟩
  next s op s' := s.Allowed op ∧ s.step op = s'

end PageTableRun

/-- The entry that stands for a mapping. -/
def leafEntry : Option (Word × Word) → Word
  | none => 0
  | some (phys, flags) => phys ||| flags ||| pagePresent

/-- The tables stand for the map. -/
structure PageTableInv (s : PageTableRun) : Prop where
  tables : ∃ root T, s.pml4 = loc (root * 4096) ∧
    TablesInv s.kernel s.owned root T (leafEntry ∘ s.mapped)
  frames : ∀ n p f, s.mapped n = some (p, f) →
    (p.toNat % 4096 = 0 ∧ p.toNat < 2 ^ 52) ∧ MapFlags f

namespace PageTableInv

variable {s : PageTableRun}

theorem init (h : PageTableRun.sys.init s) : PageTableInv s := by
  obtain ⟨k, pa, pml4, owned, own, run, nonzero, rfl⟩ := h
  obtain ⟨c, rfl, tables⟩ := TablesInv.fresh own run nonzero
  exact ⟨⟨c, _, rfl, tables⟩, fun n p f h => absurd h (by simp)⟩

theorem step (inv : PageTableInv s) {op : PageTableOp} (ok : s.Allowed op) :
    PageTableInv (s.step op) := by
  obtain ⟨⟨root, T, hroot, tables⟩, frames⟩ := inv
  have keep {n : Nat} {x : Option (Word × Word)}
      (hx : ∀ p f, x = some (p, f) → (p.toNat % 4096 = 0 ∧ p.toNat < 2 ^ 52) ∧ MapFlags f) :
      ∀ n' p f, Function.update s.mapped n x n' = some (p, f) →
        (p.toNat % 4096 = 0 ∧ p.toNat < 2 ^ 52) ∧ MapFlags f := by
    intro n' p f h
    by_cases here : n' = n
    · subst here
      rw [Function.update_self] at h
      exact hx p f h
    · rw [Function.update_of_ne here] at h
      exact frames n' p f h
  cases op with
  | map virt phys flags =>
      obtain ⟨hv, hp, hf, supplied⟩ := ok
      rw [hroot] at supplied
      obtain ⟨T', tables'⟩ := tables.map hv supplied phys flags
      refine ⟨⟨root, T', hroot, ?_⟩, keep fun p f h => ?_⟩
      · show TablesInv (s.kernel.pageTableMap s.pml4 virt phys flags) s.owned root T' _
        rw [hroot]
        show TablesInv _ _ _ _
          (leafEntry ∘ Function.update s.mapped (page virt) (some (phys, flags)))
        rw [Function.comp_update]
        exact tables'
      · obtain ⟨rfl, rfl⟩ := Prod.mk.inj (Option.some.inj h)
        exact ⟨hp, hf⟩
  | unMap virt =>
      refine ⟨⟨root, T, hroot, ?_⟩, keep fun p f h => absurd h (by simp)⟩
      show TablesInv (s.kernel.pageTableUnMap s.pml4 virt) s.owned root T
        (leafEntry ∘ Function.update s.mapped (page virt) none)
      rw [hroot, Function.comp_update]
      exact tables.unMap ok
  | alloc pages =>
      rcases h : s.kernel.pages.alloc pages with ⟨pa, ptr⟩
      by_cases null : ptr = 0
      · subst null
        obtain ⟨rfl, -⟩ := alloc_null h
        simp only [PageTableRun.step, h, if_true]
        exact ⟨⟨root, T, hroot, tables⟩, frames⟩
      · simp only [PageTableRun.step, h, null, if_false]
        exact ⟨⟨root, T, hroot, tables.holds, fun l n t ht => (tables.kept l n t ht).alloc h null,
          tables.own.alloc h null⟩, frames⟩
  | free ptr pages =>
      exact ⟨⟨root, T, hroot, tables.holds,
        fun l n t ht => (tables.kept l n t ht).free tables.own ok,
        tables.own.free ok⟩, frames⟩
  | write addr byte =>
      obtain ⟨a, ha, hr⟩ := ok
      refine ⟨⟨root, T, hroot, tables.holds.congr fun l n t ht i hi => ?_, tables.kept, tables.own⟩,
        frames⟩
      refine entry_congr (tables.holds.small l n t ht) hi fun x hx => Function.update_of_ne ?_ ..
      rintro rfl
      exact (tables.kept l n t ht).apart a ha (hx ▸ hr)

end PageTableInv

/-- The tables stand for the map in every run. -/
theorem pageTable_invariant : PageTableRun.sys.Invariant PageTableInv := by
  refine TSys.Inductive.invariant ⟨fun s h => PageTableInv.init h, ?_⟩
  rintro s op s' inv ⟨ok, rfl⟩
  exact inv.step ok

end Coolos
