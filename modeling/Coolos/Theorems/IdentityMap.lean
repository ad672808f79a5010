import Coolos.Logic.IdentityMap
import Coolos.Theorems.PageTable

/-!
# The identity map

What the processor makes of an address after `PageTable_Init`: exactly the pages
of the four phases are mapped, each to itself, and a later phase settles who may
use a page that an earlier one mapped too.
-/

namespace Coolos.Theorems

open Lib Lib.Paging

/-- The pages only the kernel may use: LAPIC and IOAPIC, unless in the stack's
window. -/
def supervisorPages (lapicAddr rsp : Word) : Set Nat :=
  (lapicPages lapicAddr ∪ ioapicPages) \ stackPages rsp

/-- The addresses of `pages`, and no others, translate: to themselves, writable,
and for the user unless in `supervisor`. -/
structure MapsIdentically (m : Mem) (pml4 : Word) (pages supervisor : Set Nat) : Prop where
  maps : ∀ v : Word, v.toNat < 2 ^ 48 → ((walk m v 3 pml4).isSome ↔ page v ∈ pages)
  itself : ∀ (v : Word) (t : Translation), v.toNat < 2 ^ 48 → walk m v 3 pml4 = some t →
    t.frame = v &&& ~~~0xFFF ∧ t.writable = true ∧ (t.user = true ↔ page v ∉ supervisor)

section Leaf

variable {fbBase fbSize lapicAddr rsp : Word} {map : List MemoryDescriptor} {n : Nat}

theorem identityLeaf_unmapped (h : n ∉ identityPages fbBase fbSize map lapicAddr rsp) :
    identityLeaf fbBase fbSize map lapicAddr rsp n = 0 := by
  simp only [identityPages, Set.mem_union, not_or] at h
  obtain ⟨⟨⟨⟨described, framebuffer⟩, lapic⟩, ioapic⟩, stack⟩ := h
  rw [identityLeaf, overlay_of_notMem stack, overlay_of_notMem ioapic, overlay_of_notMem lapic,
    overlay_of_notMem framebuffer, overlay_of_notMem described]

theorem identityLeaf_supervisor (h : n ∈ supervisorPages lapicAddr rsp) :
    identityLeaf fbBase fbSize map lapicAddr rsp n = identity pageWritable n := by
  obtain ⟨either, stack⟩ := h
  rw [identityLeaf, overlay_of_notMem stack]
  by_cases ioapic : n ∈ ioapicPages
  · rw [overlay_of_mem ioapic]
  · rw [overlay_of_notMem ioapic, overlay_of_mem (either.resolve_right ioapic)]

theorem identityLeaf_user (h : n ∈ identityPages fbBase fbSize map lapicAddr rsp)
    (user : n ∉ supervisorPages lapicAddr rsp) :
    identityLeaf fbBase fbSize map lapicAddr rsp n = identity (pageWritable ||| pageUser) n := by
  rw [identityLeaf]
  by_cases stack : n ∈ stackPages rsp
  · rw [overlay_of_mem stack]
  · have devices : n ∉ lapicPages lapicAddr ∪ ioapicPages := fun h => user ⟨h, stack⟩
    obtain ⟨lapic, ioapic⟩ := not_or.mp devices
    rw [overlay_of_notMem stack, overlay_of_notMem ioapic, overlay_of_notMem lapic]
    by_cases framebuffer : n ∈ framebufferPages fbBase fbSize
    · rw [overlay_of_mem framebuffer]
    · rw [overlay_of_notMem framebuffer, overlay_of_mem]
      rcases h with (((h | h) | h) | h) | h
      · exact h
      · exact absurd h framebuffer
      · exact absurd h lapic
      · exact absurd h ioapic
      · exact absurd h stack

end Leaf

/-- The processor reads the entry of a page mapped to itself. -/
theorem decode_identity {v f : Word} (hv : v.toNat < 2 ^ 48) (flags : MapFlags f) :
    decode (identity f (page v)) = some (translation (v &&& ~~~0xFFF, f)) := by
  have round : (v &&& ~~~0xFFF).toNat = v.toNat / 2 ^ 12 * 2 ^ 12 :=
    toNat_and_not_mask (x := v) (a := 0x1000) (k := 12) (by decide) (by decide)
  have frame : loc (page v * 4096) = v &&& ~~~0xFFF := by
    apply BitVec.eq_of_toNat_eq
    rw [round, page, toNat_loc (by omega)]
    rfl
  show decode (leafEntry (some (loc (page v * 4096), f))) = _
  rw [frame]
  exact decode_leafEntry (by omega) (by omega) flags

theorem decode_unmapped : decode 0 = none := by decide

theorem translation_supervisor (p : Word) : translation (p, pageWritable) = ⟨p, true, false⟩ := by
  have writable : pageWritable &&& pageWritable ≠ 0 := by decide
  have user : ¬ pageWritable &&& pageUser ≠ 0 := by decide
  simp only [translation, decide_eq_true writable, decide_eq_false user]

theorem translation_user (p : Word) :
    translation (p, pageWritable ||| pageUser) = ⟨p, true, true⟩ := by
  have writable : (pageWritable ||| pageUser) &&& pageWritable ≠ 0 := by decide
  have user : (pageWritable ||| pageUser) &&& pageUser ≠ 0 := by decide
  simp only [translation, decide_eq_true writable, decide_eq_true user]

/-- The three kinds of pages, as the processor sees them. -/
theorem decode_identityLeaf (fbBase fbSize : Word) (map : List MemoryDescriptor)
    (lapicAddr rsp : Word) {v : Word} (hv : v.toNat < 2 ^ 48) :
    let pages := identityPages fbBase fbSize map lapicAddr rsp
    let read := decode (identityLeaf fbBase fbSize map lapicAddr rsp (page v))
    (page v ∉ pages ∧ read = none) ∨
      (page v ∈ pages ∧ page v ∈ supervisorPages lapicAddr rsp ∧
        read = some ⟨v &&& ~~~0xFFF, true, false⟩) ∨
      (page v ∈ pages ∧ page v ∉ supervisorPages lapicAddr rsp ∧
        read = some ⟨v &&& ~~~0xFFF, true, true⟩) := by
  intro pages read
  by_cases mapped : page v ∈ pages
  · right
    by_cases super : page v ∈ supervisorPages lapicAddr rsp
    · refine .inl ⟨mapped, super, ?_⟩
      show decode _ = _
      rw [identityLeaf_supervisor super, decode_identity hv (by decide), translation_supervisor]
    · refine .inr ⟨mapped, super, ?_⟩
      show decode _ = _
      rw [identityLeaf_user mapped super, decode_identity hv (by decide), translation_user]
  · refine .inl ⟨mapped, ?_⟩
    show decode _ = _
    rw [identityLeaf_unmapped mapped, decode_unmapped]

/-- The tables that `PageTable_Init` leaves are the identity map. -/
theorem mapsIdentically_of_tables {k : Kernel} {fbBase fbSize lapicAddr rsp : Word}
    {map : List MemoryDescriptor} {root : Nat} {T : Tables}
    (tables : TablesInv k [] root T (identityLeaf fbBase fbSize map lapicAddr rsp)) :
    MapsIdentically k.mem (loc (root * 4096)) (identityPages fbBase fbSize map lapicAddr rsp)
      (supervisorPages lapicAddr rsp) := by
  have walks : ∀ v : Word, v.toNat < 2 ^ 48 → walk k.mem v 3 (loc (root * 4096)) =
      decode (identityLeaf fbBase fbSize map lapicAddr rsp (page v)) :=
    fun v hv => tables.holds.walk (by rw [page]; omega)
  constructor
  · intro v hv
    rw [walks v hv]
    rcases decode_identityLeaf fbBase fbSize map lapicAddr rsp hv with
      ⟨unmapped, read⟩ | ⟨mapped, -, read⟩ | ⟨mapped, -, read⟩
    · rw [read]
      exact iff_of_false (by decide) unmapped
    · rw [read]
      exact iff_of_true rfl mapped
    · rw [read]
      exact iff_of_true rfl mapped
  · intro v t hv translates
    rw [walks v hv] at translates
    rcases decode_identityLeaf fbBase fbSize map lapicAddr rsp hv with
      ⟨-, read⟩ | ⟨-, super, read⟩ | ⟨-, user, read⟩
    · rw [read] at translates
      cases translates
    · obtain rfl := Option.some.inj (read.symm.trans translates)
      exact ⟨rfl, rfl, iff_of_false Bool.false_ne_true (not_not_intro super)⟩
    · obtain rfl := Option.some.inj (read.symm.trans translates)
      exact ⟨rfl, rfl, iff_of_true rfl user⟩

/-- `PageTable_Init` returns and leaves the identity map. -/
theorem identity_map {k : Kernel} {fbBase fbSize lapicAddr rsp : Word}
    {map : List MemoryDescriptor} (args : InitArgs fbBase fbSize map lapicAddr rsp)
    (enough : tablesNeeded (identityPages fbBase fbSize map lapicAddr rsp) ≤
      k.pages.clearPages.card) :
    ∃ k' pml4, k.pageTableInit fbBase fbSize map lapicAddr rsp = some (k', pml4) ∧
      MapsIdentically k'.mem pml4 (identityPages fbBase fbSize map lapicAddr rsp)
        (supervisorPages lapicAddr rsp) := by
  obtain ⟨k', root, T, run, tables⟩ := pageTableInit_tables args enough
  exact ⟨k', _, run, mapsIdentically_of_tables tables⟩

/-! ## A small machine -/

/-- Fifteen pages of conventional memory, and behind them sixteen of the loader's. -/
def smallMap : List MemoryDescriptor :=
  [⟨EfiMemoryType.conventionalMemory.code, 0x1000, 15⟩,
    ⟨EfiMemoryType.loaderData.code, 0x10000, 16⟩]

theorem small_bounded : (16 : Word).toNat < maxPages := by decide

/-- The fifteen pages are clear. -/
def smallKernel : Kernel :=
  { Kernel.statics with pages := ⟨fun _ => 0, 16, small_bounded⟩, mem := fun _ => 0xFF }

theorem mem_smallMap {d : MemoryDescriptor} (hd : d ∈ smallMap) :
    d = ⟨EfiMemoryType.conventionalMemory.code, 0x1000, 15⟩ ∨
      d = ⟨EfiMemoryType.loaderData.code, 0x10000, 16⟩ :=
  (List.mem_cons.mp hd).imp_right List.mem_singleton.mp

/-- One page of frame buffer at 2 GiB, the LAPIC at its usual address, the stack in the loader's
memory. -/
theorem small_args : InitArgs 0x80000000 0x1000 smallMap 0xFEE00000 0x18000 where
  map := by
    intro d hd
    unfold MemoryDescriptor.Below48
    rcases mem_smallMap hd with rfl | rfl <;> decide
  framebuffer := by decide
  lapic := by decide
  stack := by decide

/-- The tables its pages share. -/
theorem small_tables {p : Nat}
    (hp : p ∈ identityPages 0x80000000 0x1000 smallMap 0xFEE00000 0x18000) :
    p / 512 = 0 ∨ p / 512 = 1024 ∨ p / 512 = 2038 ∨ p / 512 = 2039 := by
  rcases hp with (((⟨d, hd, -, hp⟩ | hp) | hp) | hp) | hp
  · rcases mem_smallMap hd with rfl | rfl
    · have high : (p + 1) * 4096 ≤ 0x1000 + 15 * 4096 := hp.2
      omega
    · have high : (p + 1) * 4096 ≤ 0x10000 + 16 * 4096 := hp.2
      omega
  · have low : 0x80000000 < (p + 1) * 4096 := hp.1
    have high : p * 4096 < 0x80000000 + 0x1000 := hp.2
    omega
  · have here : p = 0xFEE00000 / 4096 := hp.2
    omega
  · have here : p = 0xFEC00000 / 4096 := hp
    omega
  · have here : p / 256 = 0x18000 / 2 ^ 20 := hp
    omega

/-- Thirteen tables at most are needed, fifteen pages are left. -/
theorem small_enough : tablesNeeded (identityPages 0x80000000 0x1000 smallMap 0xFEE00000 0x18000) ≤
    smallKernel.pages.clearPages.card := by
  have left : smallKernel.pages.clearPages.card = 15 := by decide +kernel
  have few := tablesNeeded_le (S := identityPages 0x80000000 0x1000 smallMap 0xFEE00000 0x18000)
    (B := {0, 1024, 2038, 2039}) fun p hp => by
      simp only [Finset.mem_insert, Finset.mem_singleton]
      exact small_tables hp
  rw [left]
  exact few.trans (by decide)

/-- A page of memory is the user's, the LAPIC is not, and 1 GiB is not
mapped. -/
theorem identity_map_small :
    ∃ k' pml4, smallKernel.pageTableInit 0x80000000 0x1000 smallMap 0xFEE00000 0x18000 =
        some (k', pml4) ∧
      (∃ t, walk k'.mem 0x3123 3 pml4 = some t ∧ t.frame = 0x3000 ∧ t.user = true) ∧
      (∃ t, walk k'.mem 0xFEE00020 3 pml4 = some t ∧ t.frame = 0xFEE00000 ∧ t.user = false) ∧
      walk k'.mem 0x40000000 3 pml4 = none := by
  obtain ⟨k', pml4, run, translates⟩ := identity_map small_args small_enough
  refine ⟨k', pml4, run, ?_, ?_, ?_⟩
  · have mapped : page 0x3123 ∈ identityPages 0x80000000 0x1000 smallMap 0xFEE00000 0x18000 :=
      .inr (by show 0x3123 / 4096 / 256 = 0x18000 / 2 ^ 20; decide)
    obtain ⟨t, ht⟩ := Option.isSome_iff_exists.mp ((translates.maps 0x3123 (by decide)).mpr mapped)
    obtain ⟨frame, -, user⟩ := translates.itself _ t (by decide) ht
    refine ⟨t, ht, frame.trans (by decide), user.mpr fun super => super.2 ?_⟩
    show 0x3123 / 4096 / 256 = 0x18000 / 2 ^ 20
    decide
  · have lapic : page 0xFEE00020 ∈ lapicPages 0xFEE00000 := ⟨by decide, by decide⟩
    obtain ⟨t, ht⟩ := Option.isSome_iff_exists.mp
      ((translates.maps 0xFEE00020 (by decide)).mpr (.inl (.inl (.inr lapic))))
    obtain ⟨frame, -, user⟩ := translates.itself _ t (by decide) ht
    refine ⟨t, ht, frame.trans (by decide), ?_⟩
    rw [← Bool.not_eq_true, user, not_not]
    refine ⟨.inl lapic, fun stack => ?_⟩
    have here : 0xFEE00020 / 4096 / 256 = 0x18000 / 2 ^ 20 := stack
    omega
  · rw [← Option.not_isSome_iff_eq_none, translates.maps _ (by decide)]
    intro mapped
    have := small_tables mapped
    rw [show page 0x40000000 / 512 = 512 by decide] at this
    omega

end Coolos.Theorems
