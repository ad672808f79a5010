import Coolos.Kernel.Boot
import Coolos.Logic.PageTable
import Coolos.Logic.PageCount
import Mathlib.Algebra.Order.BigOperators.Group.Finset
import Mathlib.Data.Set.Card

/-!
# Building the identity map

What the loops of `PageTable_Init` do to the tree. Pages are mapped to
themselves phase by phase, each phase over the one before (`overlay`). The
tables come from the allocator, one page each; `Funded` says that as many pages
are left as tables are still missing, so no phase runs out of them.
-/

namespace Coolos

open Lib Lib.Paging PageAllocator

/-! ## Pages for the tables -/

/-- The tables of level `l` that serve the pages `P`. -/
def serving (P : Finset Nat) (l : Nat) : Finset Nat := P.image (· / 512 ^ (l + 1))

theorem mem_serving {P : Finset Nat} {n : Nat} (hn : n ∈ P) (l : Nat) :
    n / 512 ^ (l + 1) ∈ serving P l :=
  Finset.mem_image_of_mem _ hn

/-- How many tables below the root the pages `P` still lack. -/
def missing (T : Tables) (P : Finset Nat) : Nat :=
  ∑ l ∈ Finset.range 3, ((serving P l).filter fun n => T l n = none).card

/-- Making a table that serves `P` leaves one less to make. -/
theorem missing_add {T : Tables} {P : Finset Nat} {l n : Nat} (hl : l < 3)
    (hn : n ∈ serving P l) (lacks : T l n = none) (c : Nat) :
    missing (T.add l n c) P + 1 = missing T P := by
  have split : (serving P l).filter (fun n' => T l n' = none) =
      insert n ((serving P l).filter fun n' => T.add l n c l n' = none) := by
    ext n'
    simp only [Finset.mem_filter, Finset.mem_insert]
    by_cases same : n' = n
    · subst same
      exact ⟨fun _ => .inl rfl, fun _ => ⟨hn, lacks⟩⟩
    · rw [T.add_of_ne (fun h => same h.2)]
      exact ⟨.inr, fun h => h.resolve_left same⟩
  -- only the count of level `l` changes, by the table made
  have there : n ∉ (serving P l).filter fun n' => T.add l n c l n' = none := by
    intro h
    have := (Finset.mem_filter.mp h).2
    rw [T.add_self] at this
    cases this
  have one := Finset.card_insert_of_notMem there
  rw [← split] at one
  have change : missing (T.add l n c) P + _ = missing T P + _ :=
    sum_change (Finset.mem_range.mpr hl) fun j hj => by
      congr 1
      apply Finset.filter_congr
      intro n' _
      rw [T.add_of_ne (fun h => hj h.1)]
  omega

/-- `m` pages more are left than tables are missing. -/
def Spare (k : Kernel) (T : Tables) (P : Finset Nat) (m : Nat) : Prop :=
  missing T P + m ≤ k.pages.clearPages.card

/-- As many pages are left as tables are missing. -/
def Funded (k : Kernel) (T : Tables) (P : Finset Nat) : Prop :=
  missing T P ≤ k.pages.clearPages.card

section Spare

variable {k k' : Kernel} {T T' : Tables} {P : Finset Nat} {l n m : Nat}

theorem funded_iff : Funded k T P ↔ Spare k T P 0 := Iff.rfl

theorem Spare.supplied (spare : Spare k T P m) (hl : l < 3) (hn : n ∈ serving P l)
    (lacks : T l n = none) : (k.pages.alloc 1).2 ≠ 0 := by
  apply (alloc_one_ne_zero_iff k.pages).mpr
  have := missing_add hl hn lacks 0
  unfold Spare at spare
  omega

theorem Spare.grows (spare : Spare k T P m) (hl : l < 3) (hn : n ∈ serving P l)
    (grows : Grows k k' T T' l n) : Spare k' T' P m := by
  rcases grows with ⟨rfl, rfl⟩ | ⟨lacks, ⟨c, rfl⟩, ptr, nonzero, run⟩
  · exact spare
  · have taken := card_clearPages_alloc run nonzero
    have made := missing_add hl hn lacks c
    unfold Spare at *
    rw [show (1 : Word).toNat = 1 from rfl] at taken
    omega

end Spare

section Map

variable {k : Kernel} {owned : List (Word × Word)} {root : Nat} {T : Tables} {leaf : Nat → Word}
  {P : Finset Nat} {m : Nat}

/-- One level down with pages enough. -/
theorem TablesInv.create (inv : TablesInv k owned root T leaf) (spare : Spare k T P m)
    {v i : Word} {l t : Nat} (hl : l < 3) (hp : page v ∈ P)
    (ht : T (l + 1) (page v / 512 ^ (l + 1 + 1)) = some t) (hi : i = index v (l + 1)) :
    ∃ k' T' c, k.getOrCreateTable (loc (t * 4096)) i = (k', loc (c * 4096)) ∧
      T' l (page v / 512 ^ (l + 1)) = some c ∧ TablesInv k' owned root T' leaf ∧
      Spare k' T' P m := by
  have hn := mem_serving hp l
  rcases inv.getOrCreateTable hl ht hi with
    ⟨-, lacks, fail⟩ | ⟨k', T', c, run, ht', inv', grows⟩
  · exact absurd fail (spare.supplied hl hn lacks)
  · exact ⟨k', T', c, run, ht', inv', spare.grows hl hn grows⟩

/-- `PageTable_Map` with pages enough. -/
theorem TablesInv.map_spare (inv : TablesInv k owned root T leaf) (spare : Spare k T P m)
    {v : Word} (hv : v.toNat < 2 ^ 48) (hp : page v ∈ P) (p f : Word) :
    ∃ T', TablesInv (k.pageTableMap (loc (root * 4096)) v p f) owned root T'
        (Function.update leaf (page v) (p ||| f ||| pagePresent)) ∧
      Spare (k.pageTableMap (loc (root * 4096)) v p f) T' P m := by
  obtain ⟨k₁, T₁, pdp, run₁, ht₁, inv₁, spare₁⟩ :=
    inv.create (i := pml4Idx v) spare (by decide) hp (inv.top hv) rfl
  obtain ⟨k₂, T₂, pd, run₂, ht₂, inv₂, spare₂⟩ :=
    inv₁.create (i := pdpIdx v) spare₁ (by decide) hp ht₁ rfl
  obtain ⟨k₃, T₃, pt, run₃, ht₃, inv₃, spare₃⟩ :=
    inv₂.create (i := pdIdx v) spare₂ (by decide) hp ht₂ rfl
  refine ⟨T₃, ?_⟩
  simp only [Kernel.pageTableMap, run₁, run₂, run₃]
  exact ⟨inv₃.setLeaf ht₃ _, spare₃⟩

theorem TablesInv.map_funded (inv : TablesInv k owned root T leaf) (funded : Funded k T P)
    {v : Word} (hv : v.toNat < 2 ^ 48) (hp : page v ∈ P) (p f : Word) :
    ∃ T', TablesInv (k.pageTableMap (loc (root * 4096)) v p f) owned root T'
        (Function.update leaf (page v) (p ||| f ||| pagePresent)) ∧
      Funded (k.pageTableMap (loc (root * 4096)) v p f) T' P :=
  inv.map_spare (funded_iff.mp funded) hv hp p f

end Map

/-! ## Phases -/

/-- The leaf entry of page `n` mapped to itself. -/
def identity (f : Word) (n : Nat) : Word := loc (n * 4096) ||| f ||| pagePresent

open Classical in
/-- The leaf entries once the pages `S` are mapped to themselves. -/
noncomputable def overlay (S : Set Nat) (f : Word) (leaf : Nat → Word) : Nat → Word := fun n =>
  if n ∈ S then identity f n else leaf n

section Overlay

variable {S R : Set Nat} {f : Word} {leaf : Nat → Word} {n : Nat}

theorem overlay_of_mem (h : n ∈ S) : overlay S f leaf n = identity f n := if_pos h

theorem overlay_of_notMem (h : n ∉ S) : overlay S f leaf n = leaf n := if_neg h

theorem overlay_overlay : overlay S f (overlay R f leaf) = overlay (R ∪ S) f leaf := by
  funext n
  by_cases new : n ∈ S
  · rw [overlay_of_mem new, overlay_of_mem (.inr new)]
  · rw [overlay_of_notMem new]
    by_cases old : n ∈ R
    · rw [overlay_of_mem old, overlay_of_mem (.inl old)]
    · rw [overlay_of_notMem old, overlay_of_notMem (not_or.mpr ⟨old, new⟩)]

theorem overlay_congr (h : ∀ n, n ∈ S ↔ n ∈ R) : overlay S f leaf = overlay R f leaf := by
  rw [Set.ext h]

theorem overlay_empty (none : ∀ n, n ∉ S) : overlay S f leaf = leaf :=
  funext fun n => overlay_of_notMem (none n)

theorem update_eq_overlay : Function.update leaf n (identity f n) = overlay {n} f leaf := by
  funext n'
  by_cases same : n' = n
  · subst same
    rw [Function.update_self, overlay_of_mem (Set.mem_singleton n')]
  · rw [Function.update_of_ne same, overlay_of_notMem (S := {n}) same]

end Overlay

/-! ## The pages of each phase -/

/-- A page-aligned range of addresses below `2 ^ 48`. -/
def MemoryDescriptor.Below48 (d : MemoryDescriptor) : Prop :=
  d.physicalStart.toNat % 4096 = 0 ∧
    d.physicalStart.toNat + d.numberOfPages.toNat * 4096 ≤ 2 ^ 48

/-- The pages of the descriptors of a mapped type. -/
def describedPages (map : List MemoryDescriptor) : Set Nat :=
  {p | ∃ d ∈ map, mappable d ∧ d.Holds p}

/-- The pages covering `[fb_base, fb_base + fb_size)`. -/
def framebufferPages (fbBase fbSize : Word) : Set Nat :=
  {p | fbBase.toNat < (p + 1) * 4096 ∧ p * 4096 < fbBase.toNat + fbSize.toNat}

/-- The page of the LAPIC, if there is one. -/
def lapicPages (lapicAddr : Word) : Set Nat := {p | lapicAddr ≠ 0 ∧ p = page lapicAddr}

/-- The page of the IOAPIC. -/
def ioapicPages : Set Nat := {page ioapicAddr}

/-- The aligned 1 MB window around `rsp`. -/
def stackPages (rsp : Word) : Set Nat := {p | p / 256 = rsp.toNat / 2 ^ 20}

/-- The pages `PageTable_Init` maps. -/
def identityPages (fbBase fbSize : Word) (map : List MemoryDescriptor) (lapicAddr rsp : Word) :
    Set Nat :=
  describedPages map ∪ framebufferPages fbBase fbSize ∪ lapicPages lapicAddr ∪ ioapicPages ∪
    stackPages rsp

/-- The leaf entries it leaves, one phase over the other. -/
noncomputable def identityLeaf (fbBase fbSize : Word) (map : List MemoryDescriptor)
    (lapicAddr rsp : Word) : Nat → Word :=
  overlay (stackPages rsp) (pageWritable ||| pageUser) <|
    overlay ioapicPages pageWritable <|
      overlay (lapicPages lapicAddr) pageWritable <|
        overlay (framebufferPages fbBase fbSize) (pageWritable ||| pageUser) <|
          overlay (describedPages map) (pageWritable ||| pageUser) fun _ => 0

/-- Page-aligned arguments, everything below `2 ^ 48`. -/
structure InitArgs (fbBase fbSize : Word) (map : List MemoryDescriptor) (lapicAddr rsp : Word) :
    Prop where
  map : ∀ d ∈ map, d.Below48
  framebuffer : fbBase.toNat % 4096 = 0 ∧ fbBase.toNat + fbSize.toNat ≤ 2 ^ 48
  lapic : lapicAddr.toNat % 4096 = 0 ∧ lapicAddr.toNat < 2 ^ 48
  stack : rsp.toNat < 2 ^ 48

/-- Everything that is mapped lies below `2 ^ 48`. -/
structure InitLow (fbBase fbSize : Word) (map : List MemoryDescriptor) (lapicAddr rsp : Word) :
    Prop where
  map : ∀ d ∈ map, mappable d →
    d.physicalStart.toNat + d.numberOfPages.toNat * 4096 ≤ 2 ^ 48
  framebuffer : fbBase.toNat + fbSize.toNat ≤ 2 ^ 48
  lapic : lapicAddr.toNat < 2 ^ 48
  stack : rsp.toNat < 2 ^ 48

section Low

variable {fbBase fbSize lapicAddr rsp : Word} {map : List MemoryDescriptor}

theorem InitArgs.low (args : InitArgs fbBase fbSize map lapicAddr rsp) :
    InitLow fbBase fbSize map lapicAddr rsp :=
  ⟨fun d hd _ => (args.map d hd).2, args.framebuffer.2, args.lapic.2, args.stack⟩

/-- So there are finitely many pages. -/
theorem InitLow.finite (low : InitLow fbBase fbSize map lapicAddr rsp) :
    (identityPages fbBase fbSize map lapicAddr rsp).Finite := by
  apply Set.Finite.subset (Set.finite_lt_nat (2 ^ 36))
  intro p hp
  show p < 2 ^ 36
  rcases hp with (((⟨d, hd, use, hp⟩ | hp) | hp) | hp) | hp
  · have top := low.map d hd use
    have high := hp.2
    omega
  · have top := low.framebuffer
    have high := hp.2
    omega
  · have top := low.lapic
    rw [hp.2, page]
    omega
  · rw [show p = page ioapicAddr from hp]
    decide
  · have top := low.stack
    have here : p / 256 = rsp.toNat / 2 ^ 20 := hp
    omega

end Low

/-- The root and the tables of the three levels below it that the pages `S` need. -/
noncomputable def tablesNeeded (S : Set Nat) : Nat :=
  1 + ∑ l ∈ Finset.range 3, ((· / 512 ^ (l + 1)) '' S).ncard

theorem tablesNeeded_pos (S : Set Nat) : 0 < tablesNeeded S :=
  Nat.lt_of_lt_of_le Nat.one_pos (Nat.le_add_right ..)

theorem tablesNeeded_coe (P : Finset Nat) :
    tablesNeeded P = 1 + ∑ l ∈ Finset.range 3, (serving P l).card := by
  unfold tablesNeeded
  congr 1
  apply Finset.sum_congr rfl
  intro l _
  rw [serving, ← Finset.coe_image, Set.ncard_coe_finset]

theorem ncard_image_le {S : Set Nat} {f : Nat → Nat} {F : Finset Nat} (h : ∀ p ∈ S, f p ∈ F) :
    (f '' S).ncard ≤ F.card := by
  have sub : f '' S ⊆ (F : Set Nat) := by
    rintro n ⟨p, hp, rfl⟩
    exact Finset.mem_coe.mpr (h p hp)
  calc (f '' S).ncard
      ≤ (F : Set Nat).ncard := Set.ncard_le_ncard sub F.finite_toSet
    _ = F.card := Set.ncard_coe_finset F

/-- Three tables at most for each block of 512 pages. -/
theorem tablesNeeded_le {S : Set Nat} {B : Finset Nat} (h : ∀ p ∈ S, p / 512 ∈ B) :
    tablesNeeded S ≤ 1 + 3 * B.card := by
  apply Nat.add_le_add_left
  have level : ∀ l ∈ Finset.range 3, ((· / 512 ^ (l + 1)) '' S).ncard ≤ B.card := by
    intro l _
    apply (ncard_image_le (F := B.image (· / 512 ^ l)) ?_).trans Finset.card_image_le
    intro p hp
    apply Finset.mem_image.mpr
    exact ⟨p / 512, h p hp, by rw [Nat.pow_succ', Nat.div_div_eq_div_mul]⟩
  exact (Finset.sum_le_card_nsmul _ _ _ level).trans (by simp)

/-- The pages from `a` up to `b`. -/
def between (a b : Nat) : Set Nat := {n | a ≤ n ∧ n < b}

section Phases

variable {k : Kernel} {owned : List (Word × Word)} {root : Nat} {T : Tables} {leaf : Nat → Word}
  {P : Finset Nat}

/-- A loop of `PageTable_Init` over the pages from `a` up to `b`. -/
theorem TablesInv.mapRange {stop : Word} (f : Word) {b : Nat}
    (last : ∀ n, n * 4096 < stop.toNat ↔ n < b) (top : b * 4096 ≤ 2 ^ 48) {n : Nat} :
    ∀ {a fuel : Nat} {k : Kernel} {T : Tables} {leaf : Nat → Word}, a + n = b → n < fuel →
    TablesInv k owned root T leaf → Funded k T P → (∀ p ∈ between a b, p ∈ P) →
    ∃ k' T', Kernel.mapRange (loc (root * 4096)) stop f fuel k (loc (a * 4096)) = some k' ∧
      TablesInv k' owned root T' (overlay (between a b) f leaf) ∧ Funded k' T' P := by
  induction n with
  | zero =>
      intro a fuel k T leaf here more inv funded _
      obtain ⟨fuel, rfl⟩ : ∃ m, fuel = m + 1 := ⟨fuel - 1, by omega⟩
      have done : ¬ loc (a * 4096) < stop := by
        rw [BitVec.lt_def, toNat_loc (by omega), last]
        omega
      refine ⟨k, T, if_neg done, ?_, funded⟩
      rw [overlay_empty]
      · exact inv
      · rintro p ⟨low, high⟩
        omega
  | succ n ih =>
      intro a fuel k T leaf here more inv funded sub
      obtain ⟨fuel, rfl⟩ : ∃ m, fuel = m + 1 := ⟨fuel - 1, by omega⟩
      have goes : loc (a * 4096) < stop := by
        rw [BitVec.lt_def, toNat_loc (by omega), last]
        omega
      have place : page (loc (a * 4096)) = a := by
        rw [page, toNat_loc (by omega)]
        omega
      have low : (loc (a * 4096)).toNat < 2 ^ 48 := by
        rw [toNat_loc (by omega)]
        omega
      have mem : page (loc (a * 4096)) ∈ P := by
        rw [place]
        exact sub a ⟨le_rfl, by omega⟩
      -- page `a`, then the pages behind it
      obtain ⟨T₁, inv₁, funded₁⟩ := inv.map_funded funded low mem (loc (a * 4096)) f
      rw [place, show loc (a * 4096) ||| f ||| pagePresent = identity f a from rfl,
        update_eq_overlay] at inv₁
      have next : loc (a * 4096) + pageSize = loc ((a + 1) * 4096) := by
        rw [Nat.add_mul, loc_add]
        rfl
      obtain ⟨k', T', run, inv', funded'⟩ := ih (a := a + 1) (by omega) (by omega : n < fuel)
        inv₁ funded₁ fun p hp => sub p ⟨by have := hp.1; omega, hp.2⟩
      refine ⟨k', T', ?_, ?_, funded'⟩
      · rw [Kernel.mapRange, if_pos goes, next]
        exact run
      · rw [overlay_overlay] at inv'
        rwa [overlay_congr (R := between a b)] at inv'
        intro p
        simp only [between, Set.mem_union, Set.mem_singleton_iff, Set.mem_ofPred_eq]
        omega

/-- A loop over page-aligned addresses below `2 ^ 48`. -/
theorem TablesInv.mapRange_words (inv : TablesInv k owned root T leaf) (funded : Funded k T P)
    {addr stop : Word} (f : Word) (aligned : addr.toNat % 4096 = 0)
    (order : addr.toNat ≤ stop.toNat) (top : stop.toNat ≤ 2 ^ 48)
    (sub : ∀ p, addr.toNat ≤ p * 4096 → p * 4096 < stop.toNat → p ∈ P) :
    ∃ k' T', Kernel.mapRange (loc (root * 4096)) stop f (2 ^ 64) k addr = some k' ∧
      TablesInv k' owned root T'
        (overlay {p | addr.toNat ≤ p * 4096 ∧ p * 4096 < stop.toNat} f leaf) ∧
      Funded k' T' P := by
  have first : addr = loc (addr.toNat / 4096 * 4096) := by
    rw [Nat.div_mul_cancel (Nat.dvd_of_mod_eq_zero aligned), loc_toNat]
  have pages : ∀ p, p ∈ between (addr.toNat / 4096) ((stop.toNat + 4095) / 4096) ↔
      addr.toNat ≤ p * 4096 ∧ p * 4096 < stop.toNat := by
    intro p
    simp only [between, Set.mem_ofPred_eq]
    omega
  have last : ∀ n, n * 4096 < stop.toNat ↔ n < (stop.toNat + 4095) / 4096 := by
    intro n
    omega
  have fuel : (stop.toNat + 4095) / 4096 - addr.toNat / 4096 < 2 ^ 64 := by omega
  obtain ⟨k', T', run, inv', funded'⟩ := TablesInv.mapRange f last (by omega)
    (Nat.add_sub_cancel' (by omega)) fuel inv funded fun p hp => by
      have := (pages p).mp hp
      exact sub p this.1 this.2
  rw [← first] at run
  refine ⟨k', T', run, ?_, funded'⟩
  rwa [overlay_congr pages] at inv'

/-- The loop over the memory map. -/
theorem TablesInv.mapEntries {map : List MemoryDescriptor} : ∀ {k : Kernel} {T : Tables}
    {leaf : Nat → Word}, TablesInv k owned root T leaf → Funded k T P →
    (∀ d ∈ map, d.Below48) → (∀ p ∈ describedPages map, p ∈ P) →
    ∃ k' T', map.foldlM (Kernel.mapEntry (loc (root * 4096))) k = some k' ∧
      TablesInv k' owned root T'
        (overlay (describedPages map) (pageWritable ||| pageUser) leaf) ∧
      Funded k' T' P := by
  induction map with
  | nil =>
      intro k T leaf inv funded _ _
      refine ⟨k, T, rfl, ?_, funded⟩
      rw [overlay_empty]
      · exact inv
      · rintro p ⟨d, hd, -⟩
        cases hd
  | cons d map ih =>
      intro k T leaf inv funded below sub
      have belowTail : ∀ e ∈ map, e.Below48 := fun e he => below e (List.mem_cons_of_mem _ he)
      have subTail : ∀ p ∈ describedPages map, p ∈ P := by
        rintro p ⟨e, he, hp⟩
        exact sub p ⟨e, List.mem_cons_of_mem _ he, hp⟩
      by_cases use : mappable d
      · obtain ⟨aligned, top⟩ := below d List.mem_cons_self
        have stop : (d.physicalStart + d.numberOfPages * pageSize).toNat =
            d.physicalStart.toNat + d.numberOfPages.toNat * 4096 := by
          rw [BitVec.toNat_add, BitVec.toNat_mul, show pageSize.toNat = 4096 from rfl]
          omega
        have order : d.physicalStart.toNat ≤
            (d.physicalStart + d.numberOfPages * pageSize).toNat := by omega
        obtain ⟨k₁, T₁, run₁, inv₁, funded₁⟩ := inv.mapRange_words funded
          (pageWritable ||| pageUser) aligned order (by omega)
          fun p low high => by
            rw [stop] at high
            exact sub p ⟨d, List.mem_cons_self, use, low, by omega⟩
        obtain ⟨k', T', run, inv', funded'⟩ := ih inv₁ funded₁ belowTail subTail
        refine ⟨k', T', ?_, ?_, funded'⟩
        · rw [List.foldlM_cons, Kernel.mapEntry, if_pos use, run₁]
          exact run
        · rw [overlay_overlay] at inv'
          rwa [overlay_congr (R := describedPages (d :: map))] at inv'
          intro p
          simp only [describedPages, Set.mem_union, Set.mem_ofPred_eq, List.exists_mem_cons_iff,
            use, true_and, MemoryDescriptor.Holds, stop]
          refine or_congr_left ?_
          omega
      · obtain ⟨k', T', run, inv', funded'⟩ := ih inv funded belowTail subTail
        refine ⟨k', T', ?_, ?_, funded'⟩
        · rw [List.foldlM_cons, Kernel.mapEntry, if_neg use]
          exact run
        · rwa [overlay_congr (R := describedPages (d :: map))] at inv'
          intro p
          simp only [describedPages, Set.mem_ofPred_eq, List.exists_mem_cons_iff, use, false_and,
            false_or]

end Phases

/-! ## `PageTable_Init` -/

theorem toNat_stackWindow (rsp : Word) :
    (stackWindow rsp).toNat = rsp.toNat / 2 ^ 20 * 2 ^ 20 :=
  toNat_and_not_mask (x := rsp) (a := 0x100000) (k := 20) (by decide) (by decide)

section Init

variable {k : Kernel} {fbBase fbSize lapicAddr rsp : Word} {map : List MemoryDescriptor}
  {P : Finset Nat}

/-- The root takes one page, which leaves enough for the tables below it. -/
theorem spare_single {pa : PageAllocator} {pml4 : Word} {m : Nat}
    (enough : tablesNeeded P + m ≤ k.pages.clearPages.card) (run : k.pages.alloc 1 = (pa, pml4))
    (nonzero : pml4 ≠ 0) (mem : Mem) (c : Nat) :
    Spare { k with pages := pa, mem := mem } (Tables.single c) P m := by
  have taken := card_clearPages_alloc run nonzero
  have few : missing (Tables.single c) P ≤ ∑ l ∈ Finset.range 3, (serving P l).card :=
    Finset.sum_le_sum fun l _ => Finset.card_filter_le _ _
  rw [show (1 : Word).toNat = 1 from rfl] at taken
  rw [tablesNeeded_coe] at enough
  show missing (Tables.single c) P + m ≤ pa.clearPages.card
  omega

variable {root : Nat} {T : Tables} {leaf : Nat → Word}

/-- The loop over the frame buffer. -/
theorem TablesInv.framebuffer (inv : TablesInv k [] root T leaf) (funded : Funded k T P)
    (args : InitArgs fbBase fbSize map lapicAddr rsp)
    (sub : ∀ p ∈ framebufferPages fbBase fbSize, p ∈ P) :
    ∃ k' T', Kernel.mapRange (loc (root * 4096)) (fbBase + fbSize) (pageWritable ||| pageUser)
        (2 ^ 64) k fbBase = some k' ∧
      TablesInv k' [] root T'
        (overlay (framebufferPages fbBase fbSize) (pageWritable ||| pageUser) leaf) ∧
      Funded k' T' P := by
  obtain ⟨aligned, top⟩ := args.framebuffer
  have stop : (fbBase + fbSize).toNat = fbBase.toNat + fbSize.toNat := by
    rw [BitVec.toNat_add]
    omega
  have pages : ∀ p, p ∈ {p | fbBase.toNat ≤ p * 4096 ∧ p * 4096 < (fbBase + fbSize).toNat} ↔
      p ∈ framebufferPages fbBase fbSize := by
    intro p
    simp only [framebufferPages, Set.mem_ofPred_eq, stop]
    omega
  rw [← overlay_congr pages]
  exact inv.mapRange_words funded _ aligned (by omega) (by omega)
    fun p low high => sub p ((pages p).mp ⟨low, high⟩)

/-- The LAPIC, if there is one. -/
theorem TablesInv.lapic (inv : TablesInv k [] root T leaf) (funded : Funded k T P)
    (args : InitArgs fbBase fbSize map lapicAddr rsp) (sub : ∀ p ∈ lapicPages lapicAddr, p ∈ P) :
    let k' := if lapicAddr ≠ 0 then
      k.pageTableMap (loc (root * 4096)) lapicAddr lapicAddr pageWritable else k
    ∃ T', TablesInv k' [] root T' (overlay (lapicPages lapicAddr) pageWritable leaf) ∧
      Funded k' T' P := by
  obtain ⟨aligned, top⟩ := args.lapic
  intro k'
  by_cases there : lapicAddr ≠ 0
  · have self : lapicAddr = loc (page lapicAddr * 4096) := by
      rw [page, Nat.div_mul_cancel (Nat.dvd_of_mod_eq_zero aligned), loc_toNat]
    have entry : lapicAddr ||| pageWritable ||| pagePresent =
        identity pageWritable (page lapicAddr) := by
      rw [identity, ← self]
    have pages : ∀ p, p ∈ ({page lapicAddr} : Set Nat) ↔ p ∈ lapicPages lapicAddr := by
      intro p
      exact ⟨fun h => ⟨there, h⟩, fun h => h.2⟩
    obtain ⟨T', inv', funded'⟩ :=
      inv.map_funded funded top (sub _ ⟨there, rfl⟩) lapicAddr pageWritable
    rw [entry, update_eq_overlay, overlay_congr pages] at inv'
    simp only [k', if_pos there]
    exact ⟨T', inv', funded'⟩
  · simp only [k', if_neg there]
    refine ⟨T, ?_, funded⟩
    rw [overlay_empty]
    · exact inv
    · intro p hp
      exact there hp.1

/-- The loop over the IOAPIC. -/
theorem TablesInv.ioapic (inv : TablesInv k [] root T leaf) (funded : Funded k T P)
    (sub : ∀ p ∈ ioapicPages, p ∈ P) :
    ∃ k' T', Kernel.mapRange (loc (root * 4096)) 0xFEC01000 pageWritable (2 ^ 64) k ioapicAddr =
        some k' ∧
      TablesInv k' [] root T' (overlay ioapicPages pageWritable leaf) ∧ Funded k' T' P := by
  have pages : ∀ p, p ∈ {p | ioapicAddr.toNat ≤ p * 4096 ∧ p * 4096 < (0xFEC01000 : Word).toNat} ↔
      p ∈ ioapicPages := by
    intro p
    show 0xFEC00000 ≤ p * 4096 ∧ p * 4096 < 0xFEC01000 ↔ p = 0xFEC00
    omega
  rw [← overlay_congr pages]
  exact inv.mapRange_words funded _ (by decide) (by decide) (by decide)
    fun p low high => sub p ((pages p).mp ⟨low, high⟩)

/-- The loop over the stack. -/
theorem TablesInv.stack (inv : TablesInv k [] root T leaf) (funded : Funded k T P)
    (below : rsp.toNat < 2 ^ 48) (sub : ∀ p ∈ stackPages rsp, p ∈ P) :
    ∃ k' T', Kernel.mapRange (loc (root * 4096)) (stackWindow rsp + 0x100000)
        (pageWritable ||| pageUser) (2 ^ 64) k (stackWindow rsp) = some k' ∧
      TablesInv k' [] root T' (overlay (stackPages rsp) (pageWritable ||| pageUser) leaf) ∧
      Funded k' T' P := by
  have first := toNat_stackWindow rsp
  have stop : (stackWindow rsp + 0x100000).toNat = (rsp.toNat / 2 ^ 20 + 1) * 2 ^ 20 := by
    rw [BitVec.toNat_add, first, show (0x100000 : Word).toNat = 2 ^ 20 from rfl]
    omega
  have pages : ∀ p, p ∈ {p | (stackWindow rsp).toNat ≤ p * 4096 ∧
      p * 4096 < (stackWindow rsp + 0x100000).toNat} ↔ p ∈ stackPages rsp := by
    intro p
    simp only [stackPages, Set.mem_ofPred_eq, first, stop]
    omega
  rw [← overlay_congr pages]
  exact inv.mapRange_words funded _ (by omega) (by omega) (by omega)
    fun p low high => sub p ((pages p).mp ⟨low, high⟩)

/-- `PageTable_Init` returns, with tables that hold the phases. -/
theorem pageTableInit_tables (args : InitArgs fbBase fbSize map lapicAddr rsp)
    (enough : tablesNeeded (identityPages fbBase fbSize map lapicAddr rsp) ≤
      k.pages.clearPages.card) :
    ∃ k' root T, k.pageTableInit fbBase fbSize map lapicAddr rsp = some (k', loc (root * 4096)) ∧
      TablesInv k' [] root T (identityLeaf fbBase fbSize map lapicAddr rsp) := by
  -- the pages of all phases, for which the tables are counted
  obtain ⟨P, hP⟩ := args.low.finite.exists_finset_coe
  have covers : ∀ p ∈ identityPages fbBase fbSize map lapicAddr rsp, p ∈ P := by
    intro p hp
    rwa [← hP] at hp
  rw [← hP] at enough
  rcases alloc : k.pages.alloc 1 with ⟨pa, pml4⟩
  have nonzero : pml4 ≠ 0 := by
    have found := (alloc_one_ne_zero_iff k.pages).mpr
      (Nat.lt_of_lt_of_le (tablesNeeded_pos _) enough)
    rwa [alloc] at found
  have own : OwnedInv k.pages [] := ⟨.nil, by simp, by simp⟩
  obtain ⟨root, rfl, inv⟩ := TablesInv.fresh own alloc nonzero
  have funded : Funded _ _ P := funded_iff.mpr
    (spare_single enough alloc nonzero (clearTable k.mem (loc (root * 4096)) 512) root)
  obtain ⟨k₁, T₁, run₁, inv₁, funded₁⟩ := inv.mapEntries funded args.map
    fun p hp => covers p (.inl (.inl (.inl (.inl hp))))
  obtain ⟨k₂, T₂, run₂, inv₂, funded₂⟩ := inv₁.framebuffer funded₁ args
    fun p hp => covers p (.inl (.inl (.inl (.inr hp))))
  obtain ⟨T₃, inv₃, funded₃⟩ := inv₂.lapic funded₂ args
    fun p hp => covers p (.inl (.inl (.inr hp)))
  obtain ⟨k₄, T₄, run₄, inv₄, funded₄⟩ := inv₃.ioapic funded₃
    fun p hp => covers p (.inl (.inr hp))
  obtain ⟨k₅, T₅, run₅, inv₅, -⟩ := inv₄.stack funded₄ args.stack fun p hp => covers p (.inr hp)
  refine ⟨k₅, root, T₅, ?_, inv₅⟩
  rw [Kernel.pageTableInit, alloc]
  dsimp only [Option.bind_eq_bind]
  rw [run₁, Option.bind_some, run₂, Option.bind_some, run₄, Option.bind_some, run₅,
    Option.bind_some]

end Init

end Coolos
