import Coolos.Logic.InitPhases

/-!
# Where `PageTable_Init` writes

With pages enough, the page table functions write to tables only, and a table is on a page
that the allocator handed out. So all other memory stays as it was: the image, the tables of
the firmware, what others have allocated, and what is still free.
-/

namespace Coolos

open Lib Lib.Paging PageAllocator

/-! ## Writes to a table -/

section Write

variable {m : Mem} {a : Word} {t : Nat}

theorem write_entry_apply {i : Nat} (ht : t < 2 ^ 40) (hi : i < 512) (out : page a ≠ t) (e : Word) :
    m.write64 (loc (t * 4096 + 8 * i)) e a = m a := by
  have place : (loc (t * 4096 + 8 * i)).toNat = t * 4096 + 8 * i := toNat_loc (by omega)
  apply Mem.write64_apply
  rw [page] at out
  generalize loc (t * 4096 + 8 * i) = b at place
  bv_omega

theorem clearTable_apply (ht : t < 2 ^ 40) (out : page a ≠ t) : ∀ n ≤ 512,
    clearTable m (loc (t * 4096)) n a = m a := by
  intro n
  induction n with
  | zero => intro _; rfl
  | succ n ih =>
      intro hn
      have place : entryAddr (loc (t * 4096)) (loc n) = loc (t * 4096 + 8 * n) := by
        rw [entryAddr_table, toNat_loc (by omega)]
      rw [clearTable, place, write_entry_apply ht (by omega) out, ih (by omega)]

end Write

/-! ## The invariant -/

/-- Since the allocator was `pa₀` and memory was `m₀` pages below `B` have been taken, and
memory is the same outside of the tables. -/
structure Confined (pa₀ : PageAllocator) (B : Nat) (m₀ : Mem) (k : Kernel) (T : Tables) : Prop where
  free : k.pages.clearPages ⊆ pa₀.clearPages
  high : ∀ p ∈ pa₀.clearPages, B ≤ p → p ∈ k.pages.clearPages
  tables : ∀ l n t, T l n = some t → t ∈ pa₀.clearPages ∧ t < B
  mem : ∀ a, (∀ l n, T l n ≠ some (page a)) → k.mem a = m₀ a

section Confined

variable {pa₀ : PageAllocator} {B : Nat} {m₀ : Mem} {k k' : Kernel}
  {owned : List (Word × Word)} {root : Nat} {T T' : Tables} {leaf : Nat → Word} {P : Finset Nat}
  {m : Nat}

theorem index_lt (v : Word) (level : Nat) : (index v level).toNat < 512 := by
  rw [toNat_index]
  exact Nat.mod_lt _ (by decide)

/-- A page that was taken was free. -/
theorem mem_clearPages {pa : PageAllocator} {p : Nat} (clear : pa.Clear p) (low : 1 ≤ p)
    (high : p < pa.totalPages.toNat) : p ∈ pa.clearPages :=
  Finset.mem_filter.mpr ⟨Finset.mem_Ico.mpr ⟨low, high⟩, clear⟩

/-- The lowest page is taken, so one below `B` while there are any. -/
theorem taken_below {pa pa' : PageAllocator} {d : Nat} (small : d < 2 ^ 40)
    (run : pa.alloc 1 = (pa', loc (d * 4096))) (nonzero : loc (d * 4096) ≠ 0)
    (room : (pa.clearPages.filter (B ≤ ·)).card < pa.clearPages.card) : d < B := by
  obtain ⟨q, free, below⟩ : ∃ q ∈ pa.clearPages, q < B := by
    by_contra none
    push Not at none
    rw [Finset.filter_true_of_mem none] at room
    exact Nat.lt_irrefl _ room
  obtain ⟨range, clear⟩ := Finset.mem_filter.mp free
  obtain ⟨low, high⟩ := Finset.mem_Ico.mp range
  have one : pa.ClearRun q (1 : Word).toNat := by
    refine ⟨low, high, fun j hj => ?_⟩
    have hj : j < 1 := hj
    rw [Nat.lt_one_iff.mp hj]
    exact clear
  exact Nat.lt_of_le_of_lt (alloc_lowest run nonzero (toNat_loc (by omega)) one) below

/-- No page from `B` on has been taken. -/
theorem Confined.count (con : Confined pa₀ B m₀ k T)
    (few : (pa₀.clearPages.filter (B ≤ ·)).card ≤ m) :
    (k.pages.clearPages.filter (B ≤ ·)).card ≤ m :=
  (Finset.card_le_card (Finset.filter_subset_filter _ con.free)).trans few

/-- One level down. -/
theorem Confined.create (con : Confined pa₀ B m₀ k T)
    (few : (pa₀.clearPages.filter (B ≤ ·)).card ≤ m) (inv : TablesInv k owned root T leaf)
    {v i : Word} {l t c : Nat}
    (room : T l (page v / 512 ^ (l + 1)) = none → m < k.pages.clearPages.card)
    (ht : T (l + 1) (page v / 512 ^ (l + 1 + 1)) = some t)
    (hi : i = index v (l + 1)) (run : k.getOrCreateTable (loc (t * 4096)) i = (k', loc (c * 4096)))
    (table : T' l (page v / 512 ^ (l + 1)) = some c) (inv' : TablesInv k' owned root T' leaf)
    (grows : Grows k k' T T' l (page v / 512 ^ (l + 1))) : Confined pa₀ B m₀ k' T' := by
  rcases grows with ⟨rfl, rfl⟩ | ⟨lacks, ⟨c', rfl⟩, ptr, nonzero, taken⟩
  · exact con
  · -- the table is new, on the page taken
    obtain rfl : c' = c := by
      rw [T.add_self] at table
      exact Option.some.inj table
    obtain ⟨d, rfl, small, low, high, clear, total, bits⟩ := alloc_page taken nonzero
    have tsmall := inv.holds.small _ _ t ht
    have csmall := inv'.holds.small _ _ c' table
    have digit : i.toNat < 512 := hi ▸ index_lt v (l + 1)
    -- tables that were there still are
    have old : ∀ l' n' t', T l' n' = some t' →
        T.add l (page v / 512 ^ (l + 1)) c' l' n' = some t' := by
      intro l' n' t' h'
      rw [T.add_of_ne, h']
      rintro ⟨rfl, rfl⟩
      rw [lacks] at h'
      cases h'
    -- an entry that was there would have taken no page
    have absent : ¬ k.mem.read64 (entryAddr (loc (t * 4096)) i) &&& pagePresent ≠ 0 := by
      intro there
      rw [Kernel.getOrCreateTable, if_pos there] at run
      obtain ⟨rfl, -⟩ := Prod.mk.inj run
      exact ((bits d).mp clear).2 rfl
    rw [Kernel.getOrCreateTable, if_neg absent, taken] at run
    simp only [if_neg nonzero] at run
    obtain ⟨left, same⟩ := Prod.mk.inj run
    obtain rfl : d = c' := by
      have := (loc_inj (x := d * 4096) (y := c' * 4096) (by omega) (by omega)).mp same
      omega
    have mine := con.free (mem_clearPages clear low high)
    have below : d < B :=
      taken_below small taken nonzero (Nat.lt_of_le_of_lt (con.count few) (room lacks))
    constructor
    · intro p hp
      obtain ⟨range, clear'⟩ := Finset.mem_filter.mp hp
      rw [total] at range
      exact con.free (Finset.mem_filter.mpr ⟨range, ((bits p).mp clear').1⟩)
    · intro p hp above
      obtain ⟨range, clear'⟩ := Finset.mem_filter.mp (con.high p hp above)
      rw [← total] at range
      exact Finset.mem_filter.mpr ⟨range, (bits p).mpr ⟨clear', by omega⟩⟩
    · intro l' n' t' h'
      by_cases new : l' = l ∧ n' = page v / 512 ^ (l + 1)
      · obtain rfl : d = t' := by simpa only [Tables.add, if_pos new, Option.some.injEq] using h'
        exact ⟨mine, below⟩
      · rw [T.add_of_ne new] at h'
        exact con.tables l' n' t' h'
    · intro a out
      have outT : page a ≠ t := by
        rintro rfl
        exact out _ _ (old _ _ _ ht)
      have outD : page a ≠ d := by
        rintro rfl
        exact out _ _ table
      rw [← left, entryAddr_table]
      show (clearTable k.mem (loc (d * 4096)) 512).write64 _ _ a = m₀ a
      rw [write_entry_apply tsmall digit outT, clearTable_apply small outD 512 le_rfl]
      exact con.mem a fun l' n' h => out l' n' (old _ _ _ h)

/-- `PageTable_Map` of any address to itself, with pages enough. -/
theorem Confined.map (con : Confined pa₀ B m₀ k T)
    (few : (pa₀.clearPages.filter (B ≤ ·)).card ≤ m) (inv : TablesInv k owned root T leaf)
    (spare : Spare k T P m) {v : Word} (hp : lowPage v ∈ P) (f : Word) :
    ∃ T', TablesInv (k.pageTableMap (loc (root * 4096)) v v f) owned root T'
        (Function.update leaf (lowPage v) (selfEntry f v)) ∧
      Spare (k.pageTableMap (loc (root * 4096)) v v f) T' P m ∧
      Confined pa₀ B m₀ (k.pageTableMap (loc (root * 4096)) v v f) T' := by
  have low : (low48 v).toNat < 2 ^ 48 := by
    rw [toNat_low48]
    exact Nat.mod_lt _ (by decide)
  rw [← page_low48] at hp ⊢
  rw [pageTableMap_low48]
  -- down three levels
  have down {k : Kernel} {T : Tables} {i : Word} {l t : Nat} (hl : l < 3)
      (inv : TablesInv k owned root T leaf) (spare : Spare k T P m) (con : Confined pa₀ B m₀ k T)
      (ht : T (l + 1) (page (low48 v) / 512 ^ (l + 1 + 1)) = some t)
      (hi : i = index (low48 v) (l + 1)) :
      ∃ k' T' c, k.getOrCreateTable (loc (t * 4096)) i = (k', loc (c * 4096)) ∧
        T' l (page (low48 v) / 512 ^ (l + 1)) = some c ∧ TablesInv k' owned root T' leaf ∧
        Spare k' T' P m ∧ Confined pa₀ B m₀ k' T' := by
    have hn := mem_serving hp l
    rcases inv.getOrCreateTable hl ht hi with
      ⟨-, lacks, fail⟩ | ⟨k', T', c, run, ht', inv', grows⟩
    · exact absurd fail (spare.supplied hl hn lacks)
    · have room : T l (page (low48 v) / 512 ^ (l + 1)) = none → m < k.pages.clearPages.card := by
        intro lacks
        have := missing_add hl hn lacks 0
        unfold Spare at spare
        omega
      exact ⟨k', T', c, run, ht', inv', spare.grows hl hn grows,
        con.create few inv room ht hi run ht' inv' grows⟩
  obtain ⟨k₁, T₁, pdp, run₁, ht₁, inv₁, spare₁, con₁⟩ :=
    down (i := pml4Idx (low48 v)) (by decide) inv spare con (inv.top low) rfl
  obtain ⟨k₂, T₂, pd, run₂, ht₂, inv₂, spare₂, con₂⟩ :=
    down (i := pdpIdx (low48 v)) (by decide) inv₁ spare₁ con₁ ht₁ rfl
  obtain ⟨k₃, T₃, pt, run₃, ht₃, inv₃, spare₃, con₃⟩ :=
    down (i := pdIdx (low48 v)) (by decide) inv₂ spare₂ con₂ ht₂ rfl
  refine ⟨T₃, ?_⟩
  simp only [Kernel.pageTableMap, run₁, run₂, run₃]
  refine ⟨inv₃.setLeaf ht₃ _, spare₃, con₃.free, con₃.high, con₃.tables, fun a out => ?_⟩
  have outside : page a ≠ pt := by
    rintro rfl
    exact out _ _ ht₃
  have small := inv₃.holds.small _ _ pt ht₃
  have digit : (ptIdx (low48 v)).toNat < 512 := index_lt (low48 v) 0
  show k₃.mem.write64 (entryAddr (loc (pt * 4096)) (ptIdx (low48 v))) _ a = m₀ a
  rw [entryAddr_table, write_entry_apply small digit outside, con₃.mem a out]

/-! ## The phases -/

variable {f addr stop : Word}

/-- A loop of `PageTable_Init`. -/
theorem Confined.loop (con : Confined pa₀ B m₀ k T)
    (few : (pa₀.clearPages.filter (B ≤ ·)).card ≤ m) (inv : TablesInv k owned root T leaf)
    (spare : Spare k T P m) (addr f : Word) (top : stop.toNat + 4096 ≤ 2 ^ 64)
    (covers : ∀ n e, loopWrites f addr stop n e → n ∈ P) :
    ∃ k' T' leaf', Kernel.mapRange (loc (root * 4096)) stop f (2 ^ 64) k addr = some k' ∧
      TablesInv k' owned root T' leaf' ∧ Spare k' T' P m ∧ Confined pa₀ B m₀ k' T' := by
  obtain ⟨T', leaf', inv', ⟨spare', con'⟩, -⟩ :=
    inv.turns (S := fun k T => Spare k T P m ∧ Confined pa₀ B m₀ k T)
      (fun i hi T leaf inv both => both.2.map few inv both.1 (covers _ _ ⟨i, hi, rfl, rfl⟩) f)
      ⟨spare, con⟩ (turnsTo addr stop) le_rfl
  exact ⟨_, T', leaf', mapRange_turns _ f k top, inv', spare', con'⟩

/-- The loop over the memory map. -/
theorem Confined.entries (few : (pa₀.clearPages.filter (B ≤ ·)).card ≤ m)
    {map : List MemoryDescriptor} : ∀ {k : Kernel} {T : Tables}
    {leaf : Nat → Word}, Confined pa₀ B m₀ k T → TablesInv k owned root T leaf → Spare k T P m →
    (∀ d ∈ map, d.WellPlaced) → (∀ W ∈ map.map entryWrites, ∀ n e, W n e → n ∈ P) →
    ∃ k' T' leaf', map.foldlM (Kernel.mapEntry (loc (root * 4096))) k = some k' ∧
      TablesInv k' owned root T' leaf' ∧ Spare k' T' P m ∧ Confined pa₀ B m₀ k' T' := by
  induction map with
  | nil =>
      intro k T leaf con inv spare _ _
      exact ⟨k, T, leaf, rfl, inv, spare, con⟩
  | cons d map ih =>
      intro k T leaf con inv spare ok covers
      have tail : ∀ e ∈ map, e.WellPlaced := fun e he => ok e (List.mem_cons_of_mem _ he)
      have coversTail : ∀ W ∈ map.map entryWrites, ∀ n e, W n e → n ∈ P :=
        fun W hW => covers W (List.mem_cons_of_mem _ hW)
      have here := covers (entryWrites d) List.mem_cons_self
      by_cases use : mappable d
      · obtain ⟨k₁, T₁, leaf₁, run₁, inv₁, spare₁, con₁⟩ := con.loop few inv spare d.physicalStart
          (pageWritable ||| pageUser) (ok d List.mem_cons_self).stop
          fun n e written => here n e ⟨use, written⟩
        obtain ⟨k', T', leaf', run, rest⟩ := ih con₁ inv₁ spare₁ tail coversTail
        refine ⟨k', T', leaf', ?_, rest⟩
        rw [List.foldlM_cons, Kernel.mapEntry, if_pos use, run₁]
        exact run
      · obtain ⟨k', T', leaf', run, rest⟩ := ih con inv spare tail coversTail
        refine ⟨k', T', leaf', ?_, rest⟩
        rw [List.foldlM_cons, Kernel.mapEntry, if_neg use]
        exact run

variable {fbBase fbSize lapicAddr rsp : Word} {map : List MemoryDescriptor}

/-- The root is taken and cleared. -/
theorem Confined.begin {pa : PageAllocator} {pml4 : Word}
    (enough : tablesNeeded P ≤ (k.pages.clearPages.filter (· < B)).card)
    (alloc : k.pages.alloc 1 = (pa, pml4)) : ∃ m root, pml4 = loc (root * 4096) ∧
      tablesNeeded P + m = k.pages.clearPages.card ∧
      (k.pages.clearPages.filter (B ≤ ·)).card ≤ m ∧
      TablesInv { k with pages := pa, mem := clearTable k.mem pml4 512 } [] root
        (Tables.single root) (fun _ => 0) ∧
      Spare { k with pages := pa, mem := clearTable k.mem pml4 512 } (Tables.single root) P m ∧
      Confined k.pages B k.mem { k with pages := pa, mem := clearTable k.mem pml4 512 }
        (Tables.single root) := by
  -- all pages that are left over when every table is there
  obtain ⟨m, count⟩ : ∃ m, tablesNeeded P + m = k.pages.clearPages.card :=
    Nat.le.dest (enough.trans (Finset.card_filter_le _ _))
  have few : (k.pages.clearPages.filter (B ≤ ·)).card ≤ m := by
    have parts := k.pages.clearPages.card_filter_add_card_filter_not (· < B)
    simp only [Nat.not_lt] at parts
    omega
  have positive := tablesNeeded_pos (P : Set Nat)
  have nonzero : pml4 ≠ 0 := by
    have found := (alloc_one_ne_zero_iff k.pages).mpr (by omega)
    rwa [alloc] at found
  have own : OwnedInv k.pages [] := ⟨.nil, by simp, by simp⟩
  obtain ⟨root, rfl, inv⟩ := TablesInv.fresh own alloc nonzero
  have spare := spare_single (Nat.le_of_eq count) alloc nonzero
    (clearTable k.mem (loc (root * 4096)) 512) root
  refine ⟨m, root, rfl, count, few, inv, spare, ?_⟩
  obtain ⟨c, same, small, low, high, clear, total, bits⟩ := alloc_page alloc nonzero
  have rsmall := inv.holds.small _ _ root inv.holds.root
  obtain rfl : root = c := by
    have := (loc_inj (x := root * 4096) (y := c * 4096) (by omega) (by omega)).mp same
    omega
  have below : root < B := taken_below small alloc nonzero (by omega)
  constructor
  · intro p hp
    obtain ⟨range, clear'⟩ := Finset.mem_filter.mp hp
    rw [total] at range
    exact Finset.mem_filter.mpr ⟨range, ((bits p).mp clear').1⟩
  · intro p hp above
    obtain ⟨range, clear'⟩ := Finset.mem_filter.mp hp
    rw [← total] at range
    exact Finset.mem_filter.mpr ⟨range, (bits p).mpr ⟨clear', by omega⟩⟩
  · intro l n t h
    rw [(Tables.single_eq_some h).2]
    exact ⟨mem_clearPages clear low high, below⟩
  · intro a out
    apply clearTable_apply small _ 512 le_rfl
    rintro rfl
    exact out _ _ inv.holds.root

/-- `PageTable_Init` returns, has written to the pages it has taken, and has taken them below
`B` if there are enough there. -/
theorem pageTableInit_confined (ok : ∀ d ∈ map, d.WellPlaced)
    (fb : (fbBase + fbSize).toNat + 4096 ≤ 2 ^ 64)
    (covers : ∀ W ∈ initWrites fbBase fbSize map lapicAddr rsp, ∀ n e, W n e → n ∈ P)
    (enough : tablesNeeded P ≤ (k.pages.clearPages.filter (· < B)).card) :
    ∃ k' pml4, k.pageTableInit fbBase fbSize map lapicAddr rsp = some (k', pml4) ∧
      k'.pages.clearPages ⊆ k.pages.clearPages ∧
      k.pages.clearPages.card ≤ k'.pages.clearPages.card + tablesNeeded P ∧
      (∀ p ∈ k.pages.clearPages, B ≤ p → p ∈ k'.pages.clearPages) ∧
      ∀ a, k'.mem a ≠ k.mem a → page a ∈ k.pages.clearPages ∧ page a ∉ k'.pages.clearPages := by
  rcases alloc : k.pages.alloc 1 with ⟨pa, pml4⟩
  obtain ⟨m, root, rfl, count, few, inv, spare, con⟩ := Confined.begin enough alloc
  have device (W : Nat → Word → Prop) (hW : W ∈ deviceWrites fbBase fbSize lapicAddr rsp) :
      ∀ n e, W n e → n ∈ P := covers W (List.mem_append_right _ hW)
  obtain ⟨k₁, T₁, leaf₁, run₁, inv₁, spare₁, con₁⟩ := Confined.entries few con inv spare ok
    fun W hW => covers W (List.mem_append_left _ hW)
  obtain ⟨k₂, T₂, leaf₂, run₂, inv₂, spare₂, con₂⟩ := con₁.loop few inv₁ spare₁ fbBase
    (pageWritable ||| pageUser) fb (device _ (.head _))
  obtain ⟨k₃, hk₃⟩ : ∃ k₃, k₃ = (if lapicAddr ≠ 0 then
    k₂.pageTableMap (loc (root * 4096)) lapicAddr lapicAddr pageWritable else k₂) := ⟨_, rfl⟩
  obtain ⟨T₃, leaf₃, inv₃, spare₃, con₃⟩ : ∃ T₃ leaf₃, TablesInv k₃ [] root T₃ leaf₃ ∧
      Spare k₃ T₃ P m ∧ Confined k.pages B k.mem k₃ T₃ := by
    rw [hk₃]
    by_cases there : lapicAddr ≠ 0
    · obtain ⟨T', rest⟩ := con₂.map few inv₂ spare₂
        (device _ (.tail _ (.head _)) _ _ ⟨there, rfl, rfl⟩) pageWritable
      rw [if_pos there]
      exact ⟨T', _, rest⟩
    · rw [if_neg there]
      exact ⟨T₂, leaf₂, inv₂, spare₂, con₂⟩
  have top : (0xFEC01000 : Word).toNat + 4096 ≤ 2 ^ 64 := by decide
  obtain ⟨k₄, T₄, leaf₄, run₄, inv₄, spare₄, con₄⟩ := con₃.loop few inv₃ spare₃ ioapicAddr
    pageWritable top (device _ (.tail _ (.tail _ (.head _))))
  obtain ⟨k₅, T₅, leaf₅, run₅, inv₅, spare₅, con₅⟩ := con₄.loop few inv₄ spare₄ (stackWindow rsp)
    (pageWritable ||| pageUser) (stackWindow_stop rsp)
    (device _ (.tail _ (.tail _ (.tail _ (.head _)))))
  refine ⟨k₅, loc (root * 4096), ?_, con₅.free, ?_, con₅.high, fun a written => ?_⟩
  · rw [Kernel.pageTableInit, alloc]
    dsimp only [Option.bind_eq_bind]
    rw [run₁, Option.bind_some, run₂, Option.bind_some, ← hk₃, run₄, Option.bind_some, run₅,
      Option.bind_some]
  · unfold Spare at spare₅
    omega
  · obtain ⟨l, n, table⟩ : ∃ l n, T₅ l n = some (page a) := by
      by_contra none
      push Not at none
      exact written (con₅.mem a none)
    refine ⟨(con₅.tables _ _ _ table).1, fun free => ?_⟩
    exact (inv₅.kept _ _ _ table).used (Finset.mem_filter.mp free).2

end Confined
end Coolos
