import Coolos.Logic.HeapRepr

/-!
# What the heap functions do to the block list

One specification per function of `heap.c`, stated on the block list it finds
in memory (`HeapInv`): which block it picks, the list it leaves, the address it
returns and the bytes it may have changed. Callers use these and never look at
headers again.
-/

namespace Coolos

open Lib Lib.BlockList HeapBlock

/-- The heap `h` holds the block list `bs` over the region `[start, stop)`.
`narrow` keeps the split test of `kmalloc` from wrapping. -/
structure HeapInv (h : Heap) (start stop : Nat) (bs : List Block) : Prop where
  linked : Linked h.mem 0 0 start bs
  head : h.freeList = loc start
  tiles : start + span 32 bs = stop
  pos : 0 < start
  top : stop < 2 ^ 64
  narrow : stop + 16 < 2 ^ 64 + start
  nonempty : bs ≠ []
  coalesced : Coalesced bs

theorem length_le_span (bs : List Block) : 32 * bs.length ≤ span 32 bs := by
  induction bs with
  | nil => simp
  | cons b bs ih => simp only [List.length_cons, span_cons]; omega

/-- The header of a block of the list. -/
theorem Linked.header {m : Mem} {a : Nat} {pre post : List Block} {b : Block}
    (h : Linked m 0 0 a (pre ++ b :: post)) :
    read m (loc (a + span 32 pre)) =
      ⟨loc b.size, loc (nextAddr 0 (a + span 32 pre) b post), loc (lastAddr 0 a pre),
        flag b.free⟩ :=
  (linked_focus.mp h).2.1

/-- A byte before or behind a header is away from it. -/
theorem away_loc {x c : Nat} (out : x < c ∨ c + 32 ≤ x) (hx : x < 2 ^ 64)
    (hc : c + 32 ≤ 2 ^ 64) : 32 ≤ (loc x - loc c).toNat := by
  simp only [loc, BitVec.toNat_sub, BitVec.toNat_ofNat]
  omega

/-! ## First fit -/

/-- The search stops at the first block that fits, or at the end of the list. -/
theorem search_spec {m : Mem} (size : Word) {bs : List Block} : ∀ {prev a fuel : Nat},
    Linked m 0 prev a bs → 0 < a → a + span 32 bs < 2 ^ 64 → bs.length < fuel →
    (∃ pre b post, FirstFit size.toNat bs pre b post ∧
      Heap.search m size fuel (loc (if bs = [] then 0 else a)) = some (loc (a + span 32 pre))) ∨
    ((∀ b ∈ bs, ¬ b.Fits size.toNat) ∧
      Heap.search m size fuel (loc (if bs = [] then 0 else a)) = some 0) := by
  induction bs with
  | nil =>
      intro prev a fuel _ _ _ hfuel
      obtain ⟨f, rfl⟩ : ∃ f, fuel = f + 1 := ⟨fuel - 1, by simp at hfuel; omega⟩
      exact .inr ⟨by simp, rfl⟩
  | cons b bs ih =>
      intro prev a fuel h pos top hfuel
      obtain ⟨f, rfl⟩ : ∃ f, fuel = f + 1 := ⟨fuel - 1, by simp at hfuel; omega⟩
      simp only [span_cons, List.length_cons] at top hfuel
      have ha : loc a ≠ 0 := by
        rw [Ne, show (0 : Word) = loc 0 from rfl, loc_inj (by omega) (by omega)]
        omega
      have test : ((read m (loc a)).free ≠ 0 ∧ size ≤ (read m (loc a)).size) ↔
          b.Fits size.toNat := by
        rw [h.1, Block.Fits, flag_ne_zero, BitVec.le_def, toNat_loc (by omega)]
      simp only [List.cons_ne_nil, if_false, Heap.search, ha]
      by_cases fits : b.Fits size.toNat
      · refine .inl ⟨[], b, bs, ⟨rfl, by simp, fits⟩, ?_⟩
        rw [if_pos (test.mpr fits)]
        rfl
      · have next : (read m (loc a)).next = loc (if bs = [] then 0 else a + 32 + b.size) := by
          rw [h.1]
          cases bs <;> simp [nextAddr]
        rw [if_neg (mt test.mp fits), next]
        rcases ih h.2 (by omega) (by omega) (by omega : bs.length < f) with
          ⟨pre, c, post, ⟨rfl, skipped, fitsC⟩, found⟩ | ⟨none, miss⟩
        · refine .inl ⟨b :: pre, c, post, ⟨rfl, ?_, fitsC⟩, ?_⟩
          · exact List.forall_mem_cons.mpr ⟨fits, skipped⟩
          · rw [found]
            congr 2
            simp only [span_cons]
            omega
        · exact .inr ⟨List.forall_mem_cons.mpr ⟨fits, none⟩, miss⟩

/-- The loop body of `kmalloc` is a split or a change of the flag. -/
theorem take_eq (m : Mem) (c size : Word) :
    Heap.take m c size =
      if size + sizeofHeapBlock + 16 ≤ (read m c).size then
        divide m c (c + sizeofHeapBlock + size) size ((read m c).size - size - sizeofHeapBlock) 0 1
      else setFree m c 0 := by
  unfold Heap.take divide
  split <;> rfl

section Take

variable {m : Mem} {a : Nat} {size : Word} {pre post : List Block} {b : Block}

/-- The split test compares without wrapping. -/
theorem split_test (narrow : b.size + 48 < 2 ^ 64) (room : size.toNat ≤ b.size) :
    size + sizeofHeapBlock + 16 ≤ loc b.size ↔ size.toNat + 32 + 16 ≤ b.size := by
  have sum : (size + sizeofHeapBlock + 16).toNat = size.toNat + 32 + 16 := by
    simp only [BitVec.toNat_add, sizeofHeapBlock]
    simp
    omega
  rw [BitVec.le_def, toNat_loc (by omega), sum]

/-- Taking a block that fits leaves the carved list. -/
theorem take_linked (h : Linked m 0 0 a (pre ++ b :: post))
    (top : a + span 32 (pre ++ b :: post) < 2 ^ 64) (narrow : b.size + 48 < 2 ^ 64)
    (room : size.toNat ≤ b.size) :
    Linked (Heap.take m (loc (a + span 32 pre)) size) 0 0 a
      (pre ++ (carve 32 16 size.toNat b ++ post)) := by
  have hsize : (read m (loc (a + span 32 pre))).size = loc b.size := by rw [h.header]
  rw [take_eq, carve, hsize]
  by_cases large : size.toNat + 32 + 16 ≤ b.size
  · rw [if_pos ((split_test narrow room).mpr large), if_pos large]
    have := h.divide (n := size.toNat) (f := false) (g := true) top (by omega)
    have left : loc (a + span 32 pre + 32 + size.toNat) =
        loc (a + span 32 pre) + sizeofHeapBlock + size := by
      rw [loc_add, loc_add (a + span 32 pre), loc_toNat]
      rfl
    have rest : loc (b.size - size.toNat - 32) = loc b.size - size - sizeofHeapBlock := by
      rw [loc_sub (by omega), loc_sub (by omega), loc_toNat]
      rfl
    rw [left, rest, loc_toNat] at this
    exact this
  · rw [if_neg (mt (split_test narrow room).mp large), if_neg large]
    exact h.setFree (f := false) top

/-- Taking a block changes bytes only in it and in the header behind it. -/
theorem take_apply (h : Linked m 0 0 a (pre ++ b :: post))
    (top : a + span 32 (pre ++ b :: post) < 2 ^ 64) (narrow : b.size + 48 < 2 ^ 64)
    (room : size.toNat ≤ b.size) {x : Nat} (hx : x < 2 ^ 64)
    (out : x < a + span 32 pre ∨ a + span 32 pre + 64 + b.size ≤ x) :
    Heap.take m (loc (a + span 32 pre)) size (loc x) = m (loc x) := by
  have header := h.header
  simp only [span_append, span_cons] at top
  generalize hc : a + span 32 pre = c at *
  have hsize : (read m (loc c)).size = loc b.size := by rw [header]
  rw [take_eq, hsize]
  by_cases large : size.toNat + 32 + 16 ≤ b.size
  · rw [if_pos ((split_test narrow room).mpr large)]
    have next : (read m (loc c)).next = loc (nextAddr 0 c b post) := by rw [header]
    have right : loc c + sizeofHeapBlock + size = loc (c + 32 + size.toNat) := by
      rw [loc_add, loc_add c, loc_toNat]
      rfl
    rw [right]
    refine divide_apply (hdrApart_loc (by omega) (by omega)).symm next
      (away_loc (by omega) hx (by omega)) (away_loc (by omega) hx (by omega)) fun hne => ?_
    cases post with
    | nil => exact absurd rfl hne
    | cons q qs =>
        simp only [nextAddr, span_cons] at *
        exact away_loc (by omega) hx (by omega)
  · rw [if_neg (mt (split_test narrow room).mp large)]
    exact setFree_apply (away_loc (by omega) hx (by omega))

end Take

/-! ## `kmalloc` -/

section Ops

variable {h : Heap} {start stop : Nat} {bs pre post : List Block} {b : Block}

theorem HeapInv.bound (inv : HeapInv h start stop bs) : start + span 32 bs < 2 ^ 64 :=
  inv.tiles ▸ inv.top

/-- Room in the address space behind any block of the region. -/
theorem HeapInv.narrow_block (inv : HeapInv h start stop (pre ++ b :: post)) :
    b.size + 48 < 2 ^ 64 := by
  have := inv.narrow
  have tiles := inv.tiles
  simp only [span_append, span_cons] at tiles
  omega

theorem HeapInv.block_ne_zero (inv : HeapInv h start stop (pre ++ b :: post)) :
    loc (start + span 32 pre) ≠ 0 := by
  have := inv.bound
  have := inv.pos
  simp only [span_append, span_cons] at *
  rw [Ne, show (0 : Word) = loc 0 from rfl, loc_inj (by omega) (by omega)]
  omega

/-- Replacing the list by one over the same region. -/
theorem HeapInv.update {h' : Heap} {bs' : List Block} (inv : HeapInv h start stop bs)
    (linked : Linked h'.mem 0 0 start bs') (head : h'.freeList = h.freeList)
    (same : span 32 bs' = span 32 bs) (coalesced : Coalesced bs') : HeapInv h' start stop bs' where
  linked := linked
  head := head.trans inv.head
  tiles := by rw [same, inv.tiles]
  pos := inv.pos
  top := inv.top
  narrow := inv.narrow
  nonempty := by
    rintro rfl
    have := inv.nonempty
    cases bs with
    | nil => exact this rfl
    | cons c cs => simp only [span_nil, span_cons] at same; omega
  coalesced := coalesced

/-- `kmalloc` carves the first block that fits, or fails when none does and
leaves the heap alone. -/
theorem kmalloc_spec (inv : HeapInv h start stop bs) (size : Word) :
    (∃ pre b post h', FirstFit size.toNat bs pre b post ∧
      h.kmalloc size = some (h', loc (start + span 32 pre + 32)) ∧
      HeapInv h' start stop (pre ++ (carve 32 16 size.toNat b ++ post)) ∧
      ∀ x < 2 ^ 64, x < start + span 32 pre ∨ start + span 32 pre + 64 + b.size ≤ x →
        h'.mem (loc x) = h.mem (loc x)) ∨
    ((∀ b ∈ bs, ¬ b.Fits size.toNat) ∧ h.kmalloc size = some (h, 0)) := by
  have fuel : bs.length < 2 ^ 64 := by
    have := length_le_span bs
    have := inv.bound
    omega
  have := search_spec size inv.linked inv.pos inv.bound fuel
  rw [if_neg inv.nonempty, ← inv.head] at this
  rcases this with ⟨pre, b, post, fit, found⟩ | ⟨none, miss⟩
  · left
    obtain rfl := fit.split
    have narrow := inv.narrow_block
    refine ⟨pre, b, post, { h with mem := Heap.take h.mem (loc (start + span 32 pre)) size },
      fit, ?_, ?_, ?_⟩
    · simp only [Heap.kmalloc, found, if_neg inv.block_ne_zero]
      rw [loc_add _ 32]
      rfl
    · refine inv.update (take_linked inv.linked inv.bound narrow fit.fits.2) rfl ?_
        (inv.coalesced.carve fit.fits.1)
      simp only [span_append, span_carve, span_cons]
    · intro x hx out
      exact take_apply inv.linked inv.bound narrow fit.fits.2 hx out
  · right
    refine ⟨none, ?_⟩
    simp only [Heap.kmalloc, miss, if_true]

/-! ## `kfree` -/

/-- Byte `x` lies in no header of the blocks laid out from `a`. -/
def OutsideHeaders (a : Nat) (bs : List Block) (x : Nat) : Prop :=
  ∀ y ∈ headers 32 a bs, x < y ∨ y + 32 ≤ x

theorem OutsideHeaders.focus {a x : Nat} (h : OutsideHeaders a (pre ++ b :: post) x) :
    (x < a + span 32 pre ∨ a + span 32 pre + 32 ≤ x) ∧
      OutsideHeaders (a + span 32 pre + 32 + b.size) post x := by
  simp only [OutsideHeaders, headers_append, headers, List.mem_append, List.mem_cons] at h
  exact ⟨h _ (.inr (.inl rfl)), fun y hy => h y (.inr (.inr hy))⟩

theorem OutsideHeaders.subset {a x : Nat} {xs ys : List Block}
    (h : OutsideHeaders a xs x) (sub : headers 32 a ys ⊆ headers 32 a xs) :
    OutsideHeaders a ys x :=
  fun y hy => h y (sub hy)

variable {m : Mem} {a : Nat}

/-- Joining neighbours changes only header bytes. -/
theorem merge_outside {p q : Block} (lk : Linked m 0 0 a (pre ++ p :: q :: post))
    (top : a + span 32 (pre ++ p :: q :: post) < 2 ^ 64) {x : Nat} (hx : x < 2 ^ 64)
    (out : OutsideHeaders a (pre ++ p :: q :: post) x) :
    merge m (loc (a + span 32 pre)) (loc (a + span 32 pre + 32 + p.size)) (loc x) =
      m (loc x) := by
  obtain ⟨_, _, right, _⟩ := linked_focus.mp lk
  obtain ⟨outP, outQ⟩ := out.focus
  simp only [span_append, span_cons] at top
  have next : (read m (loc (a + span 32 pre + 32 + p.size))).next =
      loc (nextAddr 0 (a + span 32 pre + 32 + p.size) q post) := by rw [right]
  refine merge_apply next (away_loc outP hx (by omega)) fun hne => ?_
  cases post with
  | nil => exact absurd rfl hne
  | cons r rs =>
      have outR := (show OutsideHeaders _ ([q] ++ r :: rs) x from outQ).focus.1
      simp only [nextAddr, span_cons, span_nil] at *
      exact away_loc (by omega) hx (by omega)

/-- "Coalesce with next" joins the block to what is behind it. -/
theorem coalesceNext_spec (lk : Linked m 0 0 a (pre ++ b :: post))
    (top : a + span 32 (pre ++ b :: post) < 2 ^ 64) (free : b.free = true) :
    Linked (Heap.coalesceNext m (loc (a + span 32 pre))) 0 0 a (pre ++ join 32 b post) ∧
      ∀ x < 2 ^ 64, OutsideHeaders a (pre ++ b :: post) x →
        Heap.coalesceNext m (loc (a + span 32 pre)) (loc x) = m (loc x) := by
  obtain ⟨_, focus, behind⟩ := linked_focus.mp lk
  have bound := top
  simp only [span_append, span_cons] at bound
  cases post with
  | nil =>
      have next : (read m (loc (a + span 32 pre))).next = 0 := by rw [focus]; rfl
      rw [coalesceNext_eq next (fun h => absurd rfl h), if_neg (by simp)]
      exact ⟨lk, fun _ _ _ => rfl⟩
  | cons q qs =>
      simp only [span_cons] at bound
      have next : (read m (loc (a + span 32 pre))).next =
          loc (a + span 32 pre + 32 + b.size) := by rw [focus]; rfl
      have hne : loc (a + span 32 pre + 32 + b.size) ≠ 0 := by
        rw [Ne, show (0 : Word) = loc 0 from rfl, loc_inj (by omega) (by omega)]
        omega
      have qfree : (read m (loc (a + span 32 pre + 32 + b.size))).free ≠ 0 ↔ q.free = true := by
        rw [behind.1, flag_ne_zero]
      rw [coalesceNext_eq next (fun _ => hdrApart_loc (by omega) (by omega)), join_cons]
      by_cases both : q.free = true
      · rw [if_pos ⟨hne, qfree.mpr both⟩, if_pos ⟨free, both⟩]
        have joined := lk.merge top
        rw [free] at joined
        exact ⟨joined, fun x hx out => merge_outside lk top hx out⟩
      · rw [if_neg (fun h => both (qfree.mp h.2)), if_neg (fun h => both h.2)]
        exact ⟨lk, fun _ _ _ => rfl⟩

/-- "Coalesce with prev" leaves the first block of the list alone. -/
theorem coalescePrev_first (lk : Linked m 0 0 a (b :: post)) :
    Heap.coalescePrev m (loc a) = m := by
  have prev : (read m (loc a)).prev = 0 := by rw [lk.1]; rfl
  rw [coalescePrev_eq prev (fun h => absurd rfl h), if_neg (by simp)]

/-- "Coalesce with prev" joins the block before to the block. -/
theorem coalescePrev_spec {p : Block} (lk : Linked m 0 0 a (pre ++ p :: b :: post))
    (top : a + span 32 (pre ++ p :: b :: post) < 2 ^ 64) (pos : 0 < a) (free : b.free = true) :
    Linked (Heap.coalescePrev m (loc (a + span 32 pre + 32 + p.size))) 0 0 a
        (pre ++ join 32 p (b :: post)) ∧
      ∀ x < 2 ^ 64, OutsideHeaders a (pre ++ p :: b :: post) x →
        Heap.coalescePrev m (loc (a + span 32 pre + 32 + p.size)) (loc x) = m (loc x) := by
  obtain ⟨_, left, right, _⟩ := linked_focus.mp lk
  have bound := top
  simp only [span_append, span_cons] at bound
  have prev : (read m (loc (a + span 32 pre + 32 + p.size))).prev = loc (a + span 32 pre) := by
    rw [right]
  have hne : loc (a + span 32 pre) ≠ 0 := by
    rw [Ne, show (0 : Word) = loc 0 from rfl, loc_inj (by omega) (by omega)]
    omega
  have pfree : (read m (loc (a + span 32 pre))).free ≠ 0 ↔ p.free = true := by
    rw [left, flag_ne_zero]
  rw [coalescePrev_eq prev (fun _ => hdrApart_loc (by omega) (by omega)), join_cons]
  by_cases both : p.free = true
  · rw [if_pos ⟨hne, pfree.mpr both⟩, if_pos ⟨both, free⟩]
    have joined := lk.merge top
    rw [both] at joined
    exact ⟨joined, fun x hx out => merge_outside lk top hx out⟩
  · rw [if_neg (fun h => both (pfree.mp h.2)), if_neg (fun h => both h.1)]
    exact ⟨lk, fun _ _ _ => rfl⟩

/-- `kfree` marks the block free and joins it with its free neighbours. -/
theorem kfree_spec (inv : HeapInv h start stop (pre ++ b :: post)) :
    HeapInv (h.kfree (loc (start + span 32 pre + 32))) start stop
        (coalesce 32 (pre ++ ⟨b.size, true⟩ :: post)) ∧
      ∀ x < 2 ^ 64, OutsideHeaders start (pre ++ b :: post) x →
        (h.kfree (loc (start + span 32 pre + 32))).mem (loc x) = h.mem (loc x) := by
  have bound := inv.bound
  have top := inv.bound
  simp only [span_append, span_cons] at bound
  have hptr : loc (start + span 32 pre + 32) ≠ 0 := by
    rw [Ne, show (0 : Word) = loc 0 from rfl, loc_inj (by omega) (by omega)]
    omega
  have hblock : loc (start + span 32 pre + 32) - sizeofHeapBlock = loc (start + span 32 pre) := by
    rw [show sizeofHeapBlock = loc 32 from rfl, ← loc_sub (by omega)]
    congr 1
  obtain ⟨m₁, hm₁⟩ : ∃ m₁, m₁ = setFree h.mem (loc (start + span 32 pre)) (flag true) :=
    ⟨_, rfl⟩
  have list : (h.kfree (loc (start + span 32 pre + 32))).freeList = h.freeList := by
    rw [Heap.kfree, if_neg hptr]
  have freed : (h.kfree (loc (start + span 32 pre + 32))).mem =
      Heap.coalescePrev (Heap.coalesceNext m₁ (loc (start + span 32 pre)))
        (loc (start + span 32 pre)) := by
    simp only [Heap.kfree, hptr, if_false, hblock, hm₁]
    rfl
  -- the flag, then the join with the block behind
  have marked : Linked m₁ 0 0 start (pre ++ ⟨b.size, true⟩ :: post) :=
    hm₁ ▸ inv.linked.setFree top
  have top₁ : start + span 32 (pre ++ ⟨b.size, true⟩ :: post) < 2 ^ 64 := by
    simpa only [span_append, span_cons] using top
  have keep₁ : ∀ x < 2 ^ 64, OutsideHeaders start (pre ++ b :: post) x →
      m₁ (loc x) = h.mem (loc x) := fun x hx out => by
    rw [hm₁]
    exact setFree_apply (away_loc out.focus.1 hx (by omega))
  obtain ⟨joined, keep₂⟩ := coalesceNext_spec marked top₁ rfl
  obtain ⟨s, cs, heq⟩ := join_eq_cons 32 ⟨b.size, true⟩ post
  have same : ∀ {x}, OutsideHeaders start (pre ++ b :: post) x →
      OutsideHeaders start (pre ++ ⟨b.size, true⟩ :: post) x := fun out => out.subset
    (by rw [headers_append, headers_append]; exact fun _ hy => hy)
  have fewer : ∀ {x}, OutsideHeaders start (pre ++ ⟨b.size, true⟩ :: post) x →
      OutsideHeaders start (pre ++ join 32 ⟨b.size, true⟩ post) x := fun out => out.subset (by
    rw [headers_append, headers_append]
    exact List.append_subset.mpr ⟨List.subset_append_left .., fun y hy =>
      List.mem_append_right _ (headers_join_subset _ _ _ hy)⟩)
  obtain ⟨hpre, hbpost, -⟩ := List.isChain_append.mp inv.coalesced
  have hpost : Coalesced post := (List.isChain_cons.mp hbpost).2
  have span₂ : span 32 (pre ++ join 32 ⟨b.size, true⟩ post) = span 32 (pre ++ b :: post) := by
    simp only [span_append, span_join, span_cons]
  -- then the join with the block before, if there is one
  rcases List.eq_nil_or_concat pre with rfl | ⟨pre, p, rfl⟩
  · simp only [span_nil, Nat.add_zero, List.nil_append] at *
    have last : Heap.coalescePrev (Heap.coalesceNext m₁ (loc start)) (loc start) =
        Heap.coalesceNext m₁ (loc start) := by
      rw [heq] at joined
      exact coalescePrev_first joined
    refine ⟨inv.update ?_ list (by simp) (coalesced_coalesce _), fun x hx out => ?_⟩
    · rw [freed, last, coalesce_cons, coalesce_of_coalesced hpost]
      exact joined
    · rw [freed, last]
      exact (keep₂ x hx (same out)).trans (keep₁ x hx out)
  · have place : start + span 32 (pre ++ [p]) = start + span 32 pre + 32 + p.size := by
      simp only [span_append, span_cons, span_nil]; omega
    rw [List.concat_eq_append] at *
    rw [heq, List.append_assoc, List.singleton_append] at joined span₂
    obtain ⟨rejoined, keep₃⟩ := coalescePrev_spec joined
      (by rw [span₂]; exact top) inv.pos rfl
    rw [place] at freed rejoined keep₂ keep₃ ⊢
    refine ⟨inv.update ?_ (by rw [← place, list]) (by simp) (coalesced_coalesce _),
      fun x hx out => ?_⟩
    · rw [freed, coalesce_append, coalesce_cons, coalesce_of_coalesced hpost,
        foldr_join_concat hpre (hpost.join _), heq]
      exact rejoined
    · have out₃ := fewer (same out)
      rw [heq, List.append_assoc, List.singleton_append] at out₃
      rw [freed]
      exact (keep₃ x hx out₃).trans ((keep₂ x hx (same out)).trans (keep₁ x hx out))

/-! ## Allocation and release as seen by clients -/

/-- The allocation step from `h` to `h'` hands out `n` bytes at `p`: one used
payload is new, the others are still there with their bytes. -/
structure Grants (h h' : Heap) (start stop : Nat) (bs bs' : List Block) (p n : Nat) : Prop where
  inv : HeapInv h' start stop bs'
  grant : ∃ s, n ≤ s ∧ (used 32 start bs').Perm ((p, s) :: used 32 start bs)
  keeps : ∀ q s x, (q, s) ∈ used 32 start bs → q ≤ x → x < q + s →
    h'.mem (loc x) = h.mem (loc x)

/-- `kmalloc` grants the request or changes nothing. -/
theorem kmalloc_grants (inv : HeapInv h start stop bs) (size : Word) :
    (∃ p h' bs', 0 < p ∧ p < 2 ^ 64 ∧ h.kmalloc size = some (h', loc p) ∧
      Grants h h' start stop bs bs' p size.toNat) ∨
    h.kmalloc size = some (h, 0) := by
  rcases kmalloc_spec inv size with ⟨pre, b, post, h', fit, run, inv', keep⟩ | ⟨-, fail⟩
  · left
    obtain rfl := fit.split
    have bound := inv.bound
    simp only [span_append, span_cons] at bound
    refine ⟨_, h', _, by omega, by omega, run, inv', ?_, fun q s x hq hx hx' => ?_⟩
    · obtain ⟨s, rest, hcarve, hs, -, hrest⟩ :=
        carve_eq_cons 32 16 fit.fits.2
      refine ⟨s, hs, ?_⟩
      have place : start + span 32 pre + span 32 (carve 32 16 size.toNat b) =
          start + span 32 pre + 32 + b.size := by rw [span_carve]; omega
      rw [used_append, used_append, place, hcarve, used_append]
      simp only [used, fit.fits.1, hrest, Bool.false_eq_true, if_false, if_true, List.nil_append,
        List.append_nil, List.singleton_append]
      exact List.perm_middle
    · have far := used_beside_free fit.fits.1 hq
      have := (used_bounds hq).2
      simp only [span_append, span_cons] at this
      exact keep x (by omega) (by omega)
  · exact .inr fail

/-- The split in `kmalloc_aligned` is a split of the raw block. -/
theorem splitAligned_eq (m : Mem) (o e : Word) :
    Heap.splitAligned m o e =
      divide m o e (e - o - sizeofHeapBlock) ((read m o).size - (e - o)) 1 0 := rfl

/-- Where `kmalloc_aligned` puts the aligned payload: behind room for a header and less
than `alignment` bytes of padding. -/
theorem alignedAddr_spec (raw : Nat) {alignment : Word} (pos : 0 < alignment.toNat)
    (top : raw + 32 + alignment.toNat < 2 ^ 64) :
    ∃ pad < alignment.toNat, Heap.alignedAddr (loc raw) alignment = loc (raw + 32 + pad) := by
  have sum : (loc raw + sizeofHeapBlock + alignment - 1).toNat =
      raw + 32 + alignment.toNat - 1 := by
    have one : (1 : Word) = loc 1 := rfl
    rw [show sizeofHeapBlock = loc 32 from rfl, ← loc_toNat alignment, one, ← loc_add, ← loc_add,
      ← loc_sub (by omega), loc_toNat, toNat_loc (by omega)]
  have mask : (alignment - 1).toNat = alignment.toNat - 1 :=
    BitVec.toNat_sub_of_le (BitVec.le_def.mpr pos)
  -- what is masked off is at most the mask
  have split := toNat_and_add_and_not (loc raw + sizeofHeapBlock + alignment - 1) (alignment - 1)
  have low : ((loc raw + sizeofHeapBlock + alignment - 1) &&& (alignment - 1)).toNat ≤
      alignment.toNat - 1 := by
    rw [BitVec.toNat_and, mask]
    exact Nat.and_le_right
  rw [sum] at split
  refine ⟨(Heap.alignedAddr (loc raw) alignment).toNat - (raw + 32), ?_, ?_⟩
  · unfold Heap.alignedAddr
    omega
  · rw [Nat.add_sub_cancel' (by unfold Heap.alignedAddr; omega), loc_toNat]

/-- The aligned payload is at a multiple of every power of two the alignment is one of. -/
theorem alignedAddr_mod (raw : Word) {k : Nat} {alignment : Word} (pos : 0 < alignment.toNat)
    (ha : alignment.toNat % 2 ^ k = 0) : (Heap.alignedAddr raw alignment).toNat % 2 ^ k = 0 :=
  toNat_and_not_mod pos ha

/-- Releasing a granted block: its payload is gone, the others are still there
with their bytes. -/
theorem kfree_releases {p n : Nat} (inv : HeapInv h start stop bs)
    (hp : (p, n) ∈ used 32 start bs) :
    ∃ bs', HeapInv (h.kfree (loc p)) start stop bs' ∧
      (used 32 start bs).Perm ((p, n) :: used 32 start bs') ∧
      ∀ q s x, (q, s) ∈ used 32 start bs → q ≤ x → x < q + s →
        (h.kfree (loc p)).mem (loc x) = h.mem (loc x) := by
  obtain ⟨pre, post, rfl, rfl⟩ := mem_used hp
  obtain ⟨inv', keep⟩ := kfree_spec inv
  refine ⟨_, inv', ?_, fun q s x hq hx hx' => keep x ?_ fun y hy => ?_⟩
  · rw [used_coalesce, used_append, used_append]
    simp only [used, Bool.false_eq_true, if_false, if_true, List.nil_append, List.singleton_append]
    exact List.perm_middle
  · have := (used_bounds hq).2
    have := inv.bound
    omega
  · have := headers_used_disjoint hy hq
    omega

/-- The second half of `kmalloc_aligned`: splitting a granted block of `s` bytes
at the aligned address leaves free padding and the aligned block. -/
theorem splitAligned_spec {s : Nat} (pad : Nat)
    (inv : HeapInv h start stop (pre ++ ⟨s, false⟩ :: post)) (room : pad + 32 ≤ s)
    (seam : ∀ x ∈ pre.getLast?, x.free = false) :
    let c := start + span 32 pre
    let h' := ({ h with mem := Heap.splitAligned h.mem (loc c) (loc (c + 32 + pad)) } : Heap).kfree
      (loc (c + 32))
    HeapInv h' start stop (pre ++ ⟨pad, true⟩ :: ⟨s - pad - 32, false⟩ :: post) ∧
      ∀ x < 2 ^ 64, (x < c ∨ c + 64 + s ≤ x) →
        OutsideHeaders start (pre ++ ⟨pad, true⟩ :: ⟨s - pad - 32, false⟩ :: post) x →
        h'.mem (loc x) = h.mem (loc x) := by
  intro c h'
  have bound := inv.bound
  have top := inv.bound
  simp only [span_append, span_cons] at bound
  have header := inv.linked.header
  have split : Heap.splitAligned h.mem (loc c) (loc (c + 32 + pad)) =
      divide h.mem (loc c) (loc (c + 32 + pad)) (loc pad) (loc (s - pad - 32))
        (flag true) (flag false) := by
    have hsize : (read h.mem (loc c)).size = loc s := by rw [header]
    have padding : loc (c + 32 + pad) - loc c = loc (32 + pad) := by
      rw [← loc_sub (by omega)]; congr 1; omega
    have left : loc (32 + pad) - sizeofHeapBlock = loc pad := by
      rw [show sizeofHeapBlock = loc 32 from rfl, ← loc_sub (by omega)]; congr 1; omega
    have right : loc s - loc (32 + pad) = loc (s - pad - 32) := by
      rw [← loc_sub (by omega)]; congr 1; omega
    rw [splitAligned_eq, hsize, padding, left, right]
    rfl
  have linked : Linked (Heap.splitAligned h.mem (loc c) (loc (c + 32 + pad))) 0 0 start
      (pre ++ ⟨pad, true⟩ :: ⟨s - pad - 32, false⟩ :: post) := by
    rw [split]
    exact inv.linked.divide top room
  have coalesced : Coalesced (pre ++ ⟨pad, true⟩ :: ⟨s - pad - 32, false⟩ :: post) := by
    obtain ⟨hpre, hpost, -⟩ := List.isChain_append.mp inv.coalesced
    refine List.isChain_append.mpr ⟨hpre, ?_, fun x hx y hy => ?_⟩
    · exact List.isChain_cons_cons.mpr ⟨by simp,
        List.isChain_cons.mpr ⟨fun y _ => by simp, (List.isChain_cons.mp hpost).2⟩⟩
    · simp [seam x hx]
  have inv' : HeapInv { h with mem := Heap.splitAligned h.mem (loc c) (loc (c + 32 + pad)) }
      start stop (pre ++ ⟨pad, true⟩ :: ⟨s - pad - 32, false⟩ :: post) := by
    refine inv.update linked rfl ?_ coalesced
    simp only [span_append, span_cons]
    omega
  -- the padding is free already and has no free neighbour
  obtain ⟨freed, keep⟩ := kfree_spec inv'
  rw [coalesce_of_coalesced coalesced] at freed
  refine ⟨freed, fun x hx far out => (keep x hx out).trans ?_⟩
  have next : (read h.mem (loc c)).next = loc (nextAddr 0 c ⟨s, false⟩ post) := by rw [header]
  show Heap.splitAligned h.mem (loc c) (loc (c + 32 + pad)) (loc x) = h.mem (loc x)
  rw [split]
  refine divide_apply (hdrApart_loc (by omega) (by omega)).symm next
    (away_loc (by omega) hx (by omega)) (away_loc (by omega) hx (by omega)) fun hne => ?_
  cases post with
  | nil => exact absurd rfl hne
  | cons q qs =>
      simp only [nextAddr, span_cons] at *
      exact away_loc (by omega) hx (by omega)

/-- The sum `kmalloc_aligned` asks `kmalloc` for, when it does not wrap. -/
theorem toNat_totalSize {size alignment : Word}
    (fits : size.toNat + alignment.toNat + 32 < 2 ^ 64) :
    (size + alignment + sizeofHeapBlock).toNat = size.toNat + alignment.toNat + 32 := by
  rw [BitVec.toNat_add, BitVec.toNat_add, show sizeofHeapBlock.toNat = 32 from rfl]
  omega

theorem not_small {alignment : Word} (large : 16 < alignment.toNat) : ¬ alignment ≤ 16 := by
  rw [BitVec.le_def]
  exact Nat.not_le.mpr large

/-- The block before a free one is used. -/
theorem HeapInv.seam (inv : HeapInv h start stop (pre ++ b :: post)) (free : b.free = true) :
    ∀ x ∈ pre.getLast?, x.free = false := by
  intro x hx
  have := (List.isChain_append.mp inv.coalesced).2.2 x hx b rfl
  simpa [free] using this

/-- What `kmalloc_aligned` does to the block at `c` of which `kmalloc` gave it `s` bytes,
followed by `tail`: `pad` bytes of it become free padding. -/
structure CarvesAligned (h h' : Heap) (start stop : Nat) (size alignment : Word)
    (pre post : List Block) (b : Block) (s : Nat) (rest : List Block) (pad : Nat) : Prop where
  fit : FirstFit (size.toNat + alignment.toNat + 32) (pre ++ b :: post) pre b post
  carved : carve 32 16 (size.toNat + alignment.toNat + 32) b = ⟨s, false⟩ :: rest
  room : size.toNat + alignment.toNat + 32 ≤ s
  short : pad < alignment.toNat
  raw : ∃ h₁, h.kmalloc (size + alignment + sizeofHeapBlock) =
      some (h₁, loc (start + span 32 pre + 32)) ∧
    HeapInv h₁ start stop (pre ++ ⟨s, false⟩ :: (rest ++ post))
  addr : Heap.alignedAddr (loc (start + span 32 pre + 32)) alignment =
    loc (start + span 32 pre + 64 + pad)
  inv : HeapInv h' start stop (pre ++ ⟨pad, true⟩ :: ⟨s - pad - 32, false⟩ :: (rest ++ post))
  keeps : ∀ x < 2 ^ 64,
    x < start + span 32 pre ∨ start + span 32 pre + 64 + b.size ≤ x →
    OutsideHeaders start (pre ++ ⟨pad, true⟩ :: ⟨s - pad - 32, false⟩ :: (rest ++ post)) x →
    h'.mem (loc x) = h.mem (loc x)

/-- `kmalloc_aligned` with a large alignment and a sum that does not wrap carves the
request from the first block that has room for the sum, or fails when none has and
leaves the heap alone. -/
theorem kmallocAligned_spec (inv : HeapInv h start stop bs) {size alignment : Word}
    (fits : size.toNat + alignment.toNat + 32 < 2 ^ 64) (large : 16 < alignment.toNat) :
    (∃ h' pre b post s rest pad, bs = pre ++ b :: post ∧
      h.kmallocAligned size alignment = some (h', loc (start + span 32 pre + 64 + pad)) ∧
      CarvesAligned h h' start stop size alignment pre post b s rest pad) ∨
    ((∀ b ∈ bs, ¬ b.Fits (size.toNat + alignment.toNat + 32)) ∧
      h.kmallocAligned size alignment = some (h, 0)) := by
  have notSmall := not_small large
  have total := toNat_totalSize fits
  rcases kmalloc_spec inv (size + alignment + sizeofHeapBlock) with
    ⟨pre, b, post, h₁, fit, run, inv₁, keep₁⟩ | ⟨none, fail⟩
  · left
    obtain rfl := fit.split
    have bound := inv.bound
    have place := inv.pos
    simp only [span_append, span_cons] at bound
    have raw := run
    obtain ⟨s, rest, hcarve, hs, hsb, hrest⟩ := carve_eq_cons 32 16 fit.fits.2
    rw [hcarve, List.cons_append] at inv₁
    rw [total] at hs hcarve fit
    obtain ⟨pad, hpad, haddr⟩ := alignedAddr_spec (start + span 32 pre + 32)
      (show 0 < alignment.toNat by omega) (by omega)
    obtain ⟨inv₂, keep₂⟩ := splitAligned_spec pad inv₁ (by omega) (inv.seam fit.fits.1)
    generalize hc : start + span 32 pre = c at *
    have ptr : loc (c + 32) ≠ 0 := by
      rw [Ne, show (0 : Word) = loc 0 from rfl, loc_inj (by omega) (by omega)]
      omega
    have original : loc (c + 32) - sizeofHeapBlock = loc c := by
      rw [show sizeofHeapBlock = loc 32 from rfl, ← loc_sub (by omega)]
      congr 1
    have aligned : loc (c + 32 + 32 + pad) - sizeofHeapBlock = loc (c + 32 + pad) := by
      rw [show sizeofHeapBlock = loc 32 from rfl, ← loc_sub (by omega)]
      congr 1
      omega
    have distinct : loc (c + 32 + pad) ≠ loc c := by
      rw [Ne, loc_inj (by omega) (by omega)]
      omega
    have back : loc c + sizeofHeapBlock = loc (c + 32) := (loc_add c 32).symm
    refine ⟨_, pre, b, post, s, rest, pad, rfl, ?_, fit, hcarve, hs, hpad, ⟨h₁, ?_, inv₁⟩, ?_,
      inv₂, ?_⟩
    · rw [hc]
      simp only [Heap.kmallocAligned, notSmall, if_false, run, ptr, haddr, original, aligned,
        ne_eq, distinct, not_false_eq_true, if_true, back]
    · rw [hc, raw]
    · rw [hc, haddr]
    · intro x hx far out
      rw [hc] at far
      exact (keep₂ x hx (by omega) out).trans (keep₁ x hx far)
  · right
    rw [total] at none
    refine ⟨none, ?_⟩
    simp only [Heap.kmallocAligned, notSmall, if_false, fail, if_true]

/-- `kmalloc_aligned` grants the request or changes nothing. Small alignments are
`kmalloc`'s. -/
theorem kmallocAligned_grants (inv : HeapInv h start stop bs) {size alignment : Word}
    (fits : size.toNat + alignment.toNat + 32 < 2 ^ 64) (large : 16 < alignment.toNat) :
    (∃ p h' bs', 0 < p ∧ p < 2 ^ 64 ∧ h.kmallocAligned size alignment = some (h', loc p) ∧
      Grants h h' start stop bs bs' p size.toNat) ∨
    h.kmallocAligned size alignment = some (h, 0) := by
  rcases kmallocAligned_spec inv fits large with
    ⟨h', pre, b, post, s, rest, pad, rfl, run, carves⟩ | ⟨-, fail⟩
  · left
    have free := carves.fit.fits.1
    have room := carves.room
    have short := carves.short
    have bound := inv.bound
    simp only [span_append, span_cons] at bound
    obtain ⟨s', rest', hcarve, -, hsb, hrest⟩ := carve_eq_cons 32 16 carves.fit.fits.2
    obtain ⟨same, rfl⟩ := List.cons.inj (carves.carved.symm.trans hcarve)
    obtain rfl : s = s' := congrArg Block.size same
    have grant : (used 32 start
        (pre ++ ⟨pad, true⟩ :: ⟨s - pad - 32, false⟩ :: (rest ++ post))).Perm
        ((start + span 32 pre + 64 + pad, s - pad - 32) :: used 32 start (pre ++ b :: post)) := by
      have place : start + span 32 pre + 32 + pad + 32 + (s - pad - 32) =
          start + span 32 pre + 32 + s := by omega
      have whole : span 32 (⟨s, false⟩ :: rest) = 32 + b.size := by
        rw [← hcarve, span_carve]
      have tail : start + span 32 pre + 32 + s + span 32 rest =
          start + span 32 pre + 32 + b.size := by
        simp only [span_cons] at whole
        omega
      simp only [used_append, used, free, hrest, place, tail, Bool.false_eq_true, if_false,
        if_true, List.nil_append, List.singleton_append]
      rw [show start + span 32 pre + 32 + pad + 32 = start + span 32 pre + 64 + pad by omega]
      exact List.perm_middle
    refine ⟨start + span 32 pre + 64 + pad, h', _, by omega, by omega, run, carves.inv,
      ⟨s - pad - 32, by omega, grant⟩, ?_⟩
    intro q t x hq hx hx'
    have far := used_beside_free free hq
    have top := (used_bounds hq).2
    simp only [span_append, span_cons] at top
    refine carves.keeps x (by omega) (by omega) fun y hy => ?_
    have still := grant.mem_iff.mpr (List.mem_cons_of_mem _ hq)
    have := headers_used_disjoint hy still
    omega
  · exact .inr fail

end Ops

end Coolos
