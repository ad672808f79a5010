import Coolos.Lib.BlockList

/-!
# Coalesced lists and the gaps between used blocks

In a coalesced list the free blocks are the gaps between the used ones, no more and no
fewer. So the list is determined by its region and its used payloads
(`coalesced_unique`), and a search for the first free block that fits is a search for
the lowest gap that is long enough.
-/

namespace Lib.BlockList

variable {hdr : Nat}

/-! ## The used payloads determine the list -/

/-- Behind a free block of a coalesced list there is a used one or nothing. -/
theorem Coalesced.behind_free {b : Block} {bs : List Block} (h : Coalesced (b :: bs))
    (free : b.free = true) : bs = [] ∨ ∃ s cs, bs = ⟨s, false⟩ :: cs := by
  cases bs with
  | nil => exact .inl rfl
  | cons c cs =>
      right
      have notBoth := (List.isChain_cons_cons.mp h).1
      cases hc : c.free with
      | true => exact absurd ⟨free, hc⟩ notBoth
      | false => exact ⟨c.size, cs, by rw [← hc]⟩

/-- The first payload of a list that starts with a free block is further on than that of
one that starts with a used block. -/
theorem used_free_ne_used (pos : 0 < hdr) {a s : Nat} {b : Block} {bs cs : List Block}
    (free : b.free = true) : used hdr a (b :: bs) ≠ used hdr a (⟨s, false⟩ :: cs) := by
  intro same
  have first : (a + hdr, s) ∈ used hdr a (b :: bs) := by
    rw [same]
    exact List.mem_cons_self
  simp only [used, free, if_true, List.nil_append] at first
  have := (used_bounds first).1
  omega

/-- Two free blocks with the same used payloads behind them and the same end have the
same size. -/
theorem free_size_eq {a : Nat} {b c : Block} {bs cs : List Block} (hb : Coalesced (b :: bs))
    (hc : Coalesced (c :: cs)) (bfree : b.free = true) (cfree : c.free = true)
    (region : span hdr (b :: bs) = span hdr (c :: cs))
    (same : used hdr a (b :: bs) = used hdr a (c :: cs)) : b.size = c.size := by
  simp only [used, bfree, cfree, if_true, List.nil_append] at same
  rcases hb.behind_free bfree with rfl | ⟨s, ds, rfl⟩
  · rcases hc.behind_free cfree with rfl | ⟨t, es, rfl⟩
    · -- both run to the end of the region
      simp only [span_cons, span_nil] at region
      omega
    · cases same
  · rcases hc.behind_free cfree with rfl | ⟨t, es, rfl⟩
    · cases same
    · -- both end at the first used block
      have first := congrArg (fun l : List (Nat × Nat) => (l.headD (0, 0)).1) same
      simp only [used, Bool.false_eq_true, if_false, List.singleton_append, List.headD_cons]
        at first
      omega

/-- A coalesced list is determined by its region and its used payloads. -/
theorem coalesced_unique (pos : 0 < hdr) {bs : List Block} : ∀ {cs : List Block} {a : Nat},
    Coalesced bs → Coalesced cs → span hdr bs = span hdr cs →
    used hdr a bs = used hdr a cs → bs = cs := by
  induction bs with
  | nil =>
      intro cs a _ _ region _
      cases cs with
      | nil => rfl
      | cons c cs => simp only [span_nil, span_cons] at region; omega
  | cons b bs ih =>
      intro cs a hb hc region same
      cases cs with
      | nil => simp only [span_nil, span_cons] at region; omega
      | cons c cs =>
          -- first the two heads
          have head : b = c := by
            obtain ⟨s, bfree⟩ := b
            obtain ⟨t, cfree⟩ := c
            cases bfree with
            | true =>
                cases cfree with
                | true =>
                    have size : s = t := free_size_eq hb hc rfl rfl region same
                    rw [size]
                | false => exact absurd same (used_free_ne_used pos rfl)
            | false =>
                cases cfree with
                | true => exact absurd same.symm (used_free_ne_used pos rfl)
                | false =>
                    have size : s = t := (Prod.mk.inj (List.cons.inj same).1).2
                    rw [size]
          subst head
          have rest : bs = cs := by
            apply ih (List.isChain_cons.mp hb).2 (List.isChain_cons.mp hc).2
            · simpa only [span_cons, Nat.add_left_cancel_iff] using region
            · exact List.append_cancel_left same
          rw [rest]

theorem used_nodup (pos : 0 < hdr) (bs : List Block) (a : Nat) : (used hdr a bs).Nodup := by
  refine (used_pairwise bs a).imp ?_
  rintro x y apart rfl
  omega

/-- The payloads come in the order of their addresses, so their set determines them. -/
theorem used_ext (pos : 0 < hdr) {bs cs : List Block} {a : Nat}
    (same : ∀ x, x ∈ used hdr a bs ↔ x ∈ used hdr a cs) : used hdr a bs = used hdr a cs := by
  have perm := (List.perm_ext_iff_of_nodup (used_nodup pos bs a) (used_nodup pos cs a)).mpr same
  refine perm.eq_of_pairwise ?_ (used_pairwise bs a) (used_pairwise cs a)
  intro x y _ _ before after
  omega

/-- No two used payloads share an address. -/
theorem used_size_unique (pos : 0 < hdr) {bs : List Block} {a p s t : Nat}
    (hs : (p, s) ∈ used hdr a bs) (ht : (p, t) ∈ used hdr a bs) : s = t := by
  by_contra other
  have ne : (p, s) ≠ (p, t) := fun h => other (Prod.mk.inj h).2
  have apart : (used hdr a bs).Pairwise fun x y => x.1 ≠ y.1 :=
    (used_pairwise bs a).imp fun h => by omega
  have symm : Std.Symm fun x y : Nat × Nat => x.1 ≠ y.1 := ⟨fun _ _ h => h.symm⟩
  exact apart.forall hs ht ne rfl

/-- Coalescing adds no header. -/
theorem headers_coalesce_subset (bs : List Block) : ∀ a,
    headers hdr a (coalesce hdr bs) ⊆ headers hdr a bs := by
  induction bs with
  | nil => intro a x hx; exact hx
  | cons b bs ih =>
      intro a x hx
      rcases List.mem_cons.mp (headers_join_subset a b _ hx) with rfl | later
      · exact List.mem_cons_self
      · exact List.mem_cons_of_mem _ (ih _ later)

/-! ## Gaps -/

/-- `[x, y)` is a longest stretch of `[start, stop)` outside `blocks`, which are given by
their first address and their end. -/
structure Gap (start stop : Nat) (blocks : List (Nat × Nat)) (x y : Nat) : Prop where
  le : x ≤ y
  lower : x = start ∨ ∃ b ∈ blocks, b.2 = x
  upper : y = stop ∨ ∃ b ∈ blocks, b.1 = y
  outside : ∀ b ∈ blocks, b.2 ≤ x ∨ y ≤ b.1

/-- The used blocks, headers included. -/
def usedBlocks (hdr a : Nat) (bs : List Block) : List (Nat × Nat) :=
  (used hdr a bs).map fun p => (p.1 - hdr, p.1 + p.2)

theorem mem_usedBlocks {a x y : Nat} {bs : List Block} : (x, y) ∈ usedBlocks hdr a bs ↔
    ∃ pre s post, bs = pre ++ ⟨s, false⟩ :: post ∧ x = a + span hdr pre ∧ y = x + hdr + s := by
  rw [usedBlocks, List.mem_map]
  constructor
  · rintro ⟨⟨p, s⟩, mem, same⟩
    obtain ⟨pre, post, rfl, rfl⟩ := mem_used mem
    obtain ⟨rfl, rfl⟩ := Prod.mk.inj same
    exact ⟨pre, s, post, rfl, by simp, by simp⟩
  · rintro ⟨pre, s, post, rfl, rfl, rfl⟩
    exact ⟨_, used_mem a pre post s, by simp⟩

section Gaps

variable {a x y n : Nat} {bs pre post : List Block} {b : Block}

/-- A used block beside another block of the list. -/
theorem usedBlocks_beside (mem : (x, y) ∈ usedBlocks hdr a (pre ++ b :: post)) :
    y ≤ a + span hdr pre ∨ (x = a + span hdr pre ∧ b.free = false) ∨
      a + span hdr pre + hdr + b.size ≤ x := by
  obtain ⟨before, s, behind, split, rfl, rfl⟩ := mem_usedBlocks.mp mem
  rcases List.append_eq_append_iff.mp split with ⟨mid, rfl, tail⟩ | ⟨mid, rfl, tail⟩
  · cases mid with
    | nil =>
        obtain ⟨rfl, -⟩ := List.cons.inj tail
        exact .inr (.inl ⟨by simp, rfl⟩)
    | cons c mid =>
        obtain ⟨rfl, -⟩ := List.cons.inj tail
        simp only [span_append, span_cons]
        omega
  · cases mid with
    | nil =>
        obtain ⟨rfl, -⟩ := List.cons.inj tail
        exact .inr (.inl ⟨by simp, rfl⟩)
    | cons c mid =>
        obtain ⟨rfl, -⟩ := List.cons.inj tail
        simp only [span_append, span_cons]
        omega

/-- Every free block of a coalesced list is a gap. -/
theorem Coalesced.gap (h : Coalesced (pre ++ b :: post)) (free : b.free = true) :
    Gap a (a + span hdr (pre ++ b :: post)) (usedBlocks hdr a (pre ++ b :: post))
      (a + span hdr pre) (a + span hdr pre + hdr + b.size) := by
  obtain ⟨-, hpost, seam⟩ := List.isChain_append.mp h
  refine ⟨by omega, ?_, ?_, ?_⟩
  · rcases List.eq_nil_or_concat pre with rfl | ⟨pre, p, rfl⟩
    · exact .inl (by simp)
    · -- the block before is used
      right
      rw [List.concat_eq_append] at *
      have used : p.free = false := by
        have notBoth := seam p (by simp) b rfl
        cases hp : p.free with
        | true => exact absurd ⟨hp, free⟩ notBoth
        | false => rfl
      refine ⟨(a + span hdr pre, a + span hdr pre + hdr + p.size), ?_, ?_⟩
      · refine mem_usedBlocks.mpr ⟨pre, p.size, b :: post, ?_, rfl, rfl⟩
        rw [List.append_assoc, List.singleton_append, ← used]
      · simp only [span_append, span_cons, span_nil]
        omega
  · rcases Coalesced.behind_free hpost free with rfl | ⟨s, cs, rfl⟩
    · left
      simp only [span_append, span_cons, span_nil]
      omega
    · right
      refine ⟨(a + span hdr pre + hdr + b.size, a + span hdr pre + hdr + b.size + hdr + s), ?_, rfl⟩
      refine mem_usedBlocks.mpr ⟨pre ++ [b], s, cs, by simp, ?_, rfl⟩
      simp only [span_append, span_cons, span_nil]
      omega
  · rintro ⟨u, v⟩ mem
    rcases usedBlocks_beside mem with before | ⟨-, used⟩ | behind
    · exact .inl before
    · rw [free] at used
      cases used
    · exact .inr behind

/-- Every gap with room for a byte is a free block. -/
theorem Gap.free_block (pos : 0 < hdr) (h : Coalesced bs)
    (gap : Gap a (a + span hdr bs) (usedBlocks hdr a bs) x y) (long : x < y) :
    ∃ pre b post, bs = pre ++ b :: post ∧ b.free = true ∧ x = a + span hdr pre ∧
      y = x + hdr + b.size := by
  -- a gap begins where a block begins
  obtain ⟨pre, tail, rfl, place⟩ : ∃ pre tail, bs = pre ++ tail ∧ x = a + span hdr pre := by
    rcases gap.lower with first | ⟨⟨u, v⟩, mem, same⟩
    · exact ⟨[], bs, rfl, by simpa using first⟩
    · obtain ⟨pre, s, post, rfl, rfl, rfl⟩ := mem_usedBlocks.mp mem
      refine ⟨pre ++ [⟨s, false⟩], post, by simp, ?_⟩
      simp only [span_append, span_cons, span_nil]
      omega
  have inside : y ≤ a + span hdr (pre ++ tail) := by
    rcases gap.upper with last | ⟨⟨u, v⟩, mem, same⟩
    · exact Nat.le_of_eq last
    · obtain ⟨before, s, behind, split, rfl, rfl⟩ := mem_usedBlocks.mp mem
      rw [split]
      simp only [span_append, span_cons]
      omega
  cases tail with
  | nil =>
      rw [List.append_nil] at inside
      omega
  | cons b post =>
      have free : b.free = true := by
        cases hb : b.free with
        | true => rfl
        | false =>
            -- the block itself would lie in the gap
            have mem : (a + span hdr pre, a + span hdr pre + hdr + b.size) ∈
                usedBlocks hdr a (pre ++ b :: post) :=
              mem_usedBlocks.mpr ⟨pre, b.size, post, by rw [← hb], rfl, rfl⟩
            have := gap.outside _ mem
            simp only at this
            omega
      refine ⟨pre, b, post, rfl, free, place, ?_⟩
      have whole : Gap a _ (usedBlocks hdr a (pre ++ b :: post)) _ _ := h.gap free
      have upper : y ≤ a + span hdr pre + hdr + b.size := by
        rcases whole.upper with last | ⟨⟨u, v⟩, mem, same⟩
        · rwa [last]
        · have := gap.outside _ mem
          have le := (mem_usedBlocks.mp mem)
          obtain ⟨-, s, -, -, -, rfl⟩ := le
          simp only at this same
          omega
      rcases gap.upper with last | ⟨⟨u, v⟩, mem, same⟩
      · simp only [span_append, span_cons] at last
        omega
      · have := usedBlocks_beside mem
        obtain ⟨-, s, -, -, -, rfl⟩ := mem_usedBlocks.mp mem
        simp only at same
        rw [free] at this
        omega

/-- No free block fits exactly when every gap is too short for the block and a header. -/
theorem no_fit_iff (pos : 0 < hdr) (h : Coalesced bs) : (∀ b ∈ bs, ¬ b.Fits n) ↔
    ∀ x y, Gap a (a + span hdr bs) (usedBlocks hdr a bs) x y → y - x < n + hdr := by
  constructor
  · intro none x y gap
    by_contra long
    obtain ⟨pre, b, post, rfl, free, -, rfl⟩ := gap.free_block pos h (by omega)
    exact none b (by simp) ⟨free, by omega⟩
  · intro short b mem fits
    obtain ⟨pre, post, rfl⟩ := List.append_of_mem mem
    have := short _ _ (h.gap fits.1)
    have := fits.2
    omega

/-- The first block that fits is the lowest gap that is long enough. -/
theorem FirstFit.lowest (pos : 0 < hdr) (h : Coalesced bs) (fit : FirstFit n bs pre b post)
    (gap : Gap a (a + span hdr bs) (usedBlocks hdr a bs) x y) (long : n + hdr ≤ y - x) :
    a + span hdr pre ≤ x := by
  obtain ⟨pre', c, post', split, free, rfl, rfl⟩ := gap.free_block pos h (by omega)
  have fits : c.Fits n := ⟨free, by omega⟩
  rcases List.append_eq_append_iff.mp (fit.split.symm.trans split) with
    ⟨mid, rfl, -⟩ | ⟨mid, rfl, tail⟩
  · simp only [span_append]
    omega
  · cases mid with
    | nil => simp
    | cons d mid =>
        -- the gap would be a block that was skipped
        obtain ⟨rfl, -⟩ := List.cons.inj tail
        exact absurd fits (fit.skipped c (by simp))

end Gaps
end Lib.BlockList
