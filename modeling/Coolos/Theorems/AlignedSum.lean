import Coolos.Theorems.HeapCanonical

/-!
# The sum in `kmalloc_aligned`

`size + alignment + sizeof(HeapBlock)` is computed in `size_t`. When it wraps and a
block has room for what is left of it, the block handed out is never one of `size`
bytes inside the block it was carved from.
-/

namespace Coolos.Theorems

open Lib Lib.BlockList HeapBlock HeapClients

/-- `kmalloc_aligned` fails and leaves the heap alone, or returns a block of at least
`size` bytes that ends no later than the block `kmalloc` gave it to carve it from. -/
def CarvedInside (h : Heap) (size alignment : Word) : Prop :=
  ∃ h' p, h.kmallocAligned size alignment = some (h', p) ∧
    (p = 0 ∧ h' = h ∨
      p ≠ 0 ∧ ∃ h₁ raw, h.kmalloc (size + alignment + sizeofHeapBlock) = some (h₁, raw) ∧
        size.toNat ≤ (read h'.mem (p - sizeofHeapBlock)).size.toNat ∧
        p.toNat + (read h'.mem (p - sizeofHeapBlock)).size.toNat ≤
          raw.toNat + (read h₁.mem (raw - sizeofHeapBlock)).size.toNat)

section Sum

variable {h : Heap} {start stop : Nat} {bs : List Block} {size alignment : Word}

theorem sub_header {c : Nat} : loc (c + 32) - sizeofHeapBlock = loc c := by
  rw [show sizeofHeapBlock = loc 32 from rfl, ← loc_sub (by omega)]
  congr 1

/-- Without a wrap the block is carved as the source means it. -/
theorem carvedInside_of_fits (inv : HeapInv h start stop bs)
    (fits : size.toNat + alignment.toNat + 32 < 2 ^ 64) (large : 16 < alignment.toNat) :
    CarvedInside h size alignment := by
  rcases kmallocAligned_spec inv fits large with
    ⟨h', pre, b, post, s, rest, pad, rfl, run, carves⟩ | ⟨-, fail⟩
  · obtain ⟨h₁, raw, inv₁⟩ := carves.raw
    have room := carves.room
    have short := carves.short
    have bound := inv₁.bound
    have pos := inv₁.pos
    simp only [span_append, span_cons] at bound
    refine ⟨h', _, run, .inr ⟨?_, h₁, _, raw, ?_⟩⟩
    · rw [Ne, show (0 : Word) = loc 0 from rfl, loc_inj (by omega) (by omega)]
      omega
    · have header := (show Linked h'.mem 0 0 start
        ((pre ++ [⟨pad, true⟩]) ++ ⟨s - pad - 32, false⟩ :: (rest ++ post)) by
          rw [List.append_assoc]; exact carves.inv.linked).header
      have place : start + span 32 (pre ++ [⟨pad, true⟩]) = start + span 32 pre + 32 + pad := by
        simp only [span_append, span_cons, span_nil]
        omega
      rw [place] at header
      rw [show start + span 32 pre + 64 + pad = start + span 32 pre + 32 + pad + 32 by omega,
        sub_header, sub_header, header, inv₁.linked.header]
      show _ ≤ (loc (s - pad - 32)).toNat ∧ _ + (loc (s - pad - 32)).toNat ≤ _ + (loc s).toNat
      rw [toNat_loc (by omega), toNat_loc (by omega), toNat_loc (by omega), toNat_loc (by omega)]
      omega
  · exact ⟨h, 0, fail, .inl ⟨rfl, rfl⟩⟩

/-! ## A sum that wraps -/

/-- The last block before an address. -/
theorem lastAddr_before {pre : List Block} : ∀ {prev a : Nat}, pre ≠ [] →
    a ≤ lastAddr prev a pre ∧ lastAddr prev a pre + 32 ≤ a + span 32 pre := by
  induction pre with
  | nil => intro _ _ ne; exact absurd rfl ne
  | cons b bs ih =>
      intro prev a _
      rw [lastAddr, span_cons]
      by_cases last : bs = []
      · subst last
        exact ⟨le_rfl, by simp only [lastAddr, span_nil]; omega⟩
      · obtain ⟨low, high⟩ := @ih a (a + 32 + b.size) last
        omega

/-- What `kmalloc_aligned` does with the block `kmalloc` gave it, sum or no sum. -/
theorem kmallocAligned_of_raw {h₁ : Heap} {raw : Word} (large : 16 < alignment.toNat)
    (run : h.kmalloc (size + alignment + sizeofHeapBlock) = some (h₁, raw)) (nonnull : raw ≠ 0) :
    h.kmallocAligned size alignment =
      some (if Heap.alignedAddr raw alignment - sizeofHeapBlock ≠ raw - sizeofHeapBlock then
          (Heap.mk (Heap.splitAligned h₁.mem (raw - sizeofHeapBlock)
            (Heap.alignedAddr raw alignment - sizeofHeapBlock)) h₁.freeList).kfree
              (raw - sizeofHeapBlock + sizeofHeapBlock)
        else h₁, Heap.alignedAddr raw alignment) := by
  simp only [Heap.kmallocAligned, not_small large, if_false, run, nonnull]
  split <;> rfl

/-- A split off at the end of the address space leaves a block that reaches there. -/
theorem padding_to_top {h₁ : Heap} {pre post : List Block} {b : Block}
    (inv : HeapInv h₁ start stop (pre ++ b :: post)) (top : stop + 48 ≤ 2 ^ 64) :
    (read ((Heap.mk (Heap.splitAligned h₁.mem (loc (start + span 32 pre)) (loc (2 ^ 64 - 32)))
      h₁.freeList).kfree (loc (start + span 32 pre + 32))).mem
        (loc (start + span 32 pre))).size =
      loc (2 ^ 64 - 32) - loc (start + span 32 pre) - sizeofHeapBlock := by
  have bound := inv.bound
  have pos := inv.pos
  have tiles := inv.tiles
  have header := inv.linked.header
  have before := @lastAddr_before pre 0 start
  have first : lastAddr 0 start [] = 0 := rfl
  simp only [span_append, span_cons] at bound tiles
  generalize hc : start + span 32 pre = c at *
  generalize he : loc (2 ^ 64 - 32) = e
  have ce : HdrApart (loc c) e := he ▸ hdrApart_loc (by omega) (by omega)
  have nonnull : loc (c + 32) ≠ 0 := by
    rw [Ne, show (0 : Word) = loc 0 from rfl, loc_inj (by omega) (by omega)]
    omega
  have next : (read h₁.mem (loc c)).next = loc (nextAddr 0 c b post) := by rw [header]
  generalize hd : loc (nextAddr 0 c b post) = d at next
  have behind : d ≠ 0 → HdrApart d (loc c) ∧ HdrApart d e := by
    intro ne
    subst hd
    subst he
    cases post with
    | nil => exact absurd rfl ne
    | cons q qs =>
        simp only [nextAddr, span_cons] at *
        exact ⟨(hdrApart_loc (by omega) (by omega)).symm, hdrApart_loc (by omega) (by omega)⟩
  -- after the split the two headers say so, and the flag is set already
  obtain ⟨m, hm⟩ : ∃ m, m = setFree (Heap.splitAligned h₁.mem (loc c) e) (loc c) 1 := ⟨_, rfl⟩
  have left : read m (loc c) =
      ⟨e - loc c - sizeofHeapBlock, e, (read h₁.mem (loc c)).prev, 1⟩ := by
    rw [hm, read_setFree, splitAligned_eq, read_divide_left ce.symm next fun ne => (behind ne).1]
  have right : (read m e).free = 0 := by
    rw [hm, read_setFree_apart ce, splitAligned_eq,
      read_divide_right ce.symm next fun ne => (behind ne).2]
  have freed : ((Heap.mk (Heap.splitAligned h₁.mem (loc c) e) h₁.freeList).kfree
      (loc (c + 32))).mem = Heap.coalescePrev (Heap.coalesceNext m (loc c)) (loc c) := by
    simp only [Heap.kfree, nonnull, if_false, sub_header, hm]
  -- the block behind is used, and a join with the block before leaves the header alone
  have nothing : Heap.coalesceNext m (loc c) = m := by
    rw [coalesceNext_eq (by rw [left]) fun _ => ce, right, if_neg (fun h => h.2 rfl)]
  have prevApart : loc (lastAddr 0 start pre) ≠ 0 →
      HdrApart (loc (lastAddr 0 start pre)) (loc c) := by
    intro ne
    by_cases none : pre = []
    · subst none
      exact absurd rfl ne
    · obtain ⟨low, high⟩ := before none
      exact hdrApart_loc high (by omega)
  rw [freed, nothing, coalescePrev_eq (c := loc (lastAddr 0 start pre)) (by rw [left, header])
    prevApart]
  split
  · rename_i joins
    rw [read_merge_apart (e := e) (by rw [left]) (prevApart joins.1) fun _ => ce.symm, left]
  · rw [left]

/-- With a sum that wraps and a block with room for what is left of it, `kmalloc_aligned`
returns no block inside that one. -/
theorem not_carvedInside_of_wrap (inv : HeapInv h start stop bs) (top : stop + 48 ≤ 2 ^ 64)
    {k : Nat} (power : alignment.toNat = 2 ^ k) (large : 16 < alignment.toNat)
    (wraps : 2 ^ 64 ≤ size.toNat + alignment.toNat + 32)
    (room : HasRoom h (size + alignment + sizeofHeapBlock)) :
    ¬ CarvedInside h size alignment := by
  rcases kmalloc_spec inv (size + alignment + sizeofHeapBlock) with
    ⟨pre, b, post, h₁, fit, run, inv₁, -⟩ | ⟨none, -⟩
  · have split := fit.split
    subst split
    obtain ⟨s, rest, carved, -, most, -⟩ := carve_eq_cons 32 16 fit.fits.2
    rw [carved, List.cons_append] at inv₁
    have tiles := inv₁.tiles
    have pos := inv.pos
    have old := inv.tiles
    simp only [span_append, span_cons] at tiles old
    have nonnull : loc (start + span 32 pre + 32) ≠ 0 := by
      rw [Ne, show (0 : Word) = loc 0 from rfl, loc_inj (by omega) (by omega)]
      omega
    have result := kmallocAligned_of_raw large run nonnull
    have multiple : (Heap.alignedAddr (loc (start + span 32 pre + 32)) alignment).toNat %
        alignment.toNat = 0 := by
      rw [power]
      exact alignedAddr_mod _ (by omega) (by rw [power, Nat.mod_self])
    rintro ⟨h', p, call, null | ⟨nonzero, h₂, raw, run₂, enough, ends⟩⟩
    · -- `NULL`, and a padding block up to the end of the address space
      obtain ⟨zero, same⟩ := null
      obtain ⟨heap, addr⟩ := Prod.mk.inj (Option.some.inj (result.symm.trans call))
      rw [zero] at addr
      have last : (0 : Word) - sizeofHeapBlock = loc (2 ^ 64 - 32) := by decide
      have other : loc (2 ^ 64 - 32) ≠ loc (start + span 32 pre) := by
        rw [Ne, loc_inj (by omega) (by omega)]
        omega
      have back : loc (start + span 32 pre) + sizeofHeapBlock = loc (start + span 32 pre + 32) :=
        (loc_add _ 32).symm
      rw [addr, last, sub_header, if_pos other, back] at heap
      have padding := padding_to_top inv₁ top
      rw [heap, same, inv.linked.header] at padding
      have size_eq := congrArg BitVec.toNat padding
      rw [show sizeofHeapBlock = loc 32 from rfl, ← loc_sub (by omega), ← loc_sub (by omega),
        toNat_loc (show b.size < 2 ^ 64 by omega), toNat_loc (by omega)] at size_eq
      omega
    · obtain ⟨rfl, rfl⟩ := Prod.mk.inj (Option.some.inj (run.symm.trans run₂))
      obtain ⟨-, rfl⟩ := Prod.mk.inj (Option.some.inj (result.symm.trans call))
      rw [sub_header, inv₁.linked.header, toNat_loc (show _ < 2 ^ 64 by omega)] at ends
      have inside : (loc s).toNat = s := toNat_loc (by omega)
      -- a multiple of the alignment and `size` bytes more do not fit below the end
      have high : alignment.toNat ≤
          (Heap.alignedAddr (loc (start + span 32 pre + 32)) alignment).toNat := by
        apply Nat.le_of_dvd _ (Nat.dvd_of_mod_eq_zero multiple)
        exact Nat.pos_of_ne_zero fun zero => nonzero (BitVec.eq_of_toNat_eq zero)
      simp only [inside] at ends
      omega
  · obtain ⟨b, mem, fits⟩ := (inv.hasRoom_iff _).mp room
    exact absurd fits (none b mem)

end Sum

/-! ## Every request -/

/-- In every heap that runs without such a step reach, `kmalloc_aligned` behaves exactly for
the requests whose sum does not wrap and those that find no room for what is left of it. -/
theorem carved_inside_iff {start size : Word} (region : HeapRegion start size) :
    ((sys start size).guard Fitting).Invariant fun s => ∀ n a : Word, (∃ k, a.toNat = 2 ^ k) →
      16 < a.toNat → (CarvedInside s.heap n a ↔ SumFits s.heap n a) := by
  rintro s hs n a ⟨k, power⟩ large
  obtain ⟨bs, payloads, heap, -⟩ := heapClients_invariant region s hs
  constructor
  · intro carved
    by_contra unfit
    obtain ⟨wraps, room⟩ := not_or.mp unfit
    exact not_carvedInside_of_wrap heap region.top power large (Nat.not_lt.mp wraps)
      (not_not.mp room) carved
  · rintro (fits | none)
    · exact carvedInside_of_fits heap fits large
    · exact ⟨s.heap, 0, kmallocAligned_of_no_room heap (not_small large) none, .inl ⟨rfl, rfl⟩⟩

theorem carved_inside_64K : CarvedInside (freshRun 4096 65536).heap 100 64 := by
  have both := carved_inside_iff (show HeapRegion 4096 65536 from ⟨by decide, by decide, by decide⟩)
    (freshRun 4096 65536) (.init ⟨_, rfl⟩) 100 64 ⟨6, rfl⟩ (by decide)
  exact both.mpr (.inl (by decide))

/-- `kmalloc_aligned(2^64 - 64, 64)` asks `kmalloc` for 32 bytes. -/
theorem carved_inside_broken : ¬ ∀ start size : Word, HeapRegion start size →
    ((sys start size).guard Fitting).Invariant fun s => ∀ n a : Word, (∃ k, a.toNat = 2 ^ k) →
      16 < a.toNat → CarvedInside s.heap n a := by
  intro claim
  have region : HeapRegion 4096 65536 := ⟨by decide, by decide, by decide⟩
  have fresh := @heapInit_inv 4096 65536 (fun _ => 0) (by decide) (by decide)
    (by decide) (by decide)
  have carved := claim 4096 65536 region (freshRun 4096 65536) (.init ⟨_, rfl⟩)
    0xffffffffffffffc0 64 ⟨6, rfl⟩ (by decide)
  refine not_carvedInside_of_wrap fresh region.top (k := 6) rfl (by decide) (by decide) ?_ carved
  exact (fresh.hasRoom_iff _).mpr ⟨_, List.mem_cons_self, rfl, by decide⟩

end Coolos.Theorems
