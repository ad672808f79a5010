import Coolos.Logic.HeapClients
import Coolos.Theorems.HeapCanonical

/-!
# `kmalloc` fails only when it must

`kmalloc` searches the free blocks of the list. In every run in which no sum of
`kmalloc_aligned` goes wrong these are the gaps between the live blocks, so it finds
the lowest gap with room for the request and a header, or there is none.
-/

namespace Coolos.Theorems

open Lib Lib.BlockList HeapBlock HeapClients

/-- The live blocks: where the header of each live allocation begins, and where the block
ends by the size in that header. -/
def liveBlocks (s : HeapRun) : List (Nat × Nat) :=
  s.live.map fun a => (a.1.toNat - 32,
    a.1.toNat + (read s.heap.mem (a.1 - sizeofHeapBlock)).size.toNat)

/-- `[x, y)` is a gap between live blocks, or between one and an end of the heap. -/
def LiveGap (s : HeapRun) (start size : Word) : Nat → Nat → Prop :=
  Gap start.toNat (start.toNat + size.toNat) (liveBlocks s)

/-- `kmalloc(n)` fails exactly when every gap is too short for a header and `n` bytes, and
otherwise returns the place behind a header at the lowest gap that is not, in a block of
`n` bytes at least. -/
structure FailsOnlyWhenFull (s : HeapRun) (start size n : Word) : Prop where
  fails : (∃ h, s.heap.kmalloc n = some (h, 0)) ↔
    ∀ x y, LiveGap s start size x y → y - x < n.toNat + 32
  lowest : (¬ ∀ x y, LiveGap s start size x y → y - x < n.toNat + 32) →
    ∃ h x y, s.heap.kmalloc n = some (h, loc (x + 32)) ∧ LiveGap s start size x y ∧
      n.toNat + 32 ≤ y - x ∧
      (∀ x' y', LiveGap s start size x' y' → n.toNat + 32 ≤ y' - x' → x ≤ x') ∧
      n.toNat ≤ (read h.mem (loc x)).size.toNat

/-- The size in the header of a used payload. -/
theorem header_size {h : Heap} {start stop p n : Nat} {bs : List Block}
    (inv : HeapInv h start stop bs) (mem : (p, n) ∈ used 32 start bs) :
    (read h.mem (loc p - sizeofHeapBlock)).size.toNat = n := by
  obtain ⟨pre, post, rfl, rfl⟩ := mem_used mem
  have narrow : n + 48 < 2 ^ 64 := inv.narrow_block
  have header : loc (start + span 32 pre + 32) - sizeofHeapBlock = loc (start + span 32 pre) := by
    rw [show sizeofHeapBlock = loc 32 from rfl, ← loc_sub (by omega)]
    congr 1
  rw [header, inv.linked.header, toNat_loc (show n < 2 ^ 64 by omega)]

/-- The live blocks are the used blocks of the list. -/
theorem mem_liveBlocks {s : HeapRun} {start stop : Nat} {bs : List Block}
    {payloads : List (Nat × Nat)} (inv : HeapInv s.heap start stop bs)
    (perm : (used 32 start bs).Perm payloads) (backed : Backed s.live payloads) (b : Nat × Nat) :
    b ∈ liveBlocks s ↔ b ∈ usedBlocks 32 start bs := by
  have block : ∀ a ∈ s.live, ∀ n, (a.1.toNat, n) ∈ used 32 start bs →
      (read s.heap.mem (a.1 - sizeofHeapBlock)).size.toNat = n := by
    intro a _ n mem
    have size := header_size inv mem
    rwa [loc_toNat] at size
  rw [liveBlocks, usedBlocks, List.mem_map, List.mem_map]
  constructor
  · rintro ⟨a, ha, rfl⟩
    obtain ⟨n, mem, -⟩ := backed.mem ha
    have mem := perm.mem_iff.mpr mem
    exact ⟨_, mem, by rw [block a ha n mem]⟩
  · rintro ⟨⟨p, n⟩, mem, rfl⟩
    obtain ⟨a, ha, same⟩ := backed.owner (perm.mem_iff.mp mem)
    have same : a.1.toNat = p := same
    subst same
    exact ⟨a, ha, by rw [block a ha n mem]⟩

theorem failsOnlyWhenFull_of_inv {s : HeapRun} {start size : Word}
    (inv : HeapRunInv start.toNat (start.toNat + size.toNat) s) (n : Word) :
    FailsOnlyWhenFull s start size n := by
  obtain ⟨bs, payloads, heap, perm, backed⟩ := inv
  have region : start.toNat + size.toNat = start.toNat + span 32 bs := heap.tiles.symm
  have gaps : ∀ x y, LiveGap s start size x y ↔
      Gap start.toNat (start.toNat + span 32 bs) (usedBlocks 32 start.toNat bs) x y := by
    intro x y
    have same := mem_liveBlocks heap perm backed
    rw [LiveGap, region]
    constructor
    · rintro ⟨le, lower, upper, outside⟩
      simp only [same] at lower upper outside
      exact ⟨le, lower, upper, outside⟩
    · rintro ⟨le, lower, upper, outside⟩
      simp only [← same] at lower upper outside
      exact ⟨le, lower, upper, outside⟩
  have full := no_fit_iff (a := start.toNat) (n := n.toNat) (show 0 < 32 by decide) heap.coalesced
  simp only [← gaps] at full
  rcases kmalloc_spec heap n with ⟨pre, b, post, h', fit, run, inv', -⟩ | ⟨none, fail⟩
  · have split := fit.split
    subst split
    have bound := heap.bound
    have pos := heap.pos
    simp only [span_append, span_cons] at bound
    have room := fit.fits.2
    have nonnull : loc (start.toNat + span 32 pre + 32) ≠ 0 := by
      rw [Ne, show (0 : Word) = loc 0 from rfl, loc_inj (by omega) (by omega)]
      omega
    have gap : Gap start.toNat _ (usedBlocks 32 start.toNat (pre ++ b :: post)) _ _ :=
      heap.coalesced.gap fit.fits.1
    refine ⟨⟨?_, ?_⟩, fun _ => ⟨h', start.toNat + span 32 pre, _, run, (gaps _ _).mpr gap, ?_, ?_,
      ?_⟩⟩
    · rintro ⟨h, null⟩
      exact absurd (Prod.mk.inj (Option.some.inj (run.symm.trans null))).2 nonnull
    · intro short
      exact absurd fit.fits (full.mpr short b (by simp))
    · omega
    · intro x y other long
      exact fit.lowest (by decide) heap.coalesced ((gaps x y).mp other) long
    · -- the block carved is the first of what the free one became
      obtain ⟨s, rest, carved, enough, most, -⟩ := carve_eq_cons 32 16 room
      rw [carved, List.cons_append] at inv'
      rw [inv'.linked.header, toNat_loc (show s < 2 ^ 64 by omega)]
      exact enough
  · refine ⟨⟨fun _ => full.mp none, fun _ => ⟨s.heap, fail⟩⟩, fun possible => ?_⟩
    exact absurd (full.mp none) possible

/-- In every run whose aligned requests stay clear of the wrap, `kmalloc` fails only when
it must. -/
theorem kmalloc_fails_only_when_full {start size : Word} (region : HeapRegion start size) :
    ((sys start size).guard Fitting).Invariant fun s => ∀ n, FailsOnlyWhenFull s start size n := by
  intro s hs n
  exact failsOnlyWhenFull_of_inv (heapClients_invariant region s hs) n

/-- A 64 KiB heap with two live allocations. -/
theorem kmalloc_fails_only_when_full_64K : ∃ s : HeapRun,
    s.live = [(4352, 50), (4128, 100)] ∧ FailsOnlyWhenFull s 4096 65536 1000 := by
  obtain ⟨s, hs, live⟩ := twoLive_reachable
  refine ⟨s, live, ?_⟩
  exact kmalloc_fails_only_when_full ⟨by decide, by decide, by decide⟩ s hs 1000

/-- `kmalloc_aligned(2^64 - 4112, 4096)` asks `kmalloc` for 16 bytes and puts a header 4000
bytes behind them, over the free block there. That block is still on the list, behind the
live one and below it, so `kmalloc(5000)` returns it though no gap is that long. -/
theorem kmalloc_finds_no_gap : ¬ ∀ start size : Word, HeapRegion start size →
    (sys start size).Invariant fun s => ∀ n, FailsOnlyWhenFull s start size n := by
  intro claim
  have run : ((freshRun 4096 65536).step (.kmallocAligned 0xffffffffffffeff0 4096)).map
      (fun s => (s.live, (read s.heap.mem (8192 - sizeofHeapBlock)).size,
        (s.heap.kmalloc 5000).map (·.2))) =
      some ([(8192, 0xffffffffffffeff0)], 0xfffffffffffff030, some 4176) := by
    decide +kernel
  obtain ⟨s, hs, fields⟩ := Option.map_eq_some_iff.mp run
  obtain ⟨live, fields⟩ := Prod.mk.inj fields
  obtain ⟨field, found⟩ := Prod.mk.inj fields
  have reached : (sys 4096 65536).Reachable s :=
    .step (e := .kmallocAligned 0xffffffffffffeff0 4096) (.init ⟨_, rfl⟩) ⟨trivial, hs⟩
  have sound := claim 4096 65536 ⟨by decide, by decide, by decide⟩ s reached 5000
  have blocks : liveBlocks s = [(8160, 18446744073709555760)] := by
    rw [liveBlocks, live, List.map_singleton, field]
    rfl
  -- the only gap is the one before the live block
  have short : ∀ x y, LiveGap s 4096 65536 x y → y - x < (5000 : Word).toNat + 32 := by
    rintro x y ⟨-, lower, upper, outside⟩
    rw [blocks] at lower upper outside
    have out := outside _ List.mem_cons_self
    simp only [List.mem_singleton, exists_eq_left] at lower upper out
    have first : (4096 : Word).toNat = 4096 := rfl
    have length : (65536 : Word).toNat = 65536 := rfl
    have request : (5000 : Word).toNat = 5000 := rfl
    omega
  obtain ⟨h, null⟩ := sound.fails.mpr short
  rw [null] at found
  have other : (0 : Word) = 4176 := Option.some.inj found
  exact absurd other (by decide)

end Coolos.Theorems
