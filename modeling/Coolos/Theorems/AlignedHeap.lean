import Coolos.Theorems.HeapCanonical

/-!
# Aligned allocation

`kmalloc_aligned` rounds an address up for alignments above 16 and leaves smaller ones
to `kmalloc`, which returns whatever address the blocks before left. Its sum
`size + alignment + sizeof(HeapBlock)` may wrap; what happens then is settled by whether
a block has room for the wrapped sum.
-/

namespace Coolos.Theorems

open Lib Lib.BlockList HeapBlock HeapClients

/-! ## Addresses -/

/-- The headers on the list are at multiples of 16. -/
def HeadersAligned (h : Heap) : Prop :=
  ∀ ps, ListFrom h.mem h.freeList ps → ∀ p ∈ ps, p.toNat % 16 = 0

/-- The first block with room for `n` bytes is too small to be split. -/
def TakenWhole (h : Heap) (n : Word) : Prop :=
  ∀ pre c post, ListFrom h.mem h.freeList (pre ++ c :: post) → (∀ p ∈ pre, ¬ RoomAt h n p) →
    RoomAt h n c → (read h.mem c).size.toNat < n.toNat + 48

/-- `kmalloc(n)` splits no block, or splits one at a multiple of 16. -/
def SplitsAligned (h : Heap) (n : Word) : Prop := n.toNat % 16 = 0 ∨ TakenWhole h n

/-- Allocations that split no block at odd addresses. -/
def Rounded (s : HeapRun) : HeapOp → Prop
  | .kmalloc size => SplitsAligned s.heap size
  | .kmallocAligned size alignment =>
      if alignment ≤ 16 then SplitsAligned s.heap size
      else alignment.toNat % 16 = 0 ∧ SumFits s.heap size alignment ∧
        SplitsAligned s.heap (size + alignment + sizeofHeapBlock)
  | .kfree _ => True

theorem Rounded.fitting {s : HeapRun} {op : HeapOp} (rounded : Rounded s op) : Fitting s op := by
  cases op with
  | kmalloc size => trivial
  | kfree ptr => trivial
  | kmallocAligned size alignment =>
      by_cases small : alignment ≤ 16
      · exact .inl small
      · rw [Rounded, if_neg small] at rounded
        exact .inr rounded.2.1

section Lists

variable {h h' : Heap} {start stop n : Nat} {bs pre post tail : List Block} {b : Block}

theorem headersAligned_iff (inv : HeapInv h start stop bs) :
    HeadersAligned h ↔ ∀ x ∈ headers 32 start bs, x % 16 = 0 := by
  have small : ∀ x ∈ headers 32 start bs, (loc x).toNat = x := by
    intro x hx
    have := headers_bounds hx
    have := inv.bound
    exact toNat_loc (by omega)
  constructor
  · intro aligned x hx
    have := aligned _ inv.walk (loc x) (List.mem_map.mpr ⟨x, hx, rfl⟩)
    rwa [small x hx] at this
  · intro aligned ps walk p hp
    obtain rfl := inv.walk_eq walk
    obtain ⟨x, hx, rfl⟩ := List.mem_map.mp hp
    rw [small x hx]
    exact aligned x hx

/-- Carving adds at most the header behind the request. -/
theorem headers_carve (aligned : ∀ x ∈ headers 32 start (pre ++ b :: post), x % 16 = 0)
    (splits : n % 16 = 0 ∨ b.size < n + 48) :
    ∀ x ∈ headers 32 start (pre ++ (carve 32 16 n b ++ post)), x % 16 = 0 := by
  simp only [headers_append, headers, List.mem_append, List.mem_cons] at aligned
  have here : (start + span 32 pre) % 16 = 0 := aligned _ (.inr (.inl rfl))
  intro x hx
  unfold carve at hx
  split at hx
  · rename_i large
    have place : start + span 32 pre + 32 + n + 32 + (b.size - n - 32) =
        start + span 32 pre + 32 + b.size := by omega
    simp only [headers_append, headers, List.cons_append, List.nil_append, List.mem_append,
      List.mem_cons, place] at hx
    rcases hx with before | rfl | rfl | behind
    · exact aligned x (.inl before)
    · exact here
    · omega
    · exact aligned x (.inr (.inr behind))
  · simp only [headers_append, headers, List.cons_append, List.nil_append, List.mem_append,
      List.mem_cons] at hx
    exact aligned x hx

/-- Splitting a block adds one header. -/
theorem headers_split {s pad : Nat} {f g f' : Bool}
    (aligned : ∀ x ∈ headers 32 start (pre ++ ⟨s, f⟩ :: tail), x % 16 = 0) (room : pad + 32 ≤ s)
    (place : (start + span 32 pre + 32 + pad) % 16 = 0) :
    ∀ x ∈ headers 32 start (pre ++ ⟨pad, g⟩ :: ⟨s - pad - 32, f'⟩ :: tail), x % 16 = 0 := by
  have behind : start + span 32 pre + 32 + pad + 32 + (s - pad - 32) =
      start + span 32 pre + 32 + s := by omega
  simp only [headers_append, headers, List.mem_append, List.mem_cons, behind] at aligned ⊢
  rintro x (before | rfl | rfl | later)
  · exact aligned x (.inl before)
  · exact aligned _ (.inr (.inl rfl))
  · exact place
  · exact aligned x (.inr (.inr later))

/-- A block taken whole is small. -/
theorem TakenWhole.size_lt {size : Word} (whole : TakenWhole h size)
    (inv : HeapInv h start stop (pre ++ b :: post))
    (fit : FirstFit size.toNat (pre ++ b :: post) pre b post) : b.size < size.toNat + 48 := by
  have walk := inv.walk
  have small := inv.narrow_block
  rw [blockPtrs, headers_append, List.map_append, headers, List.map_cons] at walk
  have size_eq : (read h.mem (loc (start + span 32 pre))).size.toNat = b.size := by
    rw [inv.linked.header, toNat_loc (by omega)]
  rw [← size_eq]
  refine whole _ _ _ walk ?_ ((inv.roomAt_iff size).mpr fit.fits)
  intro p hp room
  obtain ⟨x, hx, rfl⟩ := List.mem_map.mp hp
  obtain ⟨before, c, between, rfl, rfl⟩ := mem_headers hx
  rw [List.append_assoc, List.cons_append] at inv
  exact fit.skipped c (by simp) ((inv.roomAt_iff size).mp room)

/-! ## One call -/

variable {size alignment : Word}

theorem kmalloc_headersAligned (inv : HeapInv h start stop bs) (aligned : HeadersAligned h)
    (splits : SplitsAligned h size) {p : Word} (run : h.kmalloc size = some (h', p)) :
    HeadersAligned h' := by
  rcases kmalloc_spec inv size with ⟨pre, b, post, h₁, fit, run₁, inv₁, -⟩ | ⟨-, fail⟩
  · obtain ⟨rfl, -⟩ := Prod.mk.inj (Option.some.inj (run₁.symm.trans run))
    have split := fit.split
    subst split
    refine (headersAligned_iff inv₁).mpr (headers_carve ?_ ?_)
    · exact (headersAligned_iff inv).mp aligned
    · exact splits.imp_right fun whole => whole.size_lt inv fit
  · obtain ⟨rfl, -⟩ := Prod.mk.inj (Option.some.inj (fail.symm.trans run))
    exact aligned

theorem kfree_headersAligned {p : Word} {n : Nat} (inv : HeapInv h start stop bs)
    (aligned : HeadersAligned h) (hp : (p.toNat, n) ∈ used 32 start bs) :
    HeadersAligned (h.kfree p) := by
  obtain ⟨pre, post, rfl, place⟩ := mem_used hp
  have inv' := (kfree_spec inv).1
  rw [← place, loc_toNat] at inv'
  refine (headersAligned_iff inv').mpr ?_
  intro x hx
  have old := (headersAligned_iff inv).mp aligned
  apply old
  have sub := headers_coalesce_subset _ _ hx
  simpa only [headers_append, headers] using sub

theorem kmallocAligned_headersAligned (inv : HeapInv h start stop bs) (aligned : HeadersAligned h)
    (large : ¬ alignment ≤ 16) (sixteen : alignment.toNat % 16 = 0)
    (sum : SumFits h size alignment)
    (splits : SplitsAligned h (size + alignment + sizeofHeapBlock)) {p : Word}
    (run : h.kmallocAligned size alignment = some (h', p)) : HeadersAligned h' := by
  rcases sum with fits | none
  · have more : 16 < alignment.toNat := by
      rw [BitVec.le_def] at large
      exact Nat.not_le.mp large
    rcases kmallocAligned_spec inv fits more with
      ⟨h₁, pre, b, post, s, rest, pad, rfl, run₁, carves⟩ | ⟨-, fail⟩
    · obtain ⟨rfl, -⟩ := Prod.mk.inj (Option.some.inj (run₁.symm.trans run))
      obtain ⟨h₂, run₂, inv₂⟩ := carves.raw
      have raw := (headersAligned_iff inv₂).mp
        (kmalloc_headersAligned inv aligned splits run₂)
      have room := carves.room
      have short := carves.short
      have bound := inv₂.bound
      simp only [span_append, span_cons] at bound
      refine (headersAligned_iff carves.inv).mpr (headers_split raw (by omega) ?_)
      -- the aligned payload is at a multiple of 16, its header two sixteens before
      have place := alignedAddr_mod (loc (start + span 32 pre + 32)) (k := 4) (by omega) sixteen
      rw [carves.addr, toNat_loc (by omega)] at place
      omega
    · obtain ⟨rfl, -⟩ := Prod.mk.inj (Option.some.inj (fail.symm.trans run))
      exact aligned
  · have fail := kmallocAligned_of_no_room inv large none
    obtain ⟨rfl, -⟩ := Prod.mk.inj (Option.some.inj (fail.symm.trans run))
    exact aligned

/-- Where the headers are at multiples of 16, every aligned request that is granted is
granted at a multiple of its alignment. -/
theorem kmallocAligned_multiple (inv : HeapInv h start stop bs) (aligned : HeadersAligned h)
    {k : Nat} (power : alignment.toNat = 2 ^ k)
    (fits : size.toNat + alignment.toNat + 32 < 2 ^ 64) :
    ∃ h' p, h.kmallocAligned size alignment = some (h', p) ∧ p.toNat % alignment.toNat = 0 := by
  by_cases small : alignment ≤ 16
  · rw [Heap.kmallocAligned, if_pos small]
    rcases kmalloc_spec inv size with ⟨pre, b, post, h₁, fit, run, inv₁, -⟩ | ⟨-, fail⟩
    · have split := fit.split
      subst split
      refine ⟨h₁, _, run, ?_⟩
      have bound := inv.bound
      simp only [span_append, span_cons] at bound
      have header := (headersAligned_iff inv).mp aligned (start + span 32 pre)
        (by simp [headers_append, headers])
      rw [toNat_loc (by omega)]
      -- a power of two up to 16 divides 16
      have divides : 2 ^ k ∣ 16 := by
        rw [BitVec.le_def, power] at small
        have le : k ≤ 4 := (Nat.pow_le_pow_iff_right (by decide)).mp small
        exact Nat.pow_dvd_pow 2 le
      rw [power]
      apply Nat.mod_eq_zero_of_dvd
      exact divides.trans (Nat.dvd_of_mod_eq_zero (by omega))
    · exact ⟨h, 0, fail, Nat.zero_mod _⟩
  · have more : 16 < alignment.toNat := by
      rw [BitVec.le_def] at small
      exact Nat.not_le.mp small
    rcases kmallocAligned_spec inv fits more with
      ⟨h₁, pre, b, post, s, rest, pad, rfl, run, carves⟩ | ⟨-, fail⟩
    · refine ⟨h₁, _, run, ?_⟩
      rw [← carves.addr, power]
      exact alignedAddr_mod _ (by omega) (by rw [power, Nat.mod_self])
    · exact ⟨h, 0, fail, Nat.zero_mod _⟩

end Lists

/-! ## Runs -/

/-- As long as no allocation splits a block at an odd address, all headers are at multiples
of 16. -/
theorem rounded_invariant {start size : Word} (region : HeapRegion start size)
    (page : start.toNat % 4096 = 0) : ((sys start size).guard Rounded).Invariant fun s =>
      HeapRunInv start.toNat (start.toNat + size.toNat) s ∧ HeadersAligned s.heap := by
  have top := region.top
  apply TSys.Inductive.invariant
  constructor
  · rintro s ⟨m, rfl⟩
    have fresh := heapInit_inv m region.pos region.room (by omega) (by omega)
    refine ⟨⟨_, [], fresh, by simp [used], .nil⟩, (headersAligned_iff fresh).mpr ?_⟩
    intro x hx
    obtain rfl := List.mem_singleton.mp hx
    omega
  · rintro s op s' ⟨inv, aligned⟩ ⟨rounded, own, run⟩
    obtain ⟨s₁, run₁, inv₁⟩ := inv.client_step own rounded.fitting
    obtain rfl := Option.some.inj (run₁.symm.trans run)
    refine ⟨inv₁, ?_⟩
    obtain ⟨bs, payloads, heap, perm, backed⟩ := inv
    cases op with
    | kmalloc size =>
        obtain ⟨⟨h, p⟩, call, rfl⟩ := Option.map_eq_some_iff.mp run
        exact kmalloc_headersAligned heap aligned rounded call
    | kmallocAligned size alignment =>
        obtain ⟨⟨h, p⟩, call, rfl⟩ := Option.map_eq_some_iff.mp run
        by_cases small : alignment ≤ 16
        · rw [Rounded, if_pos small] at rounded
          rw [Heap.kmallocAligned, if_pos small] at call
          exact kmalloc_headersAligned heap aligned rounded call
        · rw [Rounded, if_neg small] at rounded
          obtain ⟨sixteen, sum, splits⟩ := rounded
          exact kmallocAligned_headersAligned heap aligned small sixteen sum splits call
    | kfree ptr =>
        obtain rfl := Option.some.inj run
        rcases own with null | ⟨n, live⟩
        · show HeadersAligned (s.heap.kfree ptr)
          rw [Heap.kfree, if_pos null]
          exact aligned
        · obtain ⟨t, ht, -⟩ := backed.mem live
          exact kfree_headersAligned heap aligned (perm.mem_iff.mpr ht)

/-- In such runs `kmalloc_aligned` honours every alignment. -/
theorem aligned_in_rounded_runs {start size : Word} (region : HeapRegion start size)
    (page : start.toNat % 4096 = 0) : ((sys start size).guard Rounded).Invariant fun s =>
      ∀ n a : Word, (∃ k, a.toNat = 2 ^ k) → n.toNat + a.toNat + 32 < 2 ^ 64 →
        ∃ h p, s.heap.kmallocAligned n a = some (h, p) ∧ p.toNat % a.toNat = 0 := by
  rintro s hs n a ⟨k, power⟩ fits
  obtain ⟨⟨bs, payloads, heap, -⟩, aligned⟩ := rounded_invariant region page s hs
  exact kmallocAligned_multiple heap aligned power fits

/-- After `kmalloc(112)` another request. -/
theorem aligned_in_rounded_runs_64K :
    ∃ s, (freshRun 4096 65536).step (.kmalloc 112) = some s ∧ s.live = [(4128, 112)] ∧
      ∃ h p, s.heap.kmallocAligned 50 16 = some (h, p) ∧ p.toNat % (16 : Word).toNat = 0 := by
  have run : ((freshRun 4096 65536).step (.kmalloc 112)).map (·.live) = some [(4128, 112)] := by
    decide +kernel
  obtain ⟨s, hs, live⟩ := Option.map_eq_some_iff.mp run
  have reached : ((sys 4096 65536).guard Rounded).Reachable s :=
    .step (e := .kmalloc 112) (.init ⟨_, rfl⟩) ⟨.inl (by decide), trivial, hs⟩
  refine ⟨s, hs, live, ?_⟩
  exact aligned_in_rounded_runs ⟨by decide, by decide, by decide⟩ (by decide) s reached 50 16
    ⟨4, rfl⟩ (by decide)

/-- After `kmalloc(100)` the next block is at 4228, and `kmalloc_aligned(50, 16)` returns
4260. -/
theorem aligned_after_odd_size : ¬ ∀ start size : Word, HeapRegion start size →
    start.toNat % 4096 = 0 → ((sys start size).guard Fitting).Invariant fun s =>
      ∀ n a : Word, (∃ k, a.toNat = 2 ^ k) → n.toNat + a.toNat + 32 < 2 ^ 64 →
        ∀ h p, s.heap.kmallocAligned n a = some (h, p) → p ≠ 0 → p.toNat % a.toNat = 0 := by
  intro claim
  have run : ((freshRun 4096 65536).step (.kmalloc 100)).map
      (fun s => (s.heap.kmallocAligned 50 16).map (·.2)) = some (some 4260) := by
    decide +kernel
  obtain ⟨s, hs, found⟩ := Option.map_eq_some_iff.mp run
  obtain ⟨⟨h, p⟩, call, place⟩ := Option.map_eq_some_iff.mp found
  obtain rfl : p = 4260 := place
  have reached : ((sys 4096 65536).guard Fitting).Reachable s :=
    .step (e := .kmalloc 100) (.init ⟨_, rfl⟩) ⟨trivial, trivial, hs⟩
  have multiple := claim 4096 65536 ⟨by decide, by decide, by decide⟩ (by decide) s reached 50 16
    ⟨4, rfl⟩ (by decide) h 4260 call (by decide)
  exact absurd multiple (by decide)

end Coolos.Theorems
