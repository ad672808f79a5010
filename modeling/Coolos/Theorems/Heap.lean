import Coolos.Logic.HeapRun
import Coolos.Logic.HeapList

/-!
# The heap over whole runs

Runs start from `Heap_Init` on a region of at least one header, inside the
address space and short enough that the split test of `kmalloc` cannot wrap.
The list stays well formed, calls return, and clients keep what they were
given. Regions that break a bound have runs that break the contract.
-/

namespace Coolos.Theorems

open Lib Lib.BlockList HeapBlock

/-- The heap of a client that has called nothing yet, over zeroed memory. -/
def freshRun (start size : Word) : HeapRun := ⟨Heap.init (fun _ => 0) start size, []⟩

theorem freshRun_reachable (start size : Word) :
    (HeapRun.sys start size).Reachable (freshRun start size) :=
  .init ⟨_, rfl⟩

theorem reachable_kmalloc {start size n : Word} {s s' : HeapRun}
    (hs : (HeapRun.sys start size).Reachable s) (run : s.step (.kmalloc n) = some s') :
    (HeapRun.sys start size).Reachable s' :=
  .step (e := .kmalloc n) hs ⟨trivial, run⟩

/-! ## The list -/

/-- In every state of every run the list is well formed, and every allowed
call returns. -/
theorem heap_list_invariant {start size : Word} (pos : start ≠ 0) (room : 32 ≤ size.toNat)
    (top : start.toNat + size.toNat < 2 ^ 64) (narrow : size.toNat + 16 < 2 ^ 64) :
    ∀ s, (HeapRun.sys start size).Reachable s →
      (∃ ps, ListWellFormed s.heap start size ps) ∧
        ∀ op, s.Allowed op → ∃ s', s.step op = some s' := by
  intro s hs
  have inv := heapRun_invariant pos room top narrow s hs
  have ⟨bs, payloads, heap, _, _⟩ := inv
  refine ⟨⟨_, heap.listWellFormed⟩, fun op ok => ?_⟩
  obtain ⟨s', run, -⟩ := HeapRunInv.step inv ok
  exact ⟨s', run⟩

/-- A 64 KiB heap after one allocation. -/
theorem heap_list_invariant_64K :
    ∃ s, (freshRun 4096 65536).step (.kmalloc 100) = some s ∧ s.live = [(4128, 100)] ∧
      ∃ ps, ListWellFormed s.heap 4096 65536 ps := by
  have run : ((freshRun 4096 65536).step (.kmalloc 100)).map (·.live) = some [(4128, 100)] := by
    decide +kernel
  obtain ⟨s, hs, live⟩ := Option.map_eq_some_iff.mp run
  refine ⟨s, hs, live, ?_⟩
  exact (heap_list_invariant (by decide) (by decide) (by decide) (by decide) s
    (reachable_kmalloc (freshRun_reachable _ _) hs)).1

/-- A region 16 bytes short of the address space: the split test of
`kmalloc(2^64 - 48)` wraps to zero, and the header it then writes 15 bytes
below the top lies over the first one. -/
theorem heap_list_broken_by_wrap :
    ¬ ∀ start size : Word, start ≠ 0 → 32 ≤ size.toNat → start.toNat + size.toNat < 2 ^ 64 →
      ∀ s, (HeapRun.sys start size).Reachable s → ∃ ps, ListWellFormed s.heap start size ps := by
  intro claim
  have run : ((freshRun 1 0xfffffffffffffffe).step (.kmalloc 0xffffffffffffffd0)).map
      (fun s => (s.heap.freeList, (read s.heap.mem 1).next,
        (read s.heap.mem 0xfffffffffffffff1).prev)) =
      some (1, 0xfffffffffffffff1, 0xffffffffffffffd0) := by
    decide +kernel
  obtain ⟨s, hs, fields⟩ := Option.map_eq_some_iff.mp run
  obtain ⟨hhead, hfields⟩ := Prod.mk.inj fields
  obtain ⟨hnext, hprev⟩ := Prod.mk.inj hfields
  obtain ⟨ps, wf⟩ := claim 1 0xfffffffffffffffe (by decide) (by decide) (by decide) s
    (reachable_kmalloc (freshRun_reachable _ _) hs)
  -- the first two blocks of the walk are 1 and 2^64 - 15
  have walk := wf.walk
  rw [hhead] at walk
  cases walk with
  | cons _ tail =>
      rw [hnext] at tail
      cases tail with
      | cons _ _ =>
          have := (wf.inverse 1 (by simp) 0xfffffffffffffff1 (by simp)).mp hnext
          rw [hprev] at this
          exact absurd this (by decide)

/-! ## The clients -/

/-- Live payloads lie in the region, apart from each other and from the headers
on the list. -/
structure ClientContract (s : HeapRun) (start size : Word) : Prop where
  inside : ∀ a ∈ s.live, start.toNat ≤ a.1.toNat ∧
    a.1.toNat + a.2.toNat ≤ start.toNat + size.toNat
  disjoint : s.live.Pairwise fun a b =>
    a.1.toNat + a.2.toNat ≤ b.1.toNat ∨ b.1.toNat + b.2.toNat ≤ a.1.toNat
  headers : ∃ ps, ListFrom s.heap.mem s.heap.freeList ps ∧ ∀ p ∈ ps, ∀ a ∈ s.live,
    p.toNat + 32 ≤ a.1.toNat ∨ a.1.toNat + a.2.toNat ≤ p.toNat

/-- What a step owes to the clients: live bytes are kept, and an allocation
that returns `NULL` leaves the heap alone. -/
structure StepContract (s : HeapRun) : Prop where
  keeps : ∀ op s', s.Allowed op → s.step op = some s' → KeepsLive s s'.heap
  null : ∀ n h', s.heap.kmalloc n = some (h', 0) → h' = s.heap
  nullAligned : ∀ n a h', s.Allowed (.kmallocAligned n a) →
    s.heap.kmallocAligned n a = some (h', 0) → h' = s.heap

theorem clientContract_of_inv {s : HeapRun} {start size : Word}
    (inv : HeapRunInv start.toNat (start.toNat + size.toNat) s) :
    ClientContract s start size := by
  obtain ⟨bs, payloads, heap, perm, backed⟩ := inv
  have payload : ∀ a ∈ s.live, ∃ t, (a.1.toNat, t) ∈ used 32 start.toNat bs ∧ a.2.toNat ≤ t :=
    fun a ha => by
      obtain ⟨t, ht, le⟩ := backed.mem ha
      exact ⟨t, perm.mem_iff.mpr ht, le⟩
  refine ⟨fun a ha => ?_, ?_, ⟨_, heap.listWellFormed.walk, fun p hp a ha => ?_⟩⟩
  · obtain ⟨t, ht, le⟩ := payload a ha
    have := used_bounds ht
    have := heap.tiles
    omega
  · have apart : (used 32 start.toNat bs).Pairwise fun x y =>
        x.1 + x.2 ≤ y.1 ∨ y.1 + y.2 ≤ x.1 :=
      (used_pairwise bs start.toNat).imp fun h => .inl (by omega)
    refine backed.pairwise ((perm.pairwise_iff fun h => h.symm).mp apart) ?_
    intro a b t u ht hu h
    omega
  · obtain ⟨x, hx, rfl⟩ := List.mem_map.mp hp
    obtain ⟨t, ht, le⟩ := payload a ha
    have := headers_used_disjoint hx ht
    have := headers_bounds hx
    have := heap.bound
    rw [toNat_loc (by omega)]
    omega

theorem stepContract_of_inv {s : HeapRun} {start stop : Nat} (inv : HeapRunInv start stop s) :
    StepContract s where
  keeps op s' ok run := by
    obtain ⟨s₁, run₁, -, keep⟩ := inv.step ok
    exact Option.some.inj (run₁.symm.trans run) ▸ keep
  null n h' run := by
    obtain ⟨h₁, ptr, run₁, -, -, same⟩ := inv.kmalloc n
    obtain ⟨rfl, rfl⟩ := Prod.mk.inj (Option.some.inj (run₁.symm.trans run))
    exact same rfl
  nullAligned n a h' ok run := by
    obtain ⟨h₁, ptr, run₁, -, -, same⟩ := inv.kmallocAligned ok.2
    obtain ⟨rfl, rfl⟩ := Prod.mk.inj (Option.some.inj (run₁.symm.trans run))
    exact same rfl

/-! A heap at address 0 is an empty list, from which nothing is allocated. -/

theorem kmalloc_null_head {h : Heap} (head : h.freeList = 0) (size : Word) :
    h.kmalloc size = some (h, 0) := by
  have miss : Heap.search h.mem size (2 ^ 64) 0 = some 0 := by
    rw [show (2 : Nat) ^ 64 = 0xffffffffffffffff + 1 from rfl, Heap.search, if_pos rfl]
  simp only [Heap.kmalloc, head, miss, if_true]

theorem kmallocAligned_null_head {h : Heap} (head : h.freeList = 0) (size alignment : Word) :
    h.kmallocAligned size alignment = some (h, 0) := by
  simp only [Heap.kmallocAligned, kmalloc_null_head head, if_true, ite_self]

theorem heapRun_null_invariant (size : Word) :
    (HeapRun.sys 0 size).Invariant fun s => s.heap.freeList = 0 ∧ s.live = [] := by
  refine TSys.Inductive.invariant ⟨?_, ?_⟩
  · rintro s ⟨m, rfl⟩
    exact ⟨rfl, rfl⟩
  · rintro s op s' ⟨head, live⟩ ⟨ok, run⟩
    cases op with
    | kmalloc n =>
        simp only [HeapRun.step, kmalloc_null_head head, Option.map_some, Option.some.injEq] at run
        exact run ▸ ⟨head, live⟩
    | kmallocAligned n a =>
        simp only [HeapRun.step, kmallocAligned_null_head head, Option.map_some,
          Option.some.injEq] at run
        exact run ▸ ⟨head, live⟩
    | kfree p =>
        obtain rfl : p = 0 := by
          rcases ok with null | ⟨n, mem⟩
          · exact null
          · simp [live] at mem
        cases run
        exact ⟨head, by simp [live]⟩

theorem clientContract_null {s : HeapRun} {size : Word} (head : s.heap.freeList = 0)
    (live : s.live = []) : ClientContract s 0 size where
  inside := by simp [live]
  disjoint := by simp [live]
  headers := ⟨[], head ▸ .nil, by simp⟩

theorem stepContract_null {s : HeapRun} (head : s.heap.freeList = 0) (live : s.live = []) :
    StepContract s where
  keeps op s' _ _ := by simp [KeepsLive, live]
  null n h' run := by
    rw [kmalloc_null_head head] at run
    exact (Prod.mk.inj (Option.some.inj run)).1.symm
  nullAligned n a h' _ run := by
    rw [kmallocAligned_null_head head] at run
    exact (Prod.mk.inj (Option.some.inj run)).1.symm

/-- In every state of every run the clients' contract holds, and so does the
contract of every step from it. -/
theorem heap_client_contract {start size : Word} (room : 32 ≤ size.toNat)
    (top : start.toNat + size.toNat < 2 ^ 64) (narrow : size.toNat + 16 < 2 ^ 64) :
    ∀ s, (HeapRun.sys start size).Reachable s → ClientContract s start size ∧ StepContract s := by
  intro s hs
  by_cases pos : start = 0
  · subst pos
    obtain ⟨head, live⟩ := heapRun_null_invariant size s hs
    exact ⟨clientContract_null head live, stepContract_null head live⟩
  · have inv := heapRun_invariant pos room top narrow s hs
    exact ⟨clientContract_of_inv inv, stepContract_of_inv inv⟩

/-- An ordinary and an aligned allocation from a 64 KiB heap. -/
theorem twoLive_run : ∃ s₁ s, (freshRun 4096 65536).step (.kmalloc 100) = some s₁ ∧
    s₁.step (.kmallocAligned 50 64) = some s ∧ s.live = [(4352, 50), (4128, 100)] := by
  have run : (((freshRun 4096 65536).step (.kmalloc 100)).bind
      (·.step (.kmallocAligned 50 64))).map (·.live) = some [(4352, 50), (4128, 100)] := by
    decide +kernel
  obtain ⟨s, hs, live⟩ := Option.map_eq_some_iff.mp run
  obtain ⟨s₁, hs₁, hs₂⟩ := Option.bind_eq_some_iff.mp hs
  exact ⟨s₁, s, hs₁, hs₂, live⟩

/-- A 64 KiB heap with two live allocations. -/
theorem heap_client_contract_64K :
    ∃ s, ((freshRun 4096 65536).step (.kmalloc 100)).bind (·.step (.kmallocAligned 50 64)) =
        some s ∧
      s.live = [(4352, 50), (4128, 100)] ∧ ClientContract s 4096 65536 ∧ StepContract s := by
  obtain ⟨s₁, s, hs₁, hs₂, live⟩ := twoLive_run
  refine ⟨s, ?_, live, ?_⟩
  · rw [hs₁]
    exact hs₂
  · exact heap_client_contract (by decide) (by decide) (by decide) s
      (.step (e := .kmallocAligned 50 64) (reachable_kmalloc (freshRun_reachable _ _) hs₁)
        ⟨⟨⟨6, rfl⟩, by decide⟩, hs₂⟩)

/-- Each bound on the region is needed: with less than a header, with a region
that wraps, and with one 16 bytes short of the address space, some run breaks
the contract. -/
theorem heap_client_contract_broken :
    (¬ ∀ s, (HeapRun.sys 4096 0).Reachable s → ClientContract s 4096 0) ∧
    (¬ ∀ s, (HeapRun.sys 0xffffffffffffffc0 128).Reachable s →
      ClientContract s 0xffffffffffffffc0 128) ∧
    (¬ ∀ s, (HeapRun.sys 1 0xfffffffffffffffe).Reachable s →
      ClientContract s 1 0xfffffffffffffffe) := by
  refine ⟨fun claim => ?_, fun claim => ?_, fun claim => ?_⟩
  · -- a payload behind an empty region
    have run : ((freshRun 4096 0).step (.kmalloc 100)).map (·.live) = some [(4128, 100)] := by
      decide +kernel
    obtain ⟨s, hs, live⟩ := Option.map_eq_some_iff.mp run
    have := (claim s (reachable_kmalloc (freshRun_reachable _ _) hs)).inside (4128, 100)
      (by simp [live])
    exact absurd this (by decide)
  · -- the second block lies past the top, at address 8
    have run : (((freshRun 0xffffffffffffffc0 128).step (.kmalloc 40)).bind
        (·.step (.kmalloc 24))).map (·.live) = some [(40, 24), (0xffffffffffffffe0, 40)] := by
      decide +kernel
    obtain ⟨s, hs, live⟩ := Option.map_eq_some_iff.mp run
    obtain ⟨s₁, hs₁, hs₂⟩ := Option.bind_eq_some_iff.mp hs
    have := (claim s (reachable_kmalloc
      (reachable_kmalloc (freshRun_reachable _ _) hs₁) hs₂)).inside (40, 24) (by simp [live])
    exact absurd this (by decide)
  · -- the second payload lies over the first
    have run : (((freshRun 1 0xfffffffffffffffe).step (.kmalloc 0xffffffffffffffd0)).bind
        (·.step (.kmalloc 100))).map (·.live) = some [(17, 100), (33, 0xffffffffffffffd0)] := by
      decide +kernel
    obtain ⟨s, hs, live⟩ := Option.map_eq_some_iff.mp run
    obtain ⟨s₁, hs₁, hs₂⟩ := Option.bind_eq_some_iff.mp hs
    have := (claim s (reachable_kmalloc
      (reachable_kmalloc (freshRun_reachable _ _) hs₁) hs₂)).disjoint
    rw [live] at this
    exact absurd ((List.pairwise_cons.mp this).1 _ List.mem_cons_self) (by decide)

end Coolos.Theorems
