import Coolos.Logic.HeapOps

/-!
# The list in memory

What a reader of memory sees: start at `free_list`, follow `next` until
`NULL`. `ListFrom` is that walk and `ListWellFormed` what holds of it; a heap
that holds a block list has a well-formed walk over its headers.
-/

namespace Coolos

open Lib Lib.BlockList HeapBlock

/-- The blocks met from `p` on, following `next` until `NULL`. -/
inductive ListFrom (m : Mem) : Word → List Word → Prop
  | nil : ListFrom m 0 []
  | cons {p : Word} {ps : List Word} :
      p ≠ 0 → ListFrom m (read m p).next ps → ListFrom m p (p :: ps)

/-- The bytes below `ptr` are the header of a block on the list. -/
def OnList (h : Heap) (ptr : Word) : Prop :=
  ∃ ps, ListFrom h.mem h.freeList ps ∧ ptr - sizeofHeapBlock ∈ ps

/-- The walk from `free_list` meets `ps`: blocks laid end to end over
`[start, start + size)`, `prev` undoing `next`, free blocks kept apart. -/
structure ListWellFormed (h : Heap) (start size : Word) (ps : List Word) : Prop where
  walk : ListFrom h.mem h.freeList ps
  head : ps.head? = some start
  adjacent : ps.IsChain fun x y =>
    (read h.mem x).next = y ∧ y.toNat = x.toNat + 32 + (read h.mem x).size.toNat
  last : ∀ x ∈ ps.getLast?,
    x.toNat + 32 + (read h.mem x).size.toNat = start.toNat + size.toNat
  inverse : ∀ x ∈ ps, ∀ y ∈ ps, (read h.mem x).next = y ↔ (read h.mem y).prev = x
  first : (read h.mem start).prev = 0
  coalesced : ps.IsChain fun x y => ¬ ((read h.mem x).free ≠ 0 ∧ (read h.mem y).free ≠ 0)

/-- Memory and head determine the walk. -/
theorem ListFrom.unique {m : Mem} {p : Word} {ps qs : List Word}
    (hp : ListFrom m p ps) (hq : ListFrom m p qs) : ps = qs := by
  induction hp generalizing qs with
  | nil =>
      cases hq with
      | nil => rfl
      | cons hne _ => exact absurd rfl hne
  | cons hne _ ih =>
      cases hq with
      | nil => exact absurd rfl hne
      | cons _ hrest => rw [ih hrest]

/-- The header addresses of the blocks laid out from `a`. -/
def blockPtrs (a : Nat) (bs : List Block) : List Word := (headers 32 a bs).map loc

section Linked

variable {m : Mem} {bs : List Block}

theorem Linked.listFrom : ∀ {bs : List Block} {prev a : Nat}, Linked m 0 prev a bs → 0 < a →
    a + span 32 bs < 2 ^ 64 → ListFrom m (loc (if bs = [] then 0 else a)) (blockPtrs a bs) := by
  intro bs
  induction bs with
  | nil => intro _ _ _ _ _; exact .nil
  | cons b bs ih =>
      intro prev a h pos top
      simp only [span_cons] at top
      have next : (read m (loc a)).next = loc (if bs = [] then 0 else a + 32 + b.size) := by
        rw [h.1]
        cases bs <;> simp [nextAddr]
      refine .cons ?_ (next ▸ ih h.2 (by omega) (by omega))
      simp only [List.cons_ne_nil, if_false]
      rw [Ne, show (0 : Word) = loc 0 from rfl, loc_inj (by omega) (by omega)]
      omega

/-- Neighbouring headers point at each other and lie end to end. -/
theorem Linked.adjacent : ∀ {bs : List Block} {prev a : Nat}, Linked m 0 prev a bs →
    a + span 32 bs < 2 ^ 64 → (blockPtrs a bs).IsChain fun x y =>
      (read m x).next = y ∧ (read m y).prev = x ∧
        y.toNat = x.toNat + 32 + (read m x).size.toNat := by
  intro bs
  induction bs with
  | nil => intro _ _ _ _; exact List.isChain_nil
  | cons b bs ih =>
      intro prev a h top
      simp only [span_cons] at top
      cases bs with
      | nil => exact List.isChain_singleton _
      | cons c cs =>
          refine List.isChain_cons_cons.mpr ⟨⟨?_, ?_, ?_⟩, ih h.2 (by omega)⟩
          · rw [h.1]; rfl
          · rw [h.2.1]
          · simp only [span_cons] at top
            rw [h.1, toNat_loc (by omega), toNat_loc (by omega), toNat_loc (by omega)]

/-- The last header has no successor and its payload ends the region. -/
theorem Linked.last : ∀ {bs : List Block} {prev a : Nat}, Linked m 0 prev a bs →
    a + span 32 bs < 2 ^ 64 → ∀ x ∈ (blockPtrs a bs).getLast?,
      (read m x).next = 0 ∧ x.toNat + 32 + (read m x).size.toNat = a + span 32 bs := by
  intro bs
  induction bs with
  | nil => intro _ _ _ _ x hx; simp [blockPtrs, headers] at hx
  | cons b bs ih =>
      intro prev a h top x hx
      simp only [span_cons] at top
      cases bs with
      | nil =>
          obtain rfl : loc a = x := by simpa [blockPtrs, headers] using hx
          simp only [span_nil] at top
          rw [h.1, toNat_loc (by omega), toNat_loc (by omega)]
          exact ⟨rfl, by simp only [span_cons, span_nil]; omega⟩
      | cons c cs =>
          have := ih h.2 (by omega) x (by simpa [blockPtrs, headers] using hx)
          refine ⟨this.1, this.2.trans ?_⟩
          simp only [span_cons]
          omega

theorem Linked.coalesced : ∀ {bs : List Block} {prev a : Nat}, Linked m 0 prev a bs →
    Coalesced bs → (blockPtrs a bs).IsChain fun x y =>
      ¬ ((read m x).free ≠ 0 ∧ (read m y).free ≠ 0) := by
  intro bs
  induction bs with
  | nil => intro _ _ _ _; exact List.isChain_nil
  | cons b bs ih =>
      intro prev a h apart
      cases bs with
      | nil => exact List.isChain_singleton _
      | cons c cs =>
          obtain ⟨hbc, hrest⟩ := List.isChain_cons_cons.mp apart
          refine List.isChain_cons_cons.mpr ⟨?_, ih h.2 hrest⟩
          rwa [h.1, h.2.1, flag_ne_zero, flag_ne_zero]

end Linked

/-- Along a list whose neighbours point at each other and whose ends point at
`NULL`, `prev` inverts `next`. -/
theorem prev_inverts_next {m : Mem} {ps : List Word} (nonnull : ∀ x ∈ ps, x ≠ 0)
    (adjacent : ps.IsChain fun x y => (read m x).next = y ∧ (read m y).prev = x)
    (first : ∀ x ∈ ps.head?, (read m x).prev = 0) (last : ∀ x ∈ ps.getLast?, (read m x).next = 0) :
    ∀ x ∈ ps, ∀ y ∈ ps, (read m x).next = y ↔ (read m y).prev = x := by
  intro x hx y hy
  constructor
  · rintro rfl
    obtain ⟨pre, post, rfl⟩ := List.append_of_mem hx
    cases post with
    | nil => exact absurd (last x (by simp)) (nonnull _ hy)
    | cons z zs =>
        have := (List.isChain_cons_cons.mp (List.isChain_append.mp adjacent).2.1).1
        rw [this.1, this.2]
  · rintro rfl
    obtain ⟨pre, post, rfl⟩ := List.append_of_mem hy
    rcases List.eq_nil_or_concat pre with rfl | ⟨pre, z, rfl⟩
    · exact absurd (first y (by simp)) (nonnull _ hx)
    · have := (List.isChain_append.mp adjacent).2.2 z (by simp) y (by simp)
      rw [this.2, this.1]

/-- A free block of at least `n` bytes is on the list. -/
def HasRoom (h : Heap) (n : Word) : Prop :=
  ∃ ps, ListFrom h.mem h.freeList ps ∧ ∃ p ∈ ps, (read h.mem p).free ≠ 0 ∧ n ≤ (read h.mem p).size

/-- The block at `p` is free and has room for `n` bytes. -/
def RoomAt (h : Heap) (n p : Word) : Prop := (read h.mem p).free ≠ 0 ∧ n ≤ (read h.mem p).size

/-- Two heaps hold the same list: the same addresses, with the same headers there. -/
def SameList (h h' : Heap) : Prop :=
  ∃ ps, ListFrom h.mem h.freeList ps ∧ ListFrom h'.mem h'.freeList ps ∧
    ∀ p ∈ ps, read h.mem p = read h'.mem p

section Walk

variable {h h' : Heap} {start stop : Nat} {bs : List Block}

theorem HeapInv.walk (inv : HeapInv h start stop bs) :
    ListFrom h.mem h.freeList (blockPtrs start bs) := by
  have own := inv.linked.listFrom inv.pos inv.bound
  rwa [if_neg inv.nonempty, ← inv.head] at own

/-- The walk over the list meets the headers of the blocks. -/
theorem HeapInv.walk_eq (inv : HeapInv h start stop bs) {ps : List Word}
    (walk : ListFrom h.mem h.freeList ps) : ps = blockPtrs start bs :=
  walk.unique inv.walk

/-- The header of a block, read through the block list. -/
theorem HeapInv.read_header (inv : HeapInv h start stop bs) {p : Word}
    (hp : p ∈ blockPtrs start bs) :
    ∃ pre b post, bs = pre ++ b :: post ∧ p = loc (start + span 32 pre) ∧
      read h.mem p = ⟨loc b.size, loc (nextAddr 0 (start + span 32 pre) b post),
        loc (lastAddr 0 start pre), flag b.free⟩ := by
  obtain ⟨x, hx, rfl⟩ := List.mem_map.mp hp
  obtain ⟨pre, b, post, rfl, rfl⟩ := mem_headers hx
  exact ⟨pre, b, post, rfl, rfl, inv.linked.header⟩

/-- The block list is all that is in the headers. -/
theorem HeapInv.sameList (inv : HeapInv h start stop bs) (inv' : HeapInv h' start stop bs) :
    SameList h h' := by
  refine ⟨_, inv.walk, inv'.walk, ?_⟩
  intro p hp
  obtain ⟨pre, b, post, rfl, rfl, header⟩ := inv.read_header hp
  rw [header, inv'.linked.header]

theorem HeapInv.roomAt_iff {pre post : List Block} {b : Block}
    (inv : HeapInv h start stop (pre ++ b :: post)) (n : Word) :
    RoomAt h n (loc (start + span 32 pre)) ↔ b.Fits n.toNat := by
  have small : b.size < 2 ^ 64 := by
    have := inv.narrow_block
    omega
  rw [RoomAt, inv.linked.header, flag_ne_zero, BitVec.le_def, toNat_loc small]
  rfl

theorem HeapInv.hasRoom_iff (inv : HeapInv h start stop bs) (n : Word) :
    HasRoom h n ↔ ∃ b ∈ bs, b.Fits n.toNat := by
  constructor
  · rintro ⟨ps, walk, p, hp, room⟩
    obtain rfl := inv.walk_eq walk
    obtain ⟨pre, b, post, rfl, rfl, -⟩ := inv.read_header hp
    exact ⟨b, by simp, (inv.roomAt_iff n).mp room⟩
  · rintro ⟨b, hb, fits⟩
    obtain ⟨pre, post, rfl⟩ := List.append_of_mem hb
    refine ⟨_, inv.walk, loc (start + span 32 pre), ?_, (inv.roomAt_iff n).mpr fits⟩
    exact List.mem_map.mpr ⟨_, by simp [headers_append, headers], rfl⟩

end Walk

/-- The walk over the headers of a well-formed heap. -/
theorem HeapInv.listWellFormed {h : Heap} {start size : Word} {bs : List Block}
    (inv : HeapInv h start.toNat (start.toNat + size.toNat) bs) :
    ListWellFormed h start size (blockPtrs start.toNat bs) := by
  have walk := inv.walk
  have adjacent := inv.linked.adjacent inv.bound
  have last := inv.linked.last inv.bound
  rw [inv.tiles] at last
  have nonnull : ∀ x ∈ blockPtrs start.toNat bs, x ≠ 0 := by
    intro x hx
    obtain ⟨y, hy, rfl⟩ := List.mem_map.mp hx
    have := headers_bounds hy
    have := inv.pos
    have := inv.bound
    rw [Ne, show (0 : Word) = loc 0 from rfl, loc_inj (by omega) (by omega)]
    omega
  obtain ⟨b, rest, rfl⟩ := List.exists_cons_of_ne_nil inv.nonempty
  have head : (blockPtrs start.toNat (b :: rest)).head? = some start :=
    congrArg some (loc_toNat start)
  have first : (read h.mem start).prev = 0 := by
    rw [← loc_toNat start, inv.linked.1]
    rfl
  exact
    { walk, head, first
      adjacent := adjacent.imp fun x y hxy => ⟨hxy.1, hxy.2.2⟩
      last := fun x hx => (last x hx).2
      inverse := prev_inverts_next nonnull (adjacent.imp fun x y hxy => ⟨hxy.1, hxy.2.1⟩)
        (fun x hx => by rw [head] at hx; cases hx; exact first) fun x hx => (last x hx).1
      coalesced := inv.linked.coalesced inv.coalesced }

end Coolos
