import Coolos.Lib.BlockList
import Coolos.Kernel.Heap

/-!
# Block lists in memory

`Linked m tail prev a bs` says that the headers of the blocks `bs`, laid out
from address `a`, stand in memory with their sizes, flags and links: the first
block's `prev` is `prev`, the last one's `next` is `tail`. It is the bridge
between the header bytes `heap.c` works on and the block lists of
`Lib.BlockList`.

The source edits the list in two ways only. `divide` splits a block in two
(`kmalloc` and `kmalloc_aligned`), `merge` joins a block with its successor
(both halves of `kfree`). Each has one lemma for the list it produces and one
for the bytes it may change.
-/

namespace Coolos

open Lib Lib.BlockList

/-- The value of the `free` field. -/
def flag (free : Bool) : BitVec 32 := if free then 1 else 0

theorem flag_ne_zero (free : Bool) : flag free ≠ 0 ↔ free = true := by
  cases free <;> simp [flag]

namespace HeapBlock

/-! ## Field updates read back -/

theorem read_setSize (m : Mem) (p v : Word) :
    read (setSize m p v) p = { read m p with size := v } := by
  unfold read setSize
  rw [Mem.read64_write64, Mem.read64_write64_apart ⟨by bv_omega, by bv_omega⟩,
    Mem.read64_write64_apart ⟨by bv_omega, by bv_omega⟩,
    Mem.read32_write64_apart ⟨by bv_omega, by bv_omega⟩]

theorem read_setNext (m : Mem) (p v : Word) :
    read (setNext m p v) p = { read m p with next := v } := by
  unfold read setNext
  rw [Mem.read64_write64, Mem.read64_write64_apart ⟨by bv_omega, by bv_omega⟩,
    Mem.read64_write64_apart ⟨by bv_omega, by bv_omega⟩,
    Mem.read32_write64_apart ⟨by bv_omega, by bv_omega⟩]

theorem read_setPrev (m : Mem) (p v : Word) :
    read (setPrev m p v) p = { read m p with prev := v } := by
  unfold read setPrev
  rw [Mem.read64_write64, Mem.read64_write64_apart ⟨by bv_omega, by bv_omega⟩,
    Mem.read64_write64_apart ⟨by bv_omega, by bv_omega⟩,
    Mem.read32_write64_apart ⟨by bv_omega, by bv_omega⟩]

theorem read_setFree (m : Mem) (p : Word) (v : BitVec 32) :
    read (setFree m p v) p = { read m p with free := v } := by
  unfold read setFree
  rw [Mem.read32_write32, Mem.read64_write32_apart ⟨by bv_omega, by bv_omega⟩,
    Mem.read64_write32_apart ⟨by bv_omega, by bv_omega⟩,
    Mem.read64_write32_apart ⟨by bv_omega, by bv_omega⟩]

/-- Two headers share no byte. -/
abbrev HdrApart (p q : Word) : Prop := Apart p 32 q 32

theorem hdrApart_loc {x y : Nat} (h : x + 32 ≤ y) (hy : y + 32 ≤ 2 ^ 64) :
    HdrApart (loc x) (loc y) :=
  apart_loc h hy (by decide) (by decide)

/-- A header is read from its own 32 bytes. -/
theorem read_congr {m m' : Mem} {p : Word}
    (h : ∀ x : Word, (x - p).toNat < 32 → m' x = m x) : read m' p = read m p := by
  have at_offset : ∀ off i : Nat, off + i < 32 →
      m' (p + BitVec.ofNat 64 off + BitVec.ofNat 64 i) =
        m (p + BitVec.ofNat 64 off + BitVec.ofNat 64 i) := by
    intro off i hi
    refine h _ ?_
    rw [BitVec.add_assoc, ← BitVec.ofNat_add, BitVec.add_comm, BitVec.add_sub_cancel,
      BitVec.toNat_ofNat, Nat.mod_eq_of_lt (by omega)]
    exact hi
  have size : m'.read64 p = m.read64 p :=
    Mem.read64_congr fun i hi => by simpa using at_offset 0 i (by omega)
  have next : m'.read64 (p + 8) = m.read64 (p + 8) :=
    Mem.read64_congr fun i hi => at_offset 8 i (by omega)
  have prev : m'.read64 (p + 16) = m.read64 (p + 16) :=
    Mem.read64_congr fun i hi => at_offset 16 i (by omega)
  have free : m'.read32 (p + 24) = m.read32 (p + 24) :=
    Mem.read32_congr fun i hi => at_offset 24 i (by omega)
  simp only [read, size, next, prev, free]

/-! Each field update changes only bytes of its own header. -/

theorem setSize_apply {m : Mem} {p v x : Word} (h : 32 ≤ (x - p).toNat) :
    setSize m p v x = m x := Mem.write64_apply (by omega)

theorem setNext_apply {m : Mem} {p v x : Word} (h : 32 ≤ (x - p).toNat) :
    setNext m p v x = m x := Mem.write64_apply (by bv_omega)

theorem setPrev_apply {m : Mem} {p v x : Word} (h : 32 ≤ (x - p).toNat) :
    setPrev m p v x = m x := Mem.write64_apply (by bv_omega)

theorem setFree_apply {m : Mem} {p x : Word} {v : BitVec 32} (h : 32 ≤ (x - p).toNat) :
    setFree m p v x = m x := Mem.write32_apply (by bv_omega)

/-- A byte of one header is away from every header apart from it. -/
theorem HdrApart.away {p q x : Word} (h : HdrApart p q) (hx : (x - q).toNat < 32) :
    32 ≤ (x - p).toNat := by
  obtain ⟨hpq, hqp⟩ := h
  bv_omega

theorem read_setSize_apart {m : Mem} {p q v : Word} (h : HdrApart p q) :
    read (setSize m p v) q = read m q :=
  read_congr fun _ hx => setSize_apply (h.away hx)

theorem read_setNext_apart {m : Mem} {p q v : Word} (h : HdrApart p q) :
    read (setNext m p v) q = read m q :=
  read_congr fun _ hx => setNext_apply (h.away hx)

theorem read_setPrev_apart {m : Mem} {p q v : Word} (h : HdrApart p q) :
    read (setPrev m p v) q = read m q :=
  read_congr fun _ hx => setPrev_apply (h.away hx)

theorem read_setFree_apart {m : Mem} {p q : Word} {v : BitVec 32} (h : HdrApart p q) :
    read (setFree m p v) q = read m q :=
  read_congr fun _ hx => setFree_apply (h.away hx)

end HeapBlock

open HeapBlock

/-! ## Linked headers -/

/-- Address of the block behind the one at `a`, `tail` when it is the last. -/
def nextAddr (tail a : Nat) (b : Block) : List Block → Nat
  | [] => tail
  | _ :: _ => a + 32 + b.size

/-- Address of the last of the blocks laid out from `a`, `prev` when there is none. -/
def lastAddr : Nat → Nat → List Block → Nat
  | prev, _, [] => prev
  | _, a, b :: bs => lastAddr a (a + 32 + b.size) bs

/-- The headers of `bs` stand in memory from `a` on, linked both ways. -/
def Linked (m : Mem) (tail : Nat) : Nat → Nat → List Block → Prop
  | _, _, [] => True
  | prev, a, b :: bs =>
      read m (loc a) = ⟨loc b.size, loc (nextAddr tail a b bs), loc prev, flag b.free⟩ ∧
        Linked m tail a (a + 32 + b.size) bs

/-- Only the headers of the blocks matter. -/
theorem Linked.congr {m m' : Mem} {tail : Nat} {bs : List Block} : ∀ {prev a : Nat},
    Linked m tail prev a bs →
    (∀ x ∈ headers 32 a bs, read m' (loc x) = read m (loc x)) →
    Linked m' tail prev a bs := by
  induction bs with
  | nil => intro _ _ _ _; trivial
  | cons b bs ih =>
      intro prev a h same
      refine ⟨?_, ih h.2 fun x hx => same x (List.mem_cons_of_mem _ hx)⟩
      rw [same a List.mem_cons_self]
      exact h.1

theorem linked_append {m : Mem} {tail : Nat} (y : Block) (ys xs : List Block) : ∀ {prev a : Nat},
    Linked m tail prev a (xs ++ y :: ys) ↔
      Linked m (a + span 32 xs) prev a xs ∧
        Linked m tail (lastAddr prev a xs) (a + span 32 xs) (y :: ys) := by
  induction xs with
  | nil => intro prev a; simp [Linked, lastAddr]
  | cons b bs ih =>
      intro prev a
      have shift : a + 32 + b.size + span 32 bs = a + span 32 (b :: bs) := by
        simp only [span_cons]; omega
      have link : nextAddr tail a b (bs ++ y :: ys) =
          nextAddr (a + span 32 (b :: bs)) a b bs := by
        cases bs with
        | nil => simp [nextAddr]; omega
        | cons c cs => rfl
      simp only [List.cons_append, Linked, lastAddr, ih, link, shift, and_assoc]

/-- The list around one block: what is before, its header, what is behind. -/
theorem linked_focus {m : Mem} {tail prev a : Nat} {pre post : List Block} {b : Block} :
    Linked m tail prev a (pre ++ b :: post) ↔
      Linked m (a + span 32 pre) prev a pre ∧
      read m (loc (a + span 32 pre)) =
        ⟨loc b.size, loc (nextAddr tail (a + span 32 pre) b post),
          loc (lastAddr prev a pre), flag b.free⟩ ∧
      Linked m tail (a + span 32 pre) (a + span 32 pre + 32 + b.size) post :=
  linked_append b post pre

/-! ## Splitting a block -/

/-- Split the block at `c`: a new header at `e` takes over its `next`. -/
def divide (m : Mem) (c e sizeC sizeE : Word) (freeC freeE : BitVec 32) : Mem :=
  let m := setSize m e sizeE
  let m := setNext m e (read m c).next
  let m := setPrev m e c
  let m := setFree m e freeE
  let m := if (read m e).next ≠ 0 then setPrev m (read m e).next e else m
  let m := setSize m c sizeC
  let m := setNext m c e
  setFree m c freeC

section Divide

variable {m : Mem} {c e d x sizeC sizeE : Word} {freeC freeE : BitVec 32}

/-- The split in straight-line form, for a block whose `next` is `d`. -/
theorem divide_eq (ec : HdrApart e c) (next : (read m c).next = d) :
    divide m c e sizeC sizeE freeC freeE =
      let m := setFree (setPrev (setNext (setSize m e sizeE) e d) e c) e freeE
      setFree (setNext (setSize (if d ≠ 0 then setPrev m d e else m) c sizeC) c e) c freeC := by
  have link : (read (setSize m e sizeE) c).next = d := by rw [read_setSize_apart ec, next]
  simp only [divide, link, read_setFree, read_setPrev, read_setNext]

theorem read_divide_apart (ec : HdrApart e c) (next : (read m c).next = d)
    (hc : HdrApart c x) (he : HdrApart e x) (hd : d ≠ 0 → HdrApart d x) :
    read (divide m c e sizeC sizeE freeC freeE) x = read m x := by
  rw [divide_eq ec next]
  by_cases hd0 : d = 0
  · simp only [hd0, ne_eq, not_true_eq_false, if_false, read_setFree_apart hc,
      read_setNext_apart hc, read_setSize_apart hc, read_setFree_apart he, read_setPrev_apart he,
      read_setNext_apart he, read_setSize_apart he]
  · simp only [hd0, ne_eq, not_false_eq_true, if_true, read_setFree_apart hc,
      read_setNext_apart hc, read_setSize_apart hc, read_setFree_apart he, read_setPrev_apart he,
      read_setNext_apart he, read_setSize_apart he, read_setPrev_apart (hd hd0)]

theorem read_divide_left (ec : HdrApart e c) (next : (read m c).next = d)
    (hd : d ≠ 0 → HdrApart d c) :
    read (divide m c e sizeC sizeE freeC freeE) c = ⟨sizeC, e, (read m c).prev, freeC⟩ := by
  rw [divide_eq ec next]
  by_cases hd0 : d = 0
  · simp only [hd0, ne_eq, not_true_eq_false, if_false, read_setFree, read_setNext, read_setSize,
      read_setFree_apart ec, read_setPrev_apart ec, read_setNext_apart ec, read_setSize_apart ec]
  · simp only [hd0, ne_eq, not_false_eq_true, if_true, read_setFree, read_setNext, read_setSize,
      read_setPrev_apart (hd hd0), read_setFree_apart ec, read_setPrev_apart ec,
      read_setNext_apart ec, read_setSize_apart ec]

theorem read_divide_right (ec : HdrApart e c) (next : (read m c).next = d)
    (hd : d ≠ 0 → HdrApart d e) :
    read (divide m c e sizeC sizeE freeC freeE) e = ⟨sizeE, d, c, freeE⟩ := by
  rw [divide_eq ec next]
  have ce := ec.symm
  by_cases hd0 : d = 0
  · simp only [hd0, ne_eq, not_true_eq_false, if_false, read_setFree_apart ce,
      read_setNext_apart ce, read_setSize_apart ce, read_setFree, read_setPrev, read_setNext,
      read_setSize]
  · simp only [hd0, ne_eq, not_false_eq_true, if_true, read_setFree_apart ce,
      read_setNext_apart ce, read_setSize_apart ce, read_setPrev_apart (hd hd0), read_setFree,
      read_setPrev, read_setNext, read_setSize]

theorem read_divide_next (ec : HdrApart e c) (next : (read m c).next = d) (hd0 : d ≠ 0)
    (hc : HdrApart c d) (he : HdrApart e d) :
    read (divide m c e sizeC sizeE freeC freeE) d = { read m d with prev := e } := by
  rw [divide_eq ec next]
  simp only [hd0, ne_eq, not_false_eq_true, if_true, read_setFree_apart hc, read_setNext_apart hc,
    read_setSize_apart hc, read_setPrev, read_setFree_apart he, read_setPrev_apart he,
    read_setNext_apart he, read_setSize_apart he]

/-- A split changes only the two headers and the one behind. -/
theorem divide_apply (ec : HdrApart e c) (next : (read m c).next = d)
    (hc : 32 ≤ (x - c).toNat) (he : 32 ≤ (x - e).toNat) (hd : d ≠ 0 → 32 ≤ (x - d).toNat) :
    divide m c e sizeC sizeE freeC freeE x = m x := by
  rw [divide_eq ec next]
  by_cases hd0 : d = 0
  · simp only [hd0, ne_eq, not_true_eq_false, if_false, setFree_apply hc, setNext_apply hc,
      setSize_apply hc, setFree_apply he, setPrev_apply he, setNext_apply he, setSize_apply he]
  · simp only [hd0, ne_eq, not_false_eq_true, if_true, setFree_apply hc, setNext_apply hc,
      setSize_apply hc, setFree_apply he, setPrev_apply he, setNext_apply he, setSize_apply he,
      setPrev_apply (hd hd0)]

end Divide

/-- Splitting a block of the list into two. -/
theorem Linked.divide {m : Mem} {a n : Nat} {pre post : List Block} {b : Block} {f g : Bool}
    (h : Linked m 0 0 a (pre ++ b :: post)) (top : a + span 32 (pre ++ b :: post) < 2 ^ 64)
    (room : n + 32 ≤ b.size) :
    Linked
      (divide m (loc (a + span 32 pre)) (loc (a + span 32 pre + 32 + n)) (loc n)
        (loc (b.size - n - 32)) (flag f) (flag g))
      0 0 a (pre ++ ⟨n, f⟩ :: ⟨b.size - n - 32, g⟩ :: post) := by
  obtain ⟨before, focus, behind⟩ := linked_focus.mp h
  simp only [span_append, span_cons] at top
  generalize hc : a + span 32 pre = c at *
  have ec : HdrApart (loc (c + 32 + n)) (loc c) := (hdrApart_loc (by omega) (by omega)).symm
  have next : (read m (loc c)).next = loc (nextAddr 0 c b post) := by rw [focus]
  -- headers before `c` and behind the next block are out of the way
  have outside : ∀ x, x + 32 ≤ c ∨ c + 32 + b.size + 32 ≤ x ∧ x + 32 ≤ 2 ^ 64 →
      read (Coolos.divide m (loc c) (loc (c + 32 + n)) (loc n) (loc (b.size - n - 32))
        (flag f) (flag g)) (loc x) = read m (loc x) := by
    intro x hx
    refine read_divide_apart ec next ?_ ?_ fun hne => ?_
    · rcases hx with hx | hx
      · exact (hdrApart_loc (by omega) (by omega)).symm
      · exact hdrApart_loc (by omega) (by omega)
    · rcases hx with hx | hx
      · exact (hdrApart_loc (by omega) (by omega)).symm
      · exact hdrApart_loc (by omega) (by omega)
    · cases post with
      | nil => exact absurd rfl hne
      | cons q qs =>
          simp only [nextAddr, span_cons] at *
          rcases hx with hx | hx
          · exact (hdrApart_loc (by omega) (by omega)).symm
          · exact hdrApart_loc (by omega) (by omega)
  have nextApart : ∀ x, x + 32 ≤ c + 32 + b.size →
      loc (nextAddr 0 c b post) ≠ 0 → HdrApart (loc (nextAddr 0 c b post)) (loc x) := by
    intro x hx hne
    cases post with
    | nil => exact absurd rfl hne
    | cons q qs =>
        simp only [nextAddr, span_cons] at *
        exact (hdrApart_loc (by omega) (by omega)).symm
  refine linked_focus.mpr ⟨?_, ?_, ?_⟩
  · rw [hc]
    refine before.congr fun x hx => outside x (.inl ?_)
    have := headers_bounds hx
    omega
  · rw [hc, read_divide_left ec next (nextApart c (by omega)), focus]
    rfl
  · rw [hc]
    refine ⟨?_, ?_⟩
    · rw [read_divide_right ec next (nextApart _ (by omega))]
      cases post with
      | nil => rfl
      | cons q qs => simp only [nextAddr]; congr 2; omega
    · cases post with
      | nil => trivial
      | cons q qs =>
          have place : c + 32 + n + 32 + (b.size - n - 32) = c + 32 + b.size := by omega
          simp only [nextAddr, span_cons, place] at *
          refine ⟨?_, behind.2.congr fun x hx => outside x (.inr ?_)⟩
          · have hd0 : loc (c + 32 + b.size) ≠ 0 := by
              rw [Ne, show (0 : Word) = loc 0 from rfl, loc_inj (by omega) (by omega)]
              omega
            rw [read_divide_next ec next hd0 (hdrApart_loc (by omega) (by omega))
              (hdrApart_loc (by omega) (by omega)), behind.1]
          · have := headers_bounds hx
            omega

/-! ## Joining a block with its successor -/

/-- Join the block at `c` with its successor at `d`. -/
def merge (m : Mem) (c d : Word) : Mem :=
  let after := (read m d).next
  let m := setNext (setSize m c ((read m c).size + ((read m d).size + sizeofHeapBlock))) c after
  if after ≠ 0 then setPrev m after c else m

section Merge

variable {m : Mem} {c d e x : Word}

theorem read_merge_left (next : (read m d).next = e) (he : e ≠ 0 → HdrApart e c) :
    read (merge m c d) c =
      { read m c with
        size := (read m c).size + ((read m d).size + sizeofHeapBlock)
        next := e } := by
  simp only [merge, next]
  by_cases he0 : e = 0
  · simp only [he0, ne_eq, not_true_eq_false, if_false, read_setNext, read_setSize]
  · simp only [he0, ne_eq, not_false_eq_true, if_true, read_setPrev_apart (he he0), read_setNext,
      read_setSize]

theorem read_merge_next (next : (read m d).next = e) (he0 : e ≠ 0) (hc : HdrApart c e) :
    read (merge m c d) e = { read m e with prev := c } := by
  simp only [merge, next, he0, ne_eq, not_false_eq_true, if_true, read_setPrev,
    read_setNext_apart hc, read_setSize_apart hc]

theorem read_merge_apart (next : (read m d).next = e) (hc : HdrApart c x)
    (he : e ≠ 0 → HdrApart e x) : read (merge m c d) x = read m x := by
  simp only [merge, next]
  by_cases he0 : e = 0
  · simp only [he0, ne_eq, not_true_eq_false, if_false, read_setNext_apart hc,
      read_setSize_apart hc]
  · simp only [he0, ne_eq, not_false_eq_true, if_true, read_setPrev_apart (he he0),
      read_setNext_apart hc, read_setSize_apart hc]

/-- A join changes only the header of the block and the one behind the pair. -/
theorem merge_apply (next : (read m d).next = e) (hc : 32 ≤ (x - c).toNat)
    (he : e ≠ 0 → 32 ≤ (x - e).toNat) : merge m c d x = m x := by
  simp only [merge, next]
  by_cases he0 : e = 0
  · simp only [he0, ne_eq, not_true_eq_false, if_false, setNext_apply hc, setSize_apply hc]
  · simp only [he0, ne_eq, not_false_eq_true, if_true, setPrev_apply (he he0), setNext_apply hc,
      setSize_apply hc]

/-- "Coalesce with next" is a join when the next block is free, else nothing. -/
theorem coalesceNext_eq (next : (read m c).next = d) (cd : d ≠ 0 → HdrApart c d) :
    Heap.coalesceNext m c =
      if d ≠ 0 ∧ (read m d).free ≠ 0 then merge m c d else m := by
  unfold Heap.coalesceNext merge
  by_cases hd : d = 0
  · simp [next, hd]
  · simp only [next, read_setSize, read_setNext, read_setSize_apart (cd hd)]

/-- "Coalesce with prev" is a join when the previous block is free, else nothing. -/
theorem coalescePrev_eq (prev : (read m d).prev = c) (cd : c ≠ 0 → HdrApart c d) :
    Heap.coalescePrev m d =
      if c ≠ 0 ∧ (read m c).free ≠ 0 then merge m c d else m := by
  unfold Heap.coalescePrev merge
  by_cases hc : c = 0
  · simp [prev, hc]
  · simp only [prev, read_setSize_apart (cd hc), read_setNext_apart (cd hc)]

end Merge

/-- Joining two neighbours of the list. -/
theorem Linked.merge {m : Mem} {a : Nat} {pre post : List Block} {p q : Block}
    (h : Linked m 0 0 a (pre ++ p :: q :: post))
    (top : a + span 32 (pre ++ p :: q :: post) < 2 ^ 64) :
    Linked (merge m (loc (a + span 32 pre)) (loc (a + span 32 pre + 32 + p.size)))
      0 0 a (pre ++ ⟨p.size + 32 + q.size, p.free⟩ :: post) := by
  obtain ⟨before, left, right, behind⟩ := linked_focus.mp h
  simp only [span_append, span_cons] at top
  generalize hc : a + span 32 pre = c at *
  have next : (read m (loc (c + 32 + p.size))).next =
      loc (nextAddr 0 (c + 32 + p.size) q post) := by rw [right]
  have size : loc p.size + (loc q.size + sizeofHeapBlock) = loc (p.size + 32 + q.size) := by
    rw [show sizeofHeapBlock = loc 32 from rfl, ← loc_add, ← loc_add]
    congr 1
    omega
  have nextApart : ∀ x, x + 32 ≤ c + 32 + p.size + 32 + q.size →
      loc (nextAddr 0 (c + 32 + p.size) q post) ≠ 0 →
      HdrApart (loc (nextAddr 0 (c + 32 + p.size) q post)) (loc x) := by
    intro x hx hne
    cases post with
    | nil => exact absurd rfl hne
    | cons r rs =>
        simp only [nextAddr, span_cons] at *
        exact (hdrApart_loc (by omega) (by omega)).symm
  refine linked_focus.mpr ⟨?_, ?_, ?_⟩
  · rw [hc]
    refine before.congr fun x hx => ?_
    have := headers_bounds hx
    exact read_merge_apart next (hdrApart_loc (by omega) (by omega)).symm
      (nextApart x (by omega))
  · rw [hc, read_merge_left next (nextApart c (by omega)), left, right]
    simp only [size]
    cases post with
    | nil => rfl
    | cons r rs => simp only [nextAddr]; congr 2; omega
  · rw [hc]
    cases post with
    | nil => trivial
    | cons r rs =>
        have place : c + 32 + (p.size + 32 + q.size) = c + 32 + p.size + 32 + q.size := by omega
        simp only [nextAddr, span_cons, place] at *
        refine ⟨?_, behind.2.congr fun x hx => ?_⟩
        · have he0 : loc (c + 32 + p.size + 32 + q.size) ≠ 0 := by
            rw [Ne, show (0 : Word) = loc 0 from rfl, loc_inj (by omega) (by omega)]
            omega
          rw [read_merge_next next he0 (hdrApart_loc (by omega) (by omega)), behind.1]
        · have := headers_bounds hx
          exact read_merge_apart next (hdrApart_loc (by omega) (by omega))
            fun _ => hdrApart_loc (by omega) (by omega)

/-- Rewriting a block's `free` field. -/
theorem Linked.setFree {m : Mem} {a : Nat} {pre post : List Block} {b : Block} {f : Bool}
    (h : Linked m 0 0 a (pre ++ b :: post)) (top : a + span 32 (pre ++ b :: post) < 2 ^ 64) :
    Linked (setFree m (loc (a + span 32 pre)) (flag f)) 0 0 a (pre ++ ⟨b.size, f⟩ :: post) := by
  obtain ⟨before, focus, behind⟩ := linked_focus.mp h
  simp only [span_append, span_cons] at top
  refine linked_focus.mpr ⟨before.congr fun x hx => ?_, ?_, behind.congr fun x hx => ?_⟩
  · have := headers_bounds hx
    exact read_setFree_apart (hdrApart_loc (by omega) (by omega)).symm
  · rw [read_setFree, focus]
    cases post <;> rfl
  · have := headers_bounds hx
    exact read_setFree_apart (hdrApart_loc (by omega) (by omega))

end Coolos
