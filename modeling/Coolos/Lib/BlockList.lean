import Mathlib.Data.List.Chain
import Mathlib.Data.List.Pairwise

/-!
# Block lists that tile a region

The abstract state of a boundary-tag allocator: a list of blocks laid end to
end from a base address, each a header of `hdr` bytes followed by its payload.
Addresses are not stored; they are the sums of what precedes (`span`), so a
block list tiles its region by construction and splitting or joining blocks is
list surgery.

Allocation takes the first block that fits and carves the request off its
front; release marks a block free and joins neighbouring free blocks
(`coalesce`). `used` lists the payloads handed out, with the facts clients
rely on: they lie inside the region, apart from each other and from every
header.
-/

namespace Lib

/-- One block: its payload size and whether it is free. -/
structure Block where
  size : Nat
  free : Bool
  deriving DecidableEq, Repr

namespace Block

/-- A free block with room for `n` bytes. -/
def Fits (n : Nat) (b : Block) : Prop := b.free = true ∧ n ≤ b.size

instance (n : Nat) (b : Block) : Decidable (b.Fits n) := inferInstanceAs (Decidable (_ ∧ _))

end Block

namespace BlockList

variable {hdr : Nat}

/-- Total length of the blocks, headers included. -/
def span (hdr : Nat) : List Block → Nat
  | [] => 0
  | b :: bs => hdr + b.size + span hdr bs

@[simp] theorem span_nil : span hdr [] = 0 := rfl

@[simp] theorem span_cons (b : Block) (bs : List Block) :
    span hdr (b :: bs) = hdr + b.size + span hdr bs := rfl

@[simp] theorem span_append (xs ys : List Block) :
    span hdr (xs ++ ys) = span hdr xs + span hdr ys := by
  induction xs with
  | nil => simp
  | cons b bs ih => simp [ih]; omega

/-- Header addresses of the blocks laid out from `a`. -/
def headers (hdr : Nat) : Nat → List Block → List Nat
  | _, [] => []
  | a, b :: bs => a :: headers hdr (a + hdr + b.size) bs

/-- Payload addresses and sizes of the used blocks laid out from `a`. -/
def used (hdr : Nat) : Nat → List Block → List (Nat × Nat)
  | _, [] => []
  | a, b :: bs =>
      (if b.free then [] else [(a + hdr, b.size)]) ++ used hdr (a + hdr + b.size) bs

theorem used_append (xs ys : List Block) : ∀ a,
    used hdr a (xs ++ ys) = used hdr a xs ++ used hdr (a + span hdr xs) ys := by
  induction xs with
  | nil => intro a; simp [used]
  | cons b bs ih =>
      intro a
      simp only [List.cons_append, used, ih, List.append_assoc, span_cons]
      congr 3
      omega

theorem headers_append (xs ys : List Block) : ∀ a,
    headers hdr a (xs ++ ys) = headers hdr a xs ++ headers hdr (a + span hdr xs) ys := by
  induction xs with
  | nil => intro a; simp [headers]
  | cons b bs ih =>
      intro a
      simp only [List.cons_append, headers, ih, span_cons]
      congr 3
      omega

/-- A used payload is the payload of a block of the list. -/
theorem mem_used {bs : List Block} : ∀ {a p s : Nat}, (p, s) ∈ used hdr a bs →
    ∃ pre post, bs = pre ++ ⟨s, false⟩ :: post ∧ p = a + span hdr pre + hdr := by
  induction bs with
  | nil => intro a p s h; simp [used] at h
  | cons b bs ih =>
      intro a p s h
      rcases List.mem_append.mp h with here | later
      · cases hfree : b.free with
        | true => simp [hfree] at here
        | false =>
            simp only [hfree, Bool.false_eq_true, if_false, List.mem_singleton,
              Prod.mk.injEq] at here
            exact ⟨[], bs, by cases b; simp_all, by simp [here.1]⟩
      · obtain ⟨pre, post, rfl, rfl⟩ := ih later
        exact ⟨b :: pre, post, rfl, by simp; omega⟩

/-- A header is the header of a block of the list. -/
theorem mem_headers {bs : List Block} : ∀ {a x : Nat}, x ∈ headers hdr a bs →
    ∃ pre b post, bs = pre ++ b :: post ∧ x = a + span hdr pre := by
  induction bs with
  | nil => intro a x h; simp [headers] at h
  | cons b bs ih =>
      intro a x h
      rcases List.mem_cons.mp h with rfl | later
      · exact ⟨[], b, bs, rfl, rfl⟩
      · obtain ⟨pre, c, post, rfl, rfl⟩ := ih later
        exact ⟨b :: pre, c, post, rfl, by simp; omega⟩

/-- The payload of a used block of the list is a used payload. -/
theorem used_mem (a : Nat) (pre post : List Block) (s : Nat) :
    (a + span hdr pre + hdr, s) ∈ used hdr a (pre ++ ⟨s, false⟩ :: post) := by
  simp [used_append, used]

theorem used_bounds {bs : List Block} {a p s : Nat} (h : (p, s) ∈ used hdr a bs) :
    a + hdr ≤ p ∧ p + s ≤ a + span hdr bs := by
  obtain ⟨pre, post, rfl, rfl⟩ := mem_used h
  simp only [span_append, span_cons]
  omega

theorem headers_bounds {bs : List Block} : ∀ {a x : Nat}, x ∈ headers hdr a bs →
    a ≤ x ∧ x + hdr ≤ a + span hdr bs := by
  induction bs with
  | nil => intro a x h; simp [headers] at h
  | cons b bs ih =>
      intro a x h
      rcases List.mem_cons.mp h with rfl | later
      · simp only [span_cons]; omega
      · have := ih later
        simp only [span_cons]; omega

/-- Used payloads are in address order, a header apart. -/
theorem used_pairwise (bs : List Block) : ∀ a,
    (used hdr a bs).Pairwise fun x y => x.1 + x.2 + hdr ≤ y.1 := by
  induction bs with
  | nil => intro a; simp [used]
  | cons b bs ih =>
      intro a
      refine List.pairwise_append.mpr ⟨?_, ih _, ?_⟩
      · split <;> simp
      · intro x hx y hy
        split at hx
        · simp at hx
        · obtain rfl := List.mem_singleton.mp hx
          have := (used_bounds hy).1
          show a + hdr + b.size + hdr ≤ y.1
          omega

/-- No header overlaps a used payload. -/
theorem headers_used_disjoint {bs : List Block} : ∀ {a x p s : Nat},
    x ∈ headers hdr a bs → (p, s) ∈ used hdr a bs → x + hdr ≤ p ∨ p + s ≤ x := by
  induction bs with
  | nil => intro a x p s hx; simp [headers] at hx
  | cons b bs ih =>
      intro a x p s hx hp
      rcases List.mem_append.mp hp with here | later
      · split at here
        · simp at here
        · obtain ⟨rfl, rfl⟩ := Prod.mk.inj (List.mem_singleton.mp here)
          rcases List.mem_cons.mp hx with rfl | hx
          · exact .inl le_rfl
          · exact .inr (headers_bounds hx).1
      · rcases List.mem_cons.mp hx with rfl | hx
        · exact .inl (by have := (used_bounds later).1; omega)
        · exact ih hx later

/-! ## Coalescing -/

/-- No two neighbouring blocks are both free. -/
def Coalesced (bs : List Block) : Prop :=
  bs.IsChain fun x y => ¬ (x.free = true ∧ y.free = true)

/-- Put `b` in front, joining it with the head when both are free. -/
def join (hdr : Nat) (b : Block) : List Block → List Block
  | [] => [b]
  | c :: cs =>
      if b.free = true ∧ c.free = true then ⟨b.size + hdr + c.size, true⟩ :: cs
      else b :: c :: cs

theorem join_cons (b c : Block) (cs : List Block) :
    join hdr b (c :: cs) =
      if b.free = true ∧ c.free = true then ⟨b.size + hdr + c.size, true⟩ :: cs
      else b :: c :: cs := rfl

/-- Join every run of neighbouring free blocks. -/
def coalesce (hdr : Nat) (bs : List Block) : List Block := bs.foldr (join hdr) []

@[simp] theorem coalesce_cons (b : Block) (bs : List Block) :
    coalesce hdr (b :: bs) = join hdr b (coalesce hdr bs) := rfl

@[simp] theorem span_join (b : Block) (bs : List Block) :
    span hdr (join hdr b bs) = hdr + b.size + span hdr bs := by
  cases bs with
  | nil => rfl
  | cons c cs =>
      rw [join_cons]
      split
      · simp only [span_cons]; omega
      · simp only [span_cons]

@[simp] theorem span_coalesce (bs : List Block) : span hdr (coalesce hdr bs) = span hdr bs := by
  induction bs with
  | nil => rfl
  | cons b bs ih => rw [coalesce_cons, span_join, ih, span_cons]

/-- The head of a join is free exactly when the block put in front is. -/
theorem join_eq_cons (hdr : Nat) (b : Block) (bs : List Block) :
    ∃ s cs, join hdr b bs = ⟨s, b.free⟩ :: cs := by
  cases bs with
  | nil => exact ⟨b.size, [], rfl⟩
  | cons c cs =>
      rw [join_cons]
      split
      · rename_i h; exact ⟨_, cs, by rw [h.1]⟩
      · exact ⟨b.size, c :: cs, rfl⟩

theorem Coalesced.join {bs : List Block} (h : Coalesced bs) (b : Block) :
    Coalesced (join hdr b bs) := by
  cases bs with
  | nil => exact List.isChain_singleton _
  | cons c cs =>
      rw [join_cons]
      split
      · rename_i both
        refine List.isChain_cons.mpr ⟨fun y hy => ?_, (List.isChain_cons.mp h).2⟩
        have := (List.isChain_cons.mp h).1 y hy
        simpa [both.2] using this
      · rename_i notBoth
        exact List.isChain_cons_cons.mpr ⟨notBoth, h⟩

theorem coalesced_coalesce (bs : List Block) : Coalesced (coalesce hdr bs) := by
  induction bs with
  | nil => exact List.isChain_nil
  | cons b bs ih => exact ih.join b

/-- Putting a block in front of one it does not join with is consing. -/
theorem join_of_chain {b : Block} {bs : List Block} (h : Coalesced (b :: bs)) :
    join hdr b bs = b :: bs := by
  cases bs with
  | nil => rfl
  | cons c cs =>
      rw [join_cons, if_neg (List.isChain_cons_cons.mp h).1]

theorem coalesce_of_coalesced {bs : List Block} (h : Coalesced bs) : coalesce hdr bs = bs := by
  induction bs with
  | nil => rfl
  | cons b bs ih =>
      rw [coalesce_cons, ih (List.isChain_cons.mp h).2, join_of_chain h]

theorem coalesce_append (xs ys : List Block) :
    coalesce hdr (xs ++ ys) = xs.foldr (join hdr) (coalesce hdr ys) := by
  simp [coalesce]

/-- Joining below a coalesced list stops at its last block. -/
theorem foldr_join_concat {pre bs : List Block} {p : Block} (hpre : Coalesced (pre ++ [p]))
    (hbs : Coalesced bs) : (pre ++ [p]).foldr (join hdr) bs = pre ++ join hdr p bs := by
  have joined : Coalesced (join hdr p bs) := hbs.join p
  have whole : Coalesced (pre ++ join hdr p bs) := by
    obtain ⟨s, cs, heq⟩ := join_eq_cons hdr p bs
    obtain ⟨left, _, seam⟩ := List.isChain_append.mp hpre
    refine List.isChain_append.mpr ⟨left, joined, fun x hx y hy => ?_⟩
    obtain rfl : ⟨s, p.free⟩ = y := by simpa [heq] using hy
    exact seam x hx p rfl
  have keep : coalesce hdr (pre ++ join hdr p bs) = pre ++ join hdr p bs :=
    coalesce_of_coalesced whole
  rw [← keep, coalesce_append, coalesce_of_coalesced joined, List.foldr_append]
  rfl

/-- Joining adds no header. -/
theorem headers_join_subset (a : Nat) (b : Block) (bs : List Block) :
    headers hdr a (join hdr b bs) ⊆ headers hdr a (b :: bs) := by
  cases bs with
  | nil => exact fun _ hx => hx
  | cons c cs =>
      rw [join_cons]
      split
      · intro x hx
        have place : a + hdr + (b.size + hdr + c.size) = a + hdr + b.size + hdr + c.size := by
          omega
        simp only [headers, List.mem_cons, place] at hx ⊢
        rcases hx with rfl | hx
        · exact .inl rfl
        · exact .inr (.inr hx)
      · exact fun _ hx => hx

/-- Joining moves no used payload. -/
@[simp] theorem used_join (a : Nat) (b : Block) (bs : List Block) :
    used hdr a (join hdr b bs) = used hdr a (b :: bs) := by
  cases bs with
  | nil => rfl
  | cons c cs =>
      rw [join_cons]
      split
      · rename_i both
        simp only [used, both.1, both.2, if_true, List.nil_append]
        congr 1
        omega
      · rfl

@[simp] theorem used_coalesce (bs : List Block) : ∀ a,
    used hdr a (coalesce hdr bs) = used hdr a bs := by
  induction bs with
  | nil => intro a; rfl
  | cons b bs ih => intro a; rw [coalesce_cons, used_join, used, ih, used]

/-! ## Allocation -/

/-- The first block that fits `n` bytes, with what is before and behind it. -/
structure FirstFit (n : Nat) (bs pre : List Block) (b : Block) (post : List Block) : Prop where
  split : bs = pre ++ b :: post
  skipped : ∀ c ∈ pre, ¬ c.Fits n
  fits : b.Fits n

/-- The blocks a chosen block becomes: the request, and the rest as a free
block when it leaves at least `slack` bytes of payload. -/
def carve (hdr slack n : Nat) (b : Block) : List Block :=
  if n + hdr + slack ≤ b.size then [⟨n, false⟩, ⟨b.size - n - hdr, true⟩]
  else [⟨b.size, false⟩]

@[simp] theorem span_carve {slack n : Nat} (b : Block) :
    span hdr (carve hdr slack n b) = hdr + b.size := by
  unfold carve
  split
  · simp only [span_cons, span_nil]; omega
  · simp

/-- The request is the first block carved, the rest is free. -/
theorem carve_eq_cons (hdr slack : Nat) {n : Nat} {b : Block} (room : n ≤ b.size) :
    ∃ s rest, carve hdr slack n b = ⟨s, false⟩ :: rest ∧ n ≤ s ∧ s ≤ b.size ∧
      ∀ a, used hdr a rest = [] := by
  unfold carve
  split
  · exact ⟨n, _, rfl, le_rfl, room, fun a => by simp [used]⟩
  · exact ⟨b.size, [], rfl, room, le_rfl, fun a => rfl⟩

/-- Used payloads lie before a free block or behind the next header. -/
theorem used_beside_free {pre post : List Block} {b : Block} {a p s : Nat}
    (hb : b.free = true) (h : (p, s) ∈ used hdr a (pre ++ b :: post)) :
    p + s ≤ a + span hdr pre ∨ a + span hdr pre + hdr + b.size + hdr ≤ p := by
  rw [used_append, List.mem_append] at h
  rcases h with before | behind
  · exact .inl (used_bounds before).2
  · simp only [used, hb, if_true, List.nil_append] at behind
    exact .inr (used_bounds behind).1

/-- Carving a free block keeps its surroundings coalesced. -/
theorem Coalesced.carve {slack n : Nat} {pre post : List Block} {b : Block}
    (h : Coalesced (pre ++ b :: post)) (hb : b.free = true) :
    Coalesced (pre ++ (BlockList.carve hdr slack n b ++ post)) := by
  obtain ⟨hpre, hpost, hseam⟩ := List.isChain_append.mp h
  obtain ⟨hhead, htail⟩ := List.isChain_cons.mp hpost
  unfold BlockList.carve
  split
  · refine List.isChain_append.mpr ⟨hpre, ?_, fun x hx y hy => ?_⟩
    · refine List.isChain_cons_cons.mpr ⟨by simp, List.isChain_cons.mpr ⟨fun y hy => ?_, htail⟩⟩
      simpa [hb] using hhead y hy
    · obtain rfl : ⟨n, false⟩ = y := by simpa using hy
      simp
  · refine List.isChain_append.mpr ⟨hpre, List.isChain_cons.mpr ⟨fun y _ => by simp, htail⟩,
      fun x hx y hy => ?_⟩
    obtain rfl : ⟨b.size, false⟩ = y := by simpa using hy
    simp

end BlockList
end Lib
