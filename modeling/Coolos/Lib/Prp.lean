import Mathlib.Logic.Function.Basic

/-!
# Physical region pages

How a controller finds the data of a command: the first pointer gives the start,
with an offset into its page; what is left lies in one page, which the second
pointer gives, or in several, and then the second pointer gives a list of them.
Lists continue on the page their last entry points to. Bits of a pointer that must
be zero are taken as zero.
-/

namespace Lib.Prp

variable (page : Nat)

/-- Pieces of memory: address and length. -/
abbrev Segments := List (Nat × Nat)

/-- The pages of a list for `rest` bytes, at most `n` pages; `entry` is what stands in
memory. -/
def listSegments (entry : Nat → Nat) : Nat → Nat → Nat → Segments
  | 0, _, _ => []
  | n + 1, ptr, rest =>
      if rest ≤ page then [(entry ptr / page * page, rest)]
      else
        -- the last entry of a page leads on
        let ptr := if (ptr + 8) % page = 0 then entry ptr / page * page else ptr
        (entry ptr / page * page, page) :: listSegments entry n (ptr + 8) (rest - page)

/-- The data of a command of `len` bytes. -/
def segments (prp1 prp2 len : Nat) (entry : Nat → Nat) : Segments :=
  let start := prp1 / 4 * 4
  let first := min len (page - start % page)
  let rest := len - first
  (start, first) ::
    if rest = 0 then []
    else if rest ≤ page then [(prp2 / page * page, rest)]
    else listSegments page entry ((rest + page - 1) / page) (prp2 / 8 * 8) rest

/-- Address `x` is in one of the pieces. -/
def Covers (segs : Segments) (x : Nat) : Prop := ∃ s ∈ segs, s.1 ≤ x ∧ x < s.1 + s.2

/-- The pieces are the `len` bytes at `a`, in whatever order. -/
def Describes (segs : Segments) (a len : Nat) : Prop :=
  ∀ x, Covers segs x ↔ a ≤ x ∧ x < a + len

/-- The address of byte `j` of the data. -/
def place : Segments → Nat → Nat
  | [], _ => 0
  | (start, len) :: segs, j => if j < len then start + j else place segs (j - len)

variable {page} {prp1 prp2 len : Nat} {entry : Nat → Nat}

/-- A list of null entries describes page 0 over and over. -/
theorem listSegments_null : ∀ n ptr rest, ∀ s ∈ listSegments page (fun _ => 0) n ptr rest,
    s.1 = 0 ∧ s.2 ≤ page := by
  intro n
  induction n with
  | zero => intro ptr rest s hs; cases hs
  | succ n ih =>
      intro ptr rest s hs
      rw [listSegments] at hs
      split at hs
      · rename_i last
        obtain rfl := List.mem_singleton.mp hs
        exact ⟨by simp, last⟩
      · rcases List.mem_cons.mp hs with rfl | hs
        · exact ⟨by simp, Nat.le_refl _⟩
        · exact ih _ _ s hs

/-- Within one page the first pointer is enough. -/
theorem describes_one_page (aligned : prp1 % 4 = 0) (fits : prp1 % page + len ≤ page) :
    Describes (segments page prp1 prp2 len entry) prp1 len := by
  have start : prp1 / 4 * 4 = prp1 := by omega
  have first : min len (page - prp1 % page) = len := by omega
  intro x
  rw [segments, start, first, Nat.sub_self, if_pos rfl]
  constructor
  · intro covered
    obtain ⟨s, hs, here⟩ := covered
    obtain rfl := List.mem_singleton.mp hs
    exact here
  · intro here
    exact ⟨_, List.mem_singleton_self _, here⟩

/-- No bytes are described by any pointer. -/
theorem describes_none (a : Nat) : Describes (segments page prp1 prp2 0 entry) a 0 := by
  intro x
  rw [segments, Nat.zero_min, Nat.sub_self, if_pos rfl]
  refine iff_of_false ?_ (by omega)
  intro covered
  obtain ⟨s, hs, low, high⟩ := covered
  obtain rfl := List.mem_singleton.mp hs
  exact absurd high (Nat.not_lt.mpr low)

/-- With a null second pointer, and zeros in page 0, it has to be. -/
theorem one_page_of_describes (pos : 0 < page) (some : 0 < len)
    (h : Describes (segments page prp1 0 len fun _ => 0) prp1 len) :
    prp1 % 4 = 0 ∧ prp1 % page + len ≤ page := by
  have below : prp1 / 4 * 4 % page < page := Nat.mod_lt _ pos
  -- the first byte is described
  have start : prp1 / 4 * 4 = prp1 := by
    have covered : Covers (segments page prp1 0 len fun _ => 0) (prp1 / 4 * 4) := by
      refine ⟨_, List.mem_cons_self, Nat.le_refl _, ?_⟩
      show prp1 / 4 * 4 < prp1 / 4 * 4 + min len (page - prp1 / 4 * 4 % page)
      omega
    have := (h _).mp covered
    omega
  refine ⟨by omega, ?_⟩
  by_contra crosses
  rw [start] at below
  -- and so is the first byte of the next page
  have floor := Nat.mod_le prp1 page
  have next : Covers (segments page prp1 0 len fun _ => 0) (prp1 + (page - prp1 % page)) :=
    (h _).mpr ⟨by omega, by omega⟩
  have first : min len (page - prp1 % page) = page - prp1 % page := by omega
  rw [segments, start, first] at next
  obtain ⟨s, hs, low, high⟩ := next
  rcases List.mem_cons.mp hs with rfl | hs
  · exact absurd high (Nat.lt_irrefl _)
  · have null : s.1 = 0 ∧ s.2 ≤ page := by
      split at hs
      · cases hs
      · split at hs
        · rename_i fits
          obtain rfl := List.mem_singleton.mp hs
          exact ⟨by simp, fits⟩
        · exact listSegments_null _ _ _ s hs
    omega

end Lib.Prp
