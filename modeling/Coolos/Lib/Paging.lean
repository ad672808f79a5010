import Coolos.Lib.Memory
import Mathlib.Algebra.BigOperators.Group.Finset.Basic

/-!
# Page tables of x86-64

The translation the processor makes of an address (`walk`), and trees of tables
in memory. The table of level `l` that serves page `n` is known by its level and
by `n / 512 ^ (l + 1)`, so a page picks its table at each level by division, and
its entry there by the remainder.

`Holds` says that memory holds such a tree with given leaf entries, every table
on a page of its own. A walk through a tree that is held ends at the leaf entry
of its page (`Holds.walk`); the tree is kept by writes elsewhere, by setting a
leaf entry and by linking in an empty table.
-/

namespace Lib.Paging

def presentBit : Word := 1
def writableBit : Word := 2
def userBit : Word := 4
/-- The entry is a page, not a table. -/
def largeBit : Word := 0x80
/-- Bits 12 to 51, the address in an entry. -/
def addrMask : Word := 0x000FFFFFFFFFF000

/-- Where a page is, and what may be done to it. -/
structure Translation where
  frame : Word
  writable : Bool
  user : Bool
  deriving DecidableEq

/-- The index of `v` in its table of a level. The leaves are in level 0. -/
def index (v : Word) (level : Nat) : Word := (v >>> (12 + 9 * level)) &&& 0x1FF

/-- What a leaf entry says. -/
def decode (e : Word) : Option Translation :=
  if e &&& presentBit = 0 then none
  else some ⟨e &&& addrMask, e &&& writableBit ≠ 0, e &&& userBit ≠ 0⟩

/-- Part of the translation of `v` in the 2 MiB or 1 GiB page of an entry. -/
def withinLarge (v : Word) (level : Nat) (t : Translation) : Translation :=
  let mask := loc (2 ^ (12 + 9 * level) - 1)
  { t with frame := (t.frame &&& ~~~mask) + (v &&& mask &&& ~~~0xFFF) }

/-- The permissions of an entry on the way restrict the translation. -/
def restrict (e : Word) (t : Translation) : Translation :=
  { t with
    writable := t.writable && e &&& writableBit ≠ 0
    user := t.user && e &&& userBit ≠ 0 }

/-- The processor's translation of `v` from a table of a level on. -/
def walk (m : Mem) (v : Word) : Nat → Word → Option Translation
  | 0, table => decode (m.read64 (table + 8 * index v 0))
  | level + 1, table =>
      let e := m.read64 (table + 8 * index v (level + 1))
      if e &&& presentBit = 0 then none
      else if e &&& largeBit ≠ 0 then
        -- reserved above the tables of 1 GiB pages
        if level < 2 then (decode e).map (withinLarge v (level + 1)) else none
      else (walk m v level (e &&& addrMask)).map (restrict e)

/-- The page of an address. -/
def page (v : Word) : Nat := v.toNat / 4096

theorem toNat_index (v : Word) (level : Nat) :
    (index v level).toNat = page v / 512 ^ level % 512 := by
  have split : 2 ^ (12 + 9 * level) = 4096 * 512 ^ level := by
    rw [Nat.pow_add, Nat.pow_mul]
  rw [index, BitVec.toNat_and, BitVec.toNat_ushiftRight, Nat.shiftRight_eq_div_pow, split,
    ← Nat.div_div_eq_div_mul]
  exact Nat.and_two_pow_sub_one_eq_mod _ 9

/-! ## Entries -/

section Entries

variable {p x y : Word}

theorem aligned_getLsbD (hp : p.toNat % 4096 = 0) {i : Nat} (hi : i < 12) :
    p.getLsbD i = false := by
  have shape : p.toNat = 2 ^ 12 * (p.toNat / 4096) := by omega
  rw [BitVec.getLsbD, shape, Nat.testBit_two_pow_mul, decide_eq_false (by omega), Bool.false_and]

/-- The low bits of an entry are its flags. -/
theorem flags_of_entry (hp : p.toNat % 4096 = 0) (hy : y.toNat < 4096) :
    (p ||| x) &&& y = x &&& y := by
  refine BitVec.eq_of_getLsbD_eq fun i _ => ?_
  rw [BitVec.getLsbD_and, BitVec.getLsbD_and, BitVec.getLsbD_or]
  by_cases low : i < 12
  · rw [aligned_getLsbD hp low, Bool.false_or]
  · have grown : 2 ^ 12 ≤ 2 ^ i := Nat.pow_le_pow_right (by decide) (Nat.not_lt.mp low)
    have high : y.getLsbD i = false := Nat.testBit_lt_two_pow (by omega)
    rw [high, Bool.and_false, Bool.and_false]

theorem toNat_entry (hp : p.toNat % 4096 = 0) (hx : x.toNat < 4096) :
    (p ||| x).toNat = p.toNat + x.toNat := by
  have shape : p.toNat = 2 ^ 12 * (p.toNat / 4096) := by omega
  rw [BitVec.toNat_or, shape, ← Nat.two_pow_add_eq_or_of_lt hx]

/-- Masking the flags off recovers the address. -/
theorem addr_of_entry (hp : p.toNat % 4096 = 0) (hx : x.toNat < 4096) :
    (p ||| x) &&& ~~~0xFFF = p := by
  refine BitVec.eq_of_toNat_eq ?_
  have mask := toNat_and_not_mask (x := p ||| x) (a := 0x1000) (k := 12) (by decide) (by decide)
  rw [toNat_entry hp hx] at mask
  exact mask.trans (by omega)

/-- So does the processor's mask, below `2 ^ 52`. -/
theorem addrMask_of_entry (hp : p.toNat % 4096 = 0) (small : p.toNat < 2 ^ 52)
    (hx : x.toNat < 4096) : (p ||| x) &&& addrMask = p := by
  have masks : addrMask = 0xFFFFFFFFFFFFF &&& ~~~0xFFF := by decide
  have whole : (p ||| x) &&& 0xFFFFFFFFFFFFF = p ||| x := by
    refine BitVec.eq_of_toNat_eq ?_
    have low : (p ||| x).toNat &&& (2 ^ 52 - 1) = (p ||| x).toNat := by
      rw [Nat.and_two_pow_sub_one_eq_mod, toNat_entry hp hx]
      omega
    exact low
  rw [masks, ← BitVec.and_assoc, whole, addr_of_entry hp hx]

end Entries

/-- Entry `i` of the table on page `t`. -/
def entry (m : Mem) (t i : Nat) : Word := m.read64 (loc (t * 4096 + 8 * i))

theorem entry_addr (t : Nat) (i : Word) :
    loc (t * 4096) + 8 * i = loc (t * 4096 + 8 * i.toNat) := by
  have place : loc (8 * i.toNat) = 8 * i := by
    rw [loc, BitVec.ofNat_mul, BitVec.ofNat_toNat, BitVec.setWidth_eq]
    rfl
  rw [loc_add, place]

theorem entry_eq (m : Mem) (t : Nat) (i : Word) :
    m.read64 (loc (t * 4096) + 8 * i) = entry m t i.toNat := by
  rw [entry_addr, entry]

/-- An entry is read from its own page. -/
theorem entry_congr {m m' : Mem} {t i : Nat} (ht : t < 2 ^ 40) (hi : i < 512)
    (same : ∀ a : Word, a.toNat / 4096 = t → m' a = m a) : entry m' t i = entry m t i := by
  refine Mem.read64_congr fun j hj => same _ ?_
  rw [show BitVec.ofNat 64 j = loc j from rfl, ← loc_add, toNat_loc (by omega)]
  omega

theorem entry_top {t i : Nat} (ht : t < 2 ^ 40) (hi : i < 512) :
    t * 4096 + 8 * i + 8 ≤ 2 ^ 64 := by
  omega

theorem entry_write {m : Mem} {t t' i j : Nat} {e : Word} (ht : t < 2 ^ 40) (ht' : t' < 2 ^ 40)
    (hi : i < 512) (hj : j < 512) :
    entry (m.write64 (loc (t * 4096 + 8 * i)) e) t' j =
      if t' = t ∧ j = i then e else entry m t' j := by
  by_cases same : t' = t ∧ j = i
  · obtain ⟨rfl, rfl⟩ := same
    rw [if_pos ⟨rfl, rfl⟩]
    exact Mem.read64_write64 ..
  · rw [if_neg same]
    apply Mem.read64_write64_apart
    by_cases below : t * 4096 + 8 * i + 8 ≤ t' * 4096 + 8 * j
    · exact apart_loc below (entry_top ht' hj) (by decide) (by decide)
    · have above : t' * 4096 + 8 * j + 8 ≤ t * 4096 + 8 * i := by omega
      exact (apart_loc above (entry_top ht hi) (by decide) (by decide)).symm

/-! ## Trees of tables -/

/-- The page each table is on, by its level and by what its pages have in
common. -/
abbrev Tables := Nat → Nat → Option Nat

/-- The tree with one more table. -/
def Tables.add (T : Tables) (l n c : Nat) : Tables :=
  fun l' n' => if l' = l ∧ n' = n then some c else T l' n'

theorem Tables.add_self (T : Tables) (l n c : Nat) : T.add l n c l n = some c :=
  if_pos ⟨rfl, rfl⟩

theorem Tables.add_of_ne (T : Tables) {l n c l' n' : Nat} (h : ¬ (l' = l ∧ n' = n)) :
    T.add l n c l' n' = T l' n' :=
  if_neg h

/-- The entry of a table on page `c`: present, and open to everyone. -/
def link (c : Nat) : Word := loc (c * 4096) ||| 7

/-- Memory holds the tree `T` under `root`, a table of level `top`, with the
entries `leaf` for the pages. -/
structure Holds (m : Mem) (top root : Nat) (T : Tables) (leaf : Nat → Word) : Prop where
  root : T top 0 = some root
  small : ∀ l n t, T l n = some t → t < 2 ^ 40
  inner : ∀ l n t, l < top → T (l + 1) n = some t → ∀ i < 512,
    entry m t i = ((T l (n * 512 + i)).map link).getD 0
  leaves : ∀ n t, T 0 n = some t → ∀ i < 512, entry m t i = leaf (n * 512 + i)
  parent : ∀ l n t, l < top → T l n = some t → ∃ t', T (l + 1) (n / 512) = some t'
  bare : ∀ n, leaf n ≠ 0 → ∃ t, T 0 (n / 512) = some t
  inj : ∀ l n l' n' t, T l n = some t → T l' n' = some t → l = l' ∧ n = n'

section Walk

variable {m : Mem} {top root c : Nat} {T : Tables} {leaf : Nat → Word} {v : Word}

theorem toNat_table (hc : c < 2 ^ 40) : (loc (c * 4096)).toNat = c * 4096 :=
  toNat_loc (by omega)

theorem table_aligned (hc : c < 2 ^ 40) : (loc (c * 4096)).toNat % 4096 = 0 := by
  rw [toNat_table hc, Nat.mul_mod_left]

theorem link_flags (hc : c < 2 ^ 40) {y : Word} (hy : y.toNat < 4096) :
    link c &&& y = 7 &&& y :=
  flags_of_entry (table_aligned hc) hy

theorem link_addr (hc : c < 2 ^ 40) : link c &&& ~~~0xFFF = loc (c * 4096) :=
  addr_of_entry (table_aligned hc) (by decide)

/-- The prefix of a page at one level, from the level above. -/
theorem prefix_step (n l : Nat) :
    n / 512 ^ (l + 1) * 512 + n / 512 ^ l % 512 = n / 512 ^ l := by
  rw [Nat.pow_succ, ← Nat.div_div_eq_div_mul]
  omega

/-- A page with an entry has tables at every level. -/
theorem Holds.table_of_leaf (h : Holds m top root T leaf) {n : Nat} (hn : leaf n ≠ 0) :
    ∀ l ≤ top, ∃ t, T l (n / 512 ^ (l + 1)) = some t := by
  intro l
  induction l with
  | zero => intro _; simpa using h.bare n hn
  | succ l ih =>
      intro hl
      obtain ⟨t, ht⟩ := ih (by omega)
      have up := h.parent l _ t (by omega) ht
      rwa [Nat.div_div_eq_div_mul, ← Nat.pow_succ] at up

theorem link_addrMask (hc : c < 2 ^ 40) : link c &&& addrMask = loc (c * 4096) :=
  addrMask_of_entry (table_aligned hc) (by rw [toNat_table hc]; omega) (by decide)

theorem link_present (hc : c < 2 ^ 40) : ¬ link c &&& presentBit = 0 := by
  rw [link_flags hc (by decide)]
  decide

/-- What a processor reads for `v` in a table that is not of the last level. -/
theorem Holds.read_link (h : Holds m top root T leaf) {v : Word} {l t : Nat} (hl : l < top)
    (ht : T (l + 1) (page v / 512 ^ (l + 1 + 1)) = some t) :
    m.read64 (loc (t * 4096) + 8 * index v (l + 1)) =
      ((T l (page v / 512 ^ (l + 1))).map link).getD 0 := by
  have found := h.inner l _ t hl ht (page v / 512 ^ (l + 1) % 512) (Nat.mod_lt _ (by decide))
  rwa [prefix_step, ← toNat_index, ← entry_eq] at found

/-- What it reads in the last one. -/
theorem Holds.read_leaf (h : Holds m top root T leaf) {v : Word} {t : Nat}
    (ht : T 0 (page v / 512 ^ (0 + 1)) = some t) :
    m.read64 (loc (t * 4096) + 8 * index v 0) = leaf (page v) := by
  rw [entry_eq, toNat_index, h.leaves _ t ht _ (Nat.mod_lt _ (by decide)), prefix_step,
    Nat.pow_zero, Nat.div_one]

/-- Without one of its tables a page has no entry. -/
theorem Holds.unmapped (h : Holds m top root T leaf) {n l : Nat} (hl : l ≤ top)
    (lacks : T l (n / 512 ^ (l + 1)) = none) : leaf n = 0 := by
  by_contra mapped
  obtain ⟨c, hc⟩ := h.table_of_leaf mapped l hl
  rw [lacks] at hc
  cases hc

/-- The walk goes through a link to the table behind it, unrestricted. -/
theorem walk_link (hc : c < 2 ^ 40) {table : Word} {l : Nat}
    (e : m.read64 (table + 8 * index v (l + 1)) = link c) :
    walk m v (l + 1) table = walk m v l (loc (c * 4096)) := by
  have table : ¬ link c &&& largeBit ≠ 0 := by rw [link_flags hc (by decide)]; decide
  have writable : link c &&& writableBit ≠ 0 := by rw [link_flags hc (by decide)]; decide
  have user : link c &&& userBit ≠ 0 := by rw [link_flags hc (by decide)]; decide
  have unrestricted : restrict (link c) = id := by
    funext t
    simp only [restrict, writable, user, ne_eq, not_false_eq_true, decide_true, Bool.and_true, id]
  rw [walk, e]
  simp only [if_neg (link_present hc), if_neg table, link_addrMask hc, unrestricted,
    Option.map_id, id]

/-- From any table on the way of a page the walk ends at its leaf entry. -/
theorem Holds.walk_from (h : Holds m top root T leaf) (v : Word) : ∀ l t, l ≤ top →
    T l (page v / 512 ^ (l + 1)) = some t →
      walk m v l (loc (t * 4096)) = decode (leaf (page v)) := by
  intro l
  induction l with
  | zero =>
      intro t _ ht
      rw [walk, h.read_leaf ht]
  | succ l ih =>
      intro t hl ht
      have found := h.read_link hl ht
      cases below : T l (page v / 512 ^ (l + 1)) with
      | none =>
          rw [below] at found
          rw [walk, found, h.unmapped (by omega) below]
          rfl
      | some c =>
          rw [below] at found
          rw [walk_link (h.small l _ c below) found]
          exact ih c (by omega) below

/-- The walk from the root ends at the leaf entry of the page. -/
theorem Holds.walk (h : Holds m top root T leaf) (hv : page v < 512 ^ (top + 1)) :
    walk m v top (loc (root * 4096)) = decode (leaf (page v)) :=
  h.walk_from v top root le_rfl (by rw [Nat.div_eq_of_lt hv]; exact h.root)

/-- The leaf entry of `v` itself, 0 where a table is missing. -/
def lastEntry (m : Mem) (v : Word) : Nat → Word → Word
  | 0, table => m.read64 (table + 8 * index v 0)
  | level + 1, table =>
      let e := m.read64 (table + 8 * index v (level + 1))
      if e &&& presentBit = 0 then 0 else lastEntry m v level (e &&& addrMask)

theorem Holds.lastEntry_from (h : Holds m top root T leaf) (v : Word) : ∀ l t, l ≤ top →
    T l (page v / 512 ^ (l + 1)) = some t →
      lastEntry m v l (loc (t * 4096)) = leaf (page v) := by
  intro l
  induction l with
  | zero =>
      intro t _ ht
      rw [lastEntry, h.read_leaf ht]
  | succ l ih =>
      intro t hl ht
      rw [lastEntry, h.read_link hl ht]
      cases below : T l (page v / 512 ^ (l + 1)) with
      | none =>
          rw [h.unmapped (by omega) below]
          rfl
      | some c =>
          have small := h.small l _ c below
          rw [Option.map_some, Option.getD_some, if_neg (link_present small), link_addrMask small]
          exact ih c (by omega) below

theorem Holds.lastEntry (h : Holds m top root T leaf) (hv : page v < 512 ^ (top + 1)) :
    lastEntry m v top (loc (root * 4096)) = leaf (page v) :=
  h.lastEntry_from v top root le_rfl (by rw [Nat.div_eq_of_lt hv]; exact h.root)

end Walk

/-! ## Missing tables -/

section Missing

variable {m : Mem} {top root : Nat} {T : Tables} {leaf : Nat → Word}

/-- How many tables below `table`, which is one of level `l`, are missing for `v`. -/
def tablesMissing (m : Mem) (v : Word) : Nat → Word → Nat
  | 0, _ => 0
  | l + 1, table =>
      let e := m.read64 (table + 8 * index v (l + 1))
      if e &&& presentBit = 0 then l + 1 else tablesMissing m v l (e &&& addrMask)

/-- Where a table is missing so are those below it. -/
theorem Holds.none_below (h : Holds m top root T leaf) {n l : Nat} (hl : l < top)
    (lacks : T l (n / 512 ^ (l + 1)) = none) : ∀ l' ≤ l, T l' (n / 512 ^ (l' + 1)) = none := by
  intro l' hl'
  by_contra there
  obtain ⟨t, ht⟩ := Option.ne_none_iff_exists'.mp there
  have up : ∀ d, l' + d ≤ top → ∃ t, T (l' + d) (n / 512 ^ (l' + d + 1)) = some t := by
    intro d
    induction d with
    | zero => intro _; exact ⟨t, ht⟩
    | succ d ih =>
        intro hd
        obtain ⟨t', ht'⟩ := ih (by omega)
        have above := h.parent (l' + d) _ t' (by omega) ht'
        rwa [Nat.div_div_eq_div_mul, ← Nat.pow_succ] at above
  obtain ⟨t', ht'⟩ := up (l - l') (by omega)
  rw [show l' + (l - l') = l by omega, lacks] at ht'
  cases ht'

/-- The walk counts the tables that the tree lacks. -/
theorem Holds.tablesMissing (h : Holds m top root T leaf) (v : Word) : ∀ l ≤ top, ∀ t,
    T l (page v / 512 ^ (l + 1)) = some t →
      tablesMissing m v l (loc (t * 4096)) =
        ∑ l' ∈ Finset.range l, if T l' (page v / 512 ^ (l' + 1)) = none then 1 else 0 := by
  intro l
  induction l with
  | zero => intro _ t _; rfl
  | succ l ih =>
      intro hl t ht
      rw [Paging.tablesMissing, h.read_link hl ht, Finset.sum_range_succ]
      cases below : T l (page v / 512 ^ (l + 1)) with
      | none =>
          -- all of them are missing
          have all : ∀ l' ∈ Finset.range l,
              (if T l' (page v / 512 ^ (l' + 1)) = none then 1 else 0) = 1 := by
            intro l' hl'
            exact if_pos (h.none_below hl below l' (Nat.le_of_lt (Finset.mem_range.mp hl')))
          rw [Finset.sum_congr rfl all, Finset.sum_const, Finset.card_range]
          simp
      | some c =>
          have small := h.small l _ c below
          rw [Option.map_some, Option.getD_some, if_neg (link_present small), link_addrMask small,
            ih (by omega) c below, if_neg (by simp), Nat.add_zero]

end Missing

/-! ## Keeping the tree -/

section Keep

variable {m m' : Mem} {top root : Nat} {T : Tables} {leaf : Nat → Word}

/-- Only the entries of the tables matter. -/
theorem Holds.congr (h : Holds m top root T leaf)
    (same : ∀ l n t, T l n = some t → ∀ i < 512, entry m' t i = entry m t i) :
    Holds m' top root T leaf where
  root := h.root
  small := h.small
  inner l n t hl ht i hi := (same _ n t ht i hi).trans (h.inner l n t hl ht i hi)
  leaves n t ht i hi := (same 0 n t ht i hi).trans (h.leaves n t ht i hi)
  parent := h.parent
  bare := h.bare
  inj := h.inj

/-- Index and prefix determine the page. -/
theorem digits_inj {n n' i i' : Nat} (hi : i < 512) (hi' : i' < 512) :
    n * 512 + i = n' * 512 + i' ↔ n = n' ∧ i = i' := by
  omega

/-- A leaf entry is set. -/
theorem Holds.setLeaf (h : Holds m top root T leaf) {n t i : Nat} (ht : T 0 n = some t)
    (hi : i < 512) (e : Word) :
    Holds (m.write64 (loc (t * 4096 + 8 * i)) e) top root T
      (Function.update leaf (n * 512 + i) e) where
  root := h.root
  small := h.small
  inner l k t' hl ht' j hj := by
    rw [entry_write (h.small _ _ t ht) (h.small _ _ t' ht') hi hj, if_neg]
    · exact h.inner l k t' hl ht' j hj
    · rintro ⟨rfl, -⟩
      exact absurd (h.inj _ _ _ _ _ ht ht').1 (by omega)
  leaves k t' ht' j hj := by
    rw [entry_write (h.small _ _ t ht) (h.small _ _ t' ht') hi hj]
    by_cases here : t' = t ∧ j = i
    · obtain ⟨rfl, rfl⟩ := here
      obtain ⟨-, rfl⟩ := h.inj _ _ _ _ _ ht' ht
      rw [if_pos ⟨rfl, rfl⟩, Function.update_self]
    · rw [if_neg here, Function.update_of_ne]
      · exact h.leaves k t' ht' j hj
      · intro same
        obtain ⟨rfl, rfl⟩ := (digits_inj hj hi).mp same
        exact here ⟨Option.some.inj (ht'.symm.trans ht), rfl⟩
  parent := h.parent
  bare k hk := by
    by_cases here : k = n * 512 + i
    · exact ⟨t, by rw [here, show (n * 512 + i) / 512 = n by omega, ht]⟩
    · rw [Function.update_of_ne here] at hk
      exact h.bare k hk
  inj := h.inj

/-- An empty table on a page of its own is linked in. -/
theorem Holds.addTable (h : Holds m top root T leaf) {l n t i c : Nat} (hl : l < top)
    (ht : T (l + 1) n = some t) (hi : i < 512) (missing : T l (n * 512 + i) = none)
    (fresh : ∀ l' n', T l' n' ≠ some c) (hc : c < 2 ^ 40) (empty : ∀ j < 512, entry m c j = 0) :
    Holds (m.write64 (loc (t * 4096 + 8 * i)) (link c)) top root (T.add l (n * 512 + i) c)
      leaf := by
  have ne : c ≠ t := fun same => fresh _ _ (same ▸ ht)
  -- a table of the new tree is the new one or an old one
  have either : ∀ l' n' t', T.add l (n * 512 + i) c l' n' = some t' →
      (l' = l ∧ n' = n * 512 + i ∧ t' = c) ∨
        (¬ (l' = l ∧ n' = n * 512 + i) ∧ T l' n' = some t') := by
    intro l' n' t' h'
    by_cases new : l' = l ∧ n' = n * 512 + i
    · rw [Tables.add, if_pos new] at h'
      exact .inl ⟨new.1, new.2, (Option.some.inj h').symm⟩
    · rw [T.add_of_ne new] at h'
      exact .inr ⟨new, h'⟩
  have old : ∀ l' n' t', T l' n' = some t' → T.add l (n * 512 + i) c l' n' = some t' := by
    intro l' n' t' h'
    rw [T.add_of_ne, h']
    rintro ⟨rfl, rfl⟩
    rw [missing] at h'
    exact absurd h' (by simp)
  have written : ∀ t' j, t' < 2 ^ 40 → j < 512 →
      entry (m.write64 (loc (t * 4096 + 8 * i)) (link c)) t' j =
        if t' = t ∧ j = i then link c else entry m t' j :=
    fun t' j ht' hj => entry_write (h.small _ _ t ht) ht' hi hj
  refine ⟨old _ _ _ h.root, ?_, ?_, ?_, ?_, fun k hk => ?_, ?_⟩
  · intro l' n' t' h'
    rcases either l' n' t' h' with ⟨-, -, rfl⟩ | ⟨-, was⟩
    · exact hc
    · exact h.small _ _ _ was
  · intro l' n' t' hl' h' j hj
    rcases either _ n' t' h' with ⟨level, rfl, rfl⟩ | ⟨-, was⟩
    · -- the new table has no tables below it
      have none : T.add l (n * 512 + i) t' l' ((n * 512 + i) * 512 + j) = none := by
        rw [T.add_of_ne (by omega)]
        cases below : T l' ((n * 512 + i) * 512 + j) with
        | none => rfl
        | some b =>
            obtain ⟨t₁, up⟩ := h.parent l' _ b hl' below
            rw [show ((n * 512 + i) * 512 + j) / 512 = n * 512 + i by omega, level, missing] at up
            exact absurd up (by simp)
      rw [written t' j hc hj, if_neg (fun here => ne here.1), empty j hj, none]
      rfl
    · rw [written t' j (h.small _ _ _ was) hj]
      by_cases here : t' = t ∧ j = i
      · obtain ⟨rfl, rfl⟩ := here
        obtain ⟨level, rfl⟩ := h.inj _ _ _ _ _ was ht
        obtain rfl : l' = l := by omega
        rw [if_pos ⟨rfl, rfl⟩, T.add_self]
        rfl
      · rw [if_neg here, T.add_of_ne]
        · exact h.inner l' n' t' hl' was j hj
        · rintro ⟨rfl, same⟩
          obtain ⟨rfl, rfl⟩ := (digits_inj hj hi).mp same
          exact here ⟨Option.some.inj (was.symm.trans ht), rfl⟩
  · intro n' t' h' j hj
    rcases either 0 n' t' h' with ⟨level, rfl, rfl⟩ | ⟨-, was⟩
    · -- no page has an entry in the new table
      rw [written t' j hc hj, if_neg (fun here => ne here.1), empty j hj]
      by_contra mapped
      obtain ⟨t₁, up⟩ := h.bare _ (Ne.symm mapped)
      rw [show ((n * 512 + i) * 512 + j) / 512 = n * 512 + i by omega, level, missing] at up
      exact absurd up (by simp)
    · rw [written t' j (h.small _ _ _ was) hj, if_neg]
      · exact h.leaves n' t' was j hj
      · rintro ⟨rfl, -⟩
        exact absurd (h.inj _ _ _ _ _ was ht).1 (by omega)
  · intro l' n' t' hl' h'
    rcases either l' n' t' h' with ⟨rfl, rfl, rfl⟩ | ⟨-, was⟩
    · exact ⟨t, old _ _ _ (by rw [show (n * 512 + i) / 512 = n by omega]; exact ht)⟩
    · obtain ⟨t₁, up⟩ := h.parent l' n' t' hl' was
      exact ⟨t₁, old _ _ _ up⟩
  · obtain ⟨t₁, h'⟩ := h.bare k hk
    exact ⟨t₁, old _ _ _ h'⟩
  · intro l₁ n₁ l₂ n₂ t' h₁ h₂
    rcases either _ _ _ h₁ with ⟨rfl, rfl, rfl⟩ | ⟨-, was₁⟩ <;>
      rcases either _ _ _ h₂ with ⟨rfl, rfl, same⟩ | ⟨-, was₂⟩
    · exact ⟨rfl, rfl⟩
    · exact absurd was₂ (fresh _ _)
    · exact absurd (same ▸ was₁) (fresh _ _)
    · exact h.inj _ _ _ _ _ was₁ was₂

end Keep

/-! ## The tables a walk can come to -/

/-- The processor can come to the table `t` of level `l` from `table`, a table of level
`top`. -/
inductive WalkTable (m : Mem) (top : Nat) (table : Word) : Nat → Word → Prop
  | root : WalkTable m top table top table
  | next {l : Nat} {t i : Word} : WalkTable m top table (l + 1) t → i.toNat < 512 →
      m.read64 (t + 8 * i) &&& presentBit ≠ 0 → m.read64 (t + 8 * i) &&& largeBit = 0 →
        WalkTable m top table l (m.read64 (t + 8 * i) &&& addrMask)

/-- Without the tables that are not below the root. -/
def Tables.prune (T : Tables) (top : Nat) : Tables :=
  fun l n => if l ≤ top ∧ n < 512 ^ (top - l) then T l n else none

section Prune

variable {m : Mem} {top root : Nat} {T : Tables} {leaf : Nat → Word} {l n t : Nat}

theorem Tables.prune_eq_some : T.prune top l n = some t ↔
    (l ≤ top ∧ n < 512 ^ (top - l)) ∧ T l n = some t := by
  rw [Tables.prune]
  split
  · rename_i here
    exact (and_iff_right here).symm
  · rename_i out
    simp [out]

/-- One level down there are 512 times as many. -/
theorem pow_below (hl : l < top) : 512 ^ (top - l) = 512 ^ (top - (l + 1)) * 512 := by
  rw [← Nat.pow_succ]
  congr 1
  omega

/-- Memory holds the part below the root. -/
theorem Holds.prune (h : Holds m top root T leaf) :
    Holds m top root (T.prune top) fun n => if n < 512 ^ (top + 1) then leaf n else 0 where
  root := Tables.prune_eq_some.mpr ⟨⟨le_rfl, by rw [Nat.sub_self]; decide⟩, h.root⟩
  small l n t ht := h.small l n t (Tables.prune_eq_some.mp ht).2
  inner l n t hl ht i hi := by
    obtain ⟨⟨-, inside⟩, ht⟩ := Tables.prune_eq_some.mp ht
    have more := pow_below hl
    rw [Tables.prune, if_pos ⟨Nat.le_of_lt hl, by omega⟩]
    exact h.inner l n t hl ht i hi
  leaves n t ht i hi := by
    obtain ⟨⟨-, inside⟩, ht⟩ := Tables.prune_eq_some.mp ht
    rw [Nat.sub_zero] at inside
    rw [if_pos (by rw [Nat.pow_succ]; omega)]
    exact h.leaves n t ht i hi
  parent l n t hl ht := by
    obtain ⟨⟨-, inside⟩, ht⟩ := Tables.prune_eq_some.mp ht
    have more := pow_below hl
    obtain ⟨t', up⟩ := h.parent l n t hl ht
    exact ⟨t', Tables.prune_eq_some.mpr ⟨⟨hl, by omega⟩, up⟩⟩
  bare n hn := by
    by_cases inside : n < 512 ^ (top + 1)
    · rw [if_pos inside] at hn
      obtain ⟨t, ht⟩ := h.bare n hn
      rw [Nat.pow_succ] at inside
      exact ⟨t, Tables.prune_eq_some.mpr ⟨⟨Nat.zero_le _, by rw [Nat.sub_zero]; omega⟩, ht⟩⟩
    · rw [if_neg inside] at hn
      exact absurd rfl hn
  inj l n l' n' t ht ht' :=
    h.inj l n l' n' t (Tables.prune_eq_some.mp ht).2 (Tables.prune_eq_some.mp ht').2

/-- The processor can come to all of them. -/
theorem Holds.walkTable (h : Holds m top root T leaf) : ∀ d l n t, l + d = top →
    n < 512 ^ d → T l n = some t →
      WalkTable m top (loc (root * 4096)) l (loc (t * 4096)) := by
  intro d
  -- on the distance from the root, each table by the link above it
  induction d with
  | zero =>
      intro l n t hl hn ht
      obtain rfl : l = top := by omega
      obtain rfl : n = 0 := by simpa using hn
      obtain rfl := Option.some.inj (h.root.symm.trans ht)
      exact .root
  | succ d ih =>
      intro l n t hl hn ht
      have small := h.small l n t ht
      obtain ⟨t', up⟩ := h.parent l n t (by omega) ht
      rw [Nat.pow_succ] at hn
      have above := ih (l + 1) (n / 512) t' (by omega) (by omega) up
      have digit : (loc (n % 512)).toNat = n % 512 := toNat_loc (by omega)
      have found := h.inner l (n / 512) t' (by omega) up (n % 512) (by omega)
      rw [show n / 512 * 512 + n % 512 = n by omega, ht, ← digit, ← entry_eq] at found
      have found : m.read64 (loc (t' * 4096) + 8 * loc (n % 512)) = link t := found
      have step := WalkTable.next above (i := loc (n % 512)) (by rw [digit]; omega)
        (by rw [found]; exact link_present small)
        (by rw [found, link_flags small (by decide)]; decide)
      rwa [found, link_addrMask small] at step

/-- A tree survives writes to all but the tables a walk can come to. -/
theorem Holds.of_walkTable {m' : Mem} (h : Holds m top root T leaf)
    (same : ∀ l t, WalkTable m top (loc (root * 4096)) l t →
      ∀ x : Word, page x = page t → m' x = m x) :
    Holds m' top root (T.prune top) fun n => if n < 512 ^ (top + 1) then leaf n else 0 := by
  apply h.prune.congr
  intro l n t ht i hi
  obtain ⟨⟨hl, inside⟩, ht⟩ := Tables.prune_eq_some.mp ht
  have small := h.small l n t ht
  have table := h.walkTable (top - l) l n t (by omega) inside ht
  apply entry_congr small hi
  intro x hx
  apply same l _ table
  rw [page, page, toNat_table small, Nat.mul_div_cancel _ (by decide)]
  exact hx

end Prune

end Lib.Paging
