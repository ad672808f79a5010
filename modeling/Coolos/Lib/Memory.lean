import Mathlib.Data.Nat.Basic
import Mathlib.Tactic.Ring

/-!
# Byte-addressed memory

A 64-bit address space of bytes with little-endian loads and stores. Address
arithmetic wraps, so disjointness of two accesses is stated with modular
distances (`Apart`); `loc` names the addresses that do not wrap, for which
`Apart` is ordinary interval order.

A load reads only its own bytes (`load_congr`), a store changes only its own
bytes (`store_apply_of_le`), and the two meet in `load_store_self` and
`load_store_apart`. Stacks are words pushed downwards from a top
(`pushAll`), read back by their depth (`read64_pushAll`).
-/

namespace Lib

/-- A machine word, also an address. -/
abbrev Word := BitVec 64

/-- The contents of the address space. -/
abbrev Mem := Word → BitVec 8

/-- The non-wrapping address `x`. -/
def loc (x : Nat) : Word := BitVec.ofNat 64 x

theorem toNat_loc {x : Nat} (h : x < 2 ^ 64) : (loc x).toNat = x := by
  rw [loc, BitVec.toNat_ofNat, Nat.mod_eq_of_lt h]

@[simp] theorem loc_toNat (a : Word) : loc a.toNat = a := by simp [loc]

theorem loc_inj {x y : Nat} (hx : x < 2 ^ 64) (hy : y < 2 ^ 64) :
    loc x = loc y ↔ x = y := by
  rw [← BitVec.toNat_inj, toNat_loc hx, toNat_loc hy]

theorem loc_add (x y : Nat) : loc (x + y) = loc x + loc y := BitVec.ofNat_add ..

theorem loc_sub {x y : Nat} (h : y ≤ x) : loc (x - y) = loc x - loc y := by
  rw [eq_comm, BitVec.sub_eq_iff_eq_add, ← loc_add, Nat.sub_add_cancel h]

/-- Masking off the low bits rounds down to a multiple of a power of two. -/
theorem toNat_and_not_mask {x a : Word} {k : Nat} (hk : k < 64) (ha : a.toNat = 2 ^ k) :
    (x &&& ~~~(a - 1)).toNat = x.toNat / 2 ^ k * 2 ^ k := by
  have mask : a - 1 = BitVec.ofNat 64 (2 ^ k - 1) := by
    apply BitVec.eq_of_toNat_eq
    have : 0 < 2 ^ k := Nat.two_pow_pos k
    have : 2 ^ k < 2 ^ 64 := Nat.pow_lt_pow_right (by decide) hk
    rw [BitVec.toNat_sub, ha, BitVec.toNat_ofNat, show (1 : Word).toNat = 1 from rfl]
    omega
  have shifted : x &&& ~~~(a - 1) = (x >>> k) <<< k := by
    ext i hi
    simp only [mask, BitVec.getElem_and, BitVec.getElem_not, BitVec.getElem_shiftLeft]
    rw [← BitVec.getLsbD_eq_getElem (x := BitVec.ofNat 64 (2 ^ k - 1)), BitVec.getLsbD_ofNat,
      Nat.testBit_two_pow_sub_one]
    by_cases h : i < k
    · simp [h, hi]
    · have back : k + (i - k) = i := by omega
      simp [h, hi, back]
  rw [shifted, BitVec.toNat_shiftLeft, BitVec.toNat_ushiftRight, Nat.shiftRight_eq_div_pow,
    Nat.shiftLeft_eq]
  exact Nat.mod_eq_of_lt (Nat.lt_of_le_of_lt (Nat.div_mul_le_self ..) x.isLt)

/-- A mask splits a word into two parts. -/
theorem toNat_and_add_and_not (x m : Word) : (x &&& m).toNat + (x &&& ~~~m).toNat = x.toNat := by
  have apart : (x &&& m) &&& (x &&& ~~~m) = 0 := by
    ext i hi
    simp only [BitVec.getElem_and, BitVec.getElem_not, BitVec.ofNat_eq_ofNat, BitVec.getElem_zero]
    cases x[i] <;> cases m[i] <;> rfl
  have whole : (x &&& m) ||| (x &&& ~~~m) = x := by
    ext i hi
    simp only [BitVec.getElem_or, BitVec.getElem_and, BitVec.getElem_not]
    cases x[i] <;> cases m[i] <;> rfl
  rw [← BitVec.toNat_add_of_and_eq_zero apart, BitVec.add_eq_or_of_and_eq_zero _ _ apart, whole]

/-- What is left of a word behind a mask one less than a multiple of `2 ^ k` is one, too. -/
theorem toNat_and_not_mod {x a : Word} {k : Nat} (pos : 0 < a.toNat) (ha : a.toNat % 2 ^ k = 0) :
    (x &&& ~~~(a - 1)).toNat % 2 ^ k = 0 := by
  have split := toNat_and_add_and_not x (a - 1)
  have mask : (a - 1).toNat = a.toNat - 1 := BitVec.toNat_sub_of_le (BitVec.le_def.mpr pos)
  -- the low bits of the mask are all set
  have ones : (a.toNat - 1) % 2 ^ k = 2 ^ k - 1 := by
    obtain ⟨q, hq⟩ := Nat.dvd_of_mod_eq_zero ha
    cases q with
    | zero => omega
    | succ q =>
        have low := Nat.two_pow_pos k
        rw [hq, Nat.mul_succ, Nat.add_sub_assoc low, Nat.mul_add_mod,
          Nat.mod_eq_of_lt (Nat.sub_lt low (by decide))]
  have kept : (x &&& (a - 1)).toNat % 2 ^ k = x.toNat % 2 ^ k := by
    rw [BitVec.toNat_and, mask, Nat.and_mod_two_pow, ones, Nat.and_two_pow_sub_one_eq_mod,
      Nat.mod_mod]
  have rest : (x &&& ~~~(a - 1)).toNat = x.toNat - (x &&& (a - 1)).toNat := by omega
  rw [rest]
  exact Nat.sub_mod_eq_zero_of_mod_eq kept.symm

/-- The `n` bytes at `a` and the `k` bytes at `b` share no address. -/
def Apart (a : Word) (n : Nat) (b : Word) (k : Nat) : Prop :=
  n ≤ (b - a).toNat ∧ k ≤ (a - b).toNat

theorem Apart.symm {a b : Word} {n k : Nat} (h : Apart a n b k) : Apart b k a n :=
  ⟨h.2, h.1⟩

/-- In-order intervals below the top of the address space are apart. -/
theorem apart_loc {x y n k : Nat} (h : x + n ≤ y) (hy : y + k ≤ 2 ^ 64)
    (hn : 0 < n) (hk : 0 < k) : Apart (loc x) n (loc y) k := by
  constructor <;> simp only [loc, BitVec.toNat_sub, BitVec.toNat_ofNat] <;> omega

namespace Mem

/-- Little-endian store of the low `n` bytes of `v` at `a`. -/
def store (m : Mem) (a : Word) (n v : Nat) : Mem := fun b =>
  if (b - a).toNat < n then BitVec.ofNat 8 (v / 256 ^ (b - a).toNat) else m b

/-- Little-endian value of the `n` bytes at `a`. -/
def load (m : Mem) : Word → Nat → Nat
  | _, 0 => 0
  | a, n + 1 => (m a).toNat + 256 * load m (a + 1) n

theorem store_apply_of_le {m : Mem} {a b : Word} {n v : Nat} (h : n ≤ (b - a).toNat) :
    m.store a n v b = m b := by
  rw [store, if_neg (Nat.not_lt.mpr h)]

/-- A load depends only on the bytes it reads. -/
theorem load_congr {m m' : Mem} {n : Nat} : ∀ {a : Word},
    (∀ i < n, m' (a + BitVec.ofNat 64 i) = m (a + BitVec.ofNat 64 i)) →
      m'.load a n = m.load a n := by
  induction n with
  | zero => intro a _; rfl
  | succ n ih =>
      intro a h
      have head : m' a = m a := by simpa using h 0 (Nat.succ_pos n)
      have tail : m'.load (a + 1) n = m.load (a + 1) n := by
        refine ih fun i hi => ?_
        have := h (i + 1) (Nat.succ_lt_succ hi)
        rwa [BitVec.ofNat_add, BitVec.add_comm (BitVec.ofNat 64 i), ← BitVec.add_assoc] at this
      simp only [load, head, tail]

/-- Reading inside a store yields the corresponding bytes of the value. -/
theorem load_store_within {m : Mem} {a : Word} {n v : Nat} (hn : n ≤ 2 ^ 64) :
    ∀ (k j : Nat), j + k ≤ n →
      (m.store a n v).load (a + BitVec.ofNat 64 j) k = v / 256 ^ j % 256 ^ k := by
  intro k
  induction k with
  | zero => intro j _; simp [load, Nat.mod_one]
  | succ k ih =>
      intro j hj
      have here : (a + BitVec.ofNat 64 j - a).toNat = j := by
        rw [BitVec.add_comm, BitVec.add_sub_cancel, BitVec.toNat_ofNat]
        exact Nat.mod_eq_of_lt (by omega)
      have next : a + BitVec.ofNat 64 j + 1 = a + BitVec.ofNat 64 (j + 1) := by
        rw [BitVec.ofNat_add, BitVec.add_assoc]; rfl
      have byte : (m.store a n v) (a + BitVec.ofNat 64 j) =
          BitVec.ofNat 8 (v / 256 ^ j) := by
        rw [store, here, if_pos (by omega)]
      calc (m.store a n v).load (a + BitVec.ofNat 64 j) (k + 1)
          = v / 256 ^ j % 256 + 256 * (v / 256 ^ (j + 1) % 256 ^ k) := by
            rw [load, next, ih (j + 1) (by omega), byte, BitVec.toNat_ofNat]
        _ = v / 256 ^ j % 256 + 256 * (v / 256 ^ j / 256 % 256 ^ k) := by
            rw [Nat.pow_succ 256 j, Nat.div_div_eq_div_mul]
        _ = v / 256 ^ j % 256 ^ (k + 1) := by
            rw [Nat.pow_succ' (n := k), Nat.mod_mul]

theorem load_store_self {m : Mem} {a : Word} {n v : Nat} (hn : n ≤ 2 ^ 64) :
    (m.store a n v).load a n = v % 256 ^ n := by
  simpa using load_store_within (m := m) (a := a) (v := v) hn n 0 (by omega)

theorem load_store_apart {m : Mem} {a b : Word} {n k v : Nat} (h : Apart a n b k) :
    (m.store a n v).load b k = m.load b k := by
  refine load_congr fun i hi => store_apply_of_le ?_
  obtain ⟨hab, hba⟩ := h
  simp only [BitVec.toNat_sub, BitVec.toNat_add, BitVec.toNat_ofNat] at hab hba ⊢
  omega

/-- The 8-byte word at `a`. -/
def read64 (m : Mem) (a : Word) : Word := BitVec.ofNat 64 (m.load a 8)

/-- Store an 8-byte word at `a`. -/
def write64 (m : Mem) (a v : Word) : Mem := m.store a 8 v.toNat

/-- The 4-byte word at `a`. -/
def read32 (m : Mem) (a : Word) : BitVec 32 := BitVec.ofNat 32 (m.load a 4)

/-- Store a 4-byte word at `a`. -/
def write32 (m : Mem) (a : Word) (v : BitVec 32) : Mem := m.store a 4 v.toNat

@[simp] theorem read64_write64 (m : Mem) (a v : Word) : (m.write64 a v).read64 a = v := by
  rw [read64, write64, load_store_self (by decide),
    Nat.mod_eq_of_lt (show v.toNat < 256 ^ 8 from v.isLt)]
  exact BitVec.ofNat_toNat ..

@[simp] theorem read32_write32 (m : Mem) (a : Word) (v : BitVec 32) :
    (m.write32 a v).read32 a = v := by
  rw [read32, write32, load_store_self (by decide),
    Nat.mod_eq_of_lt (show v.toNat < 256 ^ 4 from v.isLt)]
  exact BitVec.ofNat_toNat ..

theorem read64_write64_apart {m : Mem} {a b v : Word} (h : Apart a 8 b 8) :
    (m.write64 a v).read64 b = m.read64 b := by
  rw [read64, write64, load_store_apart h, read64]

theorem read64_write32_apart {m : Mem} {a b : Word} {v : BitVec 32} (h : Apart a 4 b 8) :
    (m.write32 a v).read64 b = m.read64 b := by
  rw [read64, write32, load_store_apart h, read64]

theorem read32_write64_apart {m : Mem} {a b v : Word} (h : Apart a 8 b 4) :
    (m.write64 a v).read32 b = m.read32 b := by
  rw [read32, write64, load_store_apart h, read32]

theorem write64_apply {m : Mem} {a b v : Word} (h : 8 ≤ (b - a).toNat) :
    m.write64 a v b = m b := store_apply_of_le h

theorem write32_apply {m : Mem} {a b : Word} {v : BitVec 32} (h : 4 ≤ (b - a).toNat) :
    m.write32 a v b = m b := store_apply_of_le h

theorem read64_congr {m m' : Mem} {a : Word}
    (h : ∀ i < 8, m' (a + BitVec.ofNat 64 i) = m (a + BitVec.ofNat 64 i)) :
    m'.read64 a = m.read64 a := by
  rw [read64, read64, load_congr h]

theorem read32_congr {m m' : Mem} {a : Word}
    (h : ∀ i < 4, m' (a + BitVec.ofNat 64 i) = m (a + BitVec.ofNat 64 i)) :
    m'.read32 a = m.read32 a := by
  rw [read32, read32, load_congr h]

/-! ## Pushing words -/

/-- Push words one after the other below `sp`: the memory and the new top. -/
def pushAll (m : Mem) (sp : Word) : List Word → Mem × Word
  | [] => (m, sp)
  | w :: ws => pushAll (m.write64 (sp - 8) w) (sp - 8) ws

theorem pushAll_append (xs ys : List Word) : ∀ (m : Mem) (sp : Word),
    m.pushAll sp (xs ++ ys) = (m.pushAll sp xs).1.pushAll (m.pushAll sp xs).2 ys := by
  induction xs with
  | nil => intro m sp; rfl
  | cons w ws ih => intro m sp; exact ih _ _

theorem pushAll_snd (ws : List Word) : ∀ (m : Mem) (sp : Word),
    (m.pushAll sp ws).2 = sp - loc (8 * ws.length) := by
  induction ws with
  | nil => intro m sp; simp [pushAll, loc]
  | cons w ws ih =>
      intro m sp
      rw [pushAll, ih, List.length_cons, Nat.mul_succ, Nat.add_comm, loc_add]
      exact BitVec.eq_of_toNat_eq (by simp only [loc]; bv_omega)

/-- Bytes below the new top or not below the old one stay. -/
theorem pushAll_apply (ws : List Word) : ∀ {m : Mem} {sp a : Word},
    8 * ws.length ≤ (sp - 1 - a).toNat → (m.pushAll sp ws).1 a = m a := by
  induction ws with
  | nil => intro m sp a _; rfl
  | cons w ws ih =>
      intro m sp a out
      rw [List.length_cons] at out
      rw [pushAll, ih (by bv_omega), write64_apply (by bv_omega)]

/-- The `i`-th word pushed is found at its depth. -/
theorem read64_pushAll (ws : List Word) : ∀ {m : Mem} {sp w : Word} {i : Nat},
    8 * ws.length ≤ 2 ^ 64 → ws[i]? = some w →
      (m.pushAll sp ws).1.read64 (sp - loc (8 * (i + 1))) = w := by
  induction ws with
  | nil => intro m sp w i _ h; simp at h
  | cons v ws ih =>
      intro m sp w i small h
      rw [List.length_cons] at small
      rw [pushAll]
      cases i with
      | zero =>
          obtain rfl : v = w := by simpa using h
          have keep : ((m.write64 (sp - 8) v).pushAll (sp - 8) ws).1.read64 (sp - 8) =
              (m.write64 (sp - 8) v).read64 (sp - 8) := by
            refine read64_congr fun j hj => pushAll_apply ws ?_
            have : (sp - 8 - 1 - (sp - 8 + BitVec.ofNat 64 j)).toNat = 2 ^ 64 - 1 - j := by
              bv_omega
            omega
          exact keep.trans (read64_write64 m (sp - 8) v)
      | succ i =>
          have deeper : sp - loc (8 * (i + 1 + 1)) = sp - 8 - loc (8 * (i + 1)) := by
            rw [Nat.mul_succ, Nat.add_comm, loc_add]
            exact BitVec.eq_of_toNat_eq (by simp only [loc]; bv_omega)
          rw [deeper]
          exact ih (by omega) (by simpa using h)

/-- Upwards from the new top stand the words pushed, the last one first. -/
theorem read64_pushed {ws : List Word} {m : Mem} {sp w : Word} {i : Nat}
    (small : 8 * ws.length ≤ 2 ^ 64) (h : ws.reverse[i]? = some w) :
    (m.pushAll sp ws).1.read64 (sp - loc (8 * ws.length) + loc (8 * i)) = w := by
  have hi : i < ws.length := by
    have := (List.getElem?_eq_some_iff.mp h).1
    rwa [List.length_reverse] at this
  rw [List.getElem?_reverse hi] at h
  have place : sp - loc (8 * ws.length) + loc (8 * i) =
      sp - loc (8 * (ws.length - 1 - i + 1)) := by
    have split : 8 * ws.length = 8 * (ws.length - 1 - i + 1) + 8 * i := by omega
    rw [split, loc_add]
    exact BitVec.eq_of_toNat_eq (by bv_omega)
  rw [place]
  exact read64_pushAll ws small h

end Mem
end Lib
