import Coolos.Logic.IdentityMap

/-!
# Pages mapped to themselves

The loops that map addresses to themselves, at any addresses: four levels of tables tell
apart bits 12 to 47 only, so an address from `2 ^ 48` on falls on the entry of a page
below. Below `2 ^ 48` a page once mapped to itself stays so, whatever is mapped after it
and whether or not it is page-aligned.
-/

namespace Coolos

open Lib Lib.Paging PageAllocator

/-! ## Addresses and entries -/

/-- The page whose entry `PageTable_Map` sets. -/
def lowPage (v : Word) : Nat := page v % 2 ^ 36

theorem lowPage_of_lt {v : Word} (hv : v.toNat < 2 ^ 48) : lowPage v = page v := by
  rw [lowPage, page]
  omega

/-- An address on that page, below `2 ^ 48`. -/
def low48 (v : Word) : Word := loc (v.toNat % 2 ^ 48)

theorem toNat_low48 (v : Word) : (low48 v).toNat = v.toNat % 2 ^ 48 := by
  rw [low48, toNat_loc (by omega)]

theorem page_low48 (v : Word) : page (low48 v) = lowPage v := by
  rw [lowPage, page, page, toNat_low48]
  omega

theorem index_low48 (v : Word) {level : Nat} (hl : level ≤ 3) :
    index (low48 v) level = index v level := by
  apply BitVec.eq_of_toNat_eq
  rw [toNat_index, toNat_index, page_low48, lowPage]
  match level, hl with
  | 0, _ => omega
  | 1, _ => omega
  | 2, _ => omega
  | 3, _ => omega

theorem pml4Idx_low48 (v : Word) : pml4Idx (low48 v) = pml4Idx v :=
  index_low48 v (show 3 ≤ 3 by decide)

theorem pdpIdx_low48 (v : Word) : pdpIdx (low48 v) = pdpIdx v :=
  index_low48 v (show 2 ≤ 3 by decide)

theorem pdIdx_low48 (v : Word) : pdIdx (low48 v) = pdIdx v :=
  index_low48 v (show 1 ≤ 3 by decide)

theorem ptIdx_low48 (v : Word) : ptIdx (low48 v) = ptIdx v :=
  index_low48 v (show 0 ≤ 3 by decide)

/-- `PageTable_Map` does not see the bits from 48 on of the virtual address. -/
theorem pageTableMap_low48 (k : Kernel) (pml4 v p f : Word) :
    k.pageTableMap pml4 v p f = k.pageTableMap pml4 (low48 v) p f := by
  rw [Kernel.pageTableMap, Kernel.pageTableMap, pml4Idx_low48, pdpIdx_low48, pdIdx_low48,
    ptIdx_low48]

/-- The flags the kernel maps with. -/
def KernelFlags (f : Word) : Prop := f = pageWritable ∨ f = pageWritable ||| pageUser

/-- The entry of an address mapped to itself. -/
def selfEntry (f v : Word) : Word := v ||| f ||| pagePresent

/-- What the processor reads in it. -/
theorem decode_selfEntry {f : Word} (flags : KernelFlags f) (v : Word) :
    ∃ u, decode (selfEntry f v) = some ⟨v &&& addrMask, true, u⟩ := by
  have bits (b : Word) : selfEntry f v &&& b = (v &&& b) ||| ((f ||| pagePresent) &&& b) := by
    rw [selfEntry, BitVec.or_assoc, BitVec.and_or_distrib_right]
  -- a bit the flags have is set, whatever the address
  have flag (b : Word) (pos : b ≠ 0) (mine : (f ||| pagePresent) &&& b = b) :
      selfEntry f v &&& b ≠ 0 := by
    rw [bits, mine]
    exact fun zero => pos (BitVec.or_eq_zero_iff.mp zero).2
  have present := flag presentBit (by decide) (by rcases flags with rfl | rfl <;> decide)
  have writable := flag writableBit (by decide) (by rcases flags with rfl | rfl <;> decide)
  have none : (f ||| pagePresent) &&& addrMask = 0 := by rcases flags with rfl | rfl <;> decide
  have frame : selfEntry f v &&& addrMask = v &&& addrMask := by
    rw [bits, none]
    simp
  refine ⟨decide (selfEntry f v &&& userBit ≠ 0), ?_⟩
  rw [decode, if_neg present, frame, decide_eq_true writable]

/-- The frame of an address below `2 ^ 52` is its page. -/
theorem and_addrMask {v : Word} (hv : v.toNat < 2 ^ 52) :
    v &&& addrMask = loc (page v * 4096) := by
  have round : (v &&& ~~~0xFFF).toNat = v.toNat / 2 ^ 12 * 2 ^ 12 :=
    toNat_and_not_mask (x := v) (a := 0x1000) (k := 12) (by decide) (by decide)
  have parts : v = (v &&& ~~~0xFFF) ||| (v &&& 0xFFF) := by
    have all : ~~~(0xFFF : Word) ||| 0xFFF = BitVec.allOnes 64 := by decide
    rw [← BitVec.and_or_distrib_left, all, BitVec.and_allOnes]
  have low : (v &&& 0xFFF).toNat < 4096 := by
    have mod : (v &&& 0xFFF).toNat = v.toNat % 2 ^ 12 := Nat.and_two_pow_sub_one_eq_mod v.toNat 12
    omega
  have frame : (v &&& ~~~0xFFF) = loc (page v * 4096) := by
    apply BitVec.eq_of_toNat_eq
    rw [round, page, toNat_loc (by omega)]
    rfl
  rw [← frame]
  conv_lhs => rw [parts]
  exact addrMask_of_entry (by omega) (by omega) low

/-- The entry maps page `n` to itself, writable. -/
def SelfMapped (n : Nat) (e : Word) : Prop := ∃ u, decode e = some ⟨loc (n * 4096), true, u⟩

theorem selfMapped_selfEntry {f v : Word} (flags : KernelFlags f) (hv : v.toNat < 2 ^ 48) :
    SelfMapped (page v) (selfEntry f v) := by
  obtain ⟨u, read⟩ := decode_selfEntry flags v
  exact ⟨u, by rw [read, and_addrMask (by omega)]⟩

/-! ## What is written over -/

/-- The entries that `W` says are written are the last ones of `W`, the others stay. -/
structure Overwrites (W : Nat → Word → Prop) (leaf leaf' : Nat → Word) : Prop where
  only : ∀ n, leaf' n = leaf n ∨ W n (leaf' n)
  all : ∀ n e, W n e → W n (leaf' n)

namespace Overwrites

variable {W : Nat → Word → Prop} {leaf leaf' : Nat → Word}

/-- Nothing is written. -/
theorem none (empty : ∀ n e, ¬ W n e) : Overwrites W leaf leaf where
  only _ := .inl rfl
  all _ _ h := absurd h (empty _ _)

/-- One entry. -/
theorem one (n : Nat) (e : Word) :
    Overwrites (fun n' e' => n' = n ∧ e' = e) leaf (Function.update leaf n e) where
  only n' := by
    by_cases here : n' = n
    · subst here
      exact .inr ⟨rfl, Function.update_self ..⟩
    · exact .inl (Function.update_of_ne here ..)
  all n' e' h := by
    obtain ⟨rfl, rfl⟩ := h
    exact ⟨rfl, Function.update_self ..⟩

theorem keeps (wrote : Overwrites W leaf leaf') (self : ∀ n e, W n e → SelfMapped n e) {n : Nat}
    (old : SelfMapped n (leaf n)) : SelfMapped n (leaf' n) := by
  rcases wrote.only n with same | new
  · rwa [same]
  · exact self n _ new

end Overwrites

/-- One phase after the other. -/
inductive Phases : List (Nat → Word → Prop) → (Nat → Word) → (Nat → Word) → Prop
  | nil {leaf : Nat → Word} : Phases [] leaf leaf
  | cons {W : Nat → Word → Prop} {L : List (Nat → Word → Prop)} {leaf leaf₁ leaf' : Nat → Word} :
      Overwrites W leaf leaf₁ → Phases L leaf₁ leaf' → Phases (W :: L) leaf leaf'

namespace Phases

variable {L L' : List (Nat → Word → Prop)} {leaf leaf₁ leaf' : Nat → Word}

theorem append (first : Phases L leaf leaf₁) (rest : Phases L' leaf₁ leaf') :
    Phases (L ++ L') leaf leaf' := by
  induction first with
  | nil => exact rest
  | cons wrote _ ih => exact .cons wrote (ih rest)

theorem keeps (phases : Phases L leaf leaf') (self : ∀ W ∈ L, ∀ n e, W n e → SelfMapped n e)
    {n : Nat} (old : SelfMapped n (leaf n)) : SelfMapped n (leaf' n) := by
  induction phases with
  | nil => exact old
  | cons wrote _ ih =>
      have here := wrote.keeps (self _ List.mem_cons_self) old
      exact ih (fun W hW => self W (List.mem_cons_of_mem _ hW)) here

/-- What one of the phases maps to itself is mapped to itself in the end. -/
theorem maps (phases : Phases L leaf leaf') (self : ∀ W ∈ L, ∀ n e, W n e → SelfMapped n e)
    {W : Nat → Word → Prop} (hW : W ∈ L) {n : Nat} {e : Word} (written : W n e) :
    SelfMapped n (leaf' n) := by
  induction phases with
  | nil => cases hW
  | cons wrote rest ih =>
      have later := fun W hW => self W (List.mem_cons_of_mem _ hW)
      rcases List.mem_cons.mp hW with rfl | hW
      · have here := self _ List.mem_cons_self n _ (wrote.all n e written)
        exact rest.keeps later here
      · exact ih later hW

/-- What no later phase writes over stays. -/
theorem wins {W : Nat → Word → Prop} (phases : Phases (L ++ W :: L') leaf leaf') {n : Nat}
    {e : Word} (written : W n e) (none : ∀ W' ∈ L', ∀ e', ¬ W' n e') : W n (leaf' n) := by
  induction L generalizing leaf with
  | nil =>
      cases phases with
      | cons wrote rest =>
          have here := wrote.all n e written
          suffices leaf' n = _ by rwa [this]
          clear wrote here
          induction rest with
          | nil => rfl
          | cons wrote _ ih =>
              have later := ih fun W' hW' => none W' (List.mem_cons_of_mem _ hW')
              rw [later]
              exact (wrote.only n).resolve_right (none _ List.mem_cons_self _)
  | cons V L ih =>
      cases phases with
      | cons _ rest => exact ih rest

end Phases

/-! ## A loop, turn by turn -/

/-- The address of turn `i` of a loop from `addr` on. -/
def turn (addr : Word) (i : Nat) : Word := addr + loc (i * 4096)

/-- How many turns a loop takes. -/
def turnsTo (addr stop : Word) : Nat := (stop.toNat - addr.toNat + 4095) / 4096

/-- The kernel after `i` turns. -/
def Kernel.turns (k : Kernel) (pml4 f addr : Word) : Nat → Kernel
  | 0 => k
  | i + 1 => (k.turns pml4 f addr i).pageTableMap pml4 (turn addr i) (turn addr i) f

theorem turn_zero (addr : Word) : turn addr 0 = addr := by
  rw [turn, Nat.zero_mul]
  exact BitVec.add_zero addr

theorem turn_succ (addr : Word) (i : Nat) : turn addr (i + 1) = turn addr i + pageSize := by
  rw [turn, turn, Nat.add_mul, loc_add, ← BitVec.add_assoc]
  rfl

section Turns

variable {addr stop : Word} {i : Nat}

theorem toNat_turn (hi : i ≤ turnsTo addr stop) (top : stop.toNat + 4096 ≤ 2 ^ 64) :
    (turn addr i).toNat = addr.toNat + i * 4096 := by
  have := addr.isLt
  have bound : addr.toNat + i * 4096 < 2 ^ 64 := by
    rw [turnsTo] at hi
    omega
  rw [turn, BitVec.toNat_add, toNat_loc (by omega), Nat.mod_eq_of_lt bound]

/-- The loop goes on exactly for its turns. -/
theorem turn_lt (hi : i ≤ turnsTo addr stop) (top : stop.toNat + 4096 ≤ 2 ^ 64) :
    turn addr i < stop ↔ i < turnsTo addr stop := by
  rw [BitVec.lt_def, toNat_turn hi top]
  rw [turnsTo] at hi ⊢
  omega

/-- The loop, from turn `i` on. -/
theorem mapRange_from (pml4 f : Word) (k : Kernel) (top : stop.toNat + 4096 ≤ 2 ^ 64) :
    ∀ (fuel i : Nat), i ≤ turnsTo addr stop → turnsTo addr stop - i < fuel →
      Kernel.mapRange pml4 stop f fuel (k.turns pml4 f addr i) (turn addr i) =
        some (k.turns pml4 f addr (turnsTo addr stop)) := by
  intro fuel
  -- on the fuel, one turn for each unit
  induction fuel with
  | zero =>
      intro i _ more
      exact absurd more (Nat.not_lt_zero _)
  | succ fuel ih =>
      intro i hi more
      rw [Kernel.mapRange]
      by_cases goes : i < turnsTo addr stop
      · have next := ih (i + 1) goes (by omega)
        rw [turn_succ] at next
        rw [if_pos ((turn_lt hi top).mpr goes)]
        exact next
      · obtain rfl : i = turnsTo addr stop := by omega
        rw [if_neg fun less => goes ((turn_lt hi top).mp less)]

theorem turnsTo_lt (addr stop : Word) : turnsTo addr stop < 2 ^ 64 := by
  have := stop.isLt
  rw [turnsTo]
  omega

/-- A loop whose bound is not within a page of the top takes all its turns. -/
theorem mapRange_turns (pml4 f : Word) (k : Kernel) (top : stop.toNat + 4096 ≤ 2 ^ 64) :
    Kernel.mapRange pml4 stop f (2 ^ 64) k addr =
      some (k.turns pml4 f addr (turnsTo addr stop)) := by
  have whole : Kernel.mapRange pml4 stop f (2 ^ 64) (k.turns pml4 f addr 0) (turn addr 0) = _ :=
    mapRange_from pml4 f k top (2 ^ 64) 0 (Nat.zero_le _) (turnsTo_lt addr stop)
  rwa [turn_zero] at whole

end Turns

/-! ## What the turns do to the tables -/

/-- `e` is what one of the first `n` turns writes for page `p`. -/
def Written (f addr : Word) (n p : Nat) (e : Word) : Prop :=
  ∃ i < n, lowPage (turn addr i) = p ∧ e = selfEntry f (turn addr i)

theorem overwrites_turn {f addr : Word} {i : Nat} {leaf leaf₁ : Nat → Word}
    (before : Overwrites (Written f addr i) leaf leaf₁) :
    Overwrites (Written f addr (i + 1)) leaf
      (Function.update leaf₁ (lowPage (turn addr i)) (selfEntry f (turn addr i))) := by
  have widen {p : Nat} {e : Word} (h : Written f addr i p e) : Written f addr (i + 1) p e := by
    obtain ⟨j, hj, here⟩ := h
    exact ⟨j, by omega, here⟩
  have last : Written f addr (i + 1) (lowPage (turn addr i)) (selfEntry f (turn addr i)) :=
    ⟨i, by omega, rfl, rfl⟩
  constructor
  · intro p
    by_cases here : p = lowPage (turn addr i)
    · subst here
      rw [Function.update_self]
      exact .inr last
    · rw [Function.update_of_ne here]
      exact (before.only p).imp_right widen
  · intro p e written
    by_cases here : p = lowPage (turn addr i)
    · subst here
      rw [Function.update_self]
      exact last
    · rw [Function.update_of_ne here]
      obtain ⟨j, hj, place, entry⟩ := written
      have earlier : j < i := by
        rcases Nat.lt_succ_iff_lt_or_eq.mp hj with less | rfl
        · exact less
        · exact absurd place.symm here
      exact widen (before.all p e ⟨j, earlier, place, entry⟩)

section Tables

variable {k : Kernel} {owned : List (Word × Word)} {root : Nat} {T : Tables} {leaf : Nat → Word}
  {f addr : Word}

/-- The turns, if each `PageTable_Map` finds what it needs. `S` is what the turns
carry along for that. -/
theorem TablesInv.turns {S : Kernel → Tables → Prop} {n : Nat}
    (each : ∀ i < n, ∀ T leaf, TablesInv (k.turns (loc (root * 4096)) f addr i) owned root T leaf →
      S (k.turns (loc (root * 4096)) f addr i) T →
      ∃ T', TablesInv (k.turns (loc (root * 4096)) f addr (i + 1)) owned root T'
          (Function.update leaf (lowPage (turn addr i)) (selfEntry f (turn addr i))) ∧
        S (k.turns (loc (root * 4096)) f addr (i + 1)) T')
    (inv : TablesInv k owned root T leaf) (start : S k T) : ∀ i ≤ n,
    ∃ T' leaf', TablesInv (k.turns (loc (root * 4096)) f addr i) owned root T' leaf' ∧
      S (k.turns (loc (root * 4096)) f addr i) T' ∧ Overwrites (Written f addr i) leaf leaf' := by
  intro i
  induction i with
  | zero =>
      intro _
      refine ⟨T, leaf, inv, start, .none ?_⟩
      rintro p e ⟨j, hj, -⟩
      exact Nat.not_lt_zero j hj
  | succ i ih =>
      intro hi
      obtain ⟨T₁, leaf₁, inv₁, start₁, wrote₁⟩ := ih (by omega)
      obtain ⟨T', inv', start'⟩ := each i hi T₁ leaf₁ inv₁ start₁
      exact ⟨T', _, inv', start', overwrites_turn wrote₁⟩

/-- The turns below `2 ^ 48`, if each finds its tables or pages for them. -/
theorem TablesInv.turns_supplied {n : Nat} (inv : TablesInv k owned root T leaf)
    (place : ∀ i < n, (turn addr i).toNat < 2 ^ 48)
    (supplied : ∀ i < n, ∀ T leaf,
      TablesInv (k.turns (loc (root * 4096)) f addr i) owned root T leaf →
      Supplied (k.turns (loc (root * 4096)) f addr i) (loc (root * 4096)) (turn addr i)) :
    ∀ i ≤ n, ∃ T' leaf', TablesInv (k.turns (loc (root * 4096)) f addr i) owned root T' leaf' ∧
      Overwrites (Written f addr i) leaf leaf' := by
  have each : ∀ i < n, ∀ T leaf,
      TablesInv (k.turns (loc (root * 4096)) f addr i) owned root T leaf → True →
      ∃ T', TablesInv (k.turns (loc (root * 4096)) f addr (i + 1)) owned root T'
        (Function.update leaf (lowPage (turn addr i)) (selfEntry f (turn addr i))) ∧ True := by
    intro i hi T leaf inv _
    obtain ⟨T', inv'⟩ := inv.map (place i hi) (supplied i hi T leaf inv) (turn addr i) f
    rw [lowPage_of_lt (place i hi)]
    exact ⟨T', inv', trivial⟩
  intro i hi
  obtain ⟨T', leaf', inv', -, wrote⟩ := inv.turns (S := fun _ _ => True) each trivial i hi
  exact ⟨T', leaf', inv', wrote⟩

variable {P : Finset Nat} {m : Nat}

/-- `PageTable_Map` of any address to itself, with pages enough. -/
theorem TablesInv.map_low (inv : TablesInv k owned root T leaf) (spare : Spare k T P m)
    {v : Word} (hp : lowPage v ∈ P) (f : Word) :
    ∃ T', TablesInv (k.pageTableMap (loc (root * 4096)) v v f) owned root T'
        (Function.update leaf (lowPage v) (selfEntry f v)) ∧
      Spare (k.pageTableMap (loc (root * 4096)) v v f) T' P m := by
  have low : (low48 v).toNat < 2 ^ 48 := by
    rw [toNat_low48]
    exact Nat.mod_lt _ (by decide)
  rw [← page_low48] at hp ⊢
  rw [pageTableMap_low48]
  exact inv.map_spare spare low hp v f

/-- A loop of `PageTable_Init` at any addresses, with pages enough. -/
theorem TablesInv.mapRange_low {stop : Word} (inv : TablesInv k owned root T leaf)
    (spare : Spare k T P m) (f : Word) (top : stop.toNat + 4096 ≤ 2 ^ 64)
    (sub : ∀ i < turnsTo addr stop, lowPage (turn addr i) ∈ P) :
    ∃ k' T' leaf', Kernel.mapRange (loc (root * 4096)) stop f (2 ^ 64) k addr = some k' ∧
      TablesInv k' owned root T' leaf' ∧ Spare k' T' P m ∧
      Overwrites (Written f addr (turnsTo addr stop)) leaf leaf' := by
  obtain ⟨T', leaf', inv', spare', wrote⟩ := inv.turns (S := fun k T => Spare k T P m)
    (fun i hi T leaf inv spare => inv.map_low spare (sub i hi) f) spare (turnsTo addr stop) le_rfl
  exact ⟨_, T', leaf', mapRange_turns _ f k top, inv', spare', wrote⟩

end Tables

end Coolos
