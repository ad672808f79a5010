import Coolos.Logic.BootRun

/-!
# What `PageTable_Init` leaves, for any arguments

Each loop of `PageTable_Init` is a phase that writes over entries of those before it.
Nothing is asked of the addresses but that the loops end. When everything lies below
`2 ^ 48` a page that some phase maps is mapped to itself in the end.
-/

namespace Coolos

open Lib Lib.Paging PageAllocator

/-! ## The phases -/

/-- What a loop from `addr` up to `stop` writes. -/
def loopWrites (f addr stop : Word) : Nat → Word → Prop := Written f addr (turnsTo addr stop)

/-- What the loop over one descriptor writes. -/
def entryWrites (d : MemoryDescriptor) (n : Nat) (e : Word) : Prop :=
  mappable d ∧ loopWrites (pageWritable ||| pageUser) d.physicalStart
    (d.physicalStart + d.numberOfPages * pageSize) n e

/-- The entry for the LAPIC, if there is one. -/
def lapicWrites (lapicAddr : Word) (n : Nat) (e : Word) : Prop :=
  lapicAddr ≠ 0 ∧ n = lowPage lapicAddr ∧ e = selfEntry pageWritable lapicAddr

/-- The phases behind the memory map. -/
def deviceWrites (fbBase fbSize lapicAddr rsp : Word) : List (Nat → Word → Prop) :=
  [ loopWrites (pageWritable ||| pageUser) fbBase (fbBase + fbSize),
    lapicWrites lapicAddr,
    loopWrites pageWritable ioapicAddr 0xFEC01000,
    loopWrites (pageWritable ||| pageUser) (stackWindow rsp) (stackWindow rsp + 0x100000) ]

/-- All of them. -/
def initWrites (fbBase fbSize : Word) (map : List MemoryDescriptor) (lapicAddr rsp : Word) :
    List (Nat → Word → Prop) :=
  map.map entryWrites ++ deviceWrites fbBase fbSize lapicAddr rsp

/-- Those of a boot. -/
def Firmware.writes (f : Firmware) : List (Nat → Word → Prop) :=
  initWrites f.fbBase f.fbSize f.map f.lapicAddr f.rsp

/-- The tables a boot needs. -/
noncomputable def Firmware.tables (f : Firmware) : Nat :=
  tablesNeeded (identityPages f.fbBase f.fbSize f.map f.lapicAddr f.rsp)

/-! ## `PageTable_Init` goes through them -/

section Init

variable {k : Kernel} {owned : List (Word × Word)} {root : Nat} {T : Tables} {leaf : Nat → Word}
  {P : Finset Nat} {m : Nat}

/-- A loop of `PageTable_Init`. -/
theorem TablesInv.loop (inv : TablesInv k owned root T leaf) (addr stop : Word)
    (spare : Spare k T P m) (f : Word) (top : stop.toNat + 4096 ≤ 2 ^ 64)
    (covers : ∀ n e, loopWrites f addr stop n e → n ∈ P) :
    ∃ k' T' leaf', Kernel.mapRange (loc (root * 4096)) stop f (2 ^ 64) k addr = some k' ∧
      TablesInv k' owned root T' leaf' ∧ Spare k' T' P m ∧
      Overwrites (loopWrites f addr stop) leaf leaf' :=
  inv.mapRange_low spare f top fun i hi => covers _ _ ⟨i, hi, rfl, rfl⟩

/-- The loop over the memory map. -/
theorem TablesInv.entries {map : List MemoryDescriptor} : ∀ {k : Kernel} {T : Tables}
    {leaf : Nat → Word}, TablesInv k owned root T leaf → Spare k T P m →
    (∀ d ∈ map, d.WellPlaced) → (∀ W ∈ map.map entryWrites, ∀ n e, W n e → n ∈ P) →
    ∃ k' T' leaf', map.foldlM (Kernel.mapEntry (loc (root * 4096))) k = some k' ∧
      TablesInv k' owned root T' leaf' ∧ Spare k' T' P m ∧
      Phases (map.map entryWrites) leaf leaf' := by
  induction map with
  | nil =>
      intro k T leaf inv spare _ _
      exact ⟨k, T, leaf, rfl, inv, spare, .nil⟩
  | cons d map ih =>
      intro k T leaf inv spare ok covers
      have tail : ∀ e ∈ map, e.WellPlaced := fun e he => ok e (List.mem_cons_of_mem _ he)
      have coversTail : ∀ W ∈ map.map entryWrites, ∀ n e, W n e → n ∈ P :=
        fun W hW => covers W (List.mem_cons_of_mem _ hW)
      have here := covers (entryWrites d) List.mem_cons_self
      by_cases use : mappable d
      · obtain ⟨k₁, T₁, leaf₁, run₁, inv₁, spare₁, wrote⟩ := inv.loop d.physicalStart _ spare
          (pageWritable ||| pageUser) (ok d List.mem_cons_self).stop
          fun n e written => here n e ⟨use, written⟩
        obtain ⟨k', T', leaf', run, inv', spare', phases⟩ := ih inv₁ spare₁ tail coversTail
        refine ⟨k', T', leaf', ?_, inv', spare', .cons ?_ phases⟩
        · rw [List.foldlM_cons, Kernel.mapEntry, if_pos use, run₁]
          exact run
        · exact ⟨fun n => (wrote.only n).imp_right fun written => ⟨use, written⟩,
            fun n e written => ⟨use, wrote.all n e written.2⟩⟩
      · obtain ⟨k', T', leaf', run, inv', spare', phases⟩ := ih inv spare tail coversTail
        refine ⟨k', T', leaf', ?_, inv', spare', .cons (.none ?_) phases⟩
        · rw [List.foldlM_cons, Kernel.mapEntry, if_neg use]
          exact run
        · intro n e written
          exact use written.1

/-- The LAPIC, if there is one. -/
theorem TablesInv.lapicPhase (inv : TablesInv k owned root T leaf) (spare : Spare k T P m)
    (lapicAddr : Word) (covers : ∀ n e, lapicWrites lapicAddr n e → n ∈ P) :
    let k' := if lapicAddr ≠ 0 then
      k.pageTableMap (loc (root * 4096)) lapicAddr lapicAddr pageWritable else k
    ∃ T' leaf', TablesInv k' owned root T' leaf' ∧ Spare k' T' P m ∧
      Overwrites (lapicWrites lapicAddr) leaf leaf' := by
  intro k'
  by_cases there : lapicAddr ≠ 0
  · obtain ⟨T', inv', spare'⟩ := inv.map_low spare (covers _ _ ⟨there, rfl, rfl⟩) pageWritable
    have wrote : Overwrites _ leaf _ :=
      .one (lowPage lapicAddr) (selfEntry pageWritable lapicAddr)
    simp only [k', if_pos there]
    refine ⟨T', _, inv', spare', ?_⟩
    exact ⟨fun n => (wrote.only n).imp_right fun written => ⟨there, written⟩,
      fun n e written => ⟨there, wrote.all n e written.2⟩⟩
  · simp only [k', if_neg there]
    refine ⟨T, leaf, inv, spare, .none ?_⟩
    intro n e written
    exact there written.1

variable {fbBase fbSize lapicAddr rsp : Word} {map : List MemoryDescriptor}

/-- `PageTable_Init` returns, with tables that went through the phases, and `m` pages are
left. `P` are the pages whose entries are written. -/
theorem pageTableInit_phases (ok : ∀ d ∈ map, d.WellPlaced)
    (fb : (fbBase + fbSize).toNat + 4096 ≤ 2 ^ 64)
    (covers : ∀ W ∈ initWrites fbBase fbSize map lapicAddr rsp, ∀ n e, W n e → n ∈ P)
    (enough : tablesNeeded P + m ≤ k.pages.clearPages.card) :
    ∃ k' root T leaf,
      k.pageTableInit fbBase fbSize map lapicAddr rsp = some (k', loc (root * 4096)) ∧
      TablesInv k' [] root T leaf ∧ Spare k' T P m ∧
      Phases (initWrites fbBase fbSize map lapicAddr rsp) (fun _ => 0) leaf := by
  rcases alloc : k.pages.alloc 1 with ⟨pa, pml4⟩
  have nonzero : pml4 ≠ 0 := by
    have found := (alloc_one_ne_zero_iff k.pages).mpr
      (Nat.lt_of_lt_of_le (tablesNeeded_pos _) ((Nat.le_add_right ..).trans enough))
    rwa [alloc] at found
  have own : OwnedInv k.pages [] := ⟨.nil, by simp, by simp⟩
  obtain ⟨root, rfl, inv⟩ := TablesInv.fresh own alloc nonzero
  have spare := spare_single enough alloc nonzero (clearTable k.mem (loc (root * 4096)) 512) root
  have device (W : Nat → Word → Prop) (hW : W ∈ deviceWrites fbBase fbSize lapicAddr rsp) :
      ∀ n e, W n e → n ∈ P := covers W (List.mem_append_right _ hW)
  obtain ⟨k₁, T₁, leaf₁, run₁, inv₁, spare₁, entries⟩ := inv.entries spare ok
    fun W hW => covers W (List.mem_append_left _ hW)
  obtain ⟨k₂, T₂, leaf₂, run₂, inv₂, spare₂, wrote₂⟩ := inv₁.loop fbBase _ spare₁
    (pageWritable ||| pageUser) fb (device _ (.head _))
  obtain ⟨T₃, leaf₃, inv₃, spare₃, wrote₃⟩ := inv₂.lapicPhase spare₂ lapicAddr
    (device _ (.tail _ (.head _)))
  obtain ⟨k₄, T₄, leaf₄, run₄, inv₄, spare₄, wrote₄⟩ := inv₃.loop ioapicAddr
    0xFEC01000 spare₃ pageWritable (by decide) (device _ (.tail _ (.tail _ (.head _))))
  obtain ⟨k₅, T₅, leaf₅, run₅, inv₅, spare₅, wrote₅⟩ := inv₄.loop (stackWindow rsp) _ spare₄
    (pageWritable ||| pageUser) (stackWindow_stop rsp)
    (device _ (.tail _ (.tail _ (.tail _ (.head _)))))
  refine ⟨k₅, root, T₅, leaf₅, ?_, inv₅, spare₅, ?_⟩
  · rw [Kernel.pageTableInit, alloc]
    dsimp only [Option.bind_eq_bind]
    rw [run₁, Option.bind_some, run₂, Option.bind_some, run₄, Option.bind_some, run₅,
      Option.bind_some]
  · exact entries.append (.cons wrote₂ (.cons wrote₃ (.cons wrote₄ (.cons wrote₅ .nil))))

/-- Whose entries a loop writes: those of the pages from that of `addr` on. -/
theorem lowPage_of_loop {f addr stop : Word} (top : stop.toNat + 4096 ≤ 2 ^ 64) {n : Nat} {e : Word}
    (written : loopWrites f addr stop n e) :
    ∃ i < turnsTo addr stop, n = (page addr + i) % 2 ^ 36 ∧ e = selfEntry f (turn addr i) := by
  obtain ⟨i, hi, rfl, rfl⟩ := written
  have place := toNat_turn (Nat.le_of_lt hi) top
  refine ⟨i, hi, ?_, rfl⟩
  rw [lowPage, page, page, place, Nat.add_mul_div_right _ _ (by decide)]

/-! ## Below `2 ^ 48` -/

theorem selfMapped_loop {f addr stop : Word} (flags : KernelFlags f) (low : stop.toNat ≤ 2 ^ 48)
    {n : Nat} {e : Word} (written : loopWrites f addr stop n e) : SelfMapped n e := by
  obtain ⟨i, hi, rfl, rfl⟩ := written
  have inside := (turn_lt (Nat.le_of_lt hi) (by omega)).mpr hi
  rw [BitVec.lt_def] at inside
  rw [lowPage_of_lt (by omega)]
  exact selfMapped_selfEntry flags (by omega)

/-- Where a descriptor below `2 ^ 48` ends. -/
theorem toNat_stop {d : MemoryDescriptor}
    (low : d.physicalStart.toNat + d.numberOfPages.toNat * 4096 ≤ 2 ^ 48) :
    (d.physicalStart + d.numberOfPages * pageSize).toNat =
      d.physicalStart.toNat + d.numberOfPages.toNat * 4096 := by
  rw [BitVec.toNat_add, BitVec.toNat_mul, show pageSize.toNat = 4096 from rfl]
  omega

theorem toNat_windowStop {rsp : Word} (low : rsp.toNat < 2 ^ 48) :
    (stackWindow rsp + 0x100000).toNat = (rsp.toNat / 2 ^ 20 + 1) * 2 ^ 20 := by
  have first := toNat_stackWindow rsp
  rw [BitVec.toNat_add, first, show (0x100000 : Word).toNat = 2 ^ 20 from rfl]
  omega

/-- Every phase maps pages to themselves. -/
theorem InitLow.self (low : InitLow fbBase fbSize map lapicAddr rsp) :
    ∀ W ∈ initWrites fbBase fbSize map lapicAddr rsp, ∀ n e, W n e → SelfMapped n e := by
  intro W hW n e written
  rcases List.mem_append.mp hW with entry | device
  · obtain ⟨d, hd, rfl⟩ := List.mem_map.mp entry
    obtain ⟨use, written⟩ := written
    have top := low.map d hd use
    exact selfMapped_loop (.inr rfl) (by rw [toNat_stop top]; exact top) written
  · simp only [deviceWrites, List.mem_cons, List.not_mem_nil, or_false] at device
    rcases device with rfl | rfl | rfl | rfl
    · have top := low.framebuffer
      have stop : (fbBase + fbSize).toNat ≤ 2 ^ 48 := by
        rw [BitVec.toNat_add]
        omega
      exact selfMapped_loop (.inr rfl) stop written
    · obtain ⟨-, rfl, rfl⟩ := written
      rw [lowPage_of_lt low.lapic]
      exact selfMapped_selfEntry (.inl rfl) low.lapic
    · exact selfMapped_loop (.inl rfl) (by decide) written
    · have stop := toNat_windowStop low.stack
      have below := low.stack
      exact selfMapped_loop (.inr rfl) (by omega) written

/-- A loop below `2 ^ 48` writes for the pages of its addresses. -/
theorem page_of_loop {f addr stop : Word} (low : stop.toNat ≤ 2 ^ 48) {n : Nat} {e : Word}
    (written : loopWrites f addr stop n e) :
    addr.toNat < (n + 1) * 4096 ∧ n * 4096 < stop.toNat ∧
      (addr.toNat % 4096 = 0 → addr.toNat ≤ n * 4096) := by
  obtain ⟨i, hi, rfl, -⟩ := written
  have place := toNat_turn (Nat.le_of_lt hi) (show stop.toNat + 4096 ≤ 2 ^ 64 by omega)
  have inside := (turn_lt (Nat.le_of_lt hi) (by omega)).mpr hi
  rw [BitVec.lt_def] at inside
  rw [lowPage_of_lt (by omega), page]
  omega

/-- Every phase writes for pages that are to be mapped. -/
theorem InitLow.covers (low : InitLow fbBase fbSize map lapicAddr rsp)
    (ok : ∀ d ∈ map, d.WellPlaced) :
    ∀ W ∈ initWrites fbBase fbSize map lapicAddr rsp, ∀ n e, W n e →
      n ∈ identityPages fbBase fbSize map lapicAddr rsp := by
  intro W hW n e written
  rcases List.mem_append.mp hW with entry | device
  · obtain ⟨d, hd, rfl⟩ := List.mem_map.mp entry
    obtain ⟨use, written⟩ := written
    have top := low.map d hd use
    have stop := toNat_stop top
    have aligned := (ok d hd).1
    obtain ⟨-, high, first⟩ := page_of_loop (by omega) written
    refine .inl (.inl (.inl (.inl ⟨d, hd, use, first aligned, ?_⟩)))
    omega
  · simp only [deviceWrites, List.mem_cons, List.not_mem_nil, or_false] at device
    rcases device with rfl | rfl | rfl | rfl
    · have top := low.framebuffer
      have stop : (fbBase + fbSize).toNat = fbBase.toNat + fbSize.toNat := by
        rw [BitVec.toNat_add]
        omega
      obtain ⟨first, high, -⟩ := page_of_loop (by omega) written
      exact .inl (.inl (.inl (.inr ⟨first, by omega⟩)))
    · obtain ⟨there, rfl, -⟩ := written
      exact .inl (.inl (.inr ⟨there, lowPage_of_lt low.lapic⟩))
    · obtain ⟨first, high, -⟩ := page_of_loop (by decide) written
      have first : 0xFEC00000 < (n + 1) * 4096 := first
      have high : n * 4096 < 0xFEC01000 := high
      refine .inl (.inr ?_)
      show n = 0xFEC00000 / 4096
      omega
    · have stop := toNat_windowStop low.stack
      have start := toNat_stackWindow rsp
      have below := low.stack
      obtain ⟨first, high, -⟩ := page_of_loop (by omega) written
      refine .inr ?_
      show n / 256 = rsp.toNat / 2 ^ 20
      omega

/-- A loop over a page-aligned descriptor writes for all of its pages. -/
theorem entryWrites_of_holds {d : MemoryDescriptor} (use : mappable d) (ok : d.WellPlaced)
    (low : d.physicalStart.toNat + d.numberOfPages.toNat * 4096 ≤ 2 ^ 48) {n : Nat}
    (hn : d.Holds n) : ∃ e, entryWrites d n e := by
  obtain ⟨first, last⟩ := hn
  have stop := toNat_stop low
  have aligned := ok.1
  have inside : n - d.physicalStart.toNat / 4096 <
      turnsTo d.physicalStart (d.physicalStart + d.numberOfPages * pageSize) := by
    rw [turnsTo, stop]
    omega
  have place := toNat_turn (Nat.le_of_lt inside) ok.stop
  refine ⟨_, use, _, inside, ?_, rfl⟩
  rw [lowPage_of_lt (by omega), page]
  omega

/-- The pages of the memory map are mapped to themselves in the end. -/
theorem InitLow.described (low : InitLow fbBase fbSize map lapicAddr rsp)
    (ok : ∀ d ∈ map, d.WellPlaced) {leaf : Nat → Word}
    (phases : Phases (initWrites fbBase fbSize map lapicAddr rsp) (fun _ => 0) leaf) :
    ∀ n ∈ describedPages map, SelfMapped n (leaf n) := by
  rintro n ⟨d, hd, use, hn⟩
  obtain ⟨e, written⟩ := entryWrites_of_holds use (ok d hd) (low.map d hd use) hn
  exact phases.maps low.self (List.mem_append_left _ (List.mem_map_of_mem hd)) written

end Init
end Coolos
