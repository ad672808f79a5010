import Coolos.Logic.InitPhases
import Coolos.Logic.PageTableRun
import Coolos.Logic.StackRun

/-!
# Runs with pages mapped to themselves

After `PageTable_Init` the kernel takes and gives back pages, writes to the pages it took,
and maps device registers. `Maps` says of a kernel that its tables stand, on pages nobody
else has, and map a set of pages to themselves; every step of a run keeps it.
-/

namespace Coolos

open Lib Lib.Paging PageAllocator

/-! ## Taking pages and giving them back -/

section Tables

variable {k k' : Kernel} {owned : List (Word × Word)} {root : Nat} {T : Tables} {leaf : Nat → Word}

/-- Someone takes the ranges `new`, and writes to them at most. -/
theorem TablesInv.taken (inv : TablesInv k owned root T leaf) (new : List (Word × Word))
    (total : k'.pages.totalPages = k.pages.totalPages)
    (shrinks : ∀ p, k'.pages.Clear p → k.pages.Clear p)
    (fresh : ∀ a ∈ new, ∀ p, InRange a p → k.pages.Clear p ∧ ¬ k'.pages.Clear p)
    (apart : new.Pairwise fun a b => ∀ p, ¬ (InRange a p ∧ InRange b p))
    (inside : ∀ a ∈ new, a.1.toNat / 4096 + a.2.toNat ≤ maxPages)
    (writes : ∀ x, k'.mem x = k.mem x ∨ ∃ a ∈ new, InRange a (page x)) :
    TablesInv k' (new ++ owned) root T leaf where
  holds := by
    apply inv.holds.congr
    intro l n t ht i hi
    have kept := inv.kept l n t ht
    apply entry_congr (inv.holds.small l n t ht) hi
    intro x hx
    rcases writes x with same | ⟨a, ha, here⟩
    · exact same
    · -- the page of a table was not clear
      rw [show page x = t from hx] at here
      exact absurd (fresh a ha t here).1 kept.used
  kept l n t ht := by
    have kept := inv.kept l n t ht
    refine ⟨kept.low, total ▸ kept.high, fun clear => kept.used (shrinks t clear), ?_⟩
    intro a ha here
    rcases List.mem_append.mp ha with ha | ha
    · exact kept.used (fresh a ha t here).1
    · exact kept.apart a ha here
  own := by
    constructor
    · refine List.pairwise_append.mpr ⟨apart, inv.own.disjoint, ?_⟩
      rintro a ha b hb p ⟨here, there⟩
      exact inv.own.used b hb p there (fresh a ha p here).1
    · intro a ha p here
      rcases List.mem_append.mp ha with ha | ha
      · exact (fresh a ha p here).2
      · exact fun clear => inv.own.used a ha p here (shrinks p clear)
    · intro a ha
      rcases List.mem_append.mp ha with ha | ha
      · exact inside a ha
      · exact inv.own.inside a ha

/-- Pages are taken that nobody keeps track of. -/
theorem TablesInv.shrink (inv : TablesInv k owned root T leaf)
    (total : k'.pages.totalPages = k.pages.totalPages)
    (shrinks : ∀ p, k'.pages.Clear p → k.pages.Clear p) (mem : k'.mem = k.mem) :
    TablesInv k' owned root T leaf :=
  inv.taken [] total shrinks (by simp) .nil (by simp) fun _ => .inl (by rw [mem])

/-- One of the ranges is given back. -/
theorem TablesInv.given (inv : TablesInv k owned root T leaf) {ptr pages : Word}
    (mine : (ptr, pages) ∈ owned) (free : k'.pages = k.pages.free ptr pages)
    (mem : k'.mem = k.mem) : TablesInv k' (owned.erase (ptr, pages)) root T leaf where
  holds := by
    rw [mem]
    exact inv.holds
  kept l n t ht := by
    rw [free]
    exact (inv.kept l n t ht).free inv.own mine
  own := by
    rw [free]
    exact inv.own.free mine

/-- Someone writes to other pages than the tables. -/
theorem TablesInv.written (inv : TablesInv k owned root T leaf) {m : Mem}
    (same : ∀ l t, WalkTable k.mem 3 (loc (root * 4096)) l t →
      ∀ x : Word, page x = page t → m x = k.mem x) :
    TablesInv { k with mem := m } owned root (T.prune 3)
      fun n => if n < 512 ^ (3 + 1) then leaf n else 0 where
  holds := inv.holds.of_walkTable same
  kept l n t ht := inv.kept l n t (Tables.prune_eq_some.mp ht).2
  own := inv.own

end Tables

/-! ## The stacks of tasks -/

/-- The task has a stack that `Scheduler_TerminateCurrentTask` would give back. -/
def HasStack (t : TCB) : Prop := t.stackBase ≠ 0 ∧ t.stackPages ≠ 0

/-- The range of the stack. -/
def TCB.stackRange (t : TCB) : Word × Word := (t.stackBase, t.stackPages)

/-- What is left of a task has no stack. -/
theorem not_hasStack_retire (t : TCB) : ¬ HasStack (Kernel.retire t) := by
  rintro ⟨base, pages⟩
  unfold Kernel.retire at base pages
  by_cases owns : t.stackBase ≠ 0 ∧ t.stackPages ≠ 0
  · rw [if_pos owns] at base
    exact base rfl
  · rw [if_neg owns] at base pages
    exact owns ⟨base, pages⟩

/-- The first page of a stack. -/
theorem HasStack.first {t : TCB} (has : HasStack t) :
    InRange t.stackRange (t.stackBase.toNat / 4096) := by
  have some : t.stackPages.toNat ≠ 0 := fun zero => has.2 (BitVec.eq_of_toNat_eq zero)
  refine ⟨le_rfl, ?_⟩
  show t.stackBase.toNat / 4096 < t.stackBase.toNat / 4096 + t.stackPages.toNat
  omega

theorem releaseStack_of_has {pa : PageAllocator} {t : TCB} (has : HasStack t) :
    Kernel.releaseStack pa t = pa.free t.stackBase t.stackPages := if_pos has

theorem releaseStack_of_none (pa : PageAllocator) {t : TCB} (none : ¬ HasStack t) :
    Kernel.releaseStack pa t = pa := if_neg none

/-- The stacks are among the ranges taken, each with its own. -/
structure StacksOwned (sched : Scheduler) (owned : List (Word × Word)) : Prop where
  mem : ∀ i, HasStack (sched.tasks i) → (sched.tasks i).stackRange ∈ owned
  apart : ∀ i j p, HasStack (sched.tasks i) → HasStack (sched.tasks j) →
    InRange (sched.tasks i).stackRange p → InRange (sched.tasks j).stackRange p → i = j

namespace StacksOwned

variable {sched sched' : Scheduler} {owned : List (Word × Word)}

/-- The stacks are what they were. -/
theorem same (inv : StacksOwned sched owned)
    (base : ∀ i, (sched'.tasks i).stackBase = (sched.tasks i).stackBase)
    (pages : ∀ i, (sched'.tasks i).stackPages = (sched.tasks i).stackPages) :
    StacksOwned sched' owned := by
  have has (i : Nat) (h : HasStack (sched'.tasks i)) : HasStack (sched.tasks i) := by
    rw [HasStack, base, pages] at h
    exact h
  have range (i : Nat) : (sched'.tasks i).stackRange = (sched.tasks i).stackRange := by
    rw [TCB.stackRange, base, pages]
    rfl
  constructor
  · intro i hi
    rw [range]
    exact inv.mem i (has i hi)
  · intro i j p hi hj here there
    rw [range] at here there
    exact inv.apart i j p (has i hi) (has j hj) here there

theorem append (inv : StacksOwned sched owned) (new : List (Word × Word)) :
    StacksOwned sched (new ++ owned) :=
  ⟨fun i hi => List.mem_append_right _ (inv.mem i hi), inv.apart⟩

/-- A task gets a stack of its own. -/
theorem add (inv : StacksOwned sched owned) {i : Nat} {t : TCB} (mem : t.stackRange ∈ owned)
    (fresh : ∀ j, HasStack (sched.tasks j) → ∀ p, InRange (sched.tasks j).stackRange p →
      ¬ InRange t.stackRange p) : StacksOwned (sched.setTask i t) owned := by
  have old {j : Nat} (ne : j ≠ i) : (sched.setTask i t).tasks j = sched.tasks j :=
    Scheduler.setTask_tasks_of_ne ne t
  constructor
  · intro j hj
    by_cases here : j = i
    · subst here
      rwa [Scheduler.setTask_tasks_self]
    · rw [old here] at hj ⊢
      exact inv.mem j hj
  · intro j j' p hj hj' inside inside'
    by_cases here : j = i
    · by_cases here' : j' = i
      · exact here.trans here'.symm
      · subst here
        rw [old here'] at hj' inside'
        rw [Scheduler.setTask_tasks_self] at inside
        exact absurd inside (fresh j' hj' p inside')
    · rw [old here] at hj inside
      by_cases here' : j' = i
      · subst here'
        rw [Scheduler.setTask_tasks_self] at inside'
        exact absurd inside' (fresh j hj p inside)
      · rw [old here'] at hj' inside'
        exact inv.apart j j' p hj hj' inside inside'

/-- A task without a stack. -/
theorem drop (inv : StacksOwned sched owned) {i : Nat} {t : TCB} (none : ¬ HasStack t) :
    StacksOwned (sched.setTask i t) owned := by
  have old {j : Nat} (hj : HasStack ((sched.setTask i t).tasks j)) :
      j ≠ i ∧ HasStack (sched.tasks j) ∧ (sched.setTask i t).tasks j = sched.tasks j := by
    have ne : j ≠ i := by
      rintro rfl
      rw [Scheduler.setTask_tasks_self] at hj
      exact none hj
    have same := Scheduler.setTask_tasks_of_ne (s := sched) ne t
    exact ⟨ne, same ▸ hj, same⟩
  constructor
  · intro j hj
    obtain ⟨-, has, same⟩ := old hj
    rw [same]
    exact inv.mem j has
  · intro j j' p hj hj' inside inside'
    obtain ⟨-, has, same⟩ := old hj
    obtain ⟨-, has', same'⟩ := old hj'
    rw [same] at inside
    rw [same'] at inside'
    exact inv.apart j j' p has has' inside inside'

/-- A range is given back that is the stack of none of the tasks. -/
theorem erase (inv : StacksOwned sched owned) {a : Word × Word}
    (other : ∀ i, HasStack (sched.tasks i) → (sched.tasks i).stackRange ≠ a) :
    StacksOwned sched (owned.erase a) :=
  ⟨fun i hi => (List.mem_erase_of_ne (other i hi)).mpr (inv.mem i hi), inv.apart⟩

end StacksOwned

/-! ## Tables that map pages to themselves -/

/-- The tables under `pml4` stand, and map the pages `S` to themselves. -/
def Maps (S : Set Nat) (k : Kernel) (pml4 : Word) : Prop :=
  ∃ owned root T leaf, pml4 = loc (root * 4096) ∧ TablesInv k owned root T leaf ∧
    StacksOwned k.sched owned ∧ ∀ n ∈ S, SelfMapped n (leaf n)

namespace Maps

variable {S : Set Nat} {k k' : Kernel} {pml4 : Word}

/-- Pages are taken that nobody keeps track of; the stacks stay. -/
theorem shrink (maps : Maps S k pml4) (total : k'.pages.totalPages = k.pages.totalPages)
    (shrinks : ∀ p, k'.pages.Clear p → k.pages.Clear p) (mem : k'.mem = k.mem)
    (base : ∀ i, (k'.sched.tasks i).stackBase = (k.sched.tasks i).stackBase)
    (pages : ∀ i, (k'.sched.tasks i).stackPages = (k.sched.tasks i).stackPages) :
    Maps S k' pml4 := by
  obtain ⟨owned, root, T, leaf, hroot, inv, tasks, self⟩ := maps
  exact ⟨owned, root, T, leaf, hroot, inv.shrink total shrinks mem, tasks.same base pages, self⟩

/-- Neither pages nor memory change. -/
theorem same (maps : Maps S k pml4) (pages : k'.pages = k.pages) (mem : k'.mem = k.mem)
    (base : ∀ i, (k'.sched.tasks i).stackBase = (k.sched.tasks i).stackBase)
    (count : ∀ i, (k'.sched.tasks i).stackPages = (k.sched.tasks i).stackPages) :
    Maps S k' pml4 :=
  maps.shrink (by rw [pages]) (fun p => by rw [pages]; exact id) mem base count

/-- The page of an address that is mapped to itself. -/
theorem walk (maps : Maps S k pml4) {v : Word} (hv : page v < 512 ^ 4) (mem : page v ∈ S) :
    ∃ t, Paging.walk k.mem v 3 pml4 = some t ∧ t.frame = loc (page v * 4096) ∧
      t.writable = true := by
  obtain ⟨owned, root, T, leaf, rfl, inv, -, self⟩ := maps
  obtain ⟨u, read⟩ := self (page v) mem
  exact ⟨_, (inv.holds.walk hv).trans read, rfl, rfl⟩

/-- Someone writes to other pages than the tables. -/
theorem memory (maps : Maps S k pml4) (small : ∀ n ∈ S, n < 512 ^ 4) {m : Mem}
    (same : ∀ l t, WalkTable k.mem 3 pml4 l t → ∀ x : Word, page x = page t → m x = k.mem x) :
    Maps S { k with mem := m } pml4 := by
  obtain ⟨owned, root, T, leaf, rfl, inv, tasks, self⟩ := maps
  refine ⟨owned, root, _, _, rfl, inv.written same, tasks, ?_⟩
  intro n hn
  rw [if_pos (small n hn)]
  exact self n hn

/-! ### Tasks -/

/-- Switching tasks. -/
theorem switch (maps : Maps S k pml4) (frame : Word) : Maps S (k.switch frame).1 pml4 := by
  rcases k.switch_cases frame with ⟨next, g, -, run⟩ | ⟨-, g, run⟩
  · rw [run]
    have stay := k.sched.sameStack_setTask_rsp frame
    exact maps.same rfl rfl (fun i => (stay i).2.1) fun i => (stay i).2.2
  · rw [run]
    exact maps.same rfl rfl (fun _ => rfl) fun _ => rfl

/-- Ending a task gives back its stack, which was its own. -/
theorem terminate (maps : Maps S k pml4) (frame : Word) :
    Maps S (k.terminateCurrentTask frame).1 pml4 := by
  by_cases main : k.sched.currentTaskIndex = 0
  · obtain ⟨g, run⟩ := k.terminate_main frame main
    rw [run]
    exact maps.same rfl rfl (fun _ => rfl) fun _ => rfl
  obtain ⟨g, run⟩ := k.terminate_other frame main
  rw [run]
  obtain ⟨owned, root, T, leaf, hroot, inv, tasks, self⟩ := maps
  have dropped := tasks.drop (i := k.sched.currentTaskIndex)
    (not_hasStack_retire (k.sched.tasks k.sched.currentTaskIndex))
  by_cases owns : HasStack (k.sched.tasks k.sched.currentTaskIndex)
  · have mine := tasks.mem _ owns
    refine ⟨_, root, T, leaf, hroot,
      inv.given mine (releaseStack_of_has owns) rfl, ?_, self⟩
    -- the others have other stacks
    refine (dropped.erase ?_).same (fun _ => rfl) fun _ => rfl
    intro i has same
    have ne : i ≠ k.sched.currentTaskIndex := by
      rintro rfl
      rw [Scheduler.setTask_tasks_self] at has
      exact not_hasStack_retire _ has
    rw [Scheduler.setTask_tasks_of_ne ne] at has same
    have same : (k.sched.tasks i).stackRange =
        (k.sched.tasks k.sched.currentTaskIndex).stackRange := same
    have first := has.first
    have there := first
    rw [same] at there
    exact ne (tasks.apart i _ _ has owns first there)
  · have pages := releaseStack_of_none k.pages owns
    refine ⟨owned, root, T, leaf, hroot, inv.shrink ?_ ?_ rfl, dropped.same (fun _ => rfl)
      fun _ => rfl, self⟩
    · show (Kernel.releaseStack _ _).totalPages = _
      rw [pages]
    · intro p clear
      have clear : (Kernel.releaseStack _ _).Clear p := clear
      rwa [pages] at clear

/-- A task is added, or none is. -/
theorem exec (maps : Maps S k pml4) (fn pages : Word) : Maps S (k.execCase fn pages).1 pml4 := by
  have total := (k.execCase_step fn pages).total
  cases h : k.execAllocates pages with
  | none =>
      obtain ⟨pa, tasks, run, shrinks, -⟩ := exec_fails fn h
      rw [run] at total ⊢
      exact maps.shrink total shrinks rfl (fun _ => rfl) fun _ => rfl
  | some t =>
      have adds := exec_adds fn h
      obtain ⟨owned, root, T, leaf, hroot, inv, tasks, self⟩ := maps
      have fresh : ∀ a ∈ [Stack.user, .kernel].map t.range, ∀ p, InRange a p →
          k.pages.Clear p ∧ ¬ (k.execCase fn pages).1.pages.Clear p := by
        intro a ha p here
        obtain ⟨r, -, rfl⟩ := List.mem_map.mp ha
        exact ⟨adds.fresh r p here, fun clear => ((adds.clear p).mp clear).2 r here⟩
      have inside : ∀ a ∈ [Stack.user, .kernel].map t.range,
          a.1.toNat / 4096 + a.2.toNat ≤ maxPages := by
        intro a ha
        obtain ⟨r, -, rfl⟩ := List.mem_map.mp ha
        exact adds.inside r
      have writes (x : Word) : (k.execCase fn pages).1.mem x = k.mem x ∨
          ∃ a ∈ [Stack.user, .kernel].map t.range, InRange a (page x) := by
        apply (adds.writes x).imp_right
        exact fun here => ⟨_, .tail _ (.head _), here⟩
      have given := inv.taken _ total (fun p clear => ((adds.clear p).mp clear).1) fresh
        (by simpa using adds.apart) inside writes
      refine ⟨_, root, T, leaf, hroot, given, ?_, self⟩
      rw [adds.sched]
      have mine : (⟨frameBelow (t.kstack + 4096), true, t.base, pages⟩ : TCB).stackRange =
          t.range .user := by
        rw [TCB.stackRange, TaskStacks.range, adds.size]
      refine ((tasks.append ([Stack.user, .kernel].map t.range)).add ?_ ?_).same (fun _ => rfl)
        fun _ => rfl
      · rw [mine]
        exact .head _
      · -- the pages of other stacks were not clear
        intro j has p here
        rw [mine]
        intro there
        exact inv.own.used _ (tasks.mem j has) p here (adds.fresh _ p there)

/-- Every system call. -/
theorem syscall (maps : Maps S k pml4) (n a1 a2 a3 a4 a5 : Word) (polls : List NvmeCQEntry) :
    Maps S (k.syscallHandler n a1 a2 a3 a4 a5 polls).1 pml4 := by
  by_cases execs : n = syscallExec
  · subst execs
    exact maps.exec a1 a2
  have mem := k.syscallHandler_mem execs a1 a2 a3 a4 a5 polls
  have dispatched := k.syscallHandler_dispatched n a1 a2 a3 a4 a5 polls
  generalize k.syscallHandler n a1 a2 a3 a4 a5 polls = result at dispatched mem
  cases dispatched with
  | drawn frame console zero =>
      exact maps.same frame.pages mem (fun _ => by rw [frame.sched]) fun _ => by rw [frame.sched]
  | execs named => exact absurd named execs
  | terminates named => exact maps.terminate 0
  | transfers named zero => exact maps.same rfl rfl (fun _ => rfl) fun _ => rfl
  | heap named zero => exact maps.same rfl rfl (fun _ => rfl) fun _ => rfl

/-- Every interrupt. -/
theorem interrupt (maps : Maps S k pml4) (frame : Word) (scancode : BitVec 8) (cr2 : Word) :
    Maps S (k.exceptionHandler frame scancode cr2).1 pml4 := by
  have eoi : Maps S k.sendEOI pml4 := maps.same rfl rfl (fun _ => rfl) fun _ => rfl
  have keyboard : Maps S (k.keyboardHandler frame scancode).1 pml4 := by
    rcases k.keyboardHandler_cases frame scancode with ⟨-, run⟩ | ⟨-, run⟩ | ⟨-, -, g, c, run⟩
    · rw [run]
      exact eoi.switch frame
    · rw [run]
      exact eoi.terminate frame
    · rw [run]
      exact eoi.same rfl rfl (fun _ => rfl) fun _ => rfl
  have report (f : InterruptFrame) : Maps S (k.reportException f cr2) pml4 :=
    maps.same rfl rfl (fun _ => rfl) fun _ => rfl
  unfold Kernel.exceptionHandler
  dsimp only
  generalize InterruptFrame.read k.mem frame = f
  split
  · exact maps.same rfl rfl (fun _ => rfl) fun _ => rfl
  · exact keyboard
  · exact report f

end Maps

/-! ## Device registers -/

/-- The kernels in which `PageTable_Map` calls `GetOrCreateTable`. -/
def Kernel.tableCalls (k : Kernel) (pml4 virt : Word) : List Kernel :=
  let pdp := k.getOrCreateTable pml4 (pml4Idx virt)
  let pd := pdp.1.getOrCreateTable pdp.2 (pdpIdx virt)
  [k, pdp.1, pd.1]

/-- Between the calls the tables stand, with the entries as they were. -/
theorem TablesInv.tableCalls {k : Kernel} {owned : List (Word × Word)} {root : Nat} {T : Tables}
    {leaf : Nat → Word} (inv : TablesInv k owned root T leaf) {v : Word} (hv : v.toNat < 2 ^ 48)
    (supplied : Supplied k (loc (root * 4096)) v) :
    ∀ k' ∈ k.tableCalls (loc (root * 4096)) v, ∃ T', TablesInv k' owned root T' leaf := by
  obtain ⟨k₁, T₁, pdp, k₂, T₂, pd, -, -, -, first, second, -⟩ := inv.descends hv supplied
  intro k' hk'
  simp only [Kernel.tableCalls, first.run, second.run, List.mem_cons, List.not_mem_nil,
    or_false] at hk'
  rcases hk' with rfl | rfl | rfl
  · exact ⟨T, inv⟩
  · exact ⟨T₁, first.inv⟩
  · exact ⟨T₂, second.inv⟩

theorem Kernel.tableCalls_step (k : Kernel) (pml4 virt : Word) :
    ∀ k' ∈ k.tableCalls pml4 virt, PageStep k k' ∧ k'.sched = k.sched := by
  obtain ⟨step₁, sched₁⟩ := k.getOrCreateTable_step pml4 (pml4Idx virt)
  generalize run₁ : k.getOrCreateTable pml4 (pml4Idx virt) = pdp at step₁ sched₁
  obtain ⟨step₂, sched₂⟩ := pdp.1.getOrCreateTable_step pdp.2 (pdpIdx virt)
  intro k' hk'
  simp only [tableCalls, run₁, List.mem_cons, List.not_mem_nil, or_false] at hk'
  rcases hk' with rfl | rfl | rfl
  · exact ⟨.of_same rfl fun _ => id, rfl⟩
  · exact ⟨step₁, sched₁⟩
  · exact ⟨step₁.trans step₂, sched₂.trans sched₁⟩

theorem Kernel.turns_step (k : Kernel) (pml4 f addr : Word) : ∀ i,
    PageStep k (k.turns pml4 f addr i) ∧ (k.turns pml4 f addr i).sched = k.sched := by
  intro i
  induction i with
  | zero => exact ⟨.of_same rfl fun _ => id, rfl⟩
  | succ i ih =>
      obtain ⟨step, sched⟩ := (k.turns pml4 f addr i).pageTableMap_step pml4 (turn addr i)
        (turn addr i) f
      exact ⟨ih.1.trans step, sched.trans ih.2⟩

namespace Maps

variable {S : Set Nat} {k : Kernel} {pml4 f addr stop : Word}

/-- Turns that find their tables, below `2 ^ 48`. -/
theorem turns (maps : Maps S k pml4) (flags : KernelFlags f) (low : stop.toNat ≤ 2 ^ 48)
    (supplied : ∀ i < turnsTo addr stop, Supplied (k.turns pml4 f addr i) pml4 (turn addr i)) :
    ∀ i ≤ turnsTo addr stop, Maps S (k.turns pml4 f addr i) pml4 := by
  obtain ⟨owned, root, T, leaf, rfl, inv, tasks, self⟩ := maps
  have place (i : Nat) (hi : i < turnsTo addr stop) : (turn addr i).toNat < 2 ^ 48 := by
    have inside := (turn_lt (Nat.le_of_lt hi) (by omega)).mpr hi
    rw [BitVec.lt_def] at inside
    omega
  intro i hi
  obtain ⟨T', leaf', inv', wrote⟩ :=
    inv.turns_supplied place (fun i hi _ _ _ => supplied i hi) i hi
  have sched := (k.turns_step (loc (root * 4096)) f addr i).2
  refine ⟨owned, root, T', leaf', rfl, inv', by rw [sched]; exact tasks, ?_⟩
  -- what the turns write maps pages to themselves
  intro n hn
  refine wrote.keeps ?_ (self n hn)
  rintro p e ⟨j, hj, rfl, rfl⟩
  rw [lowPage_of_lt (place j (by omega))]
  exact selfMapped_selfEntry flags (place j (by omega))

/-- The calls of `GetOrCreateTable` in one turn. -/
theorem tableCalls (maps : Maps S k pml4) {v : Word} (hv : v.toNat < 2 ^ 48)
    (supplied : Supplied k pml4 v) : ∀ k' ∈ k.tableCalls pml4 v, Maps S k' pml4 := by
  obtain ⟨owned, root, T, leaf, rfl, inv, tasks, self⟩ := maps
  intro k' hk'
  obtain ⟨T', inv'⟩ := inv.tableCalls hv supplied k' hk'
  have sched := (k.tableCalls_step _ v k' hk').2
  exact ⟨owned, root, T', leaf, rfl, inv', by rw [sched]; exact tasks, self⟩

end Maps

/-! ## Runs -/

/-- `PageTable_Init` has returned. -/
def BootStage.Mapped (stage : BootStage) : Prop := stage ≠ .syscallInit ∧ stage ≠ .pageTableInit

theorem BootStage.running_mapped : BootStage.running.Mapped := by
  constructor
  · intro stage
    cases stage
  · intro stage
    cases stage

/-- What a step is asked for. There are pages enough for the tables of `PageTable_Init`;
nobody else writes to the tables; `Memory_MapMMIO` is called for ranges below `2 ^ 48`, and
finds its tables or pages for them. -/
def Provided (f : Firmware) (s : BootRun) : BootOp → Prop
  | .boot => s.stage = .pageTableInit → f.tables ≤ s.kernel.pages.clearPages.card
  | .memory m => s.stage.Mapped → ∀ l t, WalkTable s.kernel.mem 3 s.gKernelPml4 l t →
      ∀ x : Word, page x = page t → m x = s.kernel.mem x
  | .mapMmio physAddr size => physAddr.toNat + size.toNat ≤ 2 ^ 48 ∧
      ∀ i < turnsTo physAddr (physAddr + size),
        Supplied (s.kernel.turns s.gKernelPml4 (pageWritable ||| pageUser) physAddr i)
          s.gKernelPml4 (turn physAddr i)
  | .syscall .. => True
  | .interrupt .. => True

/-- The runs that are provided for. -/
def mappedSys (f : Firmware) : TSys BootRun BootOp := (BootRun.sys f).guard (Provided f)

structure MappedInv (f : Firmware) (s : BootRun) : Prop where
  /-- What can be handed out is memory of a usable type. -/
  available : ∀ p < maxPages, s.kernel.pages.Clear p ∨ Releasable s.kernel.sched p →
    Available f.map p
  early : s.stage ≠ .running → ∀ i, (s.kernel.sched.tasks i).stackBase = 0
  maps : s.stage.Mapped → Maps (describedPages f.map) s.kernel s.gKernelPml4

section Run

variable {f : Firmware} {s s' : BootRun}

theorem alloc_shrinks (pa : PageAllocator) (pages : Word) :
    (pa.alloc pages).1.totalPages = pa.totalPages ∧
      ∀ p, (pa.alloc pages).1.Clear p → pa.Clear p := by
  rcases run : pa.alloc pages with ⟨pa', ptr⟩
  by_cases null : ptr = 0
  · subst null
    obtain ⟨rfl, -⟩ := alloc_null run
    exact ⟨rfl, fun p => id⟩
  · obtain ⟨total, bits, -⟩ := alloc_range run null
    exact ⟨total, fun p clear => ((bits p).mp clear).1⟩

theorem Kernel.heapSetup_touches (k : Kernel) : k.heapSetup.pages = (k.pages.alloc 4096).1 ∧
    k.heapSetup.mem = k.mem ∧ k.heapSetup.sched = k.sched := by
  unfold heapSetup
  dsimp only
  split
  · exact ⟨rfl, rfl, rfl⟩
  · exact ⟨rfl, rfl, rfl⟩

theorem Kernel.schedulerSetup_touches (k : Kernel) :
    k.schedulerSetup.pages = k.pages ∧ k.schedulerSetup.mem = k.mem := ⟨rfl, rfl⟩

theorem MappedInv.init (ok : ∀ d ∈ f.map, d.WellPlaced) (hs : (BootRun.sys f).init s) :
    MappedInv f s := by
  obtain ⟨m, rfl⟩ := hs
  refine ⟨?_, fun _ _ => rfl, fun mapped => absurd rfl mapped.1⟩
  intro p hp either
  rcases either with clear | ⟨i, stack, -⟩
  · exact ((clear_boot ok hp).mp clear).1
  · exact absurd rfl stack

theorem described_small (low : InitLow f.fbBase f.fbSize f.map f.lapicAddr f.rsp) :
    ∀ n ∈ describedPages f.map, n < 512 ^ 4 := by
  rintro n ⟨d, hd, use, -, high⟩
  have top := low.map d hd use
  omega

variable (low : InitLow f.fbBase f.fbSize f.map f.lapicAddr f.rsp)
  (ok : ∀ d ∈ f.map, d.WellPlaced)
include low ok

/-- `PageTable_Init` with pages enough. -/
theorem pageTableInit_maps {k k' : Kernel} {pml4 : Word}
    (enough : f.tables ≤ k.pages.clearPages.card)
    (none : ∀ i, (k.sched.tasks i).stackBase = 0)
    (run : k.pageTableInit f.fbBase f.fbSize f.map f.lapicAddr f.rsp = some (k', pml4)) :
    Maps (describedPages f.map) k' pml4 := by
  obtain ⟨P, hP⟩ := low.finite.exists_finset_coe
  have covers : ∀ W ∈ f.writes, ∀ n e, W n e → n ∈ P := by
    intro W hW n e written
    have mem := low.covers ok W hW n e written
    rwa [← hP] at mem
  rw [Firmware.tables, ← hP] at enough
  have fb : (f.fbBase + f.fbSize).toNat + 4096 ≤ 2 ^ 64 := by
    have top := low.framebuffer
    rw [BitVec.toNat_add]
    omega
  obtain ⟨k₁, root, T, leaf, run₁, inv, -, phases⟩ :=
    pageTableInit_phases (m := 0) ok fb covers enough
  obtain ⟨rfl, rfl⟩ := Prod.mk.inj (Option.some.inj (run₁.symm.trans run))
  refine ⟨[], root, T, leaf, rfl, inv, ?_, low.described ok phases⟩
  rw [(Kernel.pageTableInit_step run).2]
  exact ⟨fun i has => absurd (none i) has.1, fun i _ _ has => absurd (none i) has.1⟩

theorem MappedInv.boot (inv : MappedInv f s) (provided : Provided f s .boot)
    (next : s.boot f = some s') :
    (s'.stage ≠ .running → ∀ i, (s'.kernel.sched.tasks i).stackBase = 0) ∧
      (s'.stage.Mapped → Maps (describedPages f.map) s'.kernel s'.gKernelPml4) := by
  unfold BootRun.boot at next
  split at next
  · rename_i stage
    obtain rfl := Option.some.inj next
    exact ⟨fun _ => inv.early (by rw [stage]; decide), fun mapped => absurd rfl mapped.2⟩
  · rename_i stage
    have none := inv.early (by rw [stage]; decide)
    obtain ⟨⟨k', pml4⟩, run, rfl⟩ := Option.map_eq_some_iff.mp next
    refine ⟨fun _ i => ?_, fun _ => pageTableInit_maps low ok (provided stage) none run⟩
    show (k'.sched.tasks i).stackBase = 0
    rw [(Kernel.pageTableInit_step run).2]
    exact none i
  · rename_i stage
    have none := inv.early (by rw [stage]; decide)
    have maps := inv.maps (by rw [stage]; exact ⟨by decide, by decide⟩)
    obtain rfl := Option.some.inj next
    obtain ⟨pages, mem, sched⟩ := s.kernel.heapSetup_touches
    obtain ⟨total, shrinks⟩ := alloc_shrinks s.kernel.pages 4096
    refine ⟨fun _ i => ?_, fun _ => maps.shrink ?_ ?_ mem ?_ ?_⟩
    · show (s.kernel.heapSetup.sched.tasks i).stackBase = 0
      rw [sched]
      exact none i
    · rw [pages, total]
    · rw [pages]
      exact shrinks
    · intro i
      rw [sched]
    · intro i
      rw [sched]
  · rename_i stage
    have maps := inv.maps (by rw [stage]; exact ⟨by decide, by decide⟩)
    obtain rfl := Option.some.inj next
    refine ⟨fun other => absurd rfl other, fun _ => maps.same rfl rfl ?_ ?_⟩
    · exact fun i => (s.kernel.schedulerSetup_stack i).1
    · exact fun i => (s.kernel.schedulerSetup_stack i).2
  · cases next

theorem MappedInv.step (inv : MappedInv f s) {op : BootOp} (next : (mappedSys f).next s op s') :
    MappedInv f s' := by
  obtain ⟨provided, next⟩ := next
  have step := BootRun.pageStep next
  -- pages that become clear or a stack were so before
  have available : ∀ p < maxPages, s'.kernel.pages.Clear p ∨ Releasable s'.kernel.sched p →
      Available f.map p := by
    intro p hp either
    apply inv.available p hp
    rcases either with clear | stack
    · exact step.cleared p clear
    · rcases step.releasable p stack with stack | ⟨clear, -⟩
      · exact .inr stack
      · exact .inl clear
  cases op with
  | boot =>
      obtain ⟨early, maps⟩ := inv.boot low ok provided next
      exact ⟨available, early, maps⟩
  | memory m =>
      obtain rfl : s' = _ := next
      exact ⟨available, inv.early, fun mapped =>
        (inv.maps mapped).memory (described_small low) (provided mapped)⟩
  | mapMmio physAddr size =>
      obtain ⟨running, k, run, rfl⟩ := next
      refine ⟨available, fun other => absurd running other, fun mapped => ?_⟩
      have maps := inv.maps mapped
      obtain ⟨top, supplied⟩ := provided
      have stop : (physAddr + size).toNat ≤ 2 ^ 48 := by
        rw [BitVec.toNat_add]
        omega
      unfold Kernel.memoryMapMmio at run
      split at run
      · obtain rfl := Option.some.inj run
        exact maps
      · rw [mapRange_turns _ _ _ (by omega)] at run
        obtain rfl := Option.some.inj run
        exact maps.turns (.inr rfl) stop supplied _ le_rfl
  | syscall n a1 a2 a3 a4 a5 polls =>
      obtain ⟨running, -, rfl⟩ := next
      exact ⟨available, fun other => absurd running other,
        fun mapped => (inv.maps mapped).syscall n a1 a2 a3 a4 a5 polls⟩
  | interrupt frame scancode cr2 =>
      obtain ⟨running, rfl⟩ := next
      exact ⟨available, fun other => absurd running other,
        fun mapped => (inv.maps mapped).interrupt frame scancode cr2⟩

theorem mapped_invariant : (mappedSys f).Invariant (MappedInv f) := by
  apply TSys.Inductive.invariant
  constructor
  · intro s hs
    exact MappedInv.init ok hs
  · intro s op s' inv next
    exact inv.step low ok next

end Run
end Coolos
