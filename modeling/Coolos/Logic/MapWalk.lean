import Coolos.Kernel.Efi
import Coolos.Logic.Confined

/-!
# The memory map in memory

The two loops over the map as loops over the descriptors there are. `PageTable_Init` reads the
map while it writes page tables, but only to pages that were free, and the map is on none of
them.
-/

namespace Coolos

open Lib Lib.Paging PageAllocator

/-- The `n` descriptors fill the map, below the top of memory. -/
structure MapShape (map mapSize descSize : Word) (n : Nat) : Prop where
  positive : 0 < descSize.toNat
  size : mapSize.toNat = n * descSize.toNat
  top : map.toNat + mapSize.toNat < 2 ^ 64

section Walk

variable {map mapSize descSize : Word} {n : Nat}

theorem MapShape.records_walked {σ : Type} (shape : MapShape map mapSize descSize n)
    (body : σ → Word → Option σ) (s : σ) :
    walkRecords body (map + mapSize) descSize (2 ^ 64) s map =
      (records descSize n map).foldlM body s := by
  obtain ⟨positive, size, top⟩ := shape
  have stop : (map + mapSize).toNat = map.toNat + n * descSize.toNat := by
    rw [BitVec.toNat_add, ← size, Nat.mod_eq_of_lt top]
  have turns : n ≤ n * descSize.toNat := Nat.le_mul_of_pos_right n positive
  apply walkRecords_eq_foldlM body
  · omega
  · exact Nat.le_of_eq stop
  · omega
  · omega

/-- `PageAllocator_Init` sees the descriptors in the map. -/
theorem PageAllocator.initAt_eq (shape : MapShape map mapSize descSize n) (pa : PageAllocator)
    (m : Mem) :
    pa.initAt m map mapSize descSize = some (pa.init (descriptors m map descSize n)) := by
  rw [initAt, shape.records_walked, PageAllocator.init, descriptors, List.foldl_map]
  exact List.foldlM_pure

theorem descriptorAt_congr {m m' : Mem} {entry : Word}
    (h : ∀ i < 32, m' (entry + loc i) = m (entry + loc i)) :
    descriptorAt m' entry = descriptorAt m entry := by
  have type : m'.read32 entry = m.read32 entry := Mem.read32_congr fun i hi => h i (by omega)
  have word (j : Nat) (hj : j + 8 ≤ 32) :
      m'.read64 (entry + loc j) = m.read64 (entry + loc j) := by
    refine Mem.read64_congr fun i hi => ?_
    have place : entry + loc j + BitVec.ofNat 64 i = entry + loc (j + i) := by
      rw [loc_add, BitVec.add_assoc]
      rfl
    rw [place]
    exact h (j + i) (by omega)
  have start : m'.read64 (entry + 8) = m.read64 (entry + 8) := word 8 (by decide)
  have pages : m'.read64 (entry + 24) = m.read64 (entry + 24) := word 24 (by decide)
  rw [descriptorAt, descriptorAt, type, start, pages]

end Walk

section Init

variable {pa₀ : PageAllocator} {B : Nat} {m₀ : Mem} {k : Kernel} {T : Tables} {P : Finset Nat}
  {map mapSize descSize fbBase fbSize lapicAddr rsp : Word} {n : Nat}

/-- A descriptor that is not on a free page is as it was. -/
theorem Confined.descriptorAt (con : Confined pa₀ B m₀ k T) {entry : Word}
    (apart : ∀ i < 32, page (entry + loc i) ∉ pa₀.clearPages) :
    descriptorAt k.mem entry = Coolos.descriptorAt m₀ entry := by
  refine descriptorAt_congr fun i hi => con.mem _ fun l j table => ?_
  exact apart i hi (con.tables l j _ table).1

/-- `PageTable_Init` sees the descriptors that were in the map when it was called. -/
theorem Kernel.pageTableInitAt_eq (shape : MapShape map mapSize descSize n)
    (ok : ∀ d ∈ descriptors k.mem map descSize n, d.WellPlaced)
    (covers : ∀ W ∈ initWrites fbBase fbSize (descriptors k.mem map descSize n) lapicAddr rsp,
      ∀ j e, W j e → j ∈ P)
    (enough : tablesNeeded P ≤ (k.pages.clearPages.filter (· < B)).card)
    (apart : ∀ entry ∈ records descSize n map, ∀ i < 32,
      page (entry + loc i) ∉ k.pages.clearPages) :
    k.pageTableInitAt fbBase fbSize map mapSize descSize lapicAddr rsp =
      k.pageTableInit fbBase fbSize (descriptors k.mem map descSize n) lapicAddr rsp := by
  rcases alloc : k.pages.alloc 1 with ⟨pa, pml4⟩
  obtain ⟨m, root, rfl, -, few, inv, spare, con⟩ := Confined.begin enough alloc
  rw [Kernel.pageTableInitAt, Kernel.pageTableInit, alloc]
  dsimp only
  generalize hk₀ : ({ k with
    pages := pa, mem := clearTable k.mem (loc (root * 4096)) 512 } : Kernel) = k₀ at inv spare con
  -- what the loop reads, turn by turn
  have here : (records descSize n map).map (Coolos.descriptorAt k₀.mem) =
      descriptors k.mem map descSize n :=
    List.map_congr_left fun entry visited => con.descriptorAt (apart entry visited)
  have walked := foldlM_reads (fun k : Kernel => Coolos.descriptorAt k.mem)
    (Kernel.mapEntry (loc (root * 4096))) (s := k₀) (records descSize n map)
    fun before entry after k' split run => by
      have visited : entry ∈ records descSize n map := by
        rw [split]
        exact List.mem_append_right _ List.mem_cons_self
      have part : ∀ d ∈ before.map (Coolos.descriptorAt k₀.mem),
          d ∈ descriptors k.mem map descSize n := by
        intro d hd
        rw [← here, split, List.map_append]
        exact List.mem_append_left _ hd
      obtain ⟨k'', T', leaf, run', -, -, con'⟩ := Confined.entries few con inv spare
        (fun d hd => ok d (part d hd)) fun W hW => by
          obtain ⟨d, hd, rfl⟩ := List.mem_map.mp hW
          exact covers _ (List.mem_append_left _ (List.mem_map_of_mem (part d hd)))
      obtain rfl := Option.some.inj (run'.symm.trans run)
      have stays := apart entry visited
      exact (con'.descriptorAt stays).trans (con.descriptorAt stays).symm
  rw [shape.records_walked, walked, here]

end Init
end Coolos
