import Coolos.Lib.Memory
import Mathlib.Data.List.Induction

/-!
# Walks over records in memory

A loop that goes from record to record by a stride is a fold over the addresses of the records.
Where the body changes the memory it reads from, the fold is one over what was there at first,
as long as no turn changes a record that is still to come.
-/

namespace Lib

variable {σ α β : Type}

/-- `for (; p < stop; p += stride)` around `body`, not over after `fuel` turns if there is no
result. -/
def walkRecords (body : σ → Word → Option σ) (stop stride : Word) : Nat → σ → Word → Option σ
  | 0, _, _ => none
  | fuel + 1, s, p =>
      if p < stop then (body s p).bind fun s => walkRecords body stop stride fuel s (p + stride)
      else some s

/-- The addresses of `n` records from `p` on. -/
def records (stride : Word) : Nat → Word → List Word
  | 0, _ => []
  | n + 1, p => p :: records stride n (p + stride)

theorem mem_records {stride a : Word} {n : Nat} {p : Word} (h : a ∈ records stride n p) :
    ∃ i < n, a = p + loc (i * stride.toNat) := by
  induction n generalizing p with
  | zero => cases h
  | succ n ih =>
      cases h with
      | head => exact ⟨0, Nat.succ_pos n, by simp [loc]⟩
      | tail _ h =>
          obtain ⟨i, hi, rfl⟩ := ih h
          refine ⟨i + 1, Nat.succ_lt_succ hi, ?_⟩
          rw [Nat.succ_mul, Nat.add_comm, loc_add, loc_toNat, BitVec.add_assoc]

/-- The walk visits the records that begin below `stop`, if they end below the top of memory. -/
theorem walkRecords_eq_foldlM (body : σ → Word → Option σ) {stop stride : Word} {n fuel : Nat}
    {p : Word} (turns : n < fuel) (covers : stop.toNat ≤ p.toNat + n * stride.toNat)
    (last : p.toNat + n * stride.toNat < stop.toNat + stride.toNat)
    (room : p.toNat + n * stride.toNat < 2 ^ 64) (s : σ) :
    walkRecords body stop stride fuel s p = (records stride n p).foldlM body s := by
  induction n generalizing fuel p s with
  | zero =>
      obtain ⟨fuel, rfl⟩ : ∃ f, fuel = f + 1 := ⟨fuel - 1, by omega⟩
      have ended : ¬ p < stop := by
        rw [BitVec.lt_def]
        omega
      rw [walkRecords, if_neg ended]
      rfl
  | succ n ih =>
      obtain ⟨fuel, rfl⟩ : ∃ f, fuel = f + 1 := ⟨fuel - 1, by omega⟩
      rw [Nat.succ_mul] at covers last room
      have inside : p < stop := by
        rw [BitVec.lt_def]
        omega
      have next : (p + stride).toNat = p.toNat + stride.toNat := by
        rw [BitVec.toNat_add]
        omega
      rw [walkRecords, if_pos inside, records, List.foldlM_cons]
      congr 1
      funext s'
      apply ih (by omega) <;> omega

/-- Each record is as it was at first when it is read. -/
theorem foldlM_reads (read : σ → β → α) (body : σ → α → Option σ) {s : σ} (ps : List β)
    (same : ∀ before p after s', ps = before ++ p :: after →
      (before.map (read s)).foldlM body s = some s' → read s' p = read s p) :
    ps.foldlM (fun s p => body s (read s p)) s = (ps.map (read s)).foldlM body s := by
  induction ps using List.reverseRecOn with
  | nil => rfl
  | append_singleton ps p ih =>
      have before := ih fun front q after s' split run => by
        apply same front q (after ++ [p]) s' _ run
        rw [split, List.append_assoc, List.cons_append]
      rw [List.foldlM_append, before, List.map_append, List.foldlM_append]
      cases run : (ps.map (read s)).foldlM body s with
      | none => rfl
      | some s' =>
          show [p].foldlM (fun s p => body s (read s p)) s' = [read s p].foldlM body s'
          rw [List.foldlM_cons, List.foldlM_cons, same ps p [] s' rfl run]
          rfl

end Lib
