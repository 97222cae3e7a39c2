import BytecodeRegions.Region
import Mathlib.Data.List.Nodup

/-!
# Lists in ascending order

Numbers and places are reported in ascending order. Dropping repetitions keeps the order and leaves
nothing twice, so a sorted list of numbers becomes a strictly ascending one; and sorting places that
are in order already changes nothing.

## Main results

* `nodup_eraseDups`, `eraseDups_sublist`: dropping repetitions.
* `Region.mem_ascending_iff`, `Region.pairwise_ascending`: numbers in ascending order, each once.
* `Region.byPosition_of_pairwise`: places that are in order stay as they are.
-/

namespace BytecodeRegions

section EraseDups

variable {α : Type} [BEq α] [LawfulBEq α]

omit [LawfulBEq α] in
theorem eraseDups_sublist : (l : List α) → l.eraseDups.Sublist l
  | [] => .slnil
  | a :: l => by
    rw [List.eraseDups_cons]
    exact ((eraseDups_sublist (l.filter fun b => !b == a)).trans List.filter_sublist).cons_cons a
termination_by l => l.length
decreasing_by exact Nat.lt_succ_of_le (List.length_filter_le _ _)

theorem nodup_eraseDups : (l : List α) → l.eraseDups.Nodup
  | [] => List.nodup_nil
  | a :: l => by
    rw [List.eraseDups_cons, List.nodup_cons]
    refine ⟨fun ha => ?_, nodup_eraseDups (l.filter fun b => !b == a)⟩
    have hne := (List.mem_filter.1 (List.mem_eraseDups.1 ha)).2
    rw [beq_self_eq_true] at hne
    cases hne
termination_by l => l.length
decreasing_by exact Nat.lt_succ_of_le (List.length_filter_le _ _)

end EraseDups

namespace Region

theorem mem_ascending_iff {ns : List Nat} {n : Nat} : n ∈ ascending ns ↔ n ∈ ns := by
  rw [ascending, List.mem_eraseDups, List.mem_mergeSort]

/-- Numbers in ascending order are strictly ascending. -/
theorem pairwise_ascending (ns : List Nat) : (ascending ns).Pairwise (· < ·) := by
  have hle : (ascending ns).Pairwise (· ≤ ·) := by
    refine List.Pairwise.sublist (eraseDups_sublist _) ?_
    have hsort : (ns.mergeSort fun a b => decide (a ≤ b)).Pairwise fun a b => decide (a ≤ b) :=
      List.pairwise_mergeSort (fun a b c hab hbc => by simp only [decide_eq_true_eq] at *; omega)
        (fun a b => by simp only [Bool.or_eq_true, decide_eq_true_eq]; omega) ns
    exact hsort.imp fun h => of_decide_eq_true h
  have hne : (ascending ns).Pairwise (· ≠ ·) := nodup_eraseDups _
  exact (hle.and hne).imp fun h => Nat.lt_of_le_of_ne h.1 h.2

/-- Places that are in the order of their positions are not moved. -/
theorem byPosition_of_pairwise {hs : List Handle}
    (hhs : hs.Pairwise fun a b => a.position < b.position) : byPosition hs = hs :=
  List.mergeSort_of_pairwise (hhs.imp fun h => decide_eq_true (Nat.le_of_lt h))

end Region

end BytecodeRegions
