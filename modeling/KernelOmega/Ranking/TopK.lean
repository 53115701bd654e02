import Mathlib.Order.Lattice

/-!
# The best of a list

A stable sort by score, highest first, cut after `k` entries. Whatever the scores, the
cut keeps `min k` entries of the list, in order, and nothing it leaves out scores above
anything it keeps.
-/

namespace Ranking

variable {α β : Type} [LinearOrder β]

/-- The list by score, highest first; entries that score the same keep their order. -/
def rankBy (score : α → β) (xs : List α) : List α :=
  xs.mergeSort fun a b => decide (score b ≤ score a)

theorem rankBy_perm (score : α → β) (xs : List α) : (rankBy score xs).Perm xs :=
  List.mergeSort_perm xs _

theorem mem_rankBy {score : α → β} {xs : List α} {x : α} : x ∈ rankBy score xs ↔ x ∈ xs :=
  (rankBy_perm score xs).mem_iff

/-- A ranking falls in its scores. -/
theorem rankBy_pairwise (score : α → β) (xs : List α) :
    (rankBy score xs).Pairwise fun a b => score b ≤ score a := by
  have sorted := @List.pairwise_mergeSort α (fun a b => decide (score b ≤ score a))
    (fun a b c first second => by
      rw [decide_eq_true_iff] at first second ⊢
      exact le_trans second first)
    (fun a b => by
      rw [Bool.or_eq_true, decide_eq_true_iff, decide_eq_true_iff]
      exact le_total (score b) (score a)) xs
  exact sorted.imp fun ordered => of_decide_eq_true ordered

variable {score : α → β} {xs : List α} {k : Nat}

theorem length_take_rankBy : ((rankBy score xs).take k).length = min k xs.length := by
  rw [List.length_take, (rankBy_perm score xs).length_eq]

theorem mem_of_mem_take_rankBy {x : α} (kept : x ∈ (rankBy score xs).take k) : x ∈ xs :=
  mem_rankBy.mp (List.mem_of_mem_take kept)

theorem take_rankBy_pairwise :
    ((rankBy score xs).take k).Pairwise fun a b => score b ≤ score a :=
  (rankBy_pairwise score xs).sublist (List.take_sublist k _)

/-- Nothing left out scores above anything kept. -/
theorem score_le_of_left_out {x y : α} (known : x ∈ xs) (out : x ∉ (rankBy score xs).take k)
    (kept : y ∈ (rankBy score xs).take k) : score x ≤ score y := by
  have parts := List.take_append_drop k (rankBy score xs)
  have sorted := rankBy_pairwise score xs
  rw [← parts, List.pairwise_append] at sorted
  have ranked : x ∈ (rankBy score xs).take k ++ (rankBy score xs).drop k := by
    rw [parts]
    exact mem_rankBy.mpr known
  rcases List.mem_append.mp ranked with inside | dropped
  · exact absurd inside out
  · exact sorted.2.2 y kept x dropped

end Ranking
