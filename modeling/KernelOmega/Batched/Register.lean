import Mathlib.Data.List.Induction
import Mathlib.Order.MinMax

/-!
# A maximum that is written once a batch

A register is meant to hold the maximum of the values seen so far. Values come in batches.
While a batch is gone through, each value is compared with what the register held before the
batch, and a write is queued for it if it is greater; the queued writes are made at the end,
so the last one stays.

The register never falls. It holds the maximum after every batch exactly when, in every
batch, the last value above everything seen before the batch is the greatest of the batch
(`settleAll_eq_best_iff`).
-/

namespace Batched

variable {α : Type} [LinearOrder α]

/-- The register after a batch. -/
def settle (stored : α) (values : List α) : α :=
  ((values.filter (stored < ·)).getLast?).getD stored

/-- The register after batches. -/
def settleAll (start : α) (batches : List (List α)) : α := batches.foldl settle start

/-- The maximum the register is meant to hold. -/
def best (start : α) (values : List α) : α := values.foldl max start

/-- The last value above what is stored, if there is one, is the greatest of the batch. -/
def EndsBest (stored : α) (values : List α) : Prop :=
  ∀ x ∈ (values.filter (stored < ·)).getLast?, ∀ y ∈ values, y ≤ x

instance (stored : α) (values : List α) : Decidable (EndsBest stored values) :=
  match last : (values.filter (stored < ·)).getLast? with
  | none => isTrue fun x mem => by rw [last] at mem; cases mem
  | some x =>
    decidable_of_iff (∀ y ∈ values, y ≤ x) (by
      constructor
      · intro all z mem
        rw [last] at mem
        exact Option.some.inj mem ▸ all
      · exact fun ends => ends x last)

variable {start stored b : α} {values : List α}

theorem best_le_iff : best start values ≤ b ↔ start ≤ b ∧ ∀ y ∈ values, y ≤ b := by
  induction values generalizing start with
  | nil => simp [best]
  | cons x rest ih =>
    have step : best start (x :: rest) = best (max start x) rest := rfl
    rw [step, ih, max_le_iff, List.forall_mem_cons, and_assoc]

theorem start_le_best : start ≤ best start values := (best_le_iff.mp le_rfl).1

theorem le_best {y : α} (mem : y ∈ values) : y ≤ best start values := (best_le_iff.mp le_rfl).2 y mem

theorem best_append (start : α) (xs ys : List α) : best start (xs ++ ys) = best (best start xs) ys :=
  List.foldl_append

theorem settle_of_some {x : α} (last : (values.filter (stored < ·)).getLast? = some x) :
    settle stored values = x ∧ stored < x ∧ x ∈ values := by
  have mem := List.mem_of_getLast? last
  rw [List.mem_filter, decide_eq_true_eq] at mem
  exact ⟨by rw [settle, last, Option.getD_some], mem.2, mem.1⟩

/-- Where nothing is queued, nothing is above what is stored. -/
theorem le_of_none (last : (values.filter (stored < ·)).getLast? = none) :
    ∀ y ∈ values, y ≤ stored := by
  rw [List.getLast?_eq_none_iff, List.filter_eq_nil_iff] at last
  intro y mem
  simpa using last y mem

/-- The register does not fall. -/
theorem le_settle (stored : α) (values : List α) : stored ≤ settle stored values := by
  cases last : (values.filter (stored < ·)).getLast? with
  | none => rw [settle, last, Option.getD_none]
  | some x =>
    obtain ⟨same, above, -⟩ := settle_of_some last
    exact above.le.trans_eq same.symm

/-- The register ends with the best of all exactly when the last value above what it held is the
greatest. -/
theorem settle_eq_best_iff : settle stored values = best stored values ↔ EndsBest stored values := by
  cases last : (values.filter (stored < ·)).getLast? with
  | none =>
    refine iff_of_true ?_ fun x mem => by rw [last] at mem; cases mem
    rw [settle, last, Option.getD_none]
    exact le_antisymm start_le_best (best_le_iff.mpr ⟨le_rfl, le_of_none last⟩)
  | some x =>
    obtain ⟨same, above, inside⟩ := settle_of_some last
    rw [same]
    constructor
    · intro isBest z mem y within
      rw [last] at mem
      obtain rfl := Option.some.inj mem
      exact (le_best within).trans_eq isBest.symm
    · intro ends
      exact le_antisymm (le_best inside) (best_le_iff.mpr ⟨above.le, ends x last⟩)

theorem settleAll_append (start : α) (pre post : List (List α)) :
    settleAll start (pre ++ post) = settleAll (settleAll start pre) post :=
  List.foldl_append

theorem le_settleAll (start : α) (batches : List (List α)) : start ≤ settleAll start batches := by
  induction batches generalizing start with
  | nil => exact le_rfl
  | cons batch rest ih => exact (le_settle start batch).trans (ih (settle start batch))

/-- The register does not fall from one batch to a later one. -/
theorem settleAll_take_le (start : α) (batches : List (List α)) {m n : Nat} (earlier : m ≤ n) :
    settleAll start (batches.take m) ≤ settleAll start (batches.take n) := by
  obtain ⟨more, split⟩ := List.take_prefix_take_left (l := batches) earlier
  rw [← split, settleAll_append]
  exact le_settleAll _ more

/-- The register holds the maximum after every batch exactly when every batch ends best. -/
theorem settleAll_eq_best_iff (start : α) (batches : List (List α)) :
    (∀ n, settleAll start (batches.take n) = best start (batches.take n).flatten) ↔
      ∀ n, ∀ batch ∈ batches[n]?, EndsBest (best start (batches.take n).flatten) batch := by
  have step : ∀ n, ∀ batch ∈ batches[n]?,
      settleAll start (batches.take n) = best start (batches.take n).flatten →
      (settleAll start (batches.take (n + 1)) = best start (batches.take (n + 1)).flatten ↔
        EndsBest (best start (batches.take n).flatten) batch) := by
    intro n batch there holds
    obtain ⟨inside, rfl⟩ := List.getElem?_eq_some_iff.mp there
    rw [List.take_succ_eq_append_getElem inside, settleAll_append, holds, List.flatten_append,
      best_append, List.flatten_singleton, ← settle_eq_best_iff]
    rfl
  constructor
  · intro holds n batch there
    exact (step n batch there (holds n)).mp (holds (n + 1))
  · intro ends n
    induction n with
    | zero => rfl
    | succ n ih =>
      cases there : batches[n]? with
      | some batch => exact (step n batch there ih).mpr (ends n batch there)
      | none =>
        have beyond := List.getElem?_eq_none_iff.mp there
        rw [List.take_of_length_le beyond] at ih
        rw [List.take_of_length_le (by omega)]
        exact ih

end Batched
