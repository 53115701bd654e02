import Mathlib.Data.List.Basic

/-!
# How far two lists are apart

Two lists are within `n` changes when a list that is in both of them, in order, leaves out at
most `n` entries of either. Changes add up along a chain of lists: what two sublists of one
list have in common leaves out of each no more than the other has left out of the list.
-/

namespace Distance

variable {α : Type} {m n : Nat} {xs ys zs : List α}

/-- All but `n` entries of either list are in the other, in the same order. -/
def Within (n : Nat) (xs ys : List α) : Prop :=
  ∃ common : List α, common.Sublist xs ∧ common.Sublist ys ∧
    xs.length ≤ common.length + n ∧ ys.length ≤ common.length + n

theorem Within.refl (xs : List α) : Within 0 xs xs :=
  ⟨xs, .refl xs, .refl xs, Nat.le_refl _, Nat.le_refl _⟩

theorem Within.mono (more : m ≤ n) (close : Within m xs ys) : Within n xs ys := by
  obtain ⟨common, left, right, few, few'⟩ := close
  exact ⟨common, left, right, by omega, by omega⟩

/-- Two sublists of a list have a sublist in common that is long enough. -/
theorem exists_common {l l' : List α} (left : l.Sublist ys) (right : l'.Sublist ys) :
    ∃ common : List α, common.Sublist l ∧ common.Sublist l' ∧
      l.length + l'.length ≤ ys.length + common.length := by
  induction ys generalizing l l' with
  | nil =>
    obtain rfl := List.sublist_nil.mp left
    obtain rfl := List.sublist_nil.mp right
    exact ⟨[], .refl [], .refl [], Nat.le_refl _⟩
  | cons y ys ih =>
    cases left with
    | cons _ left =>
      cases right with
      | cons _ right =>
        obtain ⟨common, inLeft, inRight, long⟩ := ih left right
        refine ⟨common, inLeft, inRight, ?_⟩
        rw [List.length_cons]
        omega
      | @cons_cons r _ _ right =>
        obtain ⟨common, inLeft, inRight, long⟩ := ih left right
        refine ⟨common, inLeft, inRight.cons y, ?_⟩
        rw [List.length_cons, List.length_cons]
        omega
    | @cons_cons l _ _ left =>
      cases right with
      | cons _ right =>
        obtain ⟨common, inLeft, inRight, long⟩ := ih left right
        refine ⟨common, inLeft.cons y, inRight, ?_⟩
        rw [List.length_cons, List.length_cons]
        omega
      | @cons_cons r _ _ right =>
        obtain ⟨common, inLeft, inRight, long⟩ := ih left right
        refine ⟨y :: common, inLeft.cons_cons y, inRight.cons_cons y, ?_⟩
        rw [List.length_cons, List.length_cons, List.length_cons, List.length_cons]
        omega

/-- Changes add up. -/
theorem Within.trans (first : Within m xs ys) (second : Within n ys zs) :
    Within (m + n) xs zs := by
  obtain ⟨l, leftX, leftY, fewX, fewY⟩ := first
  obtain ⟨l', rightY, rightZ, fewY', fewZ⟩ := second
  obtain ⟨common, inLeft, inRight, long⟩ := exists_common leftY rightY
  exact ⟨common, inLeft.trans leftX, inRight.trans rightZ, by omega, by omega⟩

/-- A change in the middle takes no more than what it takes out and what it puts in. -/
theorem Within.middle (before after : List α) (old : xs.length ≤ n) (new : ys.length ≤ n) :
    Within n (before ++ (xs ++ after)) (before ++ (ys ++ after)) := by
  refine ⟨before ++ after, ?_, ?_, ?_, ?_⟩
  · exact (List.Sublist.refl before).append (List.sublist_append_right xs after)
  · exact (List.Sublist.refl before).append (List.sublist_append_right ys after)
  · simp only [List.length_append]
    omega
  · simp only [List.length_append]
    omega

/-- `n` steps of a relation lead from one to the other. -/
inductive Steps {σ : Type} (r : σ → σ → Prop) : Nat → σ → σ → Prop
  | refl (a : σ) : Steps r 0 a a
  | tail {a b c : σ} {n : Nat} : Steps r n a b → r b c → Steps r (n + 1) a c

/-- Where each step keeps within `m` changes, `n` steps keep within `n` times as many. -/
theorem Within.of_steps {σ : Type} {r : σ → σ → Prop} {text : σ → List α} {a b : σ}
    (each : ∀ a b, r a b → Within m (text a) (text b)) (steps : Steps r n a b) :
    Within (n * m) (text a) (text b) := by
  induction steps with
  | refl a =>
    rw [Nat.zero_mul]
    exact .refl (text a)
  | tail _ step ih =>
    rw [Nat.succ_mul]
    exact ih.trans (each _ _ step)

end Distance
