import Mathlib.Logic.Relation

/-!
# Greedy descent

A descent in a forest goes from a node to the child it prefers and on from there, until it
meets a node without children or a child at which it ends at once. It looks at nothing but
its preference.

What it finds is good exactly when its preference never leaves the good nodes behind: at
every node it visits with a good node at or below it, the child it prefers has one too, and
is good itself where the descent ends (`Ends.good_iff`).
-/

namespace Rooted

/-- A forest with a preference among the children of each node, and the children at which a
descent ends. -/
structure Greedy (α : Type) where
  child : α → α → Prop
  prefers : α → α → Prop
  final : α → Prop
  prefers_child : ∀ {n m}, prefers n m → child n m
  prefers_unique : ∀ {n m m'}, prefers n m → prefers n m' → m = m'

namespace Greedy

variable {α : Type} {g : Greedy α} {good : α → Prop} {n m e : α}

/-- The descent from `n` ends at `e`. -/
inductive Ends (g : Greedy α) : (n e : α) → Prop
  | leaf {n : α} : (∀ c, ¬g.child n c) → Ends g n n
  | final {n m : α} : g.prefers n m → g.final m → Ends g n m
  | step {n m e : α} : g.prefers n m → ¬g.final m → Ends g m e → Ends g n e

/-- The descent from `n` looks at the children of `k`. -/
inductive Visits (g : Greedy α) : (n k : α) → Prop
  | refl {n : α} : Visits g n n
  | step {n m k : α} : g.prefers n m → ¬g.final m → Visits g m k → Visits g n k

/-- A good node at `n` or below it. -/
def HasBelow (g : Greedy α) (good : α → Prop) (n : α) : Prop :=
  ∃ e, Relation.ReflTransGen g.child n e ∧ good e

/-- On the way from `n` the preference never leaves the good nodes behind. -/
def Guided (g : Greedy α) (good : α → Prop) (n : α) : Prop :=
  ∀ k, g.Visits n k → g.HasBelow good k → ∀ m, g.prefers k m →
    g.HasBelow good m ∧ (g.final m → good m)

theorem Ends.reaches (ends : g.Ends n e) : Relation.ReflTransGen g.child n e := by
  induction ends with
  | leaf _ => exact .refl
  | final prefers _ => exact .single (g.prefers_child prefers)
  | step prefers _ _ ih => exact .head (g.prefers_child prefers) ih

theorem HasBelow.of_below (below : Relation.ReflTransGen g.child n m) (here : good m) :
    g.HasBelow good n :=
  ⟨m, below, here⟩

/-- Below a leaf there is only the leaf. -/
theorem HasBelow.of_leaf (has : g.HasBelow good n) (leaf : ∀ c, ¬g.child n c) : good n := by
  obtain ⟨e, below, here⟩ := has
  rcases below.cases_head with rfl | ⟨c, link, -⟩
  · exact here
  · exact absurd link (leaf c)

theorem Guided.step (guided : g.Guided good n) (prefers : g.prefers n m) (onward : ¬g.final m) :
    g.Guided good m :=
  fun k visits => guided k (.step prefers onward visits)

theorem Ends.unique {e' : α} (ends : g.Ends n e) (ends' : g.Ends n e') : e = e' := by
  induction ends with
  | @leaf n leaf =>
    cases ends' with
    | leaf _ => rfl
    | final prefers _ => exact absurd (g.prefers_child prefers) (leaf _)
    | step prefers _ _ => exact absurd (g.prefers_child prefers) (leaf _)
  | @final n m prefers final =>
    cases ends' with
    | leaf leaf => exact absurd (g.prefers_child prefers) (leaf _)
    | final prefers' _ => exact g.prefers_unique prefers prefers'
    | step prefers' onward _ => exact absurd (g.prefers_unique prefers prefers' ▸ final) onward
  | @step n m e prefers onward _ ih =>
    cases ends' with
    | leaf leaf => exact absurd (g.prefers_child prefers) (leaf _)
    | final prefers' final => exact absurd (g.prefers_unique prefers' prefers ▸ final) onward
    | step prefers' _ rest =>
      obtain rfl := g.prefers_unique prefers prefers'
      exact ih rest

/-- The end of a descent is good exactly when the descent is guided. -/
theorem Ends.good_iff (ends : g.Ends n e) (has : g.HasBelow good n) :
    good e ↔ g.Guided good n := by
  induction ends with
  | @leaf n leaf =>
    refine ⟨fun _ k visits => ?_, fun _ => has.of_leaf leaf⟩
    cases visits with
    | refl => exact fun _ m prefers => absurd (g.prefers_child prefers) (leaf m)
    | step prefers _ _ => exact absurd (g.prefers_child prefers) (leaf _)
  | @final n m prefers final =>
    constructor
    · intro here k visits
      cases visits with
      | refl =>
        intro _ m' prefers'
        obtain rfl := g.prefers_unique prefers prefers'
        exact ⟨.of_below .refl here, fun _ => here⟩
      | step prefers' onward _ =>
        obtain rfl := g.prefers_unique prefers prefers'
        exact absurd final onward
    · exact fun guided => (guided n .refl has m prefers).2 final
  | @step n m e prefers onward ends ih =>
    constructor
    · intro here k visits
      have hasM : g.HasBelow good m := .of_below ends.reaches here
      cases visits with
      | refl =>
        intro _ m' prefers'
        obtain rfl := g.prefers_unique prefers prefers'
        exact ⟨hasM, fun final => absurd final onward⟩
      | step prefers' _ visits =>
        obtain rfl := g.prefers_unique prefers prefers'
        exact (ih hasM).mp here k visits
    · intro guided
      obtain ⟨hasM, -⟩ := guided n .refl has m prefers
      exact (ih hasM).mpr (guided.step prefers onward)

end Greedy

end Rooted
