import KernelOmega.Planning
import Mathlib.Data.List.Infix

/-!
# Expansion plans only widen

A plan's target lines are a window at the front of the strategy's line list. The
window is counted in a natural number (`TaskPlan.window`), so everything about the
lines is a comparison of windows: windows grow with the depth and never depend on
the budget. The candidate bound grows with the depth and shrinks with the budget.
-/

namespace KernelOmega

section Slices

variable {α : Type}

/-- A bound that is not negative keeps that many elements. -/
theorem sliceTo_eq_take {xs : List α} {n : Int} (nonneg : 0 ≤ n) :
    sliceTo xs n = xs.take n.toNat := by
  simp [sliceTo, nonneg]

end Slices

/-- The plan handed out once the budget is used up. -/
def ExpansionPlan.empty : ExpansionPlan :=
  { targetLines := [], maxCandidates := 0, allowComparisonFallback := false,
    remainingCapsules := 0 }

namespace TaskPlan

variable (plan : TaskPlan)

/-- The list a strategy takes its target lines from. -/
def strategyLines : List Int :=
  if plan.strategy = "focused" ∨ plan.strategy = "balanced" then plan.focusLines
  else plan.fallbackLines

/-- How many of the strategy's lines are targets at a depth. -/
def window (depth : Nat) : Nat :=
  if plan.strategy = "focused" then 2 + min depth 2
  else if plan.strategy = "balanced" then 3 + depth
  else max 3 (plan.maxChildren + depth).toNat

/-- The target lines are a front of the strategy's lines, as wide as its window. -/
theorem targetLines_eq_take (depth : Nat) :
    plan.targetLines depth = plan.strategyLines.take (plan.window depth) := by
  unfold targetLines strategyLines window
  dsimp only
  split
  · next focused =>
    rw [sliceTo_eq_take (by omega), if_pos (Or.inl focused), List.take_eq_take_iff]
    omega
  · next unfocused =>
    split
    · next balanced =>
      rw [sliceTo_eq_take (by omega), if_pos (Or.inr balanced), List.take_eq_take_iff]
      omega
    · next unbalanced =>
      rw [sliceTo_eq_take (by omega), if_neg (not_or.mpr ⟨unfocused, unbalanced⟩),
        List.take_eq_take_iff]
      omega

theorem window_pos (depth : Nat) : 0 < plan.window depth := by
  unfold window
  split
  · omega
  · split <;> omega

theorem window_mono {shallow deep : Nat} (deeper : shallow ≤ deep) :
    plan.window shallow ≤ plan.window deep := by
  unfold window
  split
  · omega
  · split <;> omega

theorem targetLines_prefix (depth : Nat) : plan.targetLines depth <+: plan.strategyLines := by
  rw [targetLines_eq_take]
  exact List.take_prefix _ _

/-- A strategy with lines aims at some. -/
theorem targetLines_ne_nil {plan : TaskPlan} (some : plan.strategyLines ≠ []) (depth : Nat) :
    plan.targetLines depth ≠ [] := by
  intro none
  rw [targetLines_eq_take, List.take_eq_nil_iff] at none
  have window := plan.window_pos depth
  rcases none with closed | nothing
  · omega
  · exact some nothing

theorem targetLines_widen {shallow deep : Nat} (deeper : shallow ≤ deep) :
    plan.targetLines shallow <+: plan.targetLines deep := by
  rw [targetLines_eq_take, targetLines_eq_take]
  exact List.take_prefix_take_left (plan.window_mono deeper)

theorem strategyCandidates_le (depth : Nat) : plan.strategyCandidates depth ≤ plan.maxChildren := by
  unfold strategyCandidates
  dsimp only
  split
  · omega
  · split <;> omega

/-- The strategies allow no fewer candidates deeper down. -/
theorem strategyCandidates_mono {shallow deep : Nat} (deeper : shallow ≤ deep) :
    plan.strategyCandidates shallow ≤ plan.strategyCandidates deep := by
  unfold strategyCandidates
  dsimp only
  split
  · split <;> split <;> omega
  · split <;> omega

theorem remainingCapsules_nonneg (generated : Int) : 0 ≤ plan.remainingCapsules generated := by
  unfold remainingCapsules
  omega

theorem remainingCapsules_anti {fewer more : Int} (spent : fewer ≤ more) :
    plan.remainingCapsules more ≤ plan.remainingCapsules fewer := by
  unfold remainingCapsules
  omega

/-! ## The two shapes of a plan -/

/-- With the budget spent the plan is empty. -/
theorem expansionPlan_spent {plan : TaskPlan} {generated : Int}
    (spent : plan.maxCapsules ≤ max generated 0) (depth : Nat) :
    plan.expansionPlan depth generated = .empty := by
  unfold expansionPlan
  dsimp only
  rw [if_pos ((plan.remainingCapsules_eq_zero_iff generated).mpr spent)]
  rfl

/-- With budget left the plan is the strategy's, capped by what is left, -/
theorem expansionPlan_left {plan : TaskPlan} {generated : Int}
    (left : ¬plan.maxCapsules ≤ max generated 0) (depth : Nat) :
    plan.expansionPlan depth generated =
      { targetLines := plan.targetLines depth
        maxCandidates := min (plan.strategyCandidates depth) (plan.remainingCapsules generated)
        allowComparisonFallback := true
        remainingCapsules := plan.remainingCapsules generated } := by
  unfold expansionPlan
  dsimp only
  rw [if_neg (fun none => left ((plan.remainingCapsules_eq_zero_iff generated).mp none))]

/-- and it is empty exactly when none is left. -/
theorem expansionPlan_eq_empty_iff (depth : Nat) (generated : Int) :
    plan.expansionPlan depth generated = .empty ↔ plan.maxCapsules ≤ max generated 0 := by
  constructor
  · intro empty
    by_contra left
    rw [expansionPlan_left left] at empty
    exact Bool.noConfusion (congrArg ExpansionPlan.allowComparisonFallback empty)
  · intro spent
    exact expansionPlan_spent spent depth

/-- A deeper node may have more candidates, and never fewer. -/
theorem maxCandidates_widen (generated : Int) {shallow deep : Nat} (deeper : shallow ≤ deep) :
    (plan.expansionPlan shallow generated).maxCandidates ≤
      (plan.expansionPlan deep generated).maxCandidates := by
  by_cases spent : plan.maxCapsules ≤ max generated 0
  · have same : plan.expansionPlan shallow generated = plan.expansionPlan deep generated :=
      (expansionPlan_spent spent shallow).trans (expansionPlan_spent spent deep).symm
    exact Int.le_of_eq (congrArg ExpansionPlan.maxCandidates same)
  · rw [expansionPlan_left spent, expansionPlan_left spent]
    have candidates := plan.strategyCandidates_mono deeper
    dsimp only
    omega

/-- The bound is never negative, -/
theorem maxCandidates_nonneg {plan : TaskPlan} (children : 1 ≤ plan.maxChildren) (depth : Nat)
    (generated : Int) : 0 ≤ (plan.expansionPlan depth generated).maxCandidates := by
  have candidates := strategyCandidates_pos children depth
  have remaining := plan.remainingCapsules_nonneg generated
  by_cases spent : plan.maxCapsules ≤ max generated 0
  · rw [expansionPlan_spent spent]
    exact Int.le_refl 0
  · rw [expansionPlan_left spent]
    dsimp only
    omega

/-- and spending never raises it. -/
theorem maxCandidates_anti {plan : TaskPlan} (children : 1 ≤ plan.maxChildren) (depth : Nat)
    {fewer more : Int} (spending : fewer ≤ more) :
    (plan.expansionPlan depth more).maxCandidates ≤
      (plan.expansionPlan depth fewer).maxCandidates := by
  by_cases spent : plan.maxCapsules ≤ max more 0
  · rw [expansionPlan_spent spent]
    exact maxCandidates_nonneg children depth fewer
  · have before : ¬plan.maxCapsules ≤ max fewer 0 := by omega
    rw [expansionPlan_left spent, expansionPlan_left before]
    have remaining := plan.remainingCapsules_anti spending
    dsimp only
    omega

/-! ## The budget and the widening -/

/-- The plan of one expansion stays within the budget: empty exactly when the counted
capsules use the budget up, and else between one candidate and what the plan and the
budget allow, over lines from the front of the strategy's list. -/
structure WithinBudget (plan : TaskPlan) (depth : Nat) (generated : Int) : Prop where
  empty_iff : plan.expansionPlan depth generated = .empty ↔ plan.maxCapsules ≤ max generated 0
  one_le : ¬plan.maxCapsules ≤ max generated 0 →
    1 ≤ (plan.expansionPlan depth generated).maxCandidates
  le_bound : ¬plan.maxCapsules ≤ max generated 0 →
    (plan.expansionPlan depth generated).maxCandidates ≤
      min plan.maxChildren (plan.remainingCapsules generated)
  isPrefix : (plan.expansionPlan depth generated).targetLines <+: plan.strategyLines
  ne_nil : ¬plan.maxCapsules ≤ max generated 0 → plan.strategyLines ≠ [] →
    (plan.expansionPlan depth generated).targetLines ≠ []

/-- The plan one level deeper, at the same count, has at least these lines and candidates. -/
structure WidensAt (plan : TaskPlan) (depth : Nat) (generated : Int) : Prop where
  targetLines : (plan.expansionPlan depth generated).targetLines <+:
    (plan.expansionPlan (depth + 1) generated).targetLines
  maxCandidates : (plan.expansionPlan depth generated).maxCandidates ≤
    (plan.expansionPlan (depth + 1) generated).maxCandidates

/-- Counting more capsules at the same depth leaves no more candidates, and the same
lines until the budget is used up. -/
structure NarrowsWith (plan : TaskPlan) (depth : Nat) (fewer more : Int) : Prop where
  maxCandidates : (plan.expansionPlan depth more).maxCandidates ≤
    (plan.expansionPlan depth fewer).maxCandidates
  targetLines : ¬plan.maxCapsules ≤ max more 0 →
    (plan.expansionPlan depth more).targetLines = (plan.expansionPlan depth fewer).targetLines

/-- The plan of an expansion is within its bounds, for every depth and every number generated. -/
theorem withinBudget {plan : TaskPlan} (children : 1 ≤ plan.maxChildren) (depth : Nat)
    (generated : Int) : plan.WithinBudget depth generated where
  empty_iff := plan.expansionPlan_eq_empty_iff depth generated
  one_le := by
    intro left
    rw [expansionPlan_left left]
    have candidates := strategyCandidates_pos children depth
    have remaining := plan.remainingCapsules_nonneg generated
    have some := mt (plan.remainingCapsules_eq_zero_iff generated).mp left
    dsimp only
    omega
  le_bound := by
    intro left
    rw [expansionPlan_left left]
    have candidates := plan.strategyCandidates_le depth
    dsimp only
    omega
  isPrefix := by
    by_cases spent : plan.maxCapsules ≤ max generated 0
    · rw [expansionPlan_spent spent]
      exact List.nil_prefix
    · rw [expansionPlan_left spent]
      exact plan.targetLines_prefix depth
  ne_nil := by
    intro left lines
    rw [expansionPlan_left left]
    exact targetLines_ne_nil lines depth

/-- Going deeper widens a plan, -/
theorem widensAt (depth : Nat) (generated : Int) : plan.WidensAt depth generated where
  targetLines := by
    by_cases spent : plan.maxCapsules ≤ max generated 0
    · rw [expansionPlan_spent spent, expansionPlan_spent spent]
    · rw [expansionPlan_left spent, expansionPlan_left spent]
      exact plan.targetLines_widen (Nat.le_succ depth)
  maxCandidates := plan.maxCandidates_widen generated (Nat.le_succ depth)

/-- and spending narrows it. -/
theorem narrowsWith {plan : TaskPlan} (children : 1 ≤ plan.maxChildren) (depth : Nat)
    {fewer more : Int} (spending : fewer ≤ more) : plan.NarrowsWith depth fewer more where
  maxCandidates := maxCandidates_anti children depth spending
  targetLines := by
    intro left
    have before : ¬plan.maxCapsules ≤ max fewer 0 := by omega
    rw [expansionPlan_left left, expansionPlan_left before]

end TaskPlan

/-- For a plan with at least one child per expansion, every expansion stays within the
budget, deeper expansions only widen, and a larger count only narrows. -/
theorem expansion_plans_widen (plan : TaskPlan) (children : 1 ≤ plan.maxChildren) :
    (∀ depth generated, plan.WithinBudget depth generated) ∧
    (∀ depth generated, plan.WidensAt depth generated) ∧
    (∀ depth fewer more, fewer ≤ more → plan.NarrowsWith depth fewer more) := by
  refine ⟨?_, ?_, ?_⟩
  · intro depth generated
    exact TaskPlan.withinBudget children depth generated
  · intro depth generated
    exact plan.widensAt depth generated
  · intro depth fewer more spending
    exact TaskPlan.narrowsWith children depth spending

/-- A plan whose budget is smaller than its fan-out, over a list shorter than the window. -/
def narrowPlan : TaskPlan :=
  { strategy := "balanced", summary := "", focusLines := [4, 9], fallbackLines := [1],
    ucbExploration := 135 / 100, maxChildren := 3, maxCapsules := 1, maxDepth := 4 }

/-- A plan with one capsule, before and after it is spent. -/
theorem narrowPlan_widens :
    1 ≤ narrowPlan.maxChildren ∧
    (narrowPlan.expansionPlan 0 0).targetLines = [4, 9] ∧
    narrowPlan.expansionPlan 2 1 = .empty ∧
    (narrowPlan.expansionPlan 0 0).maxCandidates ≤ (narrowPlan.expansionPlan 1 0).maxCandidates :=
  ⟨by decide, by decide, ((expansion_plans_widen narrowPlan (by decide)).1 2 1).empty_iff.mpr
    (by decide), ((expansion_plans_widen narrowPlan (by decide)).2.1 0 0).maxCandidates⟩

end KernelOmega
