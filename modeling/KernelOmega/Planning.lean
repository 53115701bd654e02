import Mathlib.Data.Rat.Defs
import Mathlib.Data.List.Basic

/-!
# Task plans

`control_plane/planning.py`: the plan seeded with a task and the expansion plan a
worker derives from it for one node. Python integers are `Int`; a depth is a
natural number, since it starts at `0` and is only ever incremented.
-/

namespace KernelOmega

/-- `settings.BudgetSettings`, less `max_wall_seconds`, which no code reads. -/
structure BudgetSettings where
  maxCapsules : Int
  maxDiffLines : Int
  maxTouchedFiles : Int
  maxDepth : Int
  maxChildren : Int
  suspiciousLineCount : Int
  deriving DecidableEq

/-- Python's `xs[:n]`: a negative bound counts from the end. -/
def sliceTo {α : Type} (xs : List α) (n : Int) : List α :=
  if 0 ≤ n then xs.take n.toNat else xs.take (xs.length + n).toNat

/-- What an expansion at one depth may do: the lines to aim at, and how many candidates to make. -/
structure ExpansionPlan where
  targetLines : List Int
  maxCandidates : Int
  allowComparisonFallback : Bool
  remainingCapsules : Int
  deriving DecidableEq

/-- The plan a task is seeded with. It is stored with the root and read by every worker, so all of
them search under the same limits. -/
structure TaskPlan where
  strategy : String
  summary : String
  focusLines : List Int
  fallbackLines : List Int
  ucbExploration : Rat
  maxChildren : Int
  maxCapsules : Int
  maxDepth : Int
  deriving DecidableEq

namespace TaskPlan

/-- `remaining_capsules`; a negative count is taken for none. -/
def remainingCapsules (plan : TaskPlan) (generatedCapsules : Int) : Int :=
  max (plan.maxCapsules - max generatedCapsules 0) 0

/-- The strategy's target lines at a depth. -/
def targetLines (plan : TaskPlan) (depth : Nat) : List Int :=
  let depth : Int := depth
  if plan.strategy = "focused" then
    sliceTo plan.focusLines (min plan.focusLines.length (2 + min depth 2))
  else if plan.strategy = "balanced" then
    let count : Int := plan.focusLines.length
    sliceTo plan.focusLines (min count (max 3 (min count (3 + depth))))
  else
    let count : Int := plan.fallbackLines.length
    sliceTo plan.fallbackLines (min count (max 3 (min count (plan.maxChildren + depth))))

/-- The strategy's candidate bound at a depth, before the remaining budget caps it. -/
def strategyCandidates (plan : TaskPlan) (depth : Nat) : Int :=
  let depth : Int := depth
  if plan.strategy = "focused" then min plan.maxChildren (if depth = 0 then 2 else 3)
  else if plan.strategy = "balanced" then
    min plan.maxChildren (max 2 (min plan.maxChildren (2 + depth)))
  else plan.maxChildren

/-- `expansion_plan`: the strategy's lines and bound, capped by what is left of the budget. With
nothing left the plan is empty, and the caller closes the node. -/
def expansionPlan (plan : TaskPlan) (depth : Nat) (generatedCapsules : Int) : ExpansionPlan :=
  let remaining := plan.remainingCapsules generatedCapsules
  if remaining = 0 then
    { targetLines := [], maxCandidates := 0, allowComparisonFallback := false,
      remainingCapsules := 0 }
  else
    { targetLines := plan.targetLines depth
      maxCandidates := min (plan.strategyCandidates depth) remaining
      allowComparisonFallback := true
      remainingCapsules := remaining }

end TaskPlan

/-- `RepairPlanner.legacy_task_plan` -/
def legacyTaskPlan (suspiciousLines : List Int) (budgets : BudgetSettings) : TaskPlan :=
  let focusLines := sliceTo suspiciousLines budgets.suspiciousLineCount
  { strategy := "balanced"
    summary := "Legacy plan: balanced search over suspicious lines."
    focusLines := focusLines
    fallbackLines := focusLines
    ucbExploration := 135 / 100
    maxChildren := budgets.maxChildren
    maxCapsules := budgets.maxCapsules
    maxDepth := budgets.maxDepth }

namespace TaskPlan

variable (plan : TaskPlan)

/-- Every strategy allows a candidate at least. -/
theorem strategyCandidates_pos {plan : TaskPlan} (children : 1 ≤ plan.maxChildren) (depth : Nat) :
    1 ≤ plan.strategyCandidates depth := by
  unfold strategyCandidates
  dsimp only
  split
  · split <;> omega
  · split <;> omega

theorem remainingCapsules_eq_zero_iff (generated : Int) :
    plan.remainingCapsules generated = 0 ↔ plan.maxCapsules ≤ max generated 0 := by
  unfold remainingCapsules
  omega

end TaskPlan

end KernelOmega
