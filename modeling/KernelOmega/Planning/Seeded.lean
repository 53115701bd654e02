import KernelOmega.Coverage.FaultLocalization
import KernelOmega.Messages.Contracts
import KernelOmega.Planning.Widening

/-!
# The plan of a seeded task

`RepairPlanner.build_task_plan`: from the report of the test runs to the lines the workers look at.
Whatever the runs are and whatever the settings ask for, these are always the top of a ranking: of
the lines a failing run executes when there are any, and else the first of the lines that any run
executes. The plan focuses on a part of the ranking unless that part is empty.
-/

namespace KernelOmega

namespace RepairPlanner

/-- `sorted` of line numbers. -/
def sortedLines (lines : List Int) : List Int := lines.mergeSort (· ≤ ·)

/-- The strategy for so many focus lines, with its summary and its exploration. -/
def strategyFor (count : Nat) (failedCount : Nat) (budgets : BudgetSettings) :
    String × String × Rat :=
  if count = 0 then
    ("fallback", "Fallback plan: broaden search across all covered comparison lines.", 18 / 10)
  else if failedCount = 1 ∧ (count : Int) ≤ budgets.suspiciousLineCount then
    ("focused", s!"Focused plan: prioritize the top {count} suspicious lines first.", 105 / 100)
  else
    ("balanced",
      s!"Balanced plan: explore {count} suspicious lines with controlled widening by depth.",
      135 / 100)

/-- `build_task_plan` from the ranking on. -/
def planFrom (rankedLines coveredLines suspiciousLines : List Int) (failedCount : Nat)
    (budgets : BudgetSettings) : TaskPlan :=
  let focusLines :=
    if suspiciousLines = [] then sliceTo rankedLines budgets.suspiciousLineCount
    else suspiciousLines
  let fallbackLines := if rankedLines = [] then sortedLines coveredLines else rankedLines
  let (strategy, summary, ucbExploration) := strategyFor focusLines.length failedCount budgets
  { strategy, summary, focusLines, fallbackLines, ucbExploration
    maxChildren := budgets.maxChildren
    maxCapsules := budgets.maxCapsules
    maxDepth := budgets.maxDepth }

/-- `build_task_plan`: the lines ranked again by their scores, and the plan made from them. -/
noncomputable def buildTaskPlan (coverageMatrix : CoverageMatrix) (suspiciousLines : List Int)
    (failedCount passedCount : Nat) (budgets : BudgetSettings) : TaskPlan :=
  let localizer : FaultLocalizer := { totalFailed := failedCount, totalPassed := passedCount }
  planFrom ((localizer.rankSuspiciousLines coverageMatrix).map Prod.fst)
    (coverageMatrix.items.map Prod.fst) suspiciousLines failedCount budgets

end RepairPlanner

/-- The plan `fix_tests` seeds a task with. -/
noncomputable def seededPlan (runs : List TestRun) (budgets : BudgetSettings) : TaskPlan :=
  let report := buildCoverageReport runs budgets.suspiciousLineCount
  RepairPlanner.buildTaskPlan report.matrix report.suspiciousLines report.failedCount
    report.passedCount budgets

/-! ## The lines of a plan -/

/-- The lines a failing run executes. -/
def suspects (runs : List TestRun) : Set Int :=
  {line | ∃ run ∈ runs, run.failed = true ∧ run.Executes line}

/-- The lines a run executes. -/
def coveredBy (runs : List TestRun) : Set Int := {line | ∃ run ∈ runs, run.Executes line}

/-- How many of `total` lines `[:count]` keeps. -/
def keptOf (total : Nat) (count : Int) : Nat :=
  if 0 ≤ count then min count.toNat total else (total + count).toNat

/-- A slice takes a front, whatever the sign of its bound. -/
theorem sliceTo_eq_take_kept {α : Type} (xs : List α) (n : Int) :
    sliceTo xs n = xs.take (keptOf xs.length n) := by
  unfold sliceTo keptOf
  split
  · rw [List.take_eq_take_iff]
    omega
  · rfl

theorem keptOf_le (total : Nat) (count : Int) : keptOf total count ≤ total := by
  unfold keptOf
  split <;> omega

/-- The first `k` of the lines, in order. -/
structure IsFirst (lines : Set Int) (k : Nat) (front : List Int) : Prop where
  inside : ∀ line ∈ front, line ∈ lines
  length : front.length = min k lines.ncard
  ordered : front.Pairwise (· < ·)
  omitted : ∀ line ∈ lines, line ∉ front → ∀ kept ∈ front, kept < line

namespace RepairPlanner

variable {lines : List Int}

theorem sortedLines_perm (lines : List Int) : (sortedLines lines).Perm lines :=
  List.mergeSort_perm lines _

theorem sortedLines_pairwise (nodup : lines.Nodup) : (sortedLines lines).Pairwise (· < ·) := by
  have ordered : (sortedLines lines).Pairwise (· ≤ ·) := List.pairwise_mergeSort' (· ≤ ·) lines
  have distinct : (sortedLines lines).Pairwise (· ≠ ·) :=
    (sortedLines_perm lines).nodup_iff.mpr nodup
  exact (ordered.and distinct).imp fun both => lt_of_le_of_ne both.1 both.2

/-- The front of the sorted lines has the least lines of the set. -/
theorem isFirst_sortedLines {set : Set Int} (nodup : lines.Nodup)
    (listed : ∀ line, line ∈ lines ↔ line ∈ set) (k : Nat) :
    IsFirst set k ((sortedLines lines).take k) where
  inside line kept :=
    (listed line).mp ((sortedLines_perm lines).mem_iff.mp (List.mem_of_mem_take kept))
  length := by
    have finite : set = (lines.toFinset : Set Int) := by
      ext line
      rw [List.coe_toFinset]
      exact (listed line).symm
    rw [List.length_take, (sortedLines_perm lines).length_eq, finite, Set.ncard_coe_finset,
      List.toFinset_card_of_nodup nodup]
  ordered := (sortedLines_pairwise nodup).sublist (List.take_sublist k _)
  omitted line inside out kept held := by
    have known : line ∈ (sortedLines lines).take k ++ (sortedLines lines).drop k := by
      rw [List.take_append_drop]
      exact (sortedLines_perm lines).mem_iff.mpr ((listed line).mpr inside)
    have apart := sortedLines_pairwise nodup
    rw [← List.take_append_drop k (sortedLines lines), List.pairwise_append] at apart
    exact apart.2.2 kept held line ((List.mem_append.mp known).resolve_left out)

end RepairPlanner

/-! ## The lines of the matrix -/

section Covered

/-- The lines of the matrix after a run are those before and those of the run. -/
theorem mem_keys_countLines (failedRun : Bool) (matrix : CoverageMatrix) (lines : List Int)
    (line : Int) :
    line ∈ (matrix.countLines failedRun lines).items.map Prod.fst ↔
      line ∈ matrix.items.map Prod.fst ∨ line ∈ lines := by
  induction lines generalizing matrix with
  | nil => exact (or_iff_left List.not_mem_nil).symm
  | cons first lines ih =>
    have one : line ∈ (matrix.count failedRun first).items.map Prod.fst ↔
        line ∈ matrix.items.map Prod.fst ∨ line = first := by
      rw [CoverageMatrix.count, keys_countLine]
      split
      · next known =>
        refine ⟨.inl, fun either => either.elim id fun same => ?_⟩
        rw [same]
        exact known
      · rw [List.mem_append, List.mem_singleton]
    have rest := ih (matrix.count failedRun first)
    rw [one] at rest
    change line ∈ ((matrix.count failedRun first).countLines failedRun lines).items.map _ ↔ _
    rw [rest, List.mem_cons, or_assoc]

/-- A run adds the lines it executes. -/
theorem mem_keys_step (tally : CoverageTally) (run : TestRun) (line : Int) :
    line ∈ (tally.step run).matrix.items.map Prod.fst ↔
      line ∈ tally.matrix.items.map Prod.fst ∨ run.Executes line := by
  obtain ⟨failed, executedLines, linesNodup⟩ := run
  cases executedLines with
  | none =>
    have silent : ¬TestRun.Executes ⟨failed, none, linesNodup⟩ line := by simp [TestRun.Executes]
    rw [or_iff_left silent]
    cases failed <;> rfl
  | some lines =>
    have reported : TestRun.Executes ⟨failed, some lines, linesNodup⟩ line ↔ line ∈ lines := by
      simp [TestRun.Executes]
    rw [reported]
    cases failed with
    | true => exact mem_keys_countLines true tally.matrix lines line
    | false => exact mem_keys_countLines false tally.matrix lines line

/-- The matrix has a line exactly when a run executes it. -/
theorem mem_keys_build (runs : List TestRun) (line : Int) :
    line ∈ (CoverageTally.build runs).matrix.items.map Prod.fst ↔ line ∈ coveredBy runs := by
  suffices general : ∀ tally : CoverageTally,
      line ∈ (runs.foldl CoverageTally.step tally).matrix.items.map Prod.fst ↔
        line ∈ tally.matrix.items.map Prod.fst ∨ line ∈ coveredBy runs from
    (general .empty).trans (or_iff_right List.not_mem_nil)
  induction runs with
  | nil => simp [coveredBy]
  | cons run runs ih =>
    intro tally
    have apart : line ∈ coveredBy (run :: runs) ↔ run.Executes line ∨ line ∈ coveredBy runs := by
      simp [coveredBy]
    rw [List.foldl_cons, ih, mem_keys_step, apart, or_assoc]

end Covered

/-! ## The ranking -/

section Ranked

variable (runs : List TestRun)

/-- The lines a failing run executes, by their scores. -/
noncomputable def ranking : List Int :=
  ((localizerOf runs).rankSuspiciousLines (CoverageTally.build runs).matrix).map Prod.fst

theorem isTopK_ranking (k : Nat) : IsTopK runs k ((ranking runs).take k) := by
  have top := isTopK runs k
  rw [suspiciousLines_eq, List.map_take] at top
  exact top

theorem length_ranking : (ranking runs).length = (suspects runs).ncard := by
  rw [ranking, List.length_map, FaultLocalizer.rankSuspiciousLines,
    (Ranking.rankBy_perm Prod.snd _).length_eq]
  exact length_suspiciousLines runs

variable (budgets : BudgetSettings)

/-- The lines the plan focuses on are the front of the ranking. -/
theorem focusLines_seededPlan : (seededPlan runs budgets).focusLines =
    (ranking runs).take (keptOf (suspects runs).ncard budgets.suspiciousLineCount) := by
  have reported : (buildCoverageReport runs budgets.suspiciousLineCount).suspiciousLines =
      sliceTo (ranking runs) budgets.suspiciousLineCount := by
    rw [ranking, sliceTo_eq_take_kept, List.length_map, ← List.map_take, ← sliceTo_eq_take_kept]
    rfl
  have focus : (seededPlan runs budgets).focusLines =
      if (buildCoverageReport runs budgets.suspiciousLineCount).suspiciousLines = [] then
        sliceTo (ranking runs) budgets.suspiciousLineCount
      else (buildCoverageReport runs budgets.suspiciousLineCount).suspiciousLines := rfl
  rw [focus, reported, ite_self, sliceTo_eq_take_kept, length_ranking]

theorem length_focusLines : (seededPlan runs budgets).focusLines.length =
    keptOf (suspects runs).ncard budgets.suspiciousLineCount := by
  have within := keptOf_le (suspects runs).ncard budgets.suspiciousLineCount
  rw [focusLines_seededPlan, List.length_take, length_ranking, min_eq_left within]

theorem strategy_seededPlan : (seededPlan runs budgets).strategy =
    (RepairPlanner.strategyFor (keptOf (suspects runs).ncard budgets.suspiciousLineCount)
      (failedRuns runs) budgets).1 := by
  rw [← length_focusLines, ← CoverageTally.totalFailed_build]
  rfl

theorem fallbackLines_seededPlan : (seededPlan runs budgets).fallbackLines =
    if ranking runs = [] then
      RepairPlanner.sortedLines ((CoverageTally.build runs).matrix.items.map Prod.fst)
    else ranking runs := rfl

end Ranked

/-! ## Where the workers look -/

/-- The lines a plan sends the workers to at a depth. -/
structure Aims (runs : List TestRun) (budgets : BudgetSettings) (plan : TaskPlan) (depth : Nat)
    (lines : List Int) : Prop where
  /-- A plan with lines to focus on takes them from the top, the more the deeper. -/
  focus : 0 < keptOf (suspects runs).ncard budgets.suspiciousLineCount →
    plan.strategy =
        (if failedRuns runs = 1 ∧ 0 ≤ budgets.suspiciousLineCount then "focused"
        else "balanced") ∧
      IsTopK runs (min (plan.window depth)
        (keptOf (suspects runs).ncard budgets.suspiciousLineCount)) lines
  /-- A plan without falls back on the whole ranking, or else on what is covered at all. -/
  broaden : keptOf (suspects runs).ncard budgets.suspiciousLineCount = 0 →
    plan.strategy = "fallback" ∧
      ((suspects runs).Nonempty → IsTopK runs (plan.window depth) lines) ∧
      (suspects runs = ∅ → IsFirst (coveredBy runs) (plan.window depth) lines)

section Aims

variable {runs : List TestRun} {budgets : BudgetSettings}

/-- The ranking is empty when no failing run goes through any line. -/
theorem ranking_eq_nil_iff : ranking runs = [] ↔ suspects runs = ∅ := by
  rw [Set.eq_empty_iff_forall_notMem]
  constructor
  · intro none line suspect
    have listed := mem_suspiciousLines.mpr ⟨failedExecutions_pos_iff.mpr suspect, rfl⟩
    have counted := List.length_pos_of_mem listed
    rw [length_suspiciousLines] at counted
    have length := length_ranking runs
    rw [none, List.length_nil] at length
    exact Nat.ne_of_lt counted length
  · intro empty
    have top := isTopK_ranking runs (ranking runs).length
    rw [List.take_length] at top
    exact List.eq_nil_iff_forall_not_mem.mpr fun line listed => empty line (top.executed line listed)

/-- A focused or balanced plan takes its lines from the front of the ranking. -/
theorem targetLines_of_focus (depth : Nat)
    (strategy : (seededPlan runs budgets).strategy = "focused" ∨
      (seededPlan runs budgets).strategy = "balanced") :
    IsTopK runs (min ((seededPlan runs budgets).window depth)
        (keptOf (suspects runs).ncard budgets.suspiciousLineCount))
      ((seededPlan runs budgets).targetLines depth) := by
  rw [TaskPlan.targetLines_eq_take, TaskPlan.strategyLines, if_pos strategy, focusLines_seededPlan,
    List.take_take]
  exact isTopK_ranking runs _

/-- At every depth the plan's lines are those the strategy is to aim at: the front of the ranking,
or the front of the lines of the failing runs. -/
theorem aims_seededPlan (runs : List TestRun) (budgets : BudgetSettings) (depth : Nat) :
    Aims runs budgets (seededPlan runs budgets) depth
      ((seededPlan runs budgets).targetLines depth) where
  focus some := by
    have strategy : (seededPlan runs budgets).strategy =
        if failedRuns runs = 1 ∧ 0 ≤ budgets.suspiciousLineCount then "focused"
        else "balanced" := by
      have within : (keptOf (suspects runs).ncard budgets.suspiciousLineCount : Int) ≤
          budgets.suspiciousLineCount ↔ 0 ≤ budgets.suspiciousLineCount := by
        unfold keptOf
        split <;> omega
      rw [strategy_seededPlan, RepairPlanner.strategyFor, if_neg (Nat.ne_of_gt some)]
      simp only [within]
      split <;> rfl
    refine ⟨strategy, targetLines_of_focus depth ?_⟩
    rw [strategy]
    split
    · exact .inl rfl
    · exact .inr rfl
  broaden none := by
    have strategy : (seededPlan runs budgets).strategy = "fallback" := by
      rw [strategy_seededPlan, RepairPlanner.strategyFor, if_pos none]
    have unfocused : ¬((seededPlan runs budgets).strategy = "focused" ∨
        (seededPlan runs budgets).strategy = "balanced") := by
      rw [strategy]
      decide
    have lines : (seededPlan runs budgets).targetLines depth =
        (seededPlan runs budgets).fallbackLines.take ((seededPlan runs budgets).window depth) := by
      rw [TaskPlan.targetLines_eq_take, TaskPlan.strategyLines, if_neg unfocused]
    refine ⟨strategy, fun suspected => ?_, fun clear => ?_⟩
    · have ranked : ranking runs ≠ [] := fun nothing =>
        suspected.ne_empty (ranking_eq_nil_iff.mp nothing)
      rw [lines, fallbackLines_seededPlan, if_neg ranked]
      exact isTopK_ranking runs _
    · rw [lines, fallbackLines_seededPlan, if_pos (ranking_eq_nil_iff.mpr clear)]
      exact RepairPlanner.isFirst_sortedLines (CoverageTally.build runs).matrix.keysNodup
        (mem_keys_build runs) _

end Aims

/-- Whatever the runs were and whatever the settings are, a worker reads the plan that was seeded,
and until the budget is spent each of its expansions looks at the top lines: of those a failing run
executes when there are any, and else at the first of those that any run executes. Top is said of
the exact scores: they are real numbers, and no rounding takes part. -/
theorem seeded_plan_aims {F : Type} (doubles : Doubles F) (runs : List TestRun)
    (budgets : BudgetSettings) :
    TaskPlan.fromJson doubles ((seededPlan runs budgets).toJson doubles) =
        .ok ((seededPlan runs budgets).attributes doubles) ∧
      ∀ depth generated,
        (budgets.maxCapsules ≤ max generated 0 →
          (seededPlan runs budgets).expansionPlan depth generated = .empty) ∧
        (¬budgets.maxCapsules ≤ max generated 0 →
          Aims runs budgets (seededPlan runs budgets) depth
            ((seededPlan runs budgets).expansionPlan depth generated).targetLines) := by
  refine ⟨TaskPlan.fromJson_toJson doubles _, fun depth generated =>
    ⟨fun spent => ?_, fun left => ?_⟩⟩
  · exact TaskPlan.expansionPlan_spent spent depth
  · have plan := @TaskPlan.expansionPlan_left (seededPlan runs budgets) generated left depth
    rw [plan]
    exact aims_seededPlan runs budgets depth

section OneFailure

/-- A run that fails on lines 3 and 4, and one that passes on line 3. -/
def oneFailure : List TestRun :=
  [⟨true, some [3, 4], by decide⟩, ⟨false, some [3], by decide⟩]

def oneLine : BudgetSettings where
  maxCapsules := 40
  maxDiffLines := 20
  maxTouchedFiles := 3
  maxDepth := 4
  maxChildren := 3
  suspiciousLineCount := 1

theorem seeded_plan_aims_oneFailure :
    Aims oneFailure oneLine (seededPlan oneFailure oneLine) 1
      ((seededPlan oneFailure oneLine).expansionPlan 1 3).targetLines :=
  ((seeded_plan_aims twoDoubles oneFailure oneLine).2 1 3).2 (by decide)

/-- Line 4 tells the runs apart, and the plan focuses on it. -/
example : RepairPlanner.planFrom [4, 3] [3, 4] [4] 1 oneLine =
    { strategy := "focused"
      summary := "Focused plan: prioritize the top 1 suspicious lines first."
      focusLines := [4], fallbackLines := [4, 3], ucbExploration := 105 / 100
      maxChildren := 3, maxCapsules := 40, maxDepth := 4 } := rfl

end OneFailure

end KernelOmega
