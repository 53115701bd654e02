import KernelOmega.Coverage.Matrix
import KernelOmega.Ranking.TopK
import Mathlib.Analysis.Real.Sqrt
import Mathlib.Data.Set.Card
import Mathlib.Tactic.Linarith
import Mathlib.Tactic.Positivity

/-!
# Fault localisation

`control_plane/fault_localization.py` and the end of `build_coverage_report`: the lines
executed by failing runs, ranked by their Ochiai score and cut. Python's floats are real numbers
here: the score is the exact square root, and no rounding makes two scores equal or swaps them.
-/

namespace KernelOmega

/-- The totals that every line's score is relative to. -/
structure FaultLocalizer where
  totalFailed : Nat
  totalPassed : Nat

namespace FaultLocalizer

/-- `calculate_ochiai`: the failing runs through a line, over the geometric mean of all failing runs
and all runs through it. Without a failing run there is nothing to divide by, and the score is zero.
-/
noncomputable def calculateOchiai (self : FaultLocalizer)
    (failedExecutions passedExecutions : Nat) : ℝ :=
  if self.totalFailed = 0 ∨ failedExecutions + passedExecutions = 0 then 0
  else
    let denominator := √(self.totalFailed * (failedExecutions + passedExecutions))
    if denominator > 0 then failedExecutions / denominator else 0

/-- The lines with a failing execution and their scores, in the order of the matrix. -/
noncomputable def suspiciousLines (self : FaultLocalizer) (matrix : CoverageMatrix) :
    List (Int × ℝ) :=
  matrix.items.filterMap fun (lineNum, stats) =>
    if stats.failed = 0 then none
    else some (lineNum, self.calculateOchiai stats.failed stats.passed)

/-- `rank_suspicious_lines`: a stable sort, best score first. -/
noncomputable def rankSuspiciousLines (self : FaultLocalizer) (matrix : CoverageMatrix) :
    List (Int × ℝ) :=
  Ranking.rankBy Prod.snd (self.suspiciousLines matrix)

/-- `get_top_k_lines`, with a slice that takes a negative bound from the end. -/
noncomputable def getTopKLines (self : FaultLocalizer) (matrix : CoverageMatrix) (k : Int) :
    List Int :=
  (sliceTo (self.rankSuspiciousLines matrix) k).map Prod.fst

end FaultLocalizer

/-- `CoverageBuildReport`, less the node ids and the timings. -/
structure CoverageBuildReport where
  matrix : CoverageMatrix
  suspiciousLines : List Int
  failedCount : Nat
  passedCount : Nat

/-- `build_coverage_report` from the outcomes of its subprocesses on. -/
noncomputable def buildCoverageReport (runs : List TestRun) (suspiciousLineCount : Int) :
    CoverageBuildReport :=
  let tally := CoverageTally.build runs
  { matrix := tally.matrix
    suspiciousLines :=
      FaultLocalizer.getTopKLines
        { totalFailed := tally.totalFailed, totalPassed := tally.totalPassed }
        tally.matrix suspiciousLineCount
    failedCount := tally.totalFailed
    passedCount := tally.totalPassed }

/-! ## The score -/

/-- The Ochiai score of a line over the runs. -/
noncomputable def ochiai (runs : List TestRun) (line : Int) : ℝ :=
  failedExecutions runs line /
    √(failedRuns runs * (failedExecutions runs line + passedExecutions runs line))

section Score

variable {runs : List TestRun} {line : Int}

theorem failedExecutions_le (runs : List TestRun) (line : Int) :
    failedExecutions runs line ≤ failedRuns runs := by
  apply List.countP_mono_left
  intro run _ both
  exact (Bool.and_eq_true_iff.mp both).1

/-- Under the root stands a positive number, once a failing run executes the line. -/
theorem ochiai_radicand_pos (executed : 0 < failedExecutions runs line) :
    (0 : ℝ) <
      failedRuns runs * (failedExecutions runs line + passedExecutions runs line) := by
  have runs_pos : (0 : ℝ) < failedRuns runs := by
    exact_mod_cast Nat.lt_of_lt_of_le executed (failedExecutions_le runs line)
  have line_pos : (0 : ℝ) < failedExecutions runs line := by exact_mod_cast executed
  have passed : (0 : ℝ) ≤ passedExecutions runs line := Nat.cast_nonneg _
  positivity

/-- The code's score is Ochiai's, where a failing run goes through the line. -/
theorem calculateOchiai_eq (executed : 0 < failedExecutions runs line) (totalPassed : Nat) :
    FaultLocalizer.calculateOchiai { totalFailed := failedRuns runs, totalPassed }
      (failedExecutions runs line) (passedExecutions runs line) = ochiai runs line := by
  have total := failedExecutions_le runs line
  have root := Real.sqrt_pos.mpr (ochiai_radicand_pos executed)
  unfold FaultLocalizer.calculateOchiai ochiai
  rw [if_neg (by dsimp only; omega)]
  exact if_pos root

theorem ochiai_pos (executed : 0 < failedExecutions runs line) : 0 < ochiai runs line := by
  have line_pos : (0 : ℝ) < failedExecutions runs line := by exact_mod_cast executed
  exact div_pos line_pos (Real.sqrt_pos.mpr (ochiai_radicand_pos executed))

/-- The square of the score, without the root. -/
theorem ochiai_sq (runs : List TestRun) (line : Int) :
    ochiai runs line ^ 2 = (failedExecutions runs line : ℝ) ^ 2 /
      (failedRuns runs * (failedExecutions runs line + passedExecutions runs line)) := by
  rw [ochiai, div_pow, Real.sq_sqrt (by positivity)]

/-- No score is above one. -/
theorem ochiai_le_one (executed : 0 < failedExecutions runs line) : ochiai runs line ≤ 1 := by
  have positive := ochiai_radicand_pos executed
  have total : (failedExecutions runs line : ℝ) ≤ failedRuns runs := by
    exact_mod_cast failedExecutions_le runs line
  have passed : (0 : ℝ) ≤ passedExecutions runs line := Nat.cast_nonneg _
  have failed : (0 : ℝ) ≤ failedExecutions runs line := Nat.cast_nonneg _
  rw [ochiai, div_le_one (Real.sqrt_pos.mpr positive)]
  apply Real.le_sqrt_of_sq_le
  nlinarith only [total, passed, failed]

/-- Every failing run executes the line exactly when it has as many failing executions as
there are failing runs. -/
theorem failedExecutions_eq_iff :
    failedExecutions runs line = failedRuns runs ↔
      ∀ run ∈ runs, run.failed = true → run.Executes line := by
  unfold failedExecutions failedRuns
  induction runs with
  | nil => simp
  | cons run runs ih =>
    have fewer := failedExecutions_le runs line
    unfold failedExecutions failedRuns at fewer
    rw [List.countP_cons, List.countP_cons, List.forall_mem_cons, ← ih]
    cases run.failed with
    | false => simp
    | true =>
      by_cases executes : run.Executes line
      · simp [executes]
      · simp [executes]
        omega

/-- No passing run goes through the line. -/
theorem passedExecutions_eq_zero_iff :
    passedExecutions runs line = 0 ↔ ∀ run ∈ runs, run.Executes line → run.failed = true := by
  rw [passedExecutions, List.countP_eq_zero]
  apply forall₂_congr
  intro run _
  cases run.failed with
  | true => simp
  | false => simp

/-- Of the lines that a failing run goes through, those have the score one that all failing runs and
no passing run go through. -/
theorem ochiai_eq_one_iff (executed : 0 < failedExecutions runs line) :
    ochiai runs line = 1 ↔
      failedExecutions runs line = failedRuns runs ∧ passedExecutions runs line = 0 := by
  have positive := ochiai_radicand_pos executed
  have total := failedExecutions_le runs line
  have squared : ochiai runs line ^ 2 = 1 ↔ ochiai runs line = 1 :=
    pow_eq_one_iff_of_nonneg (ochiai_pos executed).le two_ne_zero
  rw [← squared, ochiai_sq, div_eq_one_iff_eq positive.ne']
  constructor
  · intro equal
    have exact : failedExecutions runs line ^ 2 =
        failedRuns runs * (failedExecutions runs line + passedExecutions runs line) := by
      exact_mod_cast equal
    constructor
    · nlinarith only [exact, total, executed, Nat.zero_le (passedExecutions runs line)]
    · nlinarith only [exact, total, executed, Nat.zero_le (passedExecutions runs line)]
  · rintro ⟨all, none⟩
    rw [all, none]
    push_cast
    ring

end Score

/-! ## The ranking -/

section Ranked

variable (runs : List TestRun)

/-- The localizer that `build_coverage_report` makes. -/
def localizerOf : FaultLocalizer :=
  { totalFailed := (CoverageTally.build runs).totalFailed
    totalPassed := (CoverageTally.build runs).totalPassed }

variable {runs}

/-- What stands before the ranking: each line with a failing execution, with its score. -/
theorem mem_suspiciousLines {line : Int} {score : ℝ} :
    (line, score) ∈ (localizerOf runs).suspiciousLines (CoverageTally.build runs).matrix ↔
      0 < failedExecutions runs line ∧ score = ochiai runs line := by
  have stats := CoverageTally.stats_build runs line
  unfold FaultLocalizer.suspiciousLines
  rw [List.mem_filterMap]
  constructor
  · rintro ⟨⟨key, counts⟩, held, kept⟩
    dsimp only at kept
    split at kept
    · cases kept
    · next some =>
      obtain ⟨rfl, rfl⟩ := Prod.mk.inj (Option.some.inj kept)
      have counted := statsOf_of_mem (CoverageTally.build runs).matrix.keysNodup held
      have same : counts = executionsOf runs key := counted.symm.trans stats
      subst same
      have executed : 0 < failedExecutions runs key := Nat.pos_of_ne_zero some
      refine ⟨executed, ?_⟩
      rw [localizerOf, CoverageTally.totalFailed_build]
      exact calculateOchiai_eq executed _
  · rintro ⟨executed, rfl⟩
    have counted : statsOf (CoverageTally.build runs).matrix.items line ≠ .zero := by
      intro zero
      have failed := congrArg LineCounts.failed (stats.symm.trans zero)
      exact Nat.ne_of_gt executed failed
    refine ⟨(line, executionsOf runs line), ?_, ?_⟩
    · have held := mem_of_statsOf counted
      rw [show statsOf _ line = _ from stats] at held
      exact held
    · have some : ¬(executionsOf runs line).failed = 0 := Nat.ne_of_gt executed
      dsimp only
      rw [if_neg some, localizerOf, CoverageTally.totalFailed_build]
      exact congrArg Option.some (congrArg (Prod.mk line) (calculateOchiai_eq executed _))

/-- No line is ranked twice. -/
theorem suspiciousLines_nodup (self : FaultLocalizer) (matrix : CoverageMatrix) :
    ((self.suspiciousLines matrix).map Prod.fst).Nodup := by
  refine matrix.keysNodup.sublist ?_
  unfold FaultLocalizer.suspiciousLines
  induction matrix.items with
  | nil => exact List.Sublist.refl []
  | cons item items ih =>
    by_cases none : item.2.failed = 0
    · rw [List.filterMap_cons_none (by dsimp only; rw [if_pos none])]
      exact ih.cons item.1
    · rw [List.filterMap_cons_some (by dsimp only; rw [if_neg none])]
      exact ih.cons_cons item.1

end Ranked

/-! ## The true top `k` -/

/-- The lines are the top `k` of those executed by failing runs, by the Ochiai score. -/
structure IsTopK (runs : List TestRun) (k : Nat) (lines : List Int) : Prop where
  nodup : lines.Nodup
  executed : ∀ line ∈ lines, ∃ run ∈ runs, run.failed = true ∧ run.Executes line
  length : lines.length =
    min k {line | ∃ run ∈ runs, run.failed = true ∧ run.Executes line}.ncard
  ordered : lines.Pairwise fun a b => ochiai runs b ≤ ochiai runs a
  omitted : ∀ line, (∃ run ∈ runs, run.failed = true ∧ run.Executes line) → line ∉ lines →
    ∀ kept ∈ lines, ochiai runs line ≤ ochiai runs kept

theorem failedExecutions_pos_iff {runs : List TestRun} {line : Int} :
    0 < failedExecutions runs line ↔ ∃ run ∈ runs, run.failed = true ∧ run.Executes line := by
  simp [failedExecutions, List.countP_pos_iff]

section TopK

variable (runs : List TestRun)

/-- There are as many entries to rank as lines with a failing execution. -/
theorem length_suspiciousLines :
    ((localizerOf runs).suspiciousLines (CoverageTally.build runs).matrix).length =
      {line | ∃ run ∈ runs, run.failed = true ∧ run.Executes line}.ncard := by
  have nodup := suspiciousLines_nodup (localizerOf runs) (CoverageTally.build runs).matrix
  have lines : {line | ∃ run ∈ runs, run.failed = true ∧ run.Executes line} =
      ((((localizerOf runs).suspiciousLines (CoverageTally.build runs).matrix).map
        Prod.fst).toFinset : Set Int) := by
    ext line
    rw [List.coe_toFinset, Set.mem_ofPred_eq, Set.mem_ofPred_eq, List.mem_map,
      ← failedExecutions_pos_iff]
    constructor
    · intro executed
      exact ⟨(line, ochiai runs line), mem_suspiciousLines.mpr ⟨executed, rfl⟩, rfl⟩
    · rintro ⟨⟨key, score⟩, listed, rfl⟩
      exact (mem_suspiciousLines.mp listed).1
  rw [lines, Set.ncard_coe_finset, List.toFinset_card_of_nodup nodup, List.length_map]

/-- The suspicious lines of a report are the cut ranking. -/
theorem suspiciousLines_eq (k : Nat) :
    (buildCoverageReport runs k).suspiciousLines =
      ((Ranking.rankBy Prod.snd ((localizerOf runs).suspiciousLines
        (CoverageTally.build runs).matrix)).take k).map Prod.fst := by
  have cut : sliceTo ((localizerOf runs).rankSuspiciousLines (CoverageTally.build runs).matrix)
      (k : Int) = ((localizerOf runs).rankSuspiciousLines
        (CoverageTally.build runs).matrix).take k := by
    simp [sliceTo]
  exact congrArg (List.map Prod.fst) cut

variable {runs}

/-- An entry of the cut ranking carries its line's score. -/
theorem score_of_kept {k : Nat} {entry : Int × ℝ}
    (kept : entry ∈ (Ranking.rankBy Prod.snd ((localizerOf runs).suspiciousLines
      (CoverageTally.build runs).matrix)).take k) :
    0 < failedExecutions runs entry.1 ∧ entry.2 = ochiai runs entry.1 :=
  mem_suspiciousLines.mp (Ranking.mem_of_mem_take_rankBy kept)

/-- The cut list is a top `k` by the score, in its order. -/
theorem isTopK (runs : List TestRun) (k : Nat) :
    IsTopK runs k (buildCoverageReport runs k).suspiciousLines where
  nodup := by
    rw [suspiciousLines_eq]
    have ranked := (Ranking.rankBy_perm Prod.snd ((localizerOf runs).suspiciousLines
      (CoverageTally.build runs).matrix)).map Prod.fst
    have nodup := ranked.nodup_iff.mpr (suspiciousLines_nodup _ _)
    exact nodup.sublist ((List.take_sublist k _).map Prod.fst)
  executed := by
    intro line kept
    rw [suspiciousLines_eq, List.mem_map] at kept
    obtain ⟨entry, kept, rfl⟩ := kept
    exact failedExecutions_pos_iff.mp (score_of_kept kept).1
  length := by
    rw [suspiciousLines_eq, List.length_map, Ranking.length_take_rankBy, length_suspiciousLines]
  ordered := by
    rw [suspiciousLines_eq, List.pairwise_map]
    refine List.Pairwise.imp_of_mem ?_ Ranking.take_rankBy_pairwise
    intro a b first second ordered
    rw [(score_of_kept first).2, (score_of_kept second).2] at ordered
    exact ordered
  omitted := by
    intro line suspicious out kept listed
    rw [suspiciousLines_eq, List.mem_map] at out listed
    obtain ⟨entry, listed, rfl⟩ := listed
    have known := mem_suspiciousLines.mpr ⟨failedExecutions_pos_iff.mpr suspicious, rfl⟩
    have below := Ranking.score_le_of_left_out known (fun inside => out ⟨_, inside, rfl⟩) listed
    rw [(score_of_kept listed).2] at below
    exact below

/-- Scores lie in `(0, 1]`, and are `1` for the lines that tell failing from passing runs. -/
theorem ochiai_bounds {line : Int}
    (suspicious : ∃ run ∈ runs, run.failed = true ∧ run.Executes line) :
    0 < ochiai runs line ∧ ochiai runs line ≤ 1 ∧
      (ochiai runs line = 1 ↔ ∀ run ∈ runs, (run.failed = true ↔ run.Executes line)) := by
  have executed := failedExecutions_pos_iff.mpr suspicious
  refine ⟨ochiai_pos executed, ochiai_le_one executed, ?_⟩
  rw [ochiai_eq_one_iff executed, failedExecutions_eq_iff, passedExecutions_eq_zero_iff]
  constructor
  · rintro ⟨all, none⟩ run member
    exact ⟨all run member, none run member⟩
  · intro exact
    exact ⟨fun run member => (exact run member).mp, fun run member => (exact run member).mpr⟩

end TopK

/-- For all runs and every `k`, fault localisation returns the true top `k` lines. -/
theorem localisation_top_k (runs : List TestRun) (k : Nat) :
    IsTopK runs k (buildCoverageReport runs k).suspiciousLines ∧
    ∀ line, (∃ run ∈ runs, run.failed = true ∧ run.Executes line) →
      0 < ochiai runs line ∧ ochiai runs line ≤ 1 ∧
      (ochiai runs line = 1 ↔ ∀ run ∈ runs, (run.failed = true ↔ run.Executes line)) := by
  constructor
  · exact isTopK runs k
  · intro line suspicious
    exact ochiai_bounds suspicious

end KernelOmega
