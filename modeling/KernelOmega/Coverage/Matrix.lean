import KernelOmega.Planning
import Mathlib.Algebra.Group.Nat.Defs
import Mathlib.Data.Int.Order.Basic
import Mathlib.Data.List.Nodup

/-!
# The coverage matrix

`control_plane/coverage_analysis.py`: the loop of `build_coverage_report` over the test
runs. What a run contributes is its return code and the executed lines of the source in
its report, if there is a report with the source in it. The matrix ends up holding, for
every executed line, the numbers of passing and failing runs that execute it
(`stats_build`), while the totals also count the runs without a report.
-/

namespace KernelOmega

/-- The dictionary `{"passed": .., "failed": ..}` of one line. -/
structure LineCounts where
  passed : Nat
  failed : Nat
  deriving DecidableEq

namespace LineCounts

def zero : LineCounts := { passed := 0, failed := 0 }

/-- `counts[bucket] += 1`, the bucket named by whether the run failed. -/
def bump (failedRun : Bool) (counts : LineCounts) : LineCounts :=
  if failedRun then { counts with failed := counts.failed + 1 }
  else { counts with passed := counts.passed + 1 }

end LineCounts

/-- `CoverageMatrix`: a dictionary from line numbers to counts, in insertion order. -/
structure CoverageMatrix where
  items : List (Int × LineCounts)
  keysNodup : (items.map Prod.fst).Nodup

/-- One run of `coverage run -m pytest` on a collected test: whether it failed, and the
`executed_lines` of the source, `none` when there is no report or the source is not in it. -/
structure TestRun where
  failed : Bool
  executedLines : Option (List Int)
  linesNodup : ∀ lines ∈ executedLines, lines.Nodup

namespace TestRun

/-- The run executes the line, as far as its report tells. -/
def Executes (run : TestRun) (line : Int) : Prop := ∃ lines ∈ run.executedLines, line ∈ lines

instance (run : TestRun) (line : Int) : Decidable (run.Executes line) :=
  match reported : run.executedLines with
  | none => isFalse (by simp [Executes, reported])
  | some lines => decidable_of_iff (line ∈ lines) (by simp [Executes, reported])

end TestRun

/-! ## One line of one report -/

/-- `matrix.setdefault(line, ..)` and `matrix[line][bucket] += 1`, on the items. -/
def countLine (failedRun : Bool) (line : Int) :
    List (Int × LineCounts) → List (Int × LineCounts)
  | [] => [(line, LineCounts.zero.bump failedRun)]
  | (other, counts) :: items =>
    if other = line then (other, counts.bump failedRun) :: items
    else (other, counts) :: countLine failedRun line items

/-- The counts of a line, zero for a line the matrix does not hold. -/
def statsOf (items : List (Int × LineCounts)) (line : Int) : LineCounts :=
  (items.lookup line).getD .zero

section CountLine

variable (failedRun : Bool) (line : Int)

/-- Counting a line adds it to the keys if it is new, at the end. -/
theorem keys_countLine (items : List (Int × LineCounts)) :
    (countLine failedRun line items).map Prod.fst =
      if line ∈ items.map Prod.fst then items.map Prod.fst
      else items.map Prod.fst ++ [line] := by
  induction items with
  | nil => simp [countLine]
  | cons item items ih =>
    obtain ⟨other, counts⟩ := item
    by_cases here : other = line
    · subst here
      simp [countLine]
    · have there : ¬line = other := fun same => here same.symm
      simp only [countLine, if_neg here, List.map_cons, ih, List.mem_cons, there, false_or]
      split
      · rfl
      · rfl

/-- Counting a line keeps the keys distinct. -/
theorem keysNodup_countLine {items : List (Int × LineCounts)}
    (nodup : (items.map Prod.fst).Nodup) :
    ((countLine failedRun line items).map Prod.fst).Nodup := by
  rw [keys_countLine]
  split
  · exact nodup
  · next fresh =>
    rw [List.nodup_append]
    refine ⟨nodup, List.nodup_singleton line, ?_⟩
    intro key held added once same
    rw [List.mem_singleton.mp once] at same
    exact fresh (same ▸ held)

theorem statsOf_cons (item : Int × LineCounts) (items : List (Int × LineCounts)) (other : Int) :
    statsOf (item :: items) other = if other = item.1 then item.2 else statsOf items other := by
  obtain ⟨key, counts⟩ := item
  by_cases here : other = key
  · simp [statsOf, here]
  · have differs : (other == key) = false := beq_false_of_ne here
    simp [statsOf, List.lookup_cons, here, differs]

/-- Counting a line changes the counts of that line, also when it was in the matrix before. -/
theorem statsOf_countLine (items : List (Int × LineCounts)) (other : Int) :
    statsOf (countLine failedRun line items) other =
      if other = line then (statsOf items other).bump failedRun else statsOf items other := by
  induction items with
  | nil =>
    rw [countLine, statsOf_cons]
    rfl
  | cons item items ih =>
    obtain ⟨key, counts⟩ := item
    by_cases here : key = line
    · subst here
      rw [countLine, if_pos rfl, statsOf_cons, statsOf_cons]
      split
      · rfl
      · rfl
    · rw [countLine, if_neg here, statsOf_cons, statsOf_cons, ih]
      by_cases same : other = key
      · have elsewhere : ¬other = line := fun equal => here (same.symm.trans equal)
        rw [if_pos same, if_pos same, if_neg elsewhere]
      · rw [if_neg same, if_neg same]

end CountLine

/-- An item holds its line's counts. -/
theorem statsOf_of_mem {items : List (Int × LineCounts)} (nodup : (items.map Prod.fst).Nodup)
    {line : Int} {counts : LineCounts} (held : (line, counts) ∈ items) :
    statsOf items line = counts := by
  induction items with
  | nil => exact absurd held List.not_mem_nil
  | cons item items ih =>
    rw [List.map_cons, List.nodup_cons] at nodup
    rw [statsOf_cons]
    rcases List.mem_cons.mp held with rfl | later
    · rw [if_pos rfl]
    · have other : ¬line = item.1 := by
        intro same
        exact nodup.1 (same ▸ List.mem_map_of_mem later)
      rw [if_neg other, ih nodup.2 later]

/-- A line with counts has an item. -/
theorem mem_of_statsOf {items : List (Int × LineCounts)} {line : Int}
    (counted : statsOf items line ≠ .zero) : (line, statsOf items line) ∈ items := by
  induction items with
  | nil => exact absurd rfl counted
  | cons item items ih =>
    rw [statsOf_cons] at counted ⊢
    by_cases here : line = item.1
    · rw [if_pos here, here]
      exact List.mem_cons_self
    · rw [if_neg here] at counted ⊢
      exact List.mem_cons_of_mem item (ih counted)

namespace CoverageMatrix

def empty : CoverageMatrix := { items := [], keysNodup := List.nodup_nil }

def stats (matrix : CoverageMatrix) (line : Int) : LineCounts := statsOf matrix.items line

def count (failedRun : Bool) (matrix : CoverageMatrix) (line : Int) : CoverageMatrix :=
  { items := countLine failedRun line matrix.items
    keysNodup := keysNodup_countLine failedRun line matrix.keysNodup }

/-- `for line in files[key].get("executed_lines", []): ..` -/
def countLines (failedRun : Bool) (matrix : CoverageMatrix) (lines : List Int) :
    CoverageMatrix :=
  lines.foldl (count failedRun) matrix

theorem stats_count (failedRun : Bool) (matrix : CoverageMatrix) (line other : Int) :
    (matrix.count failedRun line).stats other =
      if other = line then (matrix.stats other).bump failedRun else matrix.stats other :=
  statsOf_countLine failedRun line matrix.items other

/-- The lines of one report count once each. -/
theorem stats_countLines (failedRun : Bool) {lines : List Int} (nodup : lines.Nodup)
    (matrix : CoverageMatrix) (other : Int) :
    (matrix.countLines failedRun lines).stats other =
      if other ∈ lines then (matrix.stats other).bump failedRun else matrix.stats other := by
  induction lines generalizing matrix with
  | nil => simp [countLines]
  | cons line lines ih =>
    obtain ⟨fresh, nodup⟩ := List.nodup_cons.mp nodup
    have rest := ih nodup (matrix.count failedRun line)
    rw [stats_count] at rest
    change ((matrix.count failedRun line).countLines failedRun lines).stats other = _
    rw [rest]
    by_cases here : other = line
    · subst here
      rw [if_neg fresh, if_pos rfl, if_pos List.mem_cons_self]
    · rw [if_neg here]
      simp only [List.mem_cons, here, false_or]

end CoverageMatrix

/-! ## The loop over the runs -/

/-- What the loop has accumulated. -/
structure CoverageTally where
  matrix : CoverageMatrix
  totalPassed : Nat
  totalFailed : Nat

namespace CoverageTally

def empty : CoverageTally := { matrix := .empty, totalPassed := 0, totalFailed := 0 }

/-- One pass of the loop: the totals count every run, the matrix only reported ones. -/
def step (tally : CoverageTally) (run : TestRun) : CoverageTally :=
  let totals : CoverageTally :=
    if run.failed then { tally with totalFailed := tally.totalFailed + 1 }
    else { tally with totalPassed := tally.totalPassed + 1 }
  match run.executedLines with
  | none => totals
  | some lines => { totals with matrix := totals.matrix.countLines run.failed lines }

/-- The loop of `build_coverage_report`. -/
def build (runs : List TestRun) : CoverageTally := runs.foldl step empty

/-- A run is counted once for a line it executes, however often the line is reported. -/
theorem matrix_step (tally : CoverageTally) (run : TestRun) (line : Int) :
    (tally.step run).matrix.stats line =
      if run.Executes line then (tally.matrix.stats line).bump run.failed
      else tally.matrix.stats line := by
  obtain ⟨failed, executedLines, linesNodup⟩ := run
  cases executedLines with
  | none =>
    have silent : ¬TestRun.Executes ⟨failed, none, linesNodup⟩ line := by simp [TestRun.Executes]
    rw [if_neg silent]
    cases failed with
    | true => rfl
    | false => rfl
  | some lines =>
    have reported : TestRun.Executes ⟨failed, some lines, linesNodup⟩ line ↔ line ∈ lines := by
      simp [TestRun.Executes]
    have counted := CoverageMatrix.stats_countLines failed (linesNodup lines rfl) tally.matrix line
    simp only [reported]
    cases failed with
    | true => exact counted
    | false => exact counted

/-- A run is counted among the failing ones if it fails. -/
theorem totalFailed_step (tally : CoverageTally) (run : TestRun) :
    (tally.step run).totalFailed = tally.totalFailed + if run.failed then 1 else 0 := by
  unfold step
  cases run.executedLines with
  | none =>
    cases run.failed with
    | true => rfl
    | false => rfl
  | some lines =>
    cases run.failed with
    | true => rfl
    | false => rfl

end CoverageTally

/-! ## What the runs say -/

/-- How many failing runs execute the line. -/
def failedExecutions (runs : List TestRun) (line : Int) : Nat :=
  runs.countP fun run => run.failed && run.Executes line

/-- How many passing runs execute the line. -/
def passedExecutions (runs : List TestRun) (line : Int) : Nat :=
  runs.countP fun run => !run.failed && run.Executes line

/-- How many runs fail, reported or not. -/
def failedRuns (runs : List TestRun) : Nat := runs.countP TestRun.failed

/-- What the runs add to a line's counts. -/
def executionsOf (runs : List TestRun) (line : Int) : LineCounts :=
  { passed := passedExecutions runs line, failed := failedExecutions runs line }

namespace CoverageTally

/-- The loop adds the runs' executions to the counts it starts from. -/
theorem matrix_foldl (runs : List TestRun) (tally : CoverageTally) (line : Int) :
    (runs.foldl step tally).matrix.stats line =
      { passed := (tally.matrix.stats line).passed + passedExecutions runs line
        failed := (tally.matrix.stats line).failed + failedExecutions runs line } := by
  induction runs generalizing tally with
  | nil => rfl
  | cons run runs ih =>
    rw [List.foldl_cons, ih, matrix_step]
    unfold passedExecutions failedExecutions LineCounts.bump
    rw [List.countP_cons, List.countP_cons]
    by_cases executes : run.Executes line
    · cases run.failed with
      | true => simp [executes]; omega
      | false => simp [executes]; omega
    · simp [executes]

/-- The matrix counts, for every line, the failing and the passing runs through it. -/
theorem stats_build (runs : List TestRun) (line : Int) :
    (build runs).matrix.stats line = executionsOf runs line := by
  have folded := matrix_foldl runs empty line
  have fresh : empty.matrix.stats line = .zero := rfl
  rw [fresh] at folded
  unfold build executionsOf
  rw [folded]
  simp [LineCounts.zero]

/-- The report counts the failing runs. -/
theorem totalFailed_build (runs : List TestRun) :
    (build runs).totalFailed = failedRuns runs := by
  suffices general : ∀ tally : CoverageTally,
      (runs.foldl step tally).totalFailed = tally.totalFailed + failedRuns runs by
    have start := general empty
    rw [show empty.totalFailed = 0 from rfl, Nat.zero_add] at start
    exact start
  induction runs with
  | nil => exact fun tally => rfl
  | cons run runs ih =>
    intro tally
    rw [List.foldl_cons, ih, totalFailed_step, failedRuns, failedRuns, List.countP_cons]
    omega

end CoverageTally

end KernelOmega
