import KernelOmega.Concurrent.Prog
import KernelOmega.Funnel.Counts

/-!
# The funnel's verdict

`execute_funnel` of `guest_agent/funnel.py` runs four commands, one after the other, and
stops at the first that fails. Whether a stage fails is told by its exit code, the counts
come from its output. The record is consistent with itself except where the two
disagree: the full suite succeeds with an output that counts a failure, and then the
record is a success with failed tests. Times are left out.
-/

namespace KernelOmega

open Concurrent Python

namespace Funnel

/-- The four stages of the funnel, each with a command of its own. -/
inductive Stage where
  | lint
  | typecheck
  | targetedPytest
  | fullSuite
  deriving DecidableEq

namespace Stage

/-- The name of a stage in `meta["failed_stage"]`. -/
def name : Stage → String
  | lint => "lint"
  | typecheck => "typecheck"
  | targetedPytest => "targeted_pytest"
  | fullSuite => "full_suite"

/-- The stages in the order they run. -/
def all : List Stage := [lint, typecheck, targetedPytest, fullSuite]

/-- The stage of the `k`-th command. -/
def nth : Nat → Stage
  | 0 => lint
  | 1 => typecheck
  | 2 => targetedPytest
  | _ => fullSuite

end Stage

/-- `subprocess.run`: the process exits, or is killed at the timeout. -/
inductive Outcome where
  | exited (returncode : Int) (stdout stderr : List Char)
  | timedOut
  deriving DecidableEq

namespace Outcome

/-- The first component of what `run_cmd` returns. -/
def ok : Outcome → Bool
  | exited returncode _ _ => returncode == 0
  | timedOut => false

/-- The second: both streams, the nonempty ones on lines of their own, stripped. -/
def output : Outcome → List Char
  | exited _ stdout stderr =>
    strip (['\n'].intercalate ([stdout, stderr].filter fun part => part ≠ []))
  | timedOut => "Timeout".toList

end Outcome

/-- One `subprocess.run`, with the `PYTHONPATH` of its environment. -/
structure Command where
  cmd : List String
  cwd : Option String
  pythonPath : String
  timeout : Nat
  deriving DecidableEq

/-- What `execute_funnel` is called with, the tools `_tool` finds beside the interpreter, and
the `PYTHONPATH` it runs under, empty when there is none. -/
structure Setting where
  targetFile : String
  targetTest : String
  cwd : Option String
  tool : String → String
  pythonPath : String

namespace Setting

variable (self : Setting)

/-- `if cwd:` -/
def hasCwd : Bool := self.cwd.any (· ≠ "")

/-- The environment `run_cmd` prepares. -/
def environment : String :=
  match self.cwd with
  | none => self.pythonPath
  | some cwd =>
    if cwd = "" then self.pythonPath
    else if self.pythonPath = "" then cwd else cwd ++ ":" ++ self.pythonPath

/-- The command of a stage, and its timeout. -/
def stageCommand (stage : Stage) : Command :=
  let cmd := match stage with
    | .lint => [self.tool "ruff", "check", self.targetFile, "--select", "E,F"]
    | .typecheck => [self.tool "mypy", self.targetFile, "--ignore-missing-imports"]
    | .targetedPytest =>
      [self.tool "pytest", self.targetTest, "-q", "-x", "--disable-warnings"]
    | .fullSuite =>
      [self.tool "pytest", "-q", "--disable-warnings"] ++
        if self.hasCwd then [] else [self.targetTest]
  let timeout := match stage with
    | .lint | .typecheck => 20
    | .targetedPytest => 30
    | .fullSuite => 60
  { cmd, cwd := self.cwd, pythonPath := self.environment, timeout }

end Setting

/-- The dictionary `execute_funnel` returns. -/
structure Record where
  success : Bool
  testsPassed : Int
  testsFailed : Int
  error : Option (List Char)
  failedStage : Option String
  fullSuiteAttempted : Bool
  deriving DecidableEq

/-- A program that runs commands. -/
abbrev Script (α : Type) := Prog Command (fun _ => Outcome) PyError α

/-- `run_cmd` -/
def runCmd (command : Command) : Script (Bool × List Char) := do
  let outcome ← Prog.call command
  pure (outcome.ok, outcome.output)

/-- Python's `text or default`. -/
def orElse (text : List Char) (default : String) : List Char :=
  if text = [] then default.toList else text

/-- The local `fail` of `execute_funnel`. -/
def fail (error : List Char) (testsPassed testsFailed : Int) (failedStage : Stage) : Record :=
  { success := false
    testsPassed
    testsFailed
    error := some error
    failedStage := some failedStage.name
    fullSuiteAttempted := failedStage.name == "full_suite" }

/-- The record after the full suite. -/
def lastRecord (fullOk : Bool) (fullOutput : List Char) (targetedPassed fullPassed fullFailed : Nat) :
    Record :=
  { success := fullOk
    testsPassed := if fullPassed ≠ 0 then fullPassed else targetedPassed
    testsFailed := if fullFailed ≠ 0 then fullFailed else if fullOk then 0 else 1
    error := if fullOk then none else some (orElse fullOutput "RegressionError")
    failedStage := if fullOk then none else some "full_suite"
    fullSuiteAttempted := true }

/-- `execute_funnel`: the stages in turn, and the first that fails decides. The two pytest stages
are counted before their exit codes are looked at. -/
def executeFunnel (self : Setting) : Script Record := do
  let (lintOk, lintOutput) ← runCmd (self.stageCommand .lint)
  if !lintOk then pure (fail (orElse lintOutput "LintError") 0 999 .lint)
  else do
    let (typeOk, typeOutput) ← runCmd (self.stageCommand .typecheck)
    if !typeOk then pure (fail (orElse typeOutput "TypeError") 0 999 .typecheck)
    else do
      let (targetedOk, targetedOutput) ← runCmd (self.stageCommand .targetedPytest)
      let (targetedPassed, targetedFailed) ← Prog.ofExcept (parsePytestCounts targetedOutput)
      if !targetedOk then
        pure (fail (orElse targetedOutput "TargetTestFailed") targetedPassed
          (if targetedFailed ≠ 0 then targetedFailed else 1) .targetedPytest)
      else do
        let (fullOk, fullOutput) ← runCmd (self.stageCommand .fullSuite)
        let (fullPassed, fullFailed) ← Prog.ofExcept (parsePytestCounts fullOutput)
        pure (lastRecord fullOk fullOutput targetedPassed fullPassed fullFailed)

/-! ## Running the funnel -/

/-- The `k`-th command ends as the `k`-th stage does; the world is the commands so far. -/
def answering (outcomes : Stage → Outcome) :
    Exec Command (fun _ => Outcome) PyError Unit (List Command) :=
  fun _ command ran => (.ok (outcomes (Stage.nth ran.length)), ran ++ [command])

/-- What the funnel returns, and the commands it runs. -/
def verdict (self : Setting) (outcomes : Stage → Outcome) :
    Except PyError Record × List Command :=
  (executeFunnel self).run (answering outcomes) (fun _ => ()) []

theorem run_runCmd {α : Type} (outcomes : Stage → Outcome) (command : Command)
    (f : Bool × List Char → Script α) (ran : List Command) :
    (runCmd command >>= f).run (answering outcomes) (fun _ => ()) ran =
      (f ((outcomes (Stage.nth ran.length)).ok, (outcomes (Stage.nth ran.length)).output)).run
        (answering outcomes) (fun _ => ()) (ran ++ [command]) := rfl

theorem run_ofExcept {α β : Type} (outcomes : Stage → Outcome) (result : Except PyError β)
    (f : β → Script α) (ran : List Command) :
    (Prog.ofExcept result >>= f).run (answering outcomes) (fun _ => ()) ran =
      match result with
      | .ok value => (f value).run (answering outcomes) (fun _ => ()) ran
      | .error e => (.error e, ran) := by
  cases result <;> rfl

section Runs

variable (self : Setting) (outcomes : Stage → Outcome)

/-- The verdict when the first stage fails: nothing else is run. -/
theorem verdict_lint (failed : (outcomes .lint).ok = false) :
    verdict self outcomes =
      (.ok (fail (orElse (outcomes .lint).output "LintError") 0 999 .lint),
        [self.stageCommand .lint]) := by
  rw [verdict, executeFunnel, run_runCmd]
  simp only [List.length_nil, Stage.nth, failed]
  rfl

/-- The verdict when the type check fails: the later stages are not run. -/
theorem verdict_typecheck (lint : (outcomes .lint).ok = true)
    (failed : (outcomes .typecheck).ok = false) :
    verdict self outcomes =
      (.ok (fail (orElse (outcomes .typecheck).output "TypeError") 0 999 .typecheck),
        [self.stageCommand .lint, self.stageCommand .typecheck]) := by
  rw [verdict, executeFunnel, run_runCmd]
  simp only [List.length_nil, Stage.nth, lint, Bool.not_true, Bool.false_eq_true, if_false,
    run_runCmd, List.nil_append, List.length_singleton, failed]
  rfl

/-- The verdict when the targeted tests fail: with none counted, one is reported. -/
theorem verdict_targeted (lint : (outcomes .lint).ok = true)
    (typecheck : (outcomes .typecheck).ok = true) (failed : (outcomes .targetedPytest).ok = false) :
    verdict self outcomes =
      (match parsePytestCounts (outcomes .targetedPytest).output with
        | .ok (targetedPassed, targetedFailed) =>
          .ok (fail (orElse (outcomes .targetedPytest).output "TargetTestFailed") targetedPassed
            (if targetedFailed ≠ 0 then targetedFailed else 1) .targetedPytest)
        | .error e => .error e,
        [self.stageCommand .lint, self.stageCommand .typecheck,
          self.stageCommand .targetedPytest]) := by
  rw [verdict, executeFunnel, run_runCmd]
  simp only [List.length_nil, Stage.nth, lint, typecheck, Bool.not_true, Bool.false_eq_true,
    if_false, run_runCmd, run_ofExcept, List.nil_append, List.length_cons, List.cons_append, failed]
  cases parsePytestCounts (outcomes .targetedPytest).output with
  | ok counts => rfl
  | error e => rfl

/-- The verdict when the full suite is reached. Both test stages are counted first, and a count that
cannot be read raises; then the exit code of the suite decides. -/
theorem verdict_full (lint : (outcomes .lint).ok = true)
    (typecheck : (outcomes .typecheck).ok = true)
    (targeted : (outcomes .targetedPytest).ok = true) :
    verdict self outcomes =
      match parsePytestCounts (outcomes .targetedPytest).output with
      | .error e =>
        (.error e, [self.stageCommand .lint, self.stageCommand .typecheck,
          self.stageCommand .targetedPytest])
      | .ok (targetedPassed, _) =>
        (match parsePytestCounts (outcomes .fullSuite).output with
          | .ok (fullPassed, fullFailed) =>
            .ok (lastRecord (outcomes .fullSuite).ok (outcomes .fullSuite).output targetedPassed
              fullPassed fullFailed)
          | .error e => .error e,
          Stage.all.map self.stageCommand) := by
  rw [verdict, executeFunnel, run_runCmd]
  simp only [List.length_nil, Stage.nth, lint, typecheck, targeted, Bool.not_true,
    Bool.false_eq_true, if_false, run_runCmd, run_ofExcept, List.nil_append, List.length_cons,
    List.cons_append]
  cases parsePytestCounts (outcomes .targetedPytest).output with
  | error e => rfl
  | ok counts =>
    dsimp only
    cases parsePytestCounts (outcomes .fullSuite).output with
    | ok counts => rfl
    | error e => rfl

end Runs

/-! ## Consistency -/

/-- The stages that run: up to the first that fails. -/
def stagesRun (outcomes : Stage → Outcome) : List Stage → List Stage
  | [] => []
  | stage :: stages =>
    if (outcomes stage).ok then stage :: stagesRun outcomes stages else [stage]

/-- The first stage whose command fails. -/
def firstFailed (outcomes : Stage → Outcome) : Option Stage :=
  Stage.all.find? fun stage => !(outcomes stage).ok

/-- The record says the same thing in each of its fields, and names the stage at which the
commands ended. -/
structure SelfConsistent (setting : Setting) (outcomes : Stage → Outcome) (record : Record)
    (ran : List Command) : Prop where
  success_iff_failed : record.success = true ↔ record.testsFailed = 0
  failed_iff_error : record.testsFailed = 0 ↔ record.error = none
  error_iff_stage : record.error = none ↔ record.failedStage = none
  passed_nonneg : 0 ≤ record.testsPassed
  failed_nonneg : 0 ≤ record.testsFailed
  failedStage : record.failedStage = (firstFailed outcomes).map Stage.name
  commands : ran = (stagesRun outcomes Stage.all).map setting.stageCommand

/-- The record of a stage that fails, with counts that are not negative. -/
theorem selfConsistent_fail {self : Setting} {outcomes : Stage → Outcome} {error : List Char}
    {testsPassed testsFailed : Int} {stage : Stage} {ran : List Command}
    (passed : 0 ≤ testsPassed) (failed : 0 < testsFailed) (first : firstFailed outcomes = some stage)
    (commands : ran = (stagesRun outcomes Stage.all).map self.stageCommand) :
    SelfConsistent self outcomes (fail error testsPassed testsFailed stage) ran where
  success_iff_failed := by
    constructor
    · exact fun success => (Bool.false_ne_true success).elim
    · exact fun none => absurd none (Int.ne_of_gt failed)
  failed_iff_error := by
    constructor
    · exact fun none => absurd none (Int.ne_of_gt failed)
    · exact fun none => nomatch none
  error_iff_stage := by
    constructor
    · exact fun none => nomatch none
    · exact fun none => nomatch none
  passed_nonneg := passed
  failed_nonneg := Int.le_of_lt failed
  failedStage := by
    rw [first]
    rfl
  commands := commands

/-- The record after the full suite is consistent unless a success counts a failure. -/
theorem selfConsistent_lastRecord_iff {self : Setting} {outcomes : Stage → Outcome}
    {targetedPassed fullPassed fullFailed : Nat} (lint : (outcomes .lint).ok = true)
    (typecheck : (outcomes .typecheck).ok = true)
    (targeted : (outcomes .targetedPytest).ok = true) :
    SelfConsistent self outcomes
        (lastRecord (outcomes .fullSuite).ok (outcomes .fullSuite).output targetedPassed fullPassed
          fullFailed) (Stage.all.map self.stageCommand) ↔
      ((outcomes .fullSuite).ok = true → fullFailed = 0) := by
  have commands : Stage.all.map self.stageCommand =
      (stagesRun outcomes Stage.all).map self.stageCommand := by
    simp [Stage.all, stagesRun, lint, typecheck, targeted]
  have passed : (0 : Int) ≤ if fullPassed ≠ 0 then (fullPassed : Int) else targetedPassed := by
    split <;> omega
  cases full : (outcomes .fullSuite).ok with
  | true =>
    have first : firstFailed outcomes = none := by
      simp [firstFailed, Stage.all, lint, typecheck, targeted, full]
    constructor
    · intro consistent _
      have none : (if fullFailed ≠ 0 then (fullFailed : Int) else 0) = 0 :=
        consistent.success_iff_failed.mp rfl
      by_contra some
      rw [if_pos some] at none
      omega
    · intro condition
      have zero := condition rfl
      refine
        { success_iff_failed := ?_, failed_iff_error := ?_, error_iff_stage := ?_,
          passed_nonneg := passed, failed_nonneg := ?_, failedStage := ?_, commands }
      · simp [lastRecord, zero]
      · simp [lastRecord, zero]
      · simp [lastRecord]
      · simp [lastRecord, zero]
      · rw [first]
        rfl
  | false =>
    have first : firstFailed outcomes = some .fullSuite := by
      simp [firstFailed, Stage.all, lint, typecheck, targeted, full]
    have failed : (0 : Int) < if fullFailed ≠ 0 then (fullFailed : Int) else 1 := by
      split <;> omega
    have same : lastRecord false (outcomes .fullSuite).output targetedPassed fullPassed fullFailed =
        fail (orElse (outcomes .fullSuite).output "RegressionError")
          (if fullPassed ≠ 0 then fullPassed else targetedPassed)
          (if fullFailed ≠ 0 then fullFailed else 1) .fullSuite := rfl
    rw [same]
    constructor
    · exact fun _ full' => (Bool.false_ne_true full').elim
    · exact fun _ => selfConsistent_fail passed failed first commands

/-- The outputs that are counted have no number too long for `int`, and if every stage
succeeds the full suite's output has no failure to count. -/
structure Trustworthy (outcomes : Stage → Outcome) : Prop where
  targeted : (outcomes .lint).ok = true → (outcomes .typecheck).ok = true →
    Countable (outcomes .targetedPytest).output
  full : (outcomes .lint).ok = true → (outcomes .typecheck).ok = true →
    (outcomes .targetedPytest).ok = true → Countable (outcomes .fullSuite).output
  clean : (∀ stage, (outcomes stage).ok = true) →
    ∀ digits label, Counts (outcomes .fullSuite).output digits label → label ≠ passedWord →
      valueOf digits = 0

section Cases

variable {self : Setting} {outcomes : Stage → Outcome}

/-- The funnel returns a consistent record. -/
def Consistent (self : Setting) (outcomes : Stage → Outcome) : Prop :=
  ∃ record, (verdict self outcomes).1 = .ok record ∧
    SelfConsistent self outcomes record (verdict self outcomes).2

theorem not_all_ok {stage : Stage} (failed : (outcomes stage).ok = false) :
    ¬∀ stage, (outcomes stage).ok = true := by
  intro all
  rw [all stage] at failed
  cases failed

theorem consistent_lint (failed : (outcomes .lint).ok = false) : Consistent self outcomes := by
  refine ⟨_, by rw [verdict_lint self outcomes failed], ?_⟩
  rw [verdict_lint self outcomes failed]
  apply selfConsistent_fail (by decide) (by decide)
  · simp [firstFailed, Stage.all, failed]
  · simp [stagesRun, Stage.all, failed]

/-- The record of a failed type check is consistent. -/
theorem consistent_typecheck (lint : (outcomes .lint).ok = true)
    (failed : (outcomes .typecheck).ok = false) : Consistent self outcomes := by
  refine ⟨_, by rw [verdict_typecheck self outcomes lint failed], ?_⟩
  rw [verdict_typecheck self outcomes lint failed]
  apply selfConsistent_fail (by decide) (by decide)
  · simp [firstFailed, Stage.all, lint, failed]
  · simp [stagesRun, Stage.all, lint, failed]

/-- The record of a failed targeted stage is consistent whenever its output can be counted. -/
theorem consistent_targeted_iff (lint : (outcomes .lint).ok = true)
    (typecheck : (outcomes .typecheck).ok = true) (failed : (outcomes .targetedPytest).ok = false) :
    Consistent self outcomes ↔ Countable (outcomes .targetedPytest).output := by
  unfold Consistent
  rw [verdict_targeted self outcomes lint typecheck failed]
  constructor
  · rintro ⟨record, returned, _⟩
    by_contra uncountable
    obtain ⟨e, raised⟩ := parsePytestCounts_of_not_countable uncountable
    rw [raised] at returned
    cases returned
  · intro countable
    rw [parsePytestCounts_of_countable countable]
    refine ⟨_, rfl, ?_⟩
    apply selfConsistent_fail
    · exact Int.natCast_nonneg _
    · split <;> omega
    · simp [firstFailed, Stage.all, lint, typecheck, failed]
    · simp [stagesRun, Stage.all, lint, typecheck, failed]

/-- When the full suite is reached, the record is consistent exactly when both outputs can be
counted and a suite that exits with zero has counted no failure. -/
theorem consistent_full_iff (lint : (outcomes .lint).ok = true)
    (typecheck : (outcomes .typecheck).ok = true)
    (targeted : (outcomes .targetedPytest).ok = true) :
    Consistent self outcomes ↔
      Countable (outcomes .targetedPytest).output ∧ Countable (outcomes .fullSuite).output ∧
        ((outcomes .fullSuite).ok = true →
          (tally (findall countAt (outcomes .fullSuite).output)).2 = 0) := by
  unfold Consistent
  rw [verdict_full self outcomes lint typecheck targeted]
  by_cases countable : Countable (outcomes .targetedPytest).output
  · rw [parsePytestCounts_of_countable countable]
    by_cases countable' : Countable (outcomes .fullSuite).output
    · have same := @selfConsistent_lastRecord_iff self outcomes
        (tally (findall countAt (outcomes .targetedPytest).output)).1
        (tally (findall countAt (outcomes .fullSuite).output)).1
        (tally (findall countAt (outcomes .fullSuite).output)).2 lint typecheck targeted
      rw [parsePytestCounts_of_countable countable', ← same]
      constructor
      · rintro ⟨record, returned, consistent⟩
        obtain rfl := Except.ok.inj returned
        exact ⟨countable, countable', consistent⟩
      · rintro ⟨_, _, consistent⟩
        exact ⟨_, rfl, consistent⟩
    · obtain ⟨e, raised⟩ := parsePytestCounts_of_not_countable countable'
      rw [raised]
      constructor
      · rintro ⟨record, returned, _⟩
        cases returned
      · rintro ⟨_, full, _⟩
        exact absurd full countable'
  · obtain ⟨e, raised⟩ := parsePytestCounts_of_not_countable countable
    rw [raised]
    constructor
    · rintro ⟨record, returned, _⟩
      cases returned
    · rintro ⟨full, _⟩
      exact absurd full countable

end Cases

end Funnel

open Funnel in
/-- The funnel returns a record consistent with itself exactly when no output it counts has a
number too long for `int`, and no failure is counted in the output of a full suite that
succeeds. -/
theorem verdict_consistent_iff (self : Setting) (outcomes : Stage → Outcome) :
    (∃ record, (verdict self outcomes).1 = .ok record ∧
      SelfConsistent self outcomes record (verdict self outcomes).2) ↔ Trustworthy outcomes := by
  change Consistent self outcomes ↔ _
  cases lint : (outcomes .lint).ok with
  | false =>
    refine iff_of_true (consistent_lint lint) ⟨?_, ?_, ?_⟩
    · exact fun ok => absurd (lint.symm.trans ok) Bool.false_ne_true
    · exact fun ok => absurd (lint.symm.trans ok) Bool.false_ne_true
    · exact fun all => absurd all (not_all_ok lint)
  | true =>
    cases typecheck : (outcomes .typecheck).ok with
    | false =>
      refine iff_of_true (consistent_typecheck lint typecheck) ⟨?_, ?_, ?_⟩
      · exact fun _ ok => absurd (typecheck.symm.trans ok) Bool.false_ne_true
      · exact fun _ ok => absurd (typecheck.symm.trans ok) Bool.false_ne_true
      · exact fun all => absurd all (not_all_ok typecheck)
    | true =>
      cases targeted : (outcomes .targetedPytest).ok with
      | false =>
        rw [consistent_targeted_iff lint typecheck targeted]
        constructor
        · intro countable
          exact
            { targeted := fun _ _ => countable
              full := fun _ _ ok => absurd (targeted.symm.trans ok) Bool.false_ne_true
              clean := fun all => absurd all (not_all_ok targeted) }
        · intro trustworthy
          exact trustworthy.targeted lint typecheck
      | true =>
        rw [consistent_full_iff lint typecheck targeted, failed_eq_zero_iff]
        constructor
        · rintro ⟨countable, countable', clean⟩
          exact
            { targeted := fun _ _ => countable
              full := fun _ _ _ => countable'
              clean := fun all => clean (all .fullSuite) }
        · intro trustworthy
          refine ⟨trustworthy.targeted lint typecheck, trustworthy.full lint typecheck targeted, ?_⟩
          intro full
          apply trustworthy.clean
          intro stage
          cases stage with
          | lint => exact lint
          | typecheck => exact typecheck
          | targetedPytest => exact targeted
          | fullSuite => exact full

namespace Funnel

def repoSetting : Setting :=
  { targetFile := "algo.py", targetTest := "test_algo.py", cwd := some "/repo", tool := id,
    pythonPath := "" }

/-- Every command succeeds, the full suite after a line about a failure. -/
def retriedSuite (stage : Stage) : Outcome :=
  if stage = .fullSuite then
    .exited 0 "retry: 1 failed, restarted\n3 passed in 0.10s\n".toList []
  else .exited 0 [] []

end Funnel

open Funnel in
/-- The full suite exits with zero and prints a line with a failure in it that was retried: the
record is a success with a failed test. -/
theorem not_verdict_consistent :
    ¬∀ (self : Setting) (outcomes : Stage → Outcome),
      ∃ record, (verdict self outcomes).1 = .ok record ∧
        SelfConsistent self outcomes record (verdict self outcomes).2 := by
  intro holds
  obtain ⟨record, returned, consistent⟩ := holds repoSetting retriedSuite
  have actual : (verdict repoSetting retriedSuite).1 =
      .ok { success := true, testsPassed := 3, testsFailed := 1, error := none,
            failedStage := none, fullSuiteAttempted := true } := by decide
  obtain rfl := Except.ok.inj (returned.symm.trans actual)
  exact absurd (consistent.success_iff_failed.mp rfl) (by decide)

end KernelOmega
