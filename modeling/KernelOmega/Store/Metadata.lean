import KernelOmega.Contracts
import Mathlib.Logic.Function.Basic

/-!
# The metadata store

`control_plane/metadata_store.py`: the Postgres ledger of tasks, candidates,
executions and policy decisions. Every method runs its statements on connections
with autocommit, so one statement is one atomic command; `update_task_status` and
`update_candidate_status` are two, the read of the status and the write.

Statuses are strings, as the methods take any. The `metadata` columns hold timings
and copies of what other columns say, and no code modelled here reads them; the
statements that merge into them are commands that change nothing.
-/

namespace KernelOmega

/-- A row of `tasks`, without its metadata. -/
structure TaskRow where
  repoPath : String
  sourcePath : String
  testPath : String
  status : String
  deriving DecidableEq

/-- A row of `candidates`. `taskId` is a foreign key, and the parent is not. -/
structure CandidateRow where
  taskId : String
  parentId : Option String
  patchKind : String
  status : String
  sourceRelpath : String
  filesTouched : List String
  diffSummary : String
  staticScore : Rat
  deriving DecidableEq

/-- A row of `executions`. The verdict is null until the run is completed. -/
structure ExecutionRow where
  candidateId : String
  taskId : String
  status : String
  executorCore : Nat
  executorHost : String
  executorPort : Nat
  success : Option Bool := none
  testsPassed : Option Int := none
  testsFailed : Option Int := none
  deriving DecidableEq

/-- A row of `policy_decisions`, one for each candidate a gate has decided on. -/
structure PolicyDecisionRow where
  accepted : Bool
  confidence : Rat
  riskScore : Rat
  reasons : List String
  requiresHumanReview : Bool
  deriving DecidableEq

/-- The four tables, by their primary keys. -/
structure Postgres where
  tasks : String → Option TaskRow := fun _ => none
  candidates : String → Option CandidateRow := fun _ => none
  executions : String → Option ExecutionRow := fun _ => none
  policyDecisions : String → Option PolicyDecisionRow := fun _ => none

/-- `can_transition_task_status`: a merged task stays merged, and everything else is free. -/
def canTransitionTaskStatus (current : Option String) (new : String) : Bool :=
  match current with
  | none => true
  | some current =>
    if current = "" ∨ current = new then true
    else if current = "merged" then decide (new = "merged")
    else true

/-- `can_transition_candidate_status`. A candidate that failed keeps its word, one that is verified
or accepted only goes on, and words the table does not name are left at will. -/
def canTransitionCandidateStatus (current : Option String) (new : String) : Bool :=
  match current with
  | none => true
  | some current =>
    if current = "" ∨ current = new then true
    else if current = "merged" then decide (new = "merged")
    else if current = "accepted" then decide (new ∈ ["accepted", "merged", "merge_failed"])
    else if current = "rejected_policy" then decide (new = "rejected_policy")
    else if current = "verified" then
      decide (new ∈ ["verified", "accepted", "rejected_policy", "merged", "merge_failed"])
    else if current ∈ ["failed", "dispatch_failed", "merge_failed"] then decide (new = current)
    else true

/-- The statements of `metadata_store.py`, each of which commits by itself. -/
inductive PgCmd where
  | fetchTaskStatus (taskId : String)
  | setTaskStatus (taskId status : String)
  | insertTask (taskId : String) (row : TaskRow)
  | mergeTaskMetadata (taskId : String)
  | fetchCandidateStatus (candidateId : String)
  | setCandidateStatus (candidateId status : String)
  | insertCandidate (candidateId : String) (row : CandidateRow)
  | mergeCandidateMetadata (candidateId : String)
  | insertExecution (runId : String) (row : ExecutionRow)
  | markExecutionStarted (runId : String)
  | mergeExecutionMeta (runId : String)
  | completeExecution (pack : VerificationPack)
  | recordPolicyDecision (candidateId : String) (row : PolicyDecisionRow)
  deriving DecidableEq

/-- Only the two `SELECT`s of a status return something. -/
abbrev PgCmd.Reply : PgCmd → Type
  | .fetchTaskStatus _ => Option String
  | .fetchCandidateStatus _ => Option String
  | _ => Unit

namespace Postgres

def putTask (p : Postgres) (taskId : String) (row : TaskRow) : Postgres :=
  { p with tasks := Function.update p.tasks taskId (some row) }

def putCandidate (p : Postgres) (candidateId : String) (row : CandidateRow) : Postgres :=
  { p with candidates := Function.update p.candidates candidateId (some row) }

def putExecution (p : Postgres) (runId : String) (row : ExecutionRow) : Postgres :=
  { p with executions := Function.update p.executions runId (some row) }

/-- One statement. An insert that meets its own key updates the row it finds, which
touches no foreign key; an `UPDATE` of no row does nothing. -/
def exec (p : Postgres) : (c : PgCmd) → Except PyError c.Reply × Postgres
  | .fetchTaskStatus taskId => (.ok ((p.tasks taskId).map (·.status)), p)
  | .setTaskStatus taskId status =>
    match p.tasks taskId with
    | some row => (.ok (), p.putTask taskId { row with status := status })
    | none => (.ok (), p)
  | .insertTask taskId row => (.ok (), p.putTask taskId row)
  | .mergeTaskMetadata _ => (.ok (), p)
  | .fetchCandidateStatus candidateId => (.ok ((p.candidates candidateId).map (·.status)), p)
  | .setCandidateStatus candidateId status =>
    match p.candidates candidateId with
    | some row => (.ok (), p.putCandidate candidateId { row with status := status })
    | none => (.ok (), p)
  | .insertCandidate candidateId row =>
    match p.candidates candidateId with
    | some old => (.ok (), p.putCandidate candidateId { row with taskId := old.taskId })
    | none =>
      if (p.tasks row.taskId).isSome then (.ok (), p.putCandidate candidateId row)
      else (.error (.foreignKeyViolation "candidates"), p)
  | .mergeCandidateMetadata _ => (.ok (), p)
  | .insertExecution runId row =>
    match p.executions runId with
    | some old =>
      (.ok (), p.putExecution runId
        { old with
          status := row.status, executorCore := row.executorCore,
          executorHost := row.executorHost, executorPort := row.executorPort })
    | none =>
      if (p.candidates row.candidateId).isSome && (p.tasks row.taskId).isSome then
        (.ok (), p.putExecution runId row)
      else (.error (.foreignKeyViolation "executions"), p)
  | .markExecutionStarted runId =>
    match p.executions runId with
    | some row => (.ok (), p.putExecution runId { row with status := "running" })
    | none => (.ok (), p)
  | .mergeExecutionMeta _ => (.ok (), p)
  | .completeExecution pack =>
    match p.executions pack.runId with
    | some row =>
      (.ok (), p.putExecution pack.runId
        { row with
          status := if pack.passed then "succeeded" else "failed"
          success := some pack.success
          testsPassed := some pack.testsPassed
          testsFailed := some pack.testsFailed })
    | none => (.ok (), p)
  | .recordPolicyDecision candidateId row =>
    if (p.policyDecisions candidateId).isSome || (p.candidates candidateId).isSome then
      (.ok (), { p with
        policyDecisions := Function.update p.policyDecisions candidateId (some row) })
    else (.error (.foreignKeyViolation "policy_decisions"), p)

/-- A statement that fails has changed nothing. -/
theorem exec_error {p : Postgres} {c : PgCmd} {e : PyError} (failed : (p.exec c).1 = .error e) :
    (p.exec c).2 = p := by
  revert failed
  cases c with
  | insertCandidate _ _ | insertExecution _ _ =>
    simp only [exec]
    split
    · intro failed
      cases failed
    · split
      · intro failed
        cases failed
      · exact fun _ => rfl
  | setTaskStatus _ _ | setCandidateStatus _ _ | markExecutionStarted _ | completeExecution _ =>
    simp only [exec]
    split <;> exact fun failed => by cases failed
  | recordPolicyDecision _ _ =>
    simp only [exec]
    split
    · intro failed
      cases failed
    · exact fun _ => rfl
  | _ => exact fun failed => by cases failed

end Postgres

end KernelOmega
