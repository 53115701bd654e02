import Mathlib.Data.Rat.Defs

/-!
# Contracts

`control_plane/contracts.py`: the records the daemons exchange. A payload travels
as JSON text; the model carries the record itself, and a stream message carries
what `from_json` makes of its payload, a record or the exception it raises.
-/

namespace KernelOmega

/-- The exceptions the modelled code raises or lets through. -/
inductive PyError where
  | keyError (field : String)
  | valueError (message : String)
  | typeError (message : String)
  | syntaxError
  | indexError
  | zeroDivisionError
  /-- `RuntimeError`, as `_git_checked` raises it. -/
  | runtimeError (message : String)
  /-- The server refused the statement: a foreign key names no row. -/
  | foreignKeyViolation (table : String)
  /-- The connection to Redis or Postgres failed. -/
  | connectionError
  /-- `OSError`, as the socket operations raise it. -/
  | osError (message : String)
  /-- The bound given to a `while` loop ran out; the code would still be looping. -/
  | outOfFuel
  deriving DecidableEq

/-- A subscript `d["field"]`, which raises when the field is absent. -/
def subscript {α : Type} (field : String) : Option α → Except PyError α
  | some a => .ok a
  | none => .error (.keyError field)

/-- A subscript that raises nothing finds its value. -/
theorem subscript_eq_ok {α : Type} {field : String} {value : Option α} {a : α}
    (there : subscript field value = .ok a) : value = some a := by
  cases value with
  | none => cases there
  | some b =>
    obtain rfl := Except.ok.inj there
    rfl

/-- What an executor needs to run a candidate: the candidate's code, the test file, the places of
both in the repository and a snapshot of the other files. The capsule travels in the dispatch
message and over the socket, and nothing of it is looked up again on the way. -/
structure TaskCapsule where
  id : String
  treeId : String
  sourcePath : String
  testPath : String
  code : String
  testCode : String
  runId : String := ""
  sourceRelpath : String := ""
  testRelpath : String := ""
  repoSnapshot : List (String × String) := []
  repoSnapshotDigest : String := ""
  repoSnapshotBytes : Int := 0
  repoSnapshotFiles : Int := 0
  deriving DecidableEq

/-- `runtime` is a float in the source and exact here; `metaJson` is the text of the
free-form `meta` object. -/
structure VerificationPack where
  capsuleId : String
  runId : String
  success : Bool
  runtime : Rat
  nodeId : String
  hardwareIsolated : Bool
  inputsDigest : String
  testsPassed : Int
  testsFailed : Int
  errorSignature : Option String := none
  attestation : Option String := none
  artifactUri : Option String := none
  metaJson : String := "{}"
  deriving DecidableEq

/-- The verdict `pack.success and pack.tests_failed == 0`. -/
def VerificationPack.passed (pack : VerificationPack) : Bool :=
  pack.success && decide (pack.testsFailed = 0)

/-- The entry a worker puts on the dispatch stream: a capsule with the run it belongs to and the core it
is meant for. `preferredExecutorCore` only goes to the metadata of the run. -/
structure ExecutionRequest where
  runId : String
  candidateId : String
  taskId : String
  executorCore : Nat
  capsule : TaskCapsule
  createdAt : Nat
  preferredExecutorCore : Option Nat := none
  deriving DecidableEq

/-- A message of the dispatch stream. Only workers append to it, and they append requests. -/
structure DispatchMessage where
  id : Nat
  request : ExecutionRequest
  deriving DecidableEq

/-- What a run of a capsule's tests reports: the fields of the funnel's JSON result that reach
a pack. -/
structure TestOutcome where
  success : Bool := false
  testsPassed : Int := 0
  testsFailed : Int := 1
  error : Option String := none
  runtime : Rat := 0
  deriving DecidableEq

/-- A message of the results stream: its id and `VerificationPack.from_json` of its
payload. -/
structure ResultMessage where
  id : Nat
  pack : Except PyError VerificationPack

/-- The payload `policy_gate` puts on the accepted stream. -/
structure AcceptedPayload where
  capsuleId : String
  code : String
  sourceRelpath : String
  repoPath : String
  treeId : String
  artifactUri : Option String
  deriving DecidableEq

/-- A message of the accepted stream. -/
structure AcceptedMessage where
  id : Nat
  payload : AcceptedPayload
  deriving DecidableEq

end KernelOmega
