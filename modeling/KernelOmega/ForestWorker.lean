import KernelOmega.Sha256
import KernelOmega.Store.World
import Mathlib.Data.List.Sort

/-!
# The forest worker

`control_plane/forest_worker.py`: selection, the candidate budget, expansion and
the worker's loop body, each a program of store commands in the order of the
source.

What a worker computes between two commands is a parameter where it rests on code
outside the repository: the patcher and the equivalence oracle work on Python's
`ast` and on Z3, and the digests come from `hashlib`. A patcher carries that it
returns a list without repetitions, since it lists a set. Wall-clock measurements,
which only reach metadata, are left out.
-/

namespace KernelOmega

open Concurrent

/-- `TargetedTreeSitterPatcher`, as far as a worker uses it. -/
structure Patcher where
  generateTargetedPatches :
    (code : String) → (suspiciousLines : List Int) → (maxCandidates : Int) →
      Except PyError (List String)
  comparisonLines : (code : String) → Except PyError (List Int)
  nodup : ∀ code lines n candidates,
    generateTargetedPatches code lines n = .ok candidates → candidates.Nodup

/-- What a worker process is configured with, and the parts it calls. It keeps no tree in memory:
all it knows of a task it reads again on every visit. -/
structure ForestWorker where
  workerId : String
  budgets : BudgetSettings
  executorHost : String
  executorBasePort : Nat
  executorCores : Nat
  /-- The first eight hexadecimal digits of the MD5 digest, as a number. -/
  md5Head : String → Nat
  patcher : Patcher
  /-- `Z3EquivalenceChecker.is_semantically_equivalent` -/
  isSemanticallyEquivalent : (origCode mutCode : String) → Except PyError Bool

/-- The UCB score of a child, from the exploration constant, the parent's visits and
the child's visits and value sum. -/
abbrev UcbScore (S : Type) :=
  (exploration : Rat) → (parentVisits visits : Int) → (valueSum : Rat) → S

/-- A score whose arithmetic may raise. -/
abbrev CheckedUcbScore (S : Type) :=
  (exploration : Rat) → (parentVisits visits : Int) → (valueSum : Rat) → Except PyError S

/-- A score that never raises. -/
def UcbScore.checked {S : Type} (ucb : UcbScore S) : CheckedUcbScore S :=
  fun exploration parentVisits visits valueSum =>
    .ok (ucb exploration parentVisits visits valueSum)

namespace ForestWorker

open Daemon

variable (self : ForestWorker)

/-! ## Selection -/

/-- The plan stored with the root, or for a root seeded without one the plan made from its lines. -/
def taskPlan (rootData : NodeHash) : TaskPlan :=
  match rootData.planJson with
  | some plan => plan
  | none => legacyTaskPlan (rootData.suspiciousLines.getD []) self.budgets

section Select

variable {S : Type} [LinearOrder S] (checked : CheckedUcbScore S) (ucb : UcbScore S)

/-- The scan of a node's sorted children: the first child without visits, or the
running best, which a later child replaces only with a strictly higher score. -/
def bestChildChecked (plan : TaskPlan) (parentVisits : Int) :
    List String → Option (String × S) → Daemon (String ⊕ Option (String × S))
  | [], best => return .inr best
  | childId :: rest, best => do
    let childData ← redis (.hgetall childId)
    let childData := childData.getD {}
    let visits := childData.visits.getD 0
    if visits = 0 then
      return .inl childId
    else do
      let score ← Prog.ofExcept
        (checked plan.ucbExploration parentVisits visits (childData.valueSum.getD 0))
      match best with
      | none => bestChildChecked plan parentVisits rest (some (childId, score))
      | some (bestNode, bestUcb) =>
        if bestUcb < score then bestChildChecked plan parentVisits rest (some (childId, score))
        else bestChildChecked plan parentVisits rest (some (bestNode, bestUcb))

/-- The descent loop, for at most `fuel` nodes. -/
def descendChecked (plan : TaskPlan) : (fuel : Nat) → (current : String) → Daemon String
  | 0, _ => .raise .outOfFuel
  | fuel + 1, current => do
    let members ← redis (.smembers (nodeChildrenKey current))
    let children := members.insertionSort (· ≤ ·)
    if children = [] then
      return current
    else do
      let data ← redis (.hgetall current)
      let parentVisits := (data.bind (·.visits)).getD 1
      let found ← bestChildChecked checked plan parentVisits children none
      match found with
      | .inl childId => return childId
      | .inr none => return current
      | .inr (some (bestNode, _)) => descendChecked plan fuel bestNode

/-- `distributed_select`, with the arithmetic that can raise. -/
def selectChecked (fuel : Nat) (taskId : String) : Daemon String := do
  let rootData ← redis (.hgetall (rootNodeId taskId))
  descendChecked checked (self.taskPlan (rootData.getD {})) fuel (rootNodeId taskId)

/-! Where no score raises. -/

/-- The scan with a score that never raises, -/
def bestChild (plan : TaskPlan) (parentVisits : Int) (children : List String)
    (best : Option (String × S)) : Daemon (String ⊕ Option (String × S)) :=
  bestChildChecked ucb.checked plan parentVisits children best

/-- the descent with it, -/
def descend (plan : TaskPlan) (fuel : Nat) (current : String) : Daemon String :=
  descendChecked ucb.checked plan fuel current

/-- and `distributed_select` with it. -/
def distributedSelect (fuel : Nat) (taskId : String) : Daemon String :=
  self.selectChecked ucb.checked fuel taskId

/-- One child of the scan, read and compared with the best so far. -/
theorem bestChild_cons (plan : TaskPlan) (parentVisits : Int) (childId : String)
    (rest : List String) (best : Option (String × S)) :
    bestChild ucb plan parentVisits (childId :: rest) best =
      (redis (.hgetall childId) >>= fun childData =>
        let childData := childData.getD {}
        let visits := childData.visits.getD 0
        if visits = 0 then
          pure (.inl childId)
        else
          let score := ucb plan.ucbExploration parentVisits visits (childData.valueSum.getD 0)
          match best with
          | none => bestChild ucb plan parentVisits rest (some (childId, score))
          | some (bestNode, bestUcb) =>
            if bestUcb < score then bestChild ucb plan parentVisits rest (some (childId, score))
            else bestChild ucb plan parentVisits rest (some (bestNode, bestUcb))) := rfl

/-- One level of the descent. -/
theorem descend_succ (plan : TaskPlan) (fuel : Nat) (current : String) :
    descend ucb plan (fuel + 1) current =
      (redis (.smembers (nodeChildrenKey current)) >>= fun members =>
        let children := members.insertionSort (· ≤ ·)
        if children = [] then
          pure current
        else
          redis (.hgetall current) >>= fun data =>
            bestChild ucb plan ((data.bind (·.visits)).getD 1) children none >>= fun found =>
              match found with
              | .inl childId => pure childId
              | .inr none => pure current
              | .inr (some (bestNode, _)) => descend ucb plan fuel bestNode) := rfl

/-! What selection asks for: hashes, and the sets of children. -/

variable {P : Cmd → Prop} (hashes : ∀ key, P (.redis (.hgetall key)))

include hashes

/-- The scan of the children only reads, -/
theorem bestChildChecked_uses (plan : TaskPlan) (parentVisits : Int) (children : List String)
    (best : Option (String × S)) :
    (bestChildChecked checked plan parentVisits children best).Uses P := by
  induction children generalizing best with
  | nil => trivial
  | cons childId rest ih =>
    refine (Prog.uses_call (hashes childId)).bind fun childData => ?_
    dsimp only
    split
    · trivial
    · refine (Prog.uses_ofExcept _).bind fun score => ?_
      cases best with
      | none => exact ih _
      | some running =>
        dsimp only
        split
        · exact ih _
        · exact ih _

variable (sets : ∀ key, P (.redis (.smembers key)))

include sets

/-- and so does the descent. -/
theorem descendChecked_uses (plan : TaskPlan) (fuel : Nat) (current : String) :
    (descendChecked checked plan fuel current).Uses P := by
  induction fuel generalizing current with
  | zero => trivial
  | succ fuel ih =>
    refine (Prog.uses_call (sets _)).bind fun members => ?_
    dsimp only
    split
    · trivial
    · refine (Prog.uses_call (hashes current)).bind fun data => ?_
      refine (bestChildChecked_uses checked hashes plan _ _ _).bind fun found => ?_
      match found with
      | .inl _ => trivial
      | .inr none => trivial
      | .inr (some (bestNode, _)) => exact ih bestNode

theorem distributedSelect_uses (fuel : Nat) (taskId : String) :
    (self.distributedSelect ucb fuel taskId).Uses P :=
  (Prog.uses_call (hashes _)).bind fun _ => descendChecked_uses ucb.checked hashes sets _ fuel _

omit hashes sets in
theorem distributedSelect_passive (fuel : Nat) (taskId : String) :
    (self.distributedSelect ucb fuel taskId).Uses Cmd.Passive :=
  self.distributedSelect_uses ucb (fun _ => trivial) (fun _ => trivial) fuel taskId

end Select

/-! ## The candidate budget -/

/-- `_reserve_candidate_budget` -/
def reserveCandidateBudget (taskId : String) (plan : TaskPlan) : Daemon Bool := do
  let generated ← redis (.incr (taskBudgetKey taskId))
  if plan.maxCapsules < generated then
    let _ ← redis (.decr (taskBudgetKey taskId))
    let _ ← redis (.set (treeBudgetExhaustedKey taskId) "1")
    redis (.hset (rootNodeId taskId) { planningStatus := some "budget_exhausted" })
    let _ ← updateTaskStatus taskId "budget_exhausted"
    return false
  else
    redis (.hset (rootNodeId taskId) { generatedCapsules := some generated })
    return true

/-! ## Dispatch -/

/-- `_select_executor_core` -/
def selectExecutorCore (candidateId : String) : Except PyError Nat :=
  if self.executorCores = 0 then .error .zeroDivisionError
  else .ok (self.md5Head candidateId % self.executorCores)

/-- `_queue_execution` -/
def queueExecution (request : ExecutionRequest) : Daemon Unit := do
  pg (.insertExecution request.runId
    { candidateId := request.candidateId
      taskId := request.taskId
      status := "queued"
      executorCore := request.executorCore
      executorHost := self.executorHost
      executorPort := self.executorBasePort + request.executorCore })
  let _ ← updateCandidateStatus request.candidateId "queued"
  redis (.xaddDispatch request)

/-- `_dispatch_capsule` -/
def dispatchCapsule (capsule : TaskCapsule) : Daemon Unit := do
  let executorCore ← Prog.ofExcept (self.selectExecutorCore capsule.id)
  let createdAt ← Prog.call Cmd.time
  self.queueExecution
    { runId := capsule.runId
      candidateId := capsule.id
      taskId := capsule.treeId
      executorCore := executorCore
      capsule := capsule
      createdAt := createdAt
      preferredExecutorCore := some executorCore }

/-! ## Expansion -/

/-- The id of the child a candidate text becomes. -/
def childId (sha256 : Sha256) (taskId nodeId candidate : String) : String :=
  treeNodeId taskId (sha256.text (candidate ++ nodeId))

/-- The hash written for a new child. -/
def childMapping (taskId nodeId candidate : String) (node : NodeHash) (nodeDepth : Nat)
    (targetLines : List Int) : Except PyError NodeHash := do
  let testCode ← subscript "test_code" node.testCode
  let sourcePath ← subscript "source_path" node.sourcePath
  let testPath ← subscript "test_path" node.testPath
  let repoPath ← subscript "repo_path" node.repoPath
  return {
    treeId := some taskId
    code := some candidate
    testCode := some testCode
    sourcePath := some sourcePath
    testPath := some testPath
    sourceRelpath := some (node.sourceRelpath.getD "")
    testRelpath := some (node.testRelpath.getD "")
    repoPath := some repoPath
    parent := some nodeId
    visits := some 0
    valueSum := some 0
    testsFailed := some (node.testsFailed.getD 999)
    testsPassed := some (node.testsPassed.getD 0)
    isTerminal := some false
    expanded := some false
    depth := some (nodeDepth + 1)
    suspiciousLines := some targetLines }

/-- A made mapping is a fresh child: no visits, not expanded, one level down. -/
theorem childMapping_eq_ok {taskId nodeId candidate : String} {node child : NodeHash}
    {nodeDepth : Nat} {targetLines : List Int}
    (made : childMapping taskId nodeId candidate node nodeDepth targetLines = .ok child) :
    ∃ testCode sourcePath testPath repoPath, child = {
      treeId := some taskId
      code := some candidate
      testCode := some testCode
      sourcePath := some sourcePath
      testPath := some testPath
      sourceRelpath := some (node.sourceRelpath.getD "")
      testRelpath := some (node.testRelpath.getD "")
      repoPath := some repoPath
      parent := some nodeId
      visits := some 0
      valueSum := some 0
      testsFailed := some (node.testsFailed.getD 999)
      testsPassed := some (node.testsPassed.getD 0)
      isTerminal := some false
      expanded := some false
      depth := some (nodeDepth + 1)
      suspiciousLines := some targetLines } := by
  unfold childMapping at made
  cases testCode : subscript "test_code" node.testCode with
  | error e => rw [testCode] at made; cases made
  | ok testCode' =>
    cases sourcePath : subscript "source_path" node.sourcePath with
    | error e => rw [testCode, sourcePath] at made; cases made
    | ok sourcePath' =>
      cases testPath : subscript "test_path" node.testPath with
      | error e => rw [testCode, sourcePath, testPath] at made; cases made
      | ok testPath' =>
        cases repoPath : subscript "repo_path" node.repoPath with
        | error e => rw [testCode, sourcePath, testPath, repoPath] at made; cases made
        | ok repoPath' =>
          rw [testCode, sourcePath, testPath, repoPath] at made
          exact ⟨testCode', sourcePath', testPath', repoPath', (Except.ok.inj made).symm⟩

/-- The capsule dispatched for a new child, from the child's own hash and the root's
snapshot fields. -/
def childCapsule (taskId childId runId : String) (child root : NodeHash) : TaskCapsule where
  id := childId
  treeId := taskId
  sourcePath := child.sourcePath.getD ""
  testPath := child.testPath.getD ""
  code := child.code.getD ""
  testCode := child.testCode.getD ""
  runId := runId
  sourceRelpath := child.sourceRelpath.getD ""
  testRelpath := child.testRelpath.getD ""
  repoSnapshot := root.repoSnapshot.getD []
  repoSnapshotDigest := root.repoSnapshotDigest.getD ""
  repoSnapshotBytes := root.repoSnapshotBytes.getD 0
  repoSnapshotFiles := root.repoSnapshotFiles.getD 0

/-- `_candidate_summary` -/
def candidateSummary (sourceRelpath : String) (nodeDepth : Nat) : String :=
  "comparison operator mutation in " ++ sourceRelpath ++ " at depth " ++ toString nodeDepth

/-- The ledger row of a new child. -/
def childRow (taskId nodeId : String) (child : NodeHash) (childDepth : Nat) : CandidateRow :=
  let sourceRelpath := child.sourceRelpath.getD ""
  let named := if sourceRelpath = "" then child.sourcePath.getD "" else sourceRelpath
  { taskId := taskId
    parentId := some nodeId
    patchKind := "comparison_swap"
    status := "generated"
    sourceRelpath := sourceRelpath
    filesTouched := if sourceRelpath = "" then [] else [sourceRelpath]
    diffSummary := candidateSummary named childDepth
    staticScore := 1 }

/-- The loop body of `expand` for a candidate whose budget is reserved. -/
def dispatchCandidate (sha256 : Sha256) (taskId nodeId : String) (node root : NodeHash)
    (targetLines : List Int) (candidate : String) : Daemon Unit := do
  let nodeDepth := node.depth.getD 0
  let childId := childId sha256 taskId nodeId candidate
  let child ← Prog.ofExcept
    (childMapping taskId nodeId candidate node nodeDepth targetLines)
  redis (.pipeline [.hset childId child, .sadd (nodeChildrenKey nodeId) childId])
  let hex ← Prog.call Cmd.uuid4
  pg (.insertCandidate childId (childRow taskId nodeId child (nodeDepth + 1)))
  let _ ← updateTaskStatus taskId "running"
  self.dispatchCapsule (childCapsule taskId childId ("run_" ++ hex) child root)

/-- The loop of `expand` over the candidates; the result is the number dispatched.
A refused reservation breaks it. -/
def dispatchCandidates (sha256 : Sha256) (taskId nodeId code : String) (node root : NodeHash)
    (plan : TaskPlan) (targetLines : List Int) : List String → Nat → Daemon Nat
  | [], generated => return generated
  | candidate :: rest, generated => do
    let equivalent ← Prog.ofExcept (self.isSemanticallyEquivalent code candidate)
    if equivalent then
      dispatchCandidates sha256 taskId nodeId code node root plan targetLines rest generated
    else do
      let reserved ← reserveCandidateBudget taskId plan
      if reserved then do
        self.dispatchCandidate sha256 taskId nodeId node root targetLines candidate
        dispatchCandidates sha256 taskId nodeId code node root plan targetLines rest (generated + 1)
      else
        return generated

/-- The candidates of an expansion plan: the targeted lines first, all comparison
lines when they yield none. -/
def candidates (code : String) (expansionPlan : ExpansionPlan) : Except PyError (List String) := do
  let targeted ← self.patcher.generateTargetedPatches code expansionPlan.targetLines
    expansionPlan.maxCandidates
  if targeted = [] ∧ expansionPlan.allowComparisonFallback = true then do
    let lines ← self.patcher.comparisonLines code
    self.patcher.generateTargetedPatches code lines expansionPlan.maxCandidates
  else
    return targeted

/-- The generating part of `expand`, past the depth cap and the budget check. -/
def generate (sha256 : Sha256) (taskId nodeId : String) (node root : NodeHash)
    (plan : TaskPlan) (expansionPlan : ExpansionPlan) : Daemon Unit := do
  Prog.call (Cmd.mark (.expanding nodeId))
  let code ← Prog.ofExcept (subscript "code" node.code)
  let candidates ← Prog.ofExcept (self.candidates code expansionPlan)
  let generated ← self.dispatchCandidates sha256 taskId nodeId code node root plan
    expansionPlan.targetLines candidates 0
  pg (.mergeTaskMetadata taskId)
  if generated = 0 then
    redis (.pipeline
      [.hset nodeId { expanded := some true }, .hset nodeId { isTerminal := some true }])
  else
    redis (.pipeline [.hset nodeId { expanded := some true }])

/-- `expand` past its guard. -/
def expandNode (sha256 : Sha256) (taskId nodeId : String) (node : NodeHash) : Daemon Unit := do
  let rootData ← redis (.hgetall (rootNodeId taskId))
  let root := rootData.getD {}
  let plan := self.taskPlan root
  let nodeDepth := node.depth.getD 0
  if plan.maxDepth ≤ nodeDepth then
    redis (.hset nodeId { isTerminal := some true, expanded := some true })
  else do
    let counter ← redis (.getCounter (taskBudgetKey taskId))
    let generatedCapsules := (counter <|> root.generatedCapsules).getD 0
    let expansionPlan := plan.expansionPlan nodeDepth generatedCapsules
    if expansionPlan.maxCandidates = 0 then do
      let _ ← redis (.set (treeBudgetExhaustedKey taskId) "1")
      redis (.hset (rootNodeId taskId) { planningStatus := some "budget_exhausted" })
      let _ ← updateTaskStatus taskId "budget_exhausted"
      redis (.hset nodeId { isTerminal := some true, expanded := some true })
    else
      self.generate sha256 taskId nodeId node root plan expansionPlan

/-- The guard of `expand`: what it still expands of a node it finds. -/
def Expandable (node : NodeHash) : Prop :=
  node.isTerminal ≠ some true ∧ node.expanded ≠ some true

instance (node : NodeHash) : Decidable (Expandable node) :=
  inferInstanceAs (Decidable (_ ∧ _))

/-- `expand`: the guard is read first, and a node that is terminal or expanded already is left
alone. -/
def expand (sha256 : Sha256) (taskId nodeId : String) : Daemon Unit := do
  let found ← redis (.hgetall nodeId)
  match found with
  | none => return ()
  | some node =>
    if Expandable node then
      self.expandNode sha256 taskId nodeId node
    else
      return ()

/-! ## The worker's loop -/

/-- The `finally` block of `run`: the lock is deleted when it still names this
worker. -/
def releaseLock (lockKey : String) : Daemon Unit := do
  let holder ← redis (.get lockKey)
  if holder = some self.workerId then
    redis (.delete lockKey)
  else
    return ()

/-- The body of `run`'s loop over the task ids. -/
def visitTask {S : Type} [LinearOrder S] (sha256 : Sha256) (ucb : UcbScore S) (fuel : Nat)
    (taskId : String) : Daemon Unit := do
  let done ← redis (.existsKey (treeDoneKey taskId))
  if done then
    return ()
  else do
    let exhausted ← redis (.existsKey (treeBudgetExhaustedKey taskId))
    if exhausted then
      return ()
    else do
      let nodeId ← self.distributedSelect ucb fuel taskId
      let locked ← redis (.set (nodeLockKey nodeId) self.workerId true (some 10))
      if locked then
        (self.expand sha256 taskId nodeId).tryFinally (self.releaseLock (nodeLockKey nodeId))
      else
        return ()

/-- `_task_ids`; `own` is the task the worker was started for, if it was. -/
def taskIds (own : Option String) : Daemon (List String) :=
  match own with
  | some taskId => return [taskId]
  | none => do
    let members ← redis (.smembers treeIndex)
    return members.insertionSort (· ≤ ·)

/-- The loop of `run` over the task ids. -/
def visitTasks {S : Type} [LinearOrder S] (sha256 : Sha256) (ucb : UcbScore S) (fuel : Nat) :
    List String → Daemon Unit
  | [] => return ()
  | taskId :: rest => do
    self.visitTask sha256 ucb fuel taskId
    visitTasks sha256 ucb fuel rest

/-- One turn of `run`. -/
def turn {S : Type} [LinearOrder S] (sha256 : Sha256) (ucb : UcbScore S) (own : Option String)
    (fuel : Nat) : Daemon Unit := do
  let ids ← taskIds own
  self.visitTasks sha256 ucb fuel ids

end ForestWorker

end KernelOmega
