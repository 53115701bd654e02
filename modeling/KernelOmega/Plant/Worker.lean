import KernelOmega.Concurrent.Typestate
import KernelOmega.Search.Issued
import KernelOmega.Search.Tree

/-!
# The order of a worker's writes

`Stage` is how far a worker is with the candidate it generates, and `forestProtocol` the
commands it issues there. For each candidate the order is: a reservation, the child's hash
and its place in the children set, a run id, the candidates row, the executions row, and
only then the dispatch. A refused reservation ends the generating.

The protocol is proved of the code once, command by command; what holds of the stores at
each stage is left to the invariants that use it.
-/

namespace KernelOmega

open Concurrent

/-- How far a worker is with generating candidates. -/
inductive Stage where
  | free
  /-- Generating the children of a node, with no candidate at hand. -/
  | live (nodeId : String)
  /-- A candidate is reserved in the counter under this key. -/
  | reserved (nodeId key : String)
  /-- The child is written and listed. -/
  | written (nodeId taskId childId : String)
  /-- The run id is drawn. -/
  | drawn (nodeId taskId childId runId : String)
  /-- The child is in the ledger. -/
  | recorded (nodeId taskId childId runId : String)
  /-- Its execution is in the ledger. -/
  | queued (nodeId taskId childId runId : String)
  /-- A reservation was refused and given back. -/
  | closing
  deriving DecidableEq

namespace Stage

/-- The stage after a command. A command that fails raises, and the worker ends where it is. -/
def next (stage : Stage) : (c : Cmd) → Except PyError c.Reply → Stage
  | .mark (.expanding nodeId) => fun _ => .live nodeId
  | .redis (.incr key) => fun
    | .ok _ =>
      match stage with
      | .live nodeId => .reserved nodeId key
      | _ => stage
    | .error _ => stage
  | .redis (.decr _) => fun
    | .ok _ => .closing
    | .error _ => stage
  | .redis (.pipeline ops) => fun
    | .ok _ =>
      match stage, ops with
      | .reserved nodeId _, .hset childId child :: _ =>
        .written nodeId (child.treeId.getD "") childId
      | _, _ => stage
    | .error _ => stage
  | .uuid4 => fun
    | .ok hex =>
      match stage with
      | .written nodeId taskId childId => .drawn nodeId taskId childId ("run_" ++ hex)
      | _ => stage
    | .error _ => stage
  | .pg (.insertCandidate _ _) => fun
    | .ok _ =>
      match stage with
      | .drawn nodeId taskId childId runId => .recorded nodeId taskId childId runId
      | _ => stage
    | .error _ => stage
  | .pg (.insertExecution _ _) => fun
    | .ok _ =>
      match stage with
      | .recorded nodeId taskId childId runId => .queued nodeId taskId childId runId
      | _ => stage
    | .error _ => stage
  | .redis (.xaddDispatch _) => fun
    | .ok _ =>
      match stage with
      | .queued nodeId _ _ _ => .live nodeId
      | _ => stage
    | .error _ => stage
  | .pg (.mergeTaskMetadata _) => fun _ => .free
  | _ => fun _ => stage

/-- The pipeline that writes a child and lists it. -/
def WritesChild (sha256 : Sha256) (nodeId taskId : String) (ops : List RedisOp) : Prop :=
  ∃ candidate child, child.treeId = some taskId ∧ child.parent = some nodeId ∧
    child.code = some candidate ∧
    ops = [.hset (ForestWorker.childId sha256 taskId nodeId candidate) child,
      .sadd (nodeChildrenKey nodeId) (ForestWorker.childId sha256 taskId nodeId candidate)]

/-- The pipeline that closes an expanded node. -/
def ClosesNode (ops : List RedisOp) : Prop :=
  ∀ op ∈ ops, ∃ nodeId mapping, op = .hset nodeId mapping ∧ mapping.Placeless

/-- The Redis commands of a worker at a stage. -/
def AllowsRedis (sha256 : Sha256) (stage : Stage) : RedisCmd → Prop
  | .hgetall _ => True
  | .smembers _ => True
  | .get _ => True
  | .existsKey _ => True
  | .getCounter _ => True
  | .hset _ mapping => mapping.Placeless
  | .set key _ _ _ =>
    (∃ nodeId, key = nodeLockKey nodeId) ∨ ∃ taskId, key = treeBudgetExhaustedKey taskId
  | .delete key => ∃ nodeId, key = nodeLockKey nodeId
  | .incr key => ∃ nodeId taskId, stage = .live nodeId ∧ key = taskBudgetKey taskId
  | .decr key => ∃ nodeId, stage = .reserved nodeId key
  | .pipeline ops =>
    (∃ nodeId taskId, stage = .reserved nodeId (taskBudgetKey taskId) ∧
      WritesChild sha256 nodeId taskId ops) ∨ stage = .free ∧ ClosesNode ops
  | .xaddDispatch request =>
    (∃ nodeId, stage = .queued nodeId request.taskId request.candidateId request.runId) ∧
      request.capsule.id = request.candidateId ∧ request.capsule.runId = request.runId
  | _ => False

/-- The ledger statements of a worker at a stage. -/
def AllowsPg (stage : Stage) : PgCmd → Prop
  | .fetchTaskStatus _ => True
  | .fetchCandidateStatus _ => True
  | .setTaskStatus taskId status =>
    (status = "running" ∧ ∃ nodeId childId runId, stage = .recorded nodeId taskId childId runId) ∨
      status = "budget_exhausted" ∧ (stage = .free ∨ stage = .closing)
  | .setCandidateStatus _ _ => True
  | .insertCandidate id row =>
    (∃ nodeId runId, stage = .drawn nodeId row.taskId id runId) ∧ row.status = "generated"
  | .insertExecution runId row =>
    (∃ nodeId, stage = .recorded nodeId row.taskId row.candidateId runId) ∧ row.status = "queued"
  | .mergeTaskMetadata _ => (∃ nodeId, stage = .live nodeId) ∨ stage = .closing
  | _ => False

/-- What a worker may do at a stage. A mark starts an expansion, and only from `free`. -/
def Allows (sha256 : Sha256) (stage : Stage) : Cmd → Prop
  | .redis c => stage.AllowsRedis sha256 c
  | .pg c => stage.AllowsPg c
  | .uuid4 => ∃ nodeId taskId childId, stage = .written nodeId taskId childId
  | .time => True
  | .mark (.expanding _) => stage = .free
  | _ => False

end Stage

/-- What a worker does, stage by stage. -/
def forestProtocol (sha256 : Sha256) : Typestate Cmd Cmd.Reply PyError Stage where
  next := Stage.next
  allows := Stage.Allows sha256

/-- Where thread `i` is with the candidate at hand. -/
def stageOf {ι : Type} [DecidableEq ι] (sha256 : Sha256) (i : ι)
    (history : List (Event ι Cmd Cmd.Reply PyError)) : Stage :=
  (forestProtocol sha256).current .free i history

section StageOf

variable {ι : Type} [DecidableEq ι] (sha256 : Sha256)

/-- A thread's own command moves its stage, -/
theorem stageOf_own (i : ι) (c : Cmd) (reply : Except PyError c.Reply)
    (history : List (Event ι Cmd Cmd.Reply PyError)) :
    stageOf sha256 i (⟨i, c, reply⟩ :: history) = (stageOf sha256 i history).next c reply :=
  (forestProtocol sha256).current_own .free ⟨i, c, reply⟩ rfl history

/-- and another thread's does not. -/
theorem stageOf_other {i j : ι} (other : i ≠ j) (c : Cmd) (reply : Except PyError c.Reply)
    (history : List (Event ι Cmd Cmd.Reply PyError)) :
    stageOf sha256 j (⟨i, c, reply⟩ :: history) = stageOf sha256 j history :=
  (forestProtocol sha256).current_other .free ⟨i, c, reply⟩ other history

end StageOf

/-! ## The code follows it -/

/-- A read of one key. -/
def RedisCmd.Reads : RedisCmd → Prop
  | .hgetall _ => True
  | .smembers _ => True
  | .get _ => True
  | .existsKey _ => True
  | .getCounter _ => True
  | _ => False

/-- A command that is allowed at every stage and leaves it as it is. -/
def Cmd.Roams (sha256 : Sha256) (c : Cmd) : Prop :=
  ∀ stage : Stage, stage.Allows sha256 c ∧ ∀ reply, stage.next c reply = stage

section Protocol

variable {sha256 : Sha256} {α : Type} {stage : Stage}

/-- A roaming program leaves the stage as it is. -/
theorem Stage.keeps_of_uses {p : Daemon α} (uses : p.Uses (Cmd.Roams sha256)) (stage : Stage) :
    p.Keeps (forestProtocol sha256) (fun _ q => q = stage) (fun _ q => q = stage) stage := by
  refine Prog.Keeps.of_uses (fun c roams q here => ?_) uses rfl
  subst here
  exact roams q

/-- A roaming program in front of a continuation. -/
theorem Stage.roam_bind {β : Type} {p : Daemon α} {f : α → Daemon β} {post : β → Stage → Prop}
    (uses : p.Uses (Cmd.Roams sha256))
    (rest : ∀ a, (f a).Keeps (forestProtocol sha256) post (fun _ _ => True) stage) :
    (p >>= f).Keeps (forestProtocol sha256) post (fun _ _ => True) stage := by
  refine Prog.Keeps.bind (Prog.Keeps.mono (fun _ _ same => same) (fun _ _ _ => trivial)
    (Stage.keeps_of_uses uses stage)) fun a q here => ?_
  subst here
  exact rest a

theorem Cmd.Roams.of_read {c : RedisCmd} (read : c.Reads) : (Cmd.redis c).Roams sha256 := by
  intro stage
  cases c with
  | hgetall _ => exact ⟨trivial, fun _ => rfl⟩
  | smembers _ => exact ⟨trivial, fun _ => rfl⟩
  | get _ => exact ⟨trivial, fun _ => rfl⟩
  | existsKey _ => exact ⟨trivial, fun _ => rfl⟩
  | getCounter _ => exact ⟨trivial, fun _ => rfl⟩
  | _ => exact read.elim

theorem hset_roams {key : String} {mapping : NodeHash} (placeless : mapping.Placeless) :
    (Cmd.redis (.hset key mapping)).Roams sha256 :=
  fun _ => ⟨placeless, fun _ => rfl⟩

theorem set_exhausted_roams (taskId value : String) :
    (Cmd.redis (.set (treeBudgetExhaustedKey taskId) value)).Roams sha256 :=
  fun _ => ⟨.inr ⟨taskId, rfl⟩, fun _ => rfl⟩

theorem updateCandidateStatus_roams (candidateId status : String) :
    (Daemon.updateCandidateStatus candidateId status).Uses (Cmd.Roams sha256) :=
  Daemon.updateCandidateStatus_uses (fun _ => ⟨trivial, fun _ => rfl⟩) fun _ => ⟨trivial, fun _ => rfl⟩

/-- A worker updates the task's status where the stage allows the write. -/
theorem updateTaskStatus_keeps {taskId status : String}
    (allowed : stage.AllowsPg (.setTaskStatus taskId status)) :
    (Daemon.updateTaskStatus taskId status).Keeps (forestProtocol sha256)
      (fun _ q => q = stage) (fun _ _ => True) stage := by
  refine Prog.Keeps.call_bind trivial (fun current => ?_) fun _ => trivial
  split
  · exact Prog.Keeps.call_bind allowed (fun _ => rfl) fun _ => trivial
  · exact rfl

namespace ForestWorker

theorem releaseLock_roams (self : ForestWorker) (nodeId : String) :
    (self.releaseLock (nodeLockKey nodeId)).Uses (Cmd.Roams sha256) :=
  self.releaseLock_uses (.of_read trivial) fun _ => ⟨⟨nodeId, rfl⟩, fun _ => rfl⟩

/-- A reservation is made, or was given back, -/
theorem reserveCandidateBudget_keeps (nodeId taskId : String) (plan : TaskPlan) :
    (reserveCandidateBudget taskId plan).Keeps (forestProtocol sha256)
      (fun reserved q => q = if reserved then .reserved nodeId (taskBudgetKey taskId) else .closing)
      (fun _ _ => True) (.live nodeId) := by
  refine Prog.Keeps.call_bind ⟨nodeId, taskId, rfl, rfl⟩ (fun generated => ?_) fun _ => trivial
  split
  · refine Prog.Keeps.call_bind ⟨nodeId, rfl⟩ (fun _ => ?_) fun _ => trivial
    refine Stage.roam_bind (Prog.uses_call (set_exhausted_roams taskId "1")) fun _ => ?_
    refine Stage.roam_bind (Prog.uses_call (hset_roams ⟨rfl, rfl, rfl, rfl, rfl⟩)) fun _ => ?_
    exact (updateTaskStatus_keeps (.inr ⟨rfl, .inr rfl⟩)).bind fun _ _ same => same
  · exact Stage.roam_bind (Prog.uses_call (hset_roams ⟨rfl, rfl, rfl, rfl, rfl⟩)) fun _ => rfl

/-- One candidate, from its reservation to its dispatch. -/
theorem dispatchCandidate_keeps (self : ForestWorker) (taskId nodeId : String)
    (node root : NodeHash) (targetLines : List Int) (candidate : String) :
    (self.dispatchCandidate sha256 taskId nodeId node root targetLines candidate).Keeps
      (forestProtocol sha256) (fun _ q => q = .live nodeId) (fun _ _ => True)
      (.reserved nodeId (taskBudgetKey taskId)) := by
  refine Prog.Keeps.ofExcept_bind (fun child made => ?_) fun _ _ => trivial
  obtain ⟨testCode, sourcePath, testPath, repoPath, rfl⟩ := childMapping_eq_ok made
  refine Prog.Keeps.call_bind (.inl ⟨nodeId, taskId, rfl, candidate, _, rfl, rfl, rfl, rfl⟩)
    (fun _ => ?_) fun _ => trivial
  refine Prog.Keeps.call_bind ⟨nodeId, taskId, _, rfl⟩ (fun hex => ?_) fun _ => trivial
  refine Prog.Keeps.call_bind ⟨⟨nodeId, _, rfl⟩, rfl⟩ (fun _ => ?_) fun _ => trivial
  refine (updateTaskStatus_keeps (.inl ⟨rfl, nodeId, _, _, rfl⟩)).bind fun _ q here => ?_
  subst here
  refine Prog.Keeps.ofExcept_bind (fun core _ => ?_) fun _ _ => trivial
  refine Stage.roam_bind (Prog.uses_call fun _ => ⟨trivial, fun _ => rfl⟩) fun createdAt => ?_
  refine Prog.Keeps.call_bind ⟨⟨nodeId, rfl⟩, rfl⟩ (fun _ => ?_) fun _ => trivial
  refine Stage.roam_bind (updateCandidateStatus_roams _ _) fun _ => ?_
  exact Prog.Keeps.call ⟨⟨nodeId, rfl⟩, rfl, rfl⟩ (fun _ => rfl) fun _ => trivial

/-- The loop ends with the node still at hand, or with a reservation that was refused and given
back. -/
theorem dispatchCandidates_keeps (self : ForestWorker) (taskId nodeId code : String)
    (node root : NodeHash) (plan : TaskPlan) (targetLines : List Int) (candidates : List String)
    (generated : Nat) :
    (self.dispatchCandidates sha256 taskId nodeId code node root plan targetLines candidates
      generated).Keeps (forestProtocol sha256)
        (fun _ q => q = .live nodeId ∨ q = .closing) (fun _ _ => True) (.live nodeId) := by
  induction candidates generalizing generated with
  | nil => exact .inl rfl
  | cons candidate rest ih =>
    refine Prog.Keeps.ofExcept_bind (fun equivalent _ => ?_) fun _ _ => trivial
    split
    · exact ih generated
    · refine (reserveCandidateBudget_keeps nodeId taskId plan).bind fun reserved q here => ?_
      subst here
      cases reserved with
      | false => exact .inr rfl
      | true =>
        refine (self.dispatchCandidate_keeps taskId nodeId node root targetLines candidate).bind
          fun _ q here => ?_
        subst here
        exact ih (generated + 1)

/-- An expansion that returns is through with its node. -/
theorem generate_keeps (self : ForestWorker) (taskId nodeId : String) (node root : NodeHash)
    (plan : TaskPlan) (expansionPlan : ExpansionPlan) :
    (self.generate sha256 taskId nodeId node root plan expansionPlan).Keeps (forestProtocol sha256)
      (fun _ q => q = .free) (fun _ _ => True) .free := by
  refine Prog.Keeps.call_bind rfl (fun _ => ?_) fun _ => trivial
  refine Prog.Keeps.ofExcept_bind (fun code _ => ?_) fun _ _ => trivial
  refine Prog.Keeps.ofExcept_bind (fun candidates _ => ?_) fun _ _ => trivial
  refine (self.dispatchCandidates_keeps taskId nodeId code node root plan _ candidates 0).bind
    fun generated q here => ?_
  refine Prog.Keeps.call_bind (here.imp_left fun live => ⟨nodeId, live⟩) (fun _ => ?_)
    fun _ => trivial
  have closed : ∀ mapping : NodeHash, mapping.Placeless → ∀ op : RedisOp,
      op = .hset nodeId mapping → ∃ key m, op = .hset key m ∧ m.Placeless :=
    fun mapping placeless op same => ⟨nodeId, mapping, same, placeless⟩
  split
  · refine Prog.Keeps.call (.inr ⟨rfl, fun op mem => ?_⟩) (fun _ => rfl) fun _ => trivial
    simp only [List.mem_cons, List.not_mem_nil, or_false] at mem
    rcases mem with same | same
    · exact closed _ ⟨rfl, rfl, rfl, rfl, rfl⟩ op same
    · exact closed _ ⟨rfl, rfl, rfl, rfl, rfl⟩ op same
  · refine Prog.Keeps.call (.inr ⟨rfl, fun op mem => ?_⟩) (fun _ => rfl) fun _ => trivial
    exact closed _ ⟨rfl, rfl, rfl, rfl, rfl⟩ op (List.mem_singleton.mp mem)

/-- An expansion ends where it began. -/
theorem expandNode_keeps (self : ForestWorker) (taskId nodeId : String) (node : NodeHash) :
    (self.expandNode sha256 taskId nodeId node).Keeps (forestProtocol sha256)
      (fun _ q => q = .free) (fun _ _ => True) .free := by
  refine Stage.roam_bind (Prog.uses_call (.of_read trivial)) fun rootData => ?_
  dsimp only
  split
  · exact Prog.Keeps.call ⟨rfl, rfl, rfl, rfl, rfl⟩ (fun _ => rfl) fun _ => trivial
  · refine Stage.roam_bind (Prog.uses_call (.of_read trivial)) fun counter => ?_
    split
    · refine Stage.roam_bind (Prog.uses_call (set_exhausted_roams taskId "1")) fun _ => ?_
      refine Stage.roam_bind (Prog.uses_call (hset_roams ⟨rfl, rfl, rfl, rfl, rfl⟩)) fun _ => ?_
      refine (updateTaskStatus_keeps (.inr ⟨rfl, .inl rfl⟩)).bind fun _ q here => ?_
      subst here
      exact Prog.Keeps.call ⟨rfl, rfl, rfl, rfl, rfl⟩ (fun _ => rfl) fun _ => trivial
    · exact self.generate_keeps taskId nodeId node _ _ _

/-- a call of `expand` starts and ends with no candidate at hand, -/
theorem expand_keeps (self : ForestWorker) (taskId nodeId : String) :
    (self.expand sha256 taskId nodeId).Keeps (forestProtocol sha256)
      (fun _ q => q = .free) (fun _ _ => True) .free := by
  refine Stage.roam_bind (Prog.uses_call (.of_read trivial)) fun found => ?_
  cases found with
  | none => exact rfl
  | some node =>
    dsimp only
    split
    · exact self.expandNode_keeps taskId nodeId node
    · exact rfl

/-- The lock is released from wherever the expansion ends, so a visit that returns is free. -/
theorem visitTask_keeps {S : Type} [LinearOrder S] (self : ForestWorker) (ucb : UcbScore S)
    (fuel : Nat) (taskId : String) :
    (self.visitTask sha256 ucb fuel taskId).Keeps (forestProtocol sha256)
      (fun _ q => q = .free) (fun _ _ => True) .free := by
  have releases : ∀ nodeId q, (self.releaseLock (nodeLockKey nodeId)).Keeps (forestProtocol sha256)
      (fun _ q' => q' = q) (fun _ _ => True) q := fun nodeId q =>
    Prog.Keeps.mono (fun _ _ same => same) (fun _ _ _ => trivial)
      (Stage.keeps_of_uses (self.releaseLock_roams nodeId) q)
  have selects : (self.distributedSelect ucb fuel taskId).Uses (Cmd.Roams sha256) :=
    self.distributedSelect_uses ucb (fun _ => .of_read trivial) (fun _ => .of_read trivial) fuel taskId
  refine self.keeps_visitTask (S := S) (· = .free) (fun _ q => q = .free) ?_ ?_ ?_ (fun _ _ free => free) ?_ ?_
    (fun nodeId q => (releases nodeId q).mono (fun _ _ _ => trivial) fun _ _ _ => trivial) rfl
  · rintro key q rfl
    exact ⟨trivial, fun _ => rfl⟩
  · rintro q rfl
    exact Prog.Keeps.mono (fun _ _ same => same) (fun _ _ _ => trivial)
      (Stage.keeps_of_uses selects .free)
  · rintro nodeId q rfl
    exact ⟨.inl ⟨nodeId, rfl⟩, fun _ => rfl⟩
  · rintro nodeId q rfl
    exact self.expand_keeps taskId nodeId
  · rintro nodeId q rfl
    exact releases nodeId .free

/-- and so does a turn. -/
theorem turn_keeps {S : Type} [LinearOrder S] (self : ForestWorker) (ucb : UcbScore S)
    (own : Option String) (fuel : Nat) :
    (self.turn sha256 ucb own fuel).Keeps (forestProtocol sha256)
      (fun _ q => q = .free) (fun _ _ => True) .free := by
  refine self.keeps_turn ?_ ?_ own rfl
  · rintro q rfl
    exact ⟨trivial, fun _ => rfl⟩
  · rintro taskId q rfl
    exact self.visitTask_keeps ucb fuel taskId

end ForestWorker

end Protocol

end KernelOmega
