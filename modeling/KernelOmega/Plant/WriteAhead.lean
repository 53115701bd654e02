import KernelOmega.Dispatcher
import KernelOmega.Ledger.Order
import KernelOmega.Plant.Seeding
import KernelOmega.Search.System
import KernelOmega.Store.Effects

/-!
# Write-ahead dispatch

Any number of workers expand nodes of any number of seeded tasks, and any of them may stop
between two commands. A dispatched candidate is in both stores before its entry is on the
stream: what each stage of a worker has written is still there, because no command of a
worker removes a hash, a member or a row. Every entry also has an increment of its task's
counter to itself: the threads with a reservation at hand make up the difference.
-/

namespace KernelOmega

open Concurrent

/-- Workers on seeded tasks. -/
structure Grove (ι S : Type) where
  sha256 : Sha256
  tasks : List SeedTask
  workers : ι → ForestWorker
  ucb : UcbScore S

namespace Grove

variable {ι S : Type} [LinearOrder S] (grove : Grove ι S)

/-- A worker visits a task, or expands any node for it. -/
inductive Call (i : ι) : Daemon Unit → Prop
  | expand (task : SeedTask) (nodeId : String) : task ∈ grove.tasks →
      Call i ((grove.workers i).expand grove.sha256 task.taskId nodeId)
  | visit (task : SeedTask) (fuel : Nat) : task ∈ grove.tasks →
      Call i ((grove.workers i).visitTask grove.sha256 grove.ucb fuel task.taskId)

/-- The workers of the grove in any interleaving. -/
def system : System ι Cmd Cmd.Reply PyError Choice World where
  exec := World.exec
  init := fun w => w = seedAll grove.tasks
  calls := grove.Call
  env := fun s w => Weather s.world w
  may := fun _ _ _ _ => True

/-- The workers of the grove follow the stages. -/
theorem follows [DecidableEq ι] :
    grove.system.Follows (forestProtocol grove.sha256) (fun _ => .free) fun _ q => q = .free where
  start := fun _ => rfl
  calls := by
    rintro i p q called rfl
    cases called with
    | expand task nodeId _ => exact (grove.workers i).expand_keeps task.taskId nodeId
    | visit task fuel _ => exact (grove.workers i).visitTask_keeps grove.ucb fuel task.taskId

end Grove

/-! ## What is written stays -/

/-- A node is there, belongs to a task, and is in its parent's children set. -/
def Listed (r : Redis) (nodeId : String) : Prop :=
  ∃ h parent, r.hashes nodeId = some h ∧ h.treeId.isSome ∧ h.parent = some parent ∧
    nodeId ∈ r.sets (nodeChildrenKey parent)

namespace Listed

variable {r : Redis} {nodeId : String}

theorem of_same {r' : Redis} (listed : Listed r nodeId) (hashes : r'.hashes = r.hashes)
    (sets : r'.sets = r.sets) : Listed r' nodeId := by
  obtain ⟨h, parent, found, tree, names, member⟩ := listed
  exact ⟨h, parent, hashes ▸ found, tree, names, sets ▸ member⟩

/-- A mapping that places no node leaves every listed node where it is. -/
theorem hset (listed : Listed r nodeId) (key : String) {mapping : NodeHash}
    (placeless : mapping.Placeless) : Listed (r.modifyHash key mapping.update) nodeId := by
  obtain ⟨h, parent, found, tree, names, member⟩ := listed
  by_cases same : nodeId = key
  · subst same
    have place := placeless.samePlace h
    refine ⟨mapping.update h, parent, ?_, ?_, ?_, member⟩
    · rw [Redis.modifyHash_hashes, Function.update_self, found, Option.getD_some]
    · rw [place.treeId]
      exact tree
    · rw [place.parent]
      exact names
  · refine ⟨h, parent, ?_, tree, names, member⟩
    rw [Redis.modifyHash_hashes, Function.update_of_ne same]
    exact found

/-- Closing a node takes none off the list. -/
theorem closeAll {ops : List RedisOp} (closes : Stage.ClosesNode ops) (listed : Listed r nodeId) :
    Listed (r.applyAll ops) nodeId := by
  induction ops generalizing r with
  | nil => exact listed
  | cons op rest ih =>
    obtain ⟨key, mapping, rfl, placeless⟩ := closes op List.mem_cons_self
    exact ih (fun op mem => closes op (List.mem_cons_of_mem _ mem)) (listed.hset key placeless)

theorem mem_addMember (r : Redis) (key member : String) : member ∈ (r.addMember key member).sets key := by
  simp only [Redis.addMember, Function.update_self]
  split
  · assumption
  · exact List.mem_append_right _ (List.mem_singleton.mpr rfl)

theorem mem_addMember_of_mem {r : Redis} {key key' member member' : String}
    (mem : member ∈ r.sets key) : member ∈ (r.addMember key' member').sets key := by
  simp only [Redis.addMember]
  by_cases same : key = key'
  · subst same
    rw [Function.update_self]
    split
    · exact mem
    · exact List.mem_append_left _ mem
  · rw [Function.update_of_ne same]
    exact mem

/-- Writing a child lists it, -/
theorem written (r : Redis) {childId parent taskId : String} {child : NodeHash}
    (tree : child.treeId = some taskId) (names : child.parent = some parent) :
    Listed (r.applyAll [.hset childId child, .sadd (nodeChildrenKey parent) childId]) childId := by
  refine ⟨child.update ((r.hashes childId).getD {}), parent, ?_, ?_, ?_, mem_addMember _ _ _⟩
  · show Function.update r.hashes childId _ childId = _
    rw [Function.update_self]
  · rw [NodeHash.update, tree]
    rfl
  · rw [NodeHash.update, names]
    rfl

/-- and leaves the others listed. -/
theorem writes {childId parent taskId : String} {child : NodeHash} (tree : child.treeId = some taskId)
    (names : child.parent = some parent) (listed : Listed r nodeId) :
    Listed (r.applyAll [.hset childId child, .sadd (nodeChildrenKey parent) childId]) nodeId := by
  by_cases same : nodeId = childId
  · subst same
    exact written r tree names
  · obtain ⟨h, parent', found, tree', names', member⟩ := listed
    refine ⟨h, parent', ?_, tree', names', mem_addMember_of_mem member⟩
    show Function.update r.hashes childId _ nodeId = _
    rw [Function.update_of_ne same]
    exact found

/-- No command of a worker takes a node off the list. -/
theorem worker {sha256 : Sha256} {stage : Stage} {c : Cmd} (allowed : stage.Allows sha256 c)
    (x : Choice) {w : World} (listed : Listed w.redis nodeId) :
    Listed (World.exec x c w).2.redis nodeId := by
  rcases World.exec_redis_cases x c w with same | ⟨command, rfl, after⟩
  · rw [same]
    exact listed
  · rw [after]
    cases command with
    | hset key mapping => exact listed.hset key allowed
    | set key value nx ex =>
      simp only [Redis.exec]
      split
      · exact listed
      · exact listed.of_same rfl rfl
    | pipeline ops =>
      rcases allowed with ⟨_, _, -, _, child, tree, names, -, rfl⟩ | ⟨-, closes⟩
      · exact listed.writes tree names
      · exact listed.closeAll closes
    | sadd _ _ => exact allowed.elim
    | xaddResult _ => exact allowed.elim
    | _ => exact listed.of_same rfl rfl

end Listed

/-- What a worker at a stage has in the stores. -/
def Stage.Backed (w : World) : Stage → Prop
  | .written _ _ childId => Listed w.redis childId
  | .drawn _ _ childId _ => Listed w.redis childId
  | .recorded _ _ childId _ => Listed w.redis childId ∧ (w.pg.candidates childId).isSome
  | .queued _ _ childId runId =>
    Listed w.redis childId ∧ (w.pg.candidates childId).isSome ∧ (w.pg.executions runId).isSome
  | _ => True

/-- What an entry of the dispatch stream has in the stores. -/
structure Entered (w : World) (request : ExecutionRequest) : Prop where
  listed : Listed w.redis request.candidateId
  candidate : (w.pg.candidates request.candidateId).isSome
  execution : (w.pg.executions request.runId).isSome
  capsule : request.capsule.id = request.candidateId ∧ request.capsule.runId = request.runId

/-- A world in which nothing of `w` that dispatched candidates need has gone. -/
structure Keeps (w w' : World) : Prop where
  listed : ∀ nodeId, Listed w.redis nodeId → Listed w'.redis nodeId
  candidates : ∀ id, (w.pg.candidates id).isSome → (w'.pg.candidates id).isSome
  executions : ∀ id, (w.pg.executions id).isSome → (w'.pg.executions id).isSome

namespace Keeps

variable {w w' : World}

/-- What backs a stage is not taken away. -/
theorem stage (keeps : Keeps w w') {stage : Stage} (backed : stage.Backed w) : stage.Backed w' := by
  cases stage with
  | written _ _ _ => exact keeps.listed _ backed
  | drawn _ _ _ _ => exact keeps.listed _ backed
  | recorded _ _ _ _ => exact ⟨keeps.listed _ backed.1, keeps.candidates _ backed.2⟩
  | queued _ _ _ _ =>
    exact ⟨keeps.listed _ backed.1, keeps.candidates _ backed.2.1, keeps.executions _ backed.2.2⟩
  | _ => trivial

theorem entered (keeps : Keeps w w') {request : ExecutionRequest} (entered : Entered w request) :
    Entered w' request :=
  ⟨keeps.listed _ entered.listed, keeps.candidates _ entered.candidate,
    keeps.executions _ entered.execution, entered.capsule⟩

/-- No command of a worker removes anything. -/
theorem worker {sha256 : Sha256} {stage : Stage} {c : Cmd} (allowed : stage.Allows sha256 c)
    (x : Choice) (w : World) : Keeps w (World.exec x c w).2 := by
  refine ⟨fun _ listed => listed.worker allowed x, fun id row => ?_, fun id row => ?_⟩
  · rcases World.exec_pg x c w with same | ⟨statement, rfl, after⟩
    · rw [same]
      exact row
    · rw [after]
      exact Postgres.exec_candidates row statement
  · rcases World.exec_pg x c w with same | ⟨statement, rfl, after⟩
    · rw [same]
      exact row
    · rw [after]
      exact Postgres.exec_executions row statement

theorem weather (around : Weather w w') : Keeps w w' := by
  cases around with
  | tick n => exact ⟨fun _ listed => listed, fun _ row => row, fun _ row => row⟩
  | expire key entry deadline found due past =>
    exact ⟨fun _ listed => listed.of_same rfl rfl, fun _ row => row, fun _ row => row⟩

end Keeps

/-- A worker's next stage is backed when the one it leaves is. -/
theorem Stage.Backed.next {sha256 : Sha256} {stage : Stage} {c : Cmd} {w : World}
    (allowed : stage.Allows sha256 c) (backed : stage.Backed w) (x : Choice) :
    (stage.next c (World.exec x c w).1).Backed (World.exec x c w).2 := by
  have kept := (Keeps.worker allowed x w).stage backed
  cases c with
  | redis c =>
    cases fails : x.fail with
    | true =>
      rw [World.exec_redis_fail fails] at kept ⊢
      cases c <;> exact kept
    | false =>
      rw [World.exec_redis_ok fails] at kept ⊢
      cases c with
      | incr key =>
        obtain ⟨nodeId, taskId, rfl, -⟩ := allowed
        trivial
      | decr key => trivial
      | pipeline ops =>
        rcases allowed with ⟨nodeId, taskId, rfl, candidate, child, tree, names, -, rfl⟩ | ⟨rfl, -⟩
        · exact Listed.written w.redis tree names
        · trivial
      | xaddDispatch request =>
        obtain ⟨⟨nodeId, rfl⟩, -⟩ := allowed
        trivial
      | _ => exact kept
  | pg c =>
    cases reply : (World.exec x (.pg c) w).1 with
    | error e =>
      cases c <;> first | exact kept | trivial
    | ok v =>
      obtain ⟨ok, after⟩ := World.exec_pg_eq_ok reply
      cases c with
      | insertCandidate id row =>
        obtain ⟨⟨nodeId, runId, rfl⟩, -⟩ := allowed
        refine ⟨kept, ?_⟩
        rw [after]
        exact Postgres.candidates_of_insertCandidate ok
      | insertExecution runId row =>
        obtain ⟨⟨nodeId, rfl⟩, -⟩ := allowed
        refine ⟨kept.1, kept.2, ?_⟩
        rw [after]
        exact Postgres.executions_of_insertExecution ok
      | mergeTaskMetadata _ => trivial
      | _ => exact kept
  | uuid4 =>
    obtain ⟨nodeId, taskId, childId, rfl⟩ := allowed
    exact kept
  | mark m => trivial
  | time => exact kept
  | _ => exact allowed.elim

/-! ## Each entry has an increment of its own -/

namespace Stage

/-- Whether the worker has a reservation of the task at hand that is not dispatched yet. -/
def owes (taskId : String) : Stage → Int
  | .reserved _ key => if key = taskBudgetKey taskId then 1 else 0
  | .written _ owner _ => if owner = taskId then 1 else 0
  | .drawn _ owner _ _ => if owner = taskId then 1 else 0
  | .recorded _ owner _ _ => if owner = taskId then 1 else 0
  | .queued _ owner _ _ => if owner = taskId then 1 else 0
  | _ => 0

theorem owes_nonneg (taskId : String) (stage : Stage) : 0 ≤ stage.owes taskId := by
  unfold owes
  split <;> first | split <;> decide | decide

end Stage

/-- How many of the requests are of the task. -/
def ofTask (requests : List ExecutionRequest) (taskId : String) : Nat :=
  requests.countP fun request => request.taskId = taskId

/-- A pipeline that closes a node adds to no counter. -/
theorem Stage.sum_adds {ops : List RedisOp} (closes : Stage.ClosesNode ops) (key : String) :
    (ops.map (RedisOp.adds key)).sum = 0 := by
  refine List.sum_eq_zero fun n mem => ?_
  obtain ⟨op, within, rfl⟩ := List.mem_map.mp mem
  obtain ⟨_, _, rfl, -⟩ := closes op within
  rfl

/-- What a command adds to the counter of a task, it owes to the dispatch stream or pays. -/
theorem Stage.owes_next {sha256 : Sha256} {stage : Stage} {c : Cmd} (allowed : stage.Allows sha256 c)
    (reply : Except PyError c.Reply) (taskId : String) :
    c.adds (taskBudgetKey taskId) reply - ofTask (c.requests reply) taskId =
      (stage.next c reply).owes taskId - stage.owes taskId := by
  have still : (0 : Int) - ofTask [] taskId = stage.owes taskId - stage.owes taskId := by
    simp only [ofTask, List.countP_nil, Nat.cast_zero, sub_self]
  cases c with
  | redis c =>
    cases reply with
    | error e => cases c <;> exact still
    | ok v =>
      cases c with
      | incr key =>
        obtain ⟨nodeId, owner, rfl, rfl⟩ := allowed
        simp only [Cmd.adds, Cmd.requests, next, owes, ofTask, List.countP_nil, Nat.cast_zero]
      | decr key =>
        obtain ⟨nodeId, rfl⟩ := allowed
        simp only [Cmd.adds, Cmd.requests, next, owes, ofTask, List.countP_nil, Nat.cast_zero]
        split <;> rfl
      | pipeline ops =>
        rcases allowed with ⟨nodeId, owner, rfl, candidate, child, tree, -, -, rfl⟩ | ⟨rfl, closes⟩
        · simp only [Cmd.adds, List.map_cons, List.map_nil, RedisOp.adds, List.sum_cons, List.sum_nil,
            add_zero, Cmd.requests, next, owes, tree, Option.getD_some, taskBudgetKey_injective.eq_iff,
            ofTask, List.countP_nil, Nat.cast_zero, sub_self]
        · simp only [Cmd.adds, Stage.sum_adds closes]
          exact still
      | xaddDispatch request =>
        obtain ⟨⟨nodeId, rfl⟩, -⟩ := allowed
        simp only [Cmd.adds, Cmd.requests, next, owes, ofTask, List.countP_singleton, decide_eq_true_eq]
        split <;> rfl
      | _ => exact still
  | pg c =>
    cases c with
    | insertCandidate id row =>
      obtain ⟨⟨nodeId, runId, rfl⟩, -⟩ := allowed
      cases reply <;> exact still
    | insertExecution runId row =>
      obtain ⟨⟨nodeId, rfl⟩, -⟩ := allowed
      cases reply <;> exact still
    | mergeTaskMetadata _ =>
      rcases allowed with ⟨nodeId, rfl⟩ | rfl <;> exact still
    | _ => exact still
  | uuid4 =>
    obtain ⟨nodeId, owner, childId, rfl⟩ := allowed
    cases reply <;> exact still
  | mark m =>
    obtain ⟨nodeId⟩ := m
    obtain rfl := allowed
    exact still
  | time => exact still
  | _ => exact allowed.elim

/-! ## Every run -/

/-- What holds of the workers and the stores at every moment. -/
structure WriteAhead {ι : Type} [DecidableEq ι] (sha256 : Sha256)
    (s : Snapshot ι Cmd Cmd.Reply PyError World) : Prop where
  stages : ∀ i, (stageOf sha256 i s.history).Backed s.world
  entries : ∀ request ∈ s.world.redis.dispatch, Entered s.world request
  budget : ∀ taskId, s.world.redis.count (taskBudgetKey taskId) =
    ofTask s.world.redis.dispatch taskId +
      (forestProtocol sha256).total (fun _ => .free) (Stage.owes taskId) s.history

section Step

variable {ι : Type} [DecidableEq ι] {sha256 : Sha256} {s : Snapshot ι Cmd Cmd.Reply PyError World}

/-- The step lemma. -/
theorem WriteAhead.after (inv : WriteAhead sha256 s) {i : ι} {c : Cmd}
    (allowed : (stageOf sha256 i s.history).Allows sha256 c) (x : Choice) :
    WriteAhead sha256 (s.after World.exec i x c) := by
  have keeps := Keeps.worker allowed x s.world
  refine ⟨fun j => ?_, fun request mem => ?_, fun taskId => ?_⟩
  · by_cases same : i = j
    · subst same
      rw [Snapshot.after_history, stageOf_own]
      exact (inv.stages i).next allowed x
    · rw [Snapshot.after_history, stageOf_other sha256 same]
      exact keeps.stage (inv.stages j)
  · rw [Snapshot.after_world, World.exec_dispatch, List.mem_append] at mem
    rcases mem with old | new
    · exact keeps.entered (inv.entries request old)
    · -- The entry is appended by a worker that has its candidate queued.
      obtain rfl := Cmd.eq_of_mem_requests new
      obtain ⟨⟨nodeId, queued⟩, capsule⟩ := allowed
      have backed := inv.stages i
      rw [queued] at backed
      exact keeps.entered ⟨backed.1, backed.2.1, backed.2.2, capsule⟩
  · have step := Stage.owes_next allowed (World.exec x c s.world).1 taskId
    rw [Snapshot.after_world, World.exec_count, inv.budget taskId, World.exec_dispatch,
      Snapshot.after_history, Typestate.total_cons]
    simp only [ofTask, List.countP_append, Nat.cast_add] at step ⊢
    have moved : ∀ q, (forestProtocol sha256).next q c (World.exec x c s.world).1 =
        q.next c (World.exec x c s.world).1 := fun _ => rfl
    rw [moved, ← stageOf]
    omega

/-- Time and expiry touch nothing of it. -/
theorem WriteAhead.weather (inv : WriteAhead sha256 s) {w : World} (around : Weather s.world w) :
    WriteAhead sha256 ⟨w, s.history⟩ := by
  have keeps := Keeps.weather around
  have same : w.redis.dispatch = s.world.redis.dispatch ∧ ∀ key,
      w.redis.count key = s.world.redis.count key := by
    cases around <;> exact ⟨rfl, fun _ => rfl⟩
  refine ⟨fun i => keeps.stage (inv.stages i), fun request mem => ?_, fun taskId => ?_⟩
  · rw [same.1] at mem
    exact keeps.entered (inv.entries request mem)
  · rw [same.1, same.2]
    exact inv.budget taskId

end Step

/-- A pack that an executor publishes for a capsule it was sent, or the dispatcher in its place. -/
inductive Answers (request : ExecutionRequest) : VerificationPack → Prop
  | executor (self : Executor) (outcome : TestOutcome) (artifactUri : Option String) :
      Answers request (self.pack request.capsule outcome artifactUri)
  | dispatcher (self : Dispatcher) (message : String) :
      Answers request (self.failedPack request message)

/-- What the memory and the gate look up for a pack is there. -/
def Found (w : World) (pack : VerificationPack) : Prop :=
  (w.redis.hashes pack.capsuleId).isSome ∧ (w.pg.candidates pack.capsuleId).isSome ∧
    (w.pg.executions pack.runId).isSome

/-- The pack that answers a request finds what was written before the request. -/
theorem Entered.found {w : World} {request : ExecutionRequest} (entered : Entered w request)
    {pack : VerificationPack} (answers : Answers request pack) : Found w pack := by
  obtain ⟨h, -, hash, -⟩ := entered.listed
  have exists' : (w.redis.hashes request.candidateId).isSome := by
    rw [hash, Option.isSome_some]
  cases answers with
  | executor self outcome artifactUri =>
    rw [Found, Executor.pack, entered.capsule.1, entered.capsule.2]
    exact ⟨exists', entered.candidate, entered.execution⟩
  | dispatcher self message => exact ⟨exists', entered.candidate, entered.execution⟩

section Runs

variable {ι S : Type} [DecidableEq ι] [LinearOrder S] {grove : Grove ι S}
  {s : State ι Cmd Cmd.Reply PyError World}

/-- Every reachable state of the grove, by induction over the run. -/
theorem Grove.writeAhead (reached : grove.system.Reachable s) :
    WriteAhead grove.sha256 s.toSnapshot := by
  refine System.Reachable.invariant (I := WriteAhead grove.sha256) ?_ ?_ ?_ reached
  · rintro w rfl
    have pristine := pristine_seedAll grove.tasks
    refine ⟨fun _ => trivial, fun request mem => ?_, fun taskId => ?_⟩
    · rw [pristine.dispatch] at mem
      cases mem
    · rw [pristine.dispatch, Redis.count, pristine.counters]
      rfl
  · exact fun s i x c k reached inv issues _ => inv.after (reached.allows grove.follows issues) x
  · exact fun s w _ inv acts => inv.weather acts

/-- Every entry of the dispatch stream names a candidate that is in both stores and in its
parent's children set and an execution that is in the ledger, so that whatever answers it is
found; and the budget counter of its task has an increment for each entry. -/
theorem write_ahead (reached : grove.system.Reachable s) :
    (∀ request ∈ s.world.redis.dispatch, Entered s.world request ∧
      ∀ pack, Answers request pack → Found s.world pack) ∧
    ∀ taskId, (ofTask s.world.redis.dispatch taskId : Int) ≤
      s.world.redis.count (taskBudgetKey taskId) := by
  have inv := grove.writeAhead reached
  refine ⟨fun request mem => ?_, fun taskId => ?_⟩
  · have entered := inv.entries request mem
    exact ⟨entered, fun pack answers => entered.found answers⟩
  · have owed := (forestProtocol grove.sha256).total_nonneg (fun _ : ι => .free) (Stage.owes taskId)
      (fun _ => rfl) (Stage.owes_nonneg taskId) s.history
    have budget := inv.budget taskId
    omega

end Runs

/-! ## A grove of one task -/

namespace SmallSearch

/-- Two workers on the small task. -/
def grove : Grove (Fin 2) Rat where
  sha256 := sha256
  tasks := [task]
  workers := fun i => worker (if i = 0 then "worker_00000001" else "worker_00000002")
  ucb := meanReward

/-- The first worker has expanded the root. -/
def grown : Snapshot (Fin 2) Cmd Cmd.Reply PyError World :=
  ((⟨seedAll [task], []⟩ : Snapshot (Fin 2) Cmd Cmd.Reply PyError World).run World.exec 0
    ((grove.workers 0).expand sha256 task.taskId (rootNodeId task.taskId))
    fun n => { fresh := toString n }).2

end SmallSearch

/-- Both children of the root are dispatched, each with its hash, its row and its increment. -/
theorem write_ahead_grown :
    SmallSearch.grown.world.redis.dispatch.length = 2 ∧
      (∀ request ∈ SmallSearch.grown.world.redis.dispatch,
        Entered SmallSearch.grown.world request) ∧
      ofTask SmallSearch.grown.world.redis.dispatch "task_00000001" ≤
        SmallSearch.grown.world.redis.count (taskBudgetKey "task_00000001") := by
  have start : SmallSearch.grove.system.Reachable
      { (⟨seedAll [SmallSearch.task], []⟩ : Snapshot (Fin 2) Cmd Cmd.Reply PyError World) with
        threads := fun _ => .ret () } :=
    .init _ rfl
  have called : SmallSearch.grove.system.calls 0 ((SmallSearch.grove.workers 0).expand
      SmallSearch.sha256 SmallSearch.task.taskId (rootNodeId SmallSearch.task.taskId)) :=
    Grove.Call.expand SmallSearch.task _ List.mem_cons_self
  have reached := start.call_alone called (fun n => { fresh := toString n })
    (System.allowed_of_forall (fun _ _ _ => trivial) _ _ _) rfl (by decide)
  have ahead := write_ahead reached
  exact ⟨by decide, fun request mem => (ahead.1 request mem).1, ahead.2 _⟩

end KernelOmega
