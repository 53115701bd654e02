import KernelOmega.Ledger.Order
import KernelOmega.Plant.Seeding
import KernelOmega.Search.System
import Mathlib

/-!
# Seeding among workers

`fix_tests` publishes a task in four commands over two stores: the index entry, the root's
hash, the tasks row, the candidates row of the root. A worker that comes in between finds a
root to expand before the ledger knows the task. `Stage.Grounded` is what a worker has to
have of the ledger at each stage of a candidate. It has it throughout when the tasks row is
there at the reservation of the candidate, since nobody deletes a row.
-/

namespace KernelOmega

open Concurrent

/-- A process that seeds a task, or works on the indexed tasks or on one of its own. -/
inductive Process where
  | seeder (task : SeedTask)
  | worker (self : ForestWorker) (own : Option String)

/-- Processes over stores that are empty at first. -/
structure Publication (ι S : Type) where
  sha256 : Sha256
  ucb : UcbScore S
  processes : ι → Process

/-- A candidate of a task is reserved only when the task's row is there. -/
def RecordedFirst (p : Postgres) (c : Cmd) : Prop :=
  ∀ taskId, c = .redis (.incr (taskBudgetKey taskId)) → (p.tasks taskId).isSome

/-- The task whose budget a key counts. -/
def budgetTask (key : String) : String :=
  String.ofList ((key.toList.drop 11).take (key.toList.length - 30))

theorem budgetTask_taskBudgetKey (taskId : String) : budgetTask (taskBudgetKey taskId) = taskId := by
  refine String.toList_inj.mp ?_
  simp [budgetTask, taskBudgetKey]

instance (p : Postgres) : (c : Cmd) → Decidable (RecordedFirst p c)
  | .redis (.incr key) =>
    decidable_of_iff (taskBudgetKey (budgetTask key) = key → (p.tasks (budgetTask key)).isSome) <| by
      constructor
      · intro first taskId same
        obtain rfl : key = taskBudgetKey taskId := RedisCmd.incr.inj (Cmd.redis.inj same)
        rw [budgetTask_taskBudgetKey] at first
        exact first rfl
      · intro first same
        exact first _ (congrArg (fun key => Cmd.redis (.incr key)) same.symm)
  | .redis (.hgetall _) | .redis (.hset _ _) | .redis (.smembers _) | .redis (.sadd _ _)
  | .redis (.get _) | .redis (.existsKey _) | .redis (.set _ _ _ _) | .redis (.delete _)
  | .redis (.decr _) | .redis (.getCounter _) | .redis (.xaddDispatch _) | .redis (.xaddResult _)
  | .redis (.xreadgroupDispatch _ _) | .redis (.xreadgroupResults _ _)
  | .redis (.xreadgroupAccepted _ _) | .redis (.pipeline _) | .pg _ | .uuid4 | .time
  | .applyPatch _ | .host _ | .mark _ => .isTrue nofun

namespace Publication

variable {ι S : Type} [LinearOrder S] (pub : Publication ι S)

/-- What a process of the publication runs: a seeder its script, and a worker its turns. -/
inductive Call : Process → Daemon Unit → Prop
  | seed (task : SeedTask) : Call (.seeder task) task.fixTests
  | work (self : ForestWorker) (own : Option String) (fuel : Nat) :
      Call (.worker self own) (self.turn pub.sha256 pub.ucb own fuel)

/-- Seeding and working in any interleaving. -/
def system : System ι Cmd Cmd.Reply PyError Choice World where
  exec := World.exec
  init := fun w => w = {}
  calls := fun i => pub.Call (pub.processes i)
  env := fun s w => Weather s.world w
  may := fun _ _ _ _ => True

/-- The runs in which no worker reserves a candidate of a task before its row is recorded. -/
def recordedFirst : System ι Cmd Cmd.Reply PyError Choice World :=
  { pub.system with may := fun s _ _ c => RecordedFirst s.world.pg c }

instance (s : Snapshot ι Cmd Cmd.Reply PyError World) (i : ι) (x : Choice) (c : Cmd) :
    Decidable (pub.system.may s i x c) :=
  inferInstanceAs (Decidable True)

instance (s : Snapshot ι Cmd Cmd.Reply PyError World) (i : ι) (x : Choice) (c : Cmd) :
    Decidable (pub.recordedFirst.may s i x c) :=
  inferInstanceAs (Decidable (RecordedFirst s.world.pg c))

/-- Every worker follows the stages of its protocol here, too. -/
theorem worker_follows [DecidableEq ι] {i : ι} {self : ForestWorker} {own : Option String}
    (works : pub.processes i = .worker self own) :
    pub.recordedFirst.FollowsAt i (forestProtocol pub.sha256) .free fun q => q = .free where
  start := rfl
  calls := by
    intro p q called here
    subst here
    have called : pub.Call (.worker self own) p := works ▸ called
    cases called with
    | work _ _ fuel => exact self.turn_keeps pub.ucb own fuel

end Publication

/-- What a worker at a stage has in the ledger. -/
def Stage.Grounded (p : Postgres) : Stage → Prop
  | .reserved _ key => ∀ taskId, key = taskBudgetKey taskId → (p.tasks taskId).isSome
  | .written _ taskId _ => (p.tasks taskId).isSome
  | .drawn _ taskId _ _ => (p.tasks taskId).isSome
  | .recorded _ taskId childId _ => (p.tasks taskId).isSome ∧ (p.candidates childId).isSome
  | .queued _ taskId childId _ => (p.tasks taskId).isSome ∧ (p.candidates childId).isSome
  | _ => True

namespace Stage

variable {p p' : Postgres} {stage : Stage}

/-- A stage that stands on rows stands on them as long as none is removed. -/
theorem Grounded.mono (grounded : stage.Grounded p)
    (tasks : ∀ id, (p.tasks id).isSome → (p'.tasks id).isSome)
    (candidates : ∀ id, (p.candidates id).isSome → (p'.candidates id).isSome) :
    stage.Grounded p' := by
  cases stage with
  | reserved _ key => exact fun taskId same => tasks taskId (grounded taskId same)
  | written _ _ _ => exact tasks _ grounded
  | drawn _ _ _ _ => exact tasks _ grounded
  | recorded _ _ _ _ => exact ⟨tasks _ grounded.1, candidates _ grounded.2⟩
  | queued _ _ _ _ => exact ⟨tasks _ grounded.1, candidates _ grounded.2⟩
  | _ => trivial

/-- No command of anyone takes it away. -/
theorem Grounded.exec {w : World} (grounded : stage.Grounded w.pg) (x : Choice) (c : Cmd) :
    stage.Grounded (World.exec x c w).2.pg := by
  rcases World.exec_pg x c w with same | ⟨statement, -, after⟩
  · rw [same]
    exact grounded
  · rw [after]
    exact grounded.mono (fun _ row => Postgres.exec_tasks row statement)
      fun _ row => Postgres.exec_candidates row statement

/-- A worker that reserves recorded tasks only stays grounded. -/
theorem Grounded.next {sha256 : Sha256} {c : Cmd} {w : World} (grounded : stage.Grounded w.pg)
    (allowed : stage.Allows sha256 c) (first : RecordedFirst w.pg c) (x : Choice) :
    (stage.next c (World.exec x c w).1).Grounded (World.exec x c w).2.pg := by
  have kept := grounded.exec x c
  cases c with
  | redis c =>
    cases reply : (World.exec x (.redis c) w).1 with
    | error e => cases c <;> exact kept
    | ok v =>
      cases c with
      | incr key =>
        obtain ⟨nodeId, owner, rfl, rfl⟩ := allowed
        have row : (Stage.reserved nodeId (taskBudgetKey owner)).Grounded w.pg := by
          intro taskId same
          exact first taskId (congrArg (fun key => Cmd.redis (.incr key)) same)
        exact row.exec x _
      | decr key => trivial
      | pipeline ops =>
        rcases allowed with ⟨nodeId, owner, rfl, candidate, child, tree, -, -, rfl⟩ | ⟨rfl, -⟩
        · simp only [Stage.next, tree, Option.getD_some]
          exact kept owner rfl
        · trivial
      | xaddDispatch request =>
        obtain ⟨⟨nodeId, rfl⟩, -⟩ := allowed
        trivial
      | _ => exact kept
  | pg c =>
    cases reply : (World.exec x (.pg c) w).1 with
    | error e => cases c <;> first | exact kept | trivial
    | ok v =>
      obtain ⟨ok, after⟩ := World.exec_pg_eq_ok reply
      cases c with
      | insertCandidate id row =>
        obtain ⟨⟨nodeId, runId, rfl⟩, -⟩ := allowed
        refine ⟨kept, ?_⟩
        rw [after]
        exact Postgres.candidates_of_insertCandidate ok
      | insertExecution runId row =>
        obtain ⟨⟨nodeId, rfl⟩, -⟩ := allowed
        exact kept
      | mergeTaskMetadata _ => trivial
      | _ => exact kept
  | uuid4 =>
    obtain ⟨nodeId, taskId, childId, rfl⟩ := allowed
    exact kept
  | mark m => trivial
  | time => exact kept
  | _ => exact allowed.elim

end Stage

section Runs

variable {ι S : Type} [DecidableEq ι] [LinearOrder S] {pub : Publication ι S}
  {s : State ι Cmd Cmd.Reply PyError World}

/-- Every worker is grounded at every moment. -/
theorem Publication.grounded (reached : pub.recordedFirst.Reachable s) (i : ι) {self : ForestWorker}
    {own : Option String} (works : pub.processes i = .worker self own) :
    (stageOf pub.sha256 i s.history).Grounded s.world.pg := by
  refine System.Reachable.invariant
    (I := fun s => (stageOf pub.sha256 i s.history).Grounded s.world.pg) ?_ ?_ ?_ reached
  · exact fun _ _ => trivial
  · intro s j x c k reached grounded issues first
    show (stageOf pub.sha256 i (⟨j, c, (World.exec x c s.world).1⟩ :: s.history)).Grounded
      (World.exec x c s.world).2.pg
    by_cases same : j = i
    · subst same
      rw [stageOf_own]
      exact grounded.next (reached.allowsAt (pub.worker_follows works) issues) first x
    · rw [stageOf_other pub.sha256 same]
      exact grounded.exec x c
  · intro s w _ grounded around
    have same : w.pg = s.world.pg := by
      cases around <;> rfl
    rw [same]
    exact grounded

/-- A worker at a statement finds the rows it refers to, so the ledger does not refuse it. -/
theorem recorded_before_used (reached : pub.recordedFirst.Reachable s) {i : ι} {self : ForestWorker}
    {own : Option String} (works : pub.processes i = .worker self own) {statement : PgCmd}
    {k : Except PyError statement.Reply → Daemon Unit}
    (issues : s.threads i = .cmd (.pg statement) k) :
    (∀ id row, statement = .insertCandidate id row → (s.world.pg.tasks row.taskId).isSome) ∧
      (∀ runId row, statement = .insertExecution runId row →
        (s.world.pg.candidates row.candidateId).isSome ∧ (s.world.pg.tasks row.taskId).isSome) ∧
      ∀ table, (s.world.pg.exec statement).1 ≠ .error (.foreignKeyViolation table) := by
  have grounded := Publication.grounded reached i works
  have allowed : (stageOf pub.sha256 i s.history).Allows pub.sha256 (.pg statement) :=
    reached.allowsAt (pub.worker_follows works) issues
  have candidate : ∀ id row, statement = .insertCandidate id row →
      (s.world.pg.tasks row.taskId).isSome := by
    rintro id row rfl
    obtain ⟨⟨nodeId, runId, drawn⟩, -⟩ := allowed
    rw [drawn] at grounded
    exact grounded
  have execution : ∀ runId row, statement = .insertExecution runId row →
      (s.world.pg.candidates row.candidateId).isSome ∧ (s.world.pg.tasks row.taskId).isSome := by
    rintro runId row rfl
    obtain ⟨⟨nodeId, recorded⟩, -⟩ := allowed
    rw [recorded] at grounded
    exact grounded.symm
  refine ⟨candidate, execution, fun table => ?_⟩
  cases statement with
  | insertCandidate id row =>
    simp only [Postgres.exec, candidate id row rfl, ↓reduceIte]
    split <;> (intro same; cases same)
  | insertExecution runId row =>
    simp only [Postgres.exec, execution runId row rfl, Bool.and_self, ↓reduceIte]
    split <;> (intro same; cases same)
  | setTaskStatus _ _ =>
    simp only [Postgres.exec]
    split <;> (intro same; cases same)
  | setCandidateStatus _ _ =>
    simp only [Postgres.exec]
    split <;> (intro same; cases same)
  | markExecutionStarted _ => exact allowed.elim
  | completeExecution _ => exact allowed.elim
  | recordPolicyDecision _ _ => exact allowed.elim
  | _ =>
    intro same
    cases same

end Runs

/-! ## A worker in the middle of a seeding -/

namespace SmallSearch

/-- The small task is seeded by one process; the other works on what is indexed. -/
def publication : Publication (Fin 2) Rat where
  sha256 := sha256
  ucb := meanReward
  processes := fun i => if i = 0 then .seeder task else .worker (worker "worker_00000001") none

def unseeded : State (Fin 2) Cmd Cmd.Reply PyError World where
  world := {}
  history := []
  threads := fun _ => .ret ()

abbrev SeedMove := System.Move (Fin 2) Cmd Cmd.Reply PyError Choice World

/-- The seeding is under way. -/
def seeding (commands : Nat) : List SeedMove :=
  .call 0 task.fixTests ::
    (List.replicate commands ((0 : Fin 2), ({} : Choice))).map fun step => .cmd step.1 step.2

/-- The worker has come to the candidates row of its first candidate. -/
def generating : List SeedMove :=
  .call 1 ((worker "worker_00000001").turn sha256 meanReward none 2) ::
    (List.replicate 14 ((1 : Fin 2), ({ fresh := "0" } : Choice))).map fun step => .cmd step.1 step.2

/-- The row it is about to write. -/
def rowA : CandidateRow where
  taskId := "task_00000001"
  parentId := some "omega:tree:task_00000001:root"
  patchKind := "comparison_swap"
  status := "generated"
  sourceRelpath := "app.py"
  filesTouched := ["app.py"]
  diffSummary := "comparison operator mutation in app.py at depth 1"
  staticScore := 1

end SmallSearch

open SmallSearch in
/-- The seeder records its task before it publishes the root, and the worker's first candidate finds
the row it refers to. -/
theorem recorded_before_used_seeded :
    let s := publication.recordedFirst.schedule unseeded (seeding 4 ++ generating)
    (s.world.pg.tasks "task_00000001").isSome ∧
      ∀ table, (s.world.pg.exec (.insertCandidate idA rowA)).1 ≠ .error (.foreignKeyViolation table) := by
  intro s
  have start : publication.recordedFirst.Reachable unseeded := .init _ rfl
  have permitted : publication.recordedFirst.PermitsAll unseeded (seeding 4 ++ generating) :=
    .append ⟨.seed task, by decide⟩
      ⟨.work (worker "worker_00000001") none 2, by decide⟩
  have reached := start.later permitted.later
  obtain ⟨k, issues⟩ : ∃ k, s.threads 1 = .cmd (.pg (.insertCandidate idA rowA)) k :=
    Prog.eq_cmd_of_head (by decide)
  have used := recorded_before_used (i := 1) reached rfl issues
  exact ⟨used.1 idA rowA rfl, used.2.2⟩

open SmallSearch in
/-- The worker sees the root between the seeder's two commands, and is about to write the row of a
candidate whose task has none. -/
theorem not_recorded_before_used :
    ¬ ∀ s : State (Fin 2) Cmd Cmd.Reply PyError World, publication.system.Reachable s →
      ∀ i self own, publication.processes i = .worker self own → ∀ id row k,
        s.threads i = .cmd (.pg (.insertCandidate id row)) k →
          (s.world.pg.tasks row.taskId).isSome := by
  intro recorded
  have start : publication.system.Reachable unseeded := .init _ rfl
  have permitted : publication.system.PermitsAll unseeded (seeding 2 ++ generating) :=
    .append ⟨.seed task, by decide⟩
      ⟨.work (worker "worker_00000001") none 2, by decide⟩
  have reached := start.later permitted.later
  obtain ⟨k, issues⟩ : ∃ k, (publication.system.schedule unseeded (seeding 2 ++ generating)).threads 1 =
      .cmd (.pg (.insertCandidate idA rowA)) k :=
    Prog.eq_cmd_of_head (by decide)
  have row := recorded _ reached 1 _ none rfl idA rowA k issues
  exact absurd row (by decide)

end KernelOmega
