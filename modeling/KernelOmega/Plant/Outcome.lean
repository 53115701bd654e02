import KernelOmega.Plant.Guards
import KernelOmega.Plant.Small

/-!
# The outcome of a task

Clients take the task statuses `verified`, `budget_exhausted` and `merged` for final. A worker
reports `running` for each candidate it generates, between writing the child and queueing its
execution, and looks at no outcome there; the guard refuses `running` over `merged` only. So
an outcome stays exactly as long as no worker is on its way to such a report when it is
written, and none sets out on one afterwards.
-/

namespace KernelOmega

open Concurrent

/-- The statuses clients wait for. -/
def reportedStatuses : List String := ["verified", "budget_exhausted", "merged"]

/-- Those of them that the guard lets `running` overwrite. -/
def openStatuses : List String := ["verified", "budget_exhausted"]

/-- The task whose child a command writes. -/
def Cmd.childOf : Cmd → Option String
  | .redis (.pipeline (.hset _ child :: _)) => child.treeId
  | _ => none

/-- The task whose status a command sets, and to what. -/
def Cmd.setsTask : Cmd → Option (String × String)
  | .pg (.setTaskStatus taskId status) => some (taskId, status)
  | _ => none

/-- The worker has written a child of the task and will report that the task is running. -/
def Stage.Announces (taskId : String) : Stage → Prop
  | .written _ owner _ => owner = taskId
  | .drawn _ owner _ _ => owner = taskId
  | .recorded _ owner _ _ => owner = taskId
  | _ => False

instance (taskId : String) : (stage : Stage) → Decidable (stage.Announces taskId)
  | .written _ owner _ => inferInstanceAs (Decidable (owner = taskId))
  | .drawn _ owner _ _ => inferInstanceAs (Decidable (owner = taskId))
  | .recorded _ owner _ _ => inferInstanceAs (Decidable (owner = taskId))
  | .free | .live _ | .reserved _ _ | .queued _ _ _ _ | .closing => .isFalse not_false

/-- What a command may not do to an outcome. -/
structure Undisturbed {ι : Type} [DecidableEq ι] (sha256 : Sha256) (roles : ι → Role)
    (s : Snapshot ι Cmd Cmd.Reply PyError World) (i : ι) (c : Cmd) : Prop where
  /-- An update is atomic. -/
  unraced : Unraced s i c
  /-- No child is written for a task with an open outcome. -/
  child : ∀ taskId ∈ c.childOf, ∀ status ∈ s.world.pg.taskStatus taskId, status ∉ openStatuses
  /-- No open outcome is written while a worker is on its way to a report. -/
  outcome : ∀ written ∈ c.setsTask, written.2 ∈ openStatuses →
    ∀ j, (roles j).isWorker = true → ¬ (stageOf sha256 j s.history).Announces written.1

instance {ι : Type} [DecidableEq ι] [Fintype ι] (sha256 : Sha256) (roles : ι → Role)
    (s : Snapshot ι Cmd Cmd.Reply PyError World) (i : ι) (c : Cmd) :
    Decidable (Undisturbed sha256 roles s i c) :=
  decidable_of_iff
    (Unraced s i c ∧
      (∀ taskId ∈ c.childOf, ∀ status ∈ s.world.pg.taskStatus taskId, status ∉ openStatuses) ∧
      ∀ written ∈ c.setsTask, written.2 ∈ openStatuses →
        ∀ j, (roles j).isWorker = true → ¬ (stageOf sha256 j s.history).Announces written.1)
    ⟨fun ⟨unraced, child, outcome⟩ => ⟨unraced, child, outcome⟩,
      fun ⟨unraced, child, outcome⟩ => ⟨unraced, child, outcome⟩⟩

/-- A worker that announces a task did so before, or has just written a child of it. -/
theorem Stage.Announces.of_next {sha256 : Sha256} {stage : Stage} {c : Cmd} {taskId : String}
    (allowed : stage.Allows sha256 c) {reply : Except PyError c.Reply}
    (announces : (stage.next c reply).Announces taskId) :
    stage.Announces taskId ∨ taskId ∈ c.childOf := by
  cases c with
  | redis c =>
    cases reply with
    | error e => cases c <;> exact .inl announces
    | ok v =>
      cases c with
      | incr key =>
        obtain ⟨nodeId, owner, rfl, -⟩ := allowed
        exact announces.elim
      | decr key => exact announces.elim
      | pipeline ops =>
        rcases allowed with ⟨nodeId, owner, rfl, _, child, tree, -, -, rfl⟩ | ⟨rfl, -⟩
        · right
          simp only [Stage.next, Stage.Announces, tree, Option.getD_some] at announces
          rw [Cmd.childOf, tree, announces]
          exact Option.mem_some_self taskId
        · exact announces.elim
      | xaddDispatch request =>
        obtain ⟨⟨nodeId, rfl⟩, -⟩ := allowed
        exact announces.elim
      | _ => exact .inl announces
  | pg c =>
    cases reply with
    | error e => cases c <;> first | exact .inl announces | exact announces.elim
    | ok v =>
      cases c with
      | insertCandidate id row =>
        obtain ⟨⟨nodeId, runId, rfl⟩, -⟩ := allowed
        exact .inl announces
      | insertExecution runId row =>
        obtain ⟨⟨nodeId, rfl⟩, -⟩ := allowed
        exact announces.elim
      | mergeTaskMetadata _ => exact announces.elim
      | _ => exact .inl announces
  | uuid4 =>
    obtain ⟨nodeId, owner, childId, rfl⟩ := allowed
    cases reply <;> exact .inl announces
  | mark m => exact announces.elim
  | time => exact .inl announces
  | _ => exact allowed.elim

section Runs

variable {ι S : Type} [DecidableEq ι] [LinearOrder S] (plant : Plant ι S)

/-- The runs in which outcomes are not disturbed. -/
abbrev Plant.undisturbed : System ι Cmd Cmd.Reply PyError Choice World :=
  plant.systemOf fun s i _ c => Undisturbed plant.sha256 plant.roles s i c

variable {plant} {s t : State ι Cmd Cmd.Reply PyError World}

/-- While a task has an open outcome no worker announces it. -/
theorem Plant.silent (reached : plant.undisturbed.Reachable s) :
    ∀ taskId, ∀ status ∈ s.world.pg.taskStatus taskId, status ∈ openStatuses →
      ∀ j, (plant.roles j).isWorker = true →
        ¬ (stageOf plant.sha256 j s.history).Announces taskId := by
  refine System.Reachable.invariant (I := fun s => ∀ taskId, ∀ status ∈ s.world.pg.taskStatus taskId,
    status ∈ openStatuses → ∀ j, (plant.roles j).isWorker = true →
      ¬ (stageOf plant.sha256 j s.history).Announces taskId) ?_ ?_ ?_ reached
  · exact fun _ _ _ _ _ _ _ _ announces => announces
  · intro s i x c k reached silent issues may taskId status row isOpen j works announces
    have covered := (Plant.guarded_thread reached issues).2
    -- The task had the outcome before, or the command has just written it.
    have quiet : ∀ j, (plant.roles j).isWorker = true →
        ¬ (stageOf plant.sha256 j s.history).Announces taskId := by
      rcases World.exec_pg x c s.world with same | ⟨statement, rfl, after⟩
      · exact silent taskId status (same ▸ row) isOpen
      · rcases Postgres.exec_taskStatus_cases s.world.pg statement taskId with
          same | ⟨new, rfl, written⟩ | ⟨new, rfl, -⟩
        · exact silent taskId status (same ▸ after ▸ row) isOpen
        · have here : some new = some status := written.symm.trans (after ▸ row)
          obtain rfl := Option.some.inj here
          exact may.outcome (taskId, new) rfl isOpen
        · exact covered.elim
    change (stageOf plant.sha256 j (⟨i, c, (World.exec x c s.world).1⟩ :: s.history)).Announces taskId
      at announces
    by_cases same : i = j
    · subst same
      rw [stageOf_own] at announces
      have allowed : (stageOf plant.sha256 i s.history).Allows plant.sha256 c :=
        reached.allowsAt (plant.worker_follows works) issues
      rcases announces.of_next allowed with before | child
      · exact quiet i works before
      · -- It is a child that was just written, so the outcome was not there.
        rcases World.exec_pg x c s.world with same | ⟨statement, rfl, -⟩
        · exact may.child taskId child status (same ▸ row) isOpen
        · cases child
    · rw [stageOf_other plant.sha256 same] at announces
      exact quiet j works announces
  · intro s w _ silent around
    have same : w.pg = s.world.pg := by
      cases around <;> rfl
    rw [same]
    exact silent

/-- A status written over an outcome is an outcome: a worker does not announce a task whose
outcome is open, and the guard keeps `running` off the other one. -/
theorem Plant.reported_of_written (reached : plant.undisturbed.Reachable s) {i : ι}
    {taskId old new : String} {k : Except PyError Unit → Daemon Unit}
    (issues : s.threads i = .cmd (.pg (.setTaskStatus taskId new)) k)
    (covered : (plant.roles i).vocabulary.Covers (.pg (.setTaskStatus taskId new)))
    (guard : canTransitionTaskStatus (some old) new = true)
    (row : s.world.pg.taskStatus taskId = some old) (reported : old ∈ reportedStatuses) :
    new ∈ reportedStatuses := by
  cases role : plant.roles i with
  | worker self own =>
    have works : (plant.roles i).isWorker = true := by
      rw [role]
      rfl
    have allowed : (stageOf plant.sha256 i s.history).Allows plant.sha256
        (.pg (.setTaskStatus taskId new)) :=
      reached.allowsAt (plant.worker_follows works) issues
    rcases allowed with ⟨rfl, nodeId, childId, runId, recorded⟩ | ⟨rfl, -⟩
    · have announces : (stageOf plant.sha256 i s.history).Announces taskId := by
        rw [recorded]
        rfl
      have closed : old ∉ openStatuses := fun isOpen =>
        Plant.silent reached taskId old row isOpen i works announces
      simp only [reportedStatuses, openStatuses, List.mem_cons, List.not_mem_nil, or_false,
        not_or] at reported closed
      obtain rfl : old = "merged" := (reported.resolve_left closed.1).resolve_left closed.2
      exact absurd guard (by decide)
    · decide
  | memory =>
    rw [role] at covered
    obtain rfl := List.mem_singleton.mp covered
    decide
  | merger =>
    rw [role] at covered
    obtain rfl := List.mem_singleton.mp covered
    decide
  | dispatcher _ | executor _ _ | hypervisor _ _ _ | gate _ =>
    rw [role] at covered
    cases covered

/-- A reported outcome stays one: no task goes back to `seeded` or `running`. -/
theorem outcome_stays (reached : plant.undisturbed.Reachable s) (later : plant.undisturbed.Later s t)
    {taskId status : String} (row : s.world.pg.taskStatus taskId = some status)
    (reported : status ∈ reportedStatuses) :
    t.world.pg.taskStatus taskId ≠ some "seeded" ∧ t.world.pg.taskStatus taskId ≠ some "running" := by
  have stays : ∃ new ∈ t.world.pg.taskStatus taskId, new ∈ reportedStatuses := by
    refine reached.always (P := fun s => ∃ new ∈ s.world.pg.taskStatus taskId,
      new ∈ reportedStatuses) ?_ ?_ later ⟨status, row, reported⟩
    · rintro s i x c k reached ⟨old, row, reported⟩ issues may
      obtain ⟨allowed, covered⟩ := Plant.guarded_thread reached issues
      show ∃ new ∈ (World.exec x c s.world).2.pg.taskStatus taskId, new ∈ reportedStatuses
      rcases World.exec_pg x c s.world with same | ⟨statement, rfl, after⟩
      · rw [same]
        exact ⟨old, row, reported⟩
      · rw [after]
        rcases Postgres.exec_taskStatus_cases s.world.pg statement taskId with
          same | ⟨new, rfl, written⟩ | ⟨new, rfl, -⟩
        · rw [same]
          exact ⟨old, row, reported⟩
        · refine ⟨new, written, ?_⟩
          have respects := respects_of_unraced allowed may.unraced fun records => absurd trivial records
          exact Plant.reported_of_written reached issues covered (respects old row) row reported
        · exact covered.elim
    · rintro s w _ kept around
      have same : w.pg = s.world.pg := by
        cases around <;> rfl
      rw [same]
      exact kept
  obtain ⟨new, row', reported'⟩ := stays
  rw [row']
  constructor
  · rintro ⟨⟩
    exact absurd reported' (by decide)
  · rintro ⟨⟩
    exact absurd reported' (by decide)

end Runs

/-! ## A verified task -/

namespace SmallPlant

/-- The root is expanded, its first candidate passes, and the memory reports it. -/
def verified : List Beat :=
  starts 0 38 { fresh := "0" } ++ starts 2 18 ++ starts 3 5 passing ++ starts 4 14

/-- The candidate is accepted and merged. -/
def merging : List Beat := starts 5 9 ++ starts 6 9

/-- The first candidate passes and is reported before the worker has come to the second. -/
def verifiedEarly : List Beat :=
  starts 0 22 { fresh := "0" } ++ starts 2 10 ++ starts 3 5 passing ++ starts 4 13

/-- The worker goes on with the second candidate. -/
def secondCandidate : List Beat := goesOn 0 7 { fresh := "1" }

end SmallPlant

open SmallPlant in
/-- The task is reported as verified after the worker has gone through its candidates, and a merge
follows. -/
theorem outcome_stays_verified :
    (after (verified ++ merging)).world.pg.taskStatus "task_00000001" ≠ some "seeded" ∧
      (after (verified ++ merging)).world.pg.taskStatus "task_00000001" ≠ some "running" := by
  have run : plant.undisturbed.PermitsAll still (verified.map Beat.move) ∧
      plant.undisturbed.PermitsAll (after verified) (merging.map Beat.move) ∧
      (after verified).world.pg.taskStatus "task_00000001" = some "verified" := by
    decide +kernel
  obtain ⟨first, second, row⟩ := run
  exact outcome_stays (reachable_after first) (later_after second) row (by decide)

open SmallPlant in
/-- The first candidate is reported before the worker comes to the second, for which it writes
`running` again. -/
theorem not_outcome_stays :
    ¬ ∀ s t, atomic.Reachable s → atomic.Later s t → ∀ taskId status,
      s.world.pg.taskStatus taskId = some status → status ∈ reportedStatuses →
        t.world.pg.taskStatus taskId ≠ some "seeded" ∧
          t.world.pg.taskStatus taskId ≠ some "running" := by
  intro stays
  have run : atomic.PermitsAll still (verifiedEarly.map Beat.move) ∧
      atomic.PermitsAll (after verifiedEarly) (secondCandidate.map Beat.move) ∧
      (after verifiedEarly).world.pg.taskStatus "task_00000001" = some "verified" ∧
      (after (verifiedEarly ++ secondCandidate)).world.pg.taskStatus "task_00000001" =
        some "running" := by
    decide +kernel
  obtain ⟨first, second, row, back⟩ := run
  exact (stays _ _ (reachable_after first) (later_after second) _ _ row (by decide)).2 back

end KernelOmega
