import KernelOmega.Ledger.Order

/-!
# Sequences of store calls

The calls of `MetadataStore` that write a status, run one after another. The update methods
ask the guard before they write, so they keep the status order on any ledger. The record
methods are upserts that overwrite the status of a row they meet, so what they keep depends
on that row.
-/

namespace KernelOmega

open Concurrent

namespace Daemon

/-- The update of a task status that nothing interrupts. -/
theorem run_updateTaskStatus (taskId status : String) (w : World) :
    (updateTaskStatus taskId status).run World.exec (fun _ => {}) w =
      (.ok (canTransitionTaskStatus (w.pg.taskStatus taskId) status),
        if canTransitionTaskStatus (w.pg.taskStatus taskId) status then
          { w with pg := (w.pg.exec (.setTaskStatus taskId status)).2 }
        else w) := by
  by_cases allowed : canTransitionTaskStatus (w.pg.taskStatus taskId) status = true
  · simp only [updateTaskStatus, pg, Prog.call, Prog.cmd_bind, Prog.ret_bind, Prog.run, World.exec,
      Bool.false_eq_true, ↓reduceIte, Postgres.exec_fetchTaskStatus, allowed,
      Postgres.exec_setTaskStatus_reply, Prog.pure_eq]
  · simp only [updateTaskStatus, pg, Prog.call, Prog.cmd_bind, Prog.ret_bind, Prog.run, World.exec,
      Bool.false_eq_true, ↓reduceIte, Postgres.exec_fetchTaskStatus, allowed, Prog.pure_eq]

/-- The update of a candidate status that nothing interrupts. -/
theorem run_updateCandidateStatus (candidateId status : String) (w : World) :
    (updateCandidateStatus candidateId status).run World.exec (fun _ => {}) w =
      (.ok (canTransitionCandidateStatus (w.pg.candidateStatus candidateId) status),
        if canTransitionCandidateStatus (w.pg.candidateStatus candidateId) status then
          { w with pg := (w.pg.exec (.setCandidateStatus candidateId status)).2 }
        else w) := by
  by_cases allowed : canTransitionCandidateStatus (w.pg.candidateStatus candidateId) status = true
  · simp only [updateCandidateStatus, pg, Prog.call, Prog.cmd_bind, Prog.ret_bind, Prog.run,
      World.exec, Bool.false_eq_true, ↓reduceIte, Postgres.exec_fetchCandidateStatus, allowed,
      Postgres.exec_setCandidateStatus_reply, Prog.pure_eq]
  · simp only [updateCandidateStatus, pg, Prog.call, Prog.cmd_bind, Prog.ret_bind, Prog.run,
      World.exec, Bool.false_eq_true, ↓reduceIte, Postgres.exec_fetchCandidateStatus, allowed,
      Prog.pure_eq]

end Daemon

/-- A call of a store method that writes a status. -/
inductive StoreCall where
  | recordTask (taskId : String) (row : TaskRow)
  | updateTaskStatus (taskId status : String)
  | recordCandidate (candidateId : String) (row : CandidateRow)
  | updateCandidateStatus (candidateId status : String)

namespace StoreCall

/-- The program of a call. A guarded update says whether it has written; its callers here do not
ask. -/
def prog : StoreCall → Daemon Unit
  | .recordTask taskId row => Daemon.pg (.insertTask taskId row)
  | .updateTaskStatus taskId status => do
    let _ ← Daemon.updateTaskStatus taskId status
    return ()
  | .recordCandidate candidateId row => Daemon.pg (.insertCandidate candidateId row)
  | .updateCandidateStatus candidateId status => do
    let _ ← Daemon.updateCandidateStatus candidateId status
    return ()

/-- The world after the complete call. A record call that names no task raises and changes
nothing. -/
def exec (call : StoreCall) (w : World) : World := (call.prog.run World.exec (fun _ => {}) w).2

/-- A record call may overwrite the row it meets. -/
def Respects (p : Postgres) : StoreCall → Prop
  | .recordTask taskId row => (PgCmd.insertTask taskId row).Respects p
  | .recordCandidate candidateId row => (PgCmd.insertCandidate candidateId row).Respects p
  | .updateTaskStatus _ _ => True
  | .updateCandidateStatus _ _ => True

theorem exec_recordTask (taskId : String) (row : TaskRow) (w : World) :
    ((recordTask taskId row).exec w).pg = (w.pg.exec (.insertTask taskId row)).2 := rfl

theorem exec_recordCandidate (candidateId : String) (row : CandidateRow) (w : World) :
    ((recordCandidate candidateId row).exec w).pg =
      (w.pg.exec (.insertCandidate candidateId row)).2 := by
  simp only [exec, prog, Daemon.pg, Prog.call, Prog.run, World.exec, Bool.false_eq_true, ↓reduceIte]
  cases (w.pg.exec (.insertCandidate candidateId row)).1 <;> rfl

/-- A guarded update of a task that nothing interrupts, -/
theorem exec_updateTaskStatus (taskId status : String) (w : World) :
    ((updateTaskStatus taskId status).exec w).pg =
      if canTransitionTaskStatus (w.pg.taskStatus taskId) status then
        (w.pg.exec (.setTaskStatus taskId status)).2
      else w.pg := by
  unfold exec prog
  rw [Prog.run_bind _ (Daemon.run_updateTaskStatus taskId status w)]
  simp only [Prog.pure_eq, Prog.run]
  split <;> rfl

/-- and one of a candidate. -/
theorem exec_updateCandidateStatus (candidateId status : String) (w : World) :
    ((updateCandidateStatus candidateId status).exec w).pg =
      if canTransitionCandidateStatus (w.pg.candidateStatus candidateId) status then
        (w.pg.exec (.setCandidateStatus candidateId status)).2
      else w.pg := by
  unfold exec prog
  rw [Prog.run_bind _ (Daemon.run_updateCandidateStatus candidateId status w)]
  simp only [Prog.pure_eq, Prog.run]
  split <;> rfl

/-- A call keeps the status order exactly when it respects the ledger it is made on. -/
theorem order_iff (call : StoreCall) (w : World) :
    StatusOrder w.pg (call.exec w).pg ↔ call.Respects w.pg := by
  cases call with
  | recordTask taskId row =>
    rw [exec_recordTask]
    exact ⟨PgCmd.respects_of_order, StatusOrder.exec (c := .insertTask taskId row)⟩
  | recordCandidate candidateId row =>
    rw [exec_recordCandidate]
    exact ⟨PgCmd.respects_of_order, StatusOrder.exec (c := .insertCandidate candidateId row)⟩
  | updateTaskStatus taskId status =>
    rw [exec_updateTaskStatus]
    refine iff_of_true ?_ trivial
    split
    · next allowed => exact StatusOrder.exec fun old row => row ▸ allowed
    · exact .refl w.pg
  | updateCandidateStatus candidateId status =>
    rw [exec_updateCandidateStatus]
    refine iff_of_true ?_ trivial
    split
    · next allowed => exact StatusOrder.exec fun old row => row ▸ allowed
    · exact .refl w.pg

end StoreCall

/-- The world after complete, non-overlapping calls. -/
def storeRun (calls : List StoreCall) (w : World) : World :=
  calls.foldl (fun w call => call.exec w) w

theorem storeRun_append (before after : List StoreCall) (w : World) :
    storeRun (before ++ after) w = storeRun after (storeRun before w) :=
  List.foldl_append

/-- Every call of the sequence keeps the status order, and a final candidate status is kept to
the end. -/
structure OrderSurvives (w : World) (calls : List StoreCall) : Prop where
  changes : ∀ before call after, calls = before ++ call :: after →
    StatusOrder (storeRun before w).pg (call.exec (storeRun before w)).pg
  final : ∀ before after, calls = before ++ after → ∀ id status, status ∈ finalCandidateStatuses →
    (storeRun before w).pg.candidateStatus id = some status →
      (storeRun calls w).pg.candidateStatus id = some status

/-- A final status survives calls that keep the order. -/
theorem storeRun_final {calls : List StoreCall} {w : World} {id status : String}
    (final : status ∈ finalCandidateStatuses)
    (keeps : ∀ before call after, calls = before ++ call :: after →
      StatusOrder (storeRun before w).pg (call.exec (storeRun before w)).pg)
    (row : w.pg.candidateStatus id = some status) :
    (storeRun calls w).pg.candidateStatus id = some status := by
  induction calls generalizing w with
  | nil => exact row
  | cons call rest ih =>
    have first : StatusOrder w.pg (call.exec w).pg := keeps [] call rest rfl
    refine ih (fun before call' after split => ?_) (first.final final row)
    exact keeps (call :: before) call' after (split ▸ rfl)

/-- The order survives a sequence of calls exactly when no record call overwrites a row with a
status that may not follow the row's. -/
theorem orderSurvives_iff (w : World) (calls : List StoreCall) :
    OrderSurvives w calls ↔
      ∀ before call after, calls = before ++ call :: after →
        call.Respects (storeRun before w).pg := by
  constructor
  · intro survives before call after split
    exact (call.order_iff _).mp (survives.changes before call after split)
  · intro respects
    have keeps : ∀ before call after, calls = before ++ call :: after →
        StatusOrder (storeRun before w).pg (call.exec (storeRun before w)).pg :=
      fun before call after split => (call.order_iff _).mpr (respects before call after split)
    refine ⟨keeps, fun before after split id status final row => ?_⟩
    subst split
    rw [storeRun_append]
    refine storeRun_final final (fun before' call' after' split' => ?_) row
    rw [← storeRun_append]
    exact keeps (before ++ before') call' after' (by rw [split', List.append_assoc])

/-- A candidate is merged and then recorded a second time, as a repeated expansion of its parent
does. -/
def rerecorded : List StoreCall :=
  let row : CandidateRow :=
    { taskId := "task_00000001", parentId := some "omega:tree:task_00000001:root"
      patchKind := "comparison_swap", status := "generated", sourceRelpath := "app.py"
      filesTouched := ["app.py"], diffSummary := "", staticScore := 1 }
  [.recordTask "task_00000001"
      { repoPath := "/repo", sourcePath := "/repo/app.py", testPath := "/repo/test_app.py"
        status := "seeded" },
    .recordCandidate "c" row,
    .updateCandidateStatus "c" "merged",
    .recordCandidate "c" row]

/-- The second `record_candidate` overwrites `merged` by `generated`. -/
theorem not_orderSurvives : ¬ ∀ (w : World) (calls : List StoreCall), OrderSurvives w calls := by
  intro survives
  have kept := (survives {} rerecorded).final (rerecorded.take 3) (rerecorded.drop 3) rfl "c" "merged"
    (by decide) (by decide)
  exact absurd kept (by decide)

end KernelOmega
