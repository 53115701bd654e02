import KernelOmega.Store.World
import Mathlib

/-!
# The status order of the ledger

`can_transition_task_status` and `can_transition_candidate_status` say which status may
follow which. `StatusOrder` compares two ledgers by them: every row of the first is in the
second, with a status the guard allows from the first one's. Only four statements write a
status column, two guarded ones and two upserts, and a statement keeps the order exactly
when the status it writes over an existing row is allowed there.

From this follows what a sequence of complete store calls does to the order. The two
update methods check what they write; `record_task` and `record_candidate` do not, so the
order survives exactly when no record call meets a row it may not overwrite.
-/

namespace KernelOmega

open Concurrent

namespace Postgres

/-- The status of a task, if it has a row, -/
def taskStatus (p : Postgres) (taskId : String) : Option String := (p.tasks taskId).map (·.status)

/-- and that of a candidate. -/
def candidateStatus (p : Postgres) (candidateId : String) : Option String :=
  (p.candidates candidateId).map (·.status)

end Postgres

/-- The task status a statement leaves over `old`. -/
def PgCmd.taskStatusOver (c : PgCmd) (taskId old : String) : String :=
  match c with
  | .setTaskStatus id status => if id = taskId then status else old
  | .insertTask id row => if id = taskId then row.status else old
  | _ => old

/-- The candidate status a statement leaves over `old`. -/
def PgCmd.candidateStatusOver (c : PgCmd) (candidateId old : String) : String :=
  match c with
  | .setCandidateStatus id status => if id = candidateId then status else old
  | .insertCandidate id row => if id = candidateId then row.status else old
  | _ => old

namespace Postgres

theorem exec_fetchTaskStatus (p : Postgres) (taskId : String) :
    p.exec (.fetchTaskStatus taskId) = (.ok (p.taskStatus taskId), p) := rfl

theorem exec_fetchCandidateStatus (p : Postgres) (candidateId : String) :
    p.exec (.fetchCandidateStatus candidateId) = (.ok (p.candidateStatus candidateId), p) := rfl

theorem exec_setTaskStatus_reply (p : Postgres) (taskId status : String) :
    (p.exec (.setTaskStatus taskId status)).1 = .ok () := by
  simp only [exec]
  split <;> rfl

theorem exec_setCandidateStatus_reply (p : Postgres) (candidateId status : String) :
    (p.exec (.setCandidateStatus candidateId status)).1 = .ok () := by
  simp only [exec]
  split <;> rfl

theorem taskStatus_putTask (p : Postgres) (id : String) (row : TaskRow) (taskId : String) :
    (p.putTask id row).taskStatus taskId =
      if id = taskId then some row.status else p.taskStatus taskId := by
  unfold taskStatus putTask
  by_cases same : id = taskId
  · subst same
    simp only [Function.update_self, Option.map_some, ↓reduceIte]
  · simp only [Function.update_of_ne (Ne.symm same), same, ↓reduceIte]

theorem candidateStatus_putCandidate (p : Postgres) (id : String) (row : CandidateRow)
    (candidateId : String) : (p.putCandidate id row).candidateStatus candidateId =
      if id = candidateId then some row.status else p.candidateStatus candidateId := by
  unfold candidateStatus putCandidate
  by_cases same : id = candidateId
  · subst same
    simp only [Function.update_self, Option.map_some, ↓reduceIte]
  · simp only [Function.update_of_ne (Ne.symm same), same, ↓reduceIte]

/-- A statement removes no task row and leaves the status it is to leave. -/
theorem exec_taskStatus {p : Postgres} {taskId old : String} (row : p.taskStatus taskId = some old)
    (c : PgCmd) : (p.exec c).2.taskStatus taskId = some (c.taskStatusOver taskId old) := by
  cases c with
  | setTaskStatus id status =>
    simp only [exec, PgCmd.taskStatusOver]
    split
    · rw [taskStatus_putTask]
      split <;> first | rfl | exact row
    · next missing =>
      have other : id ≠ taskId := by
        rintro rfl
        simp only [taskStatus, missing, Option.map_none, reduceCtorEq] at row
      rw [if_neg other]
      exact row
  | insertTask id new =>
    simp only [exec, PgCmd.taskStatusOver, taskStatus_putTask]
    split <;> first | rfl | exact row
  | setCandidateStatus id status =>
    simp only [exec, PgCmd.taskStatusOver]
    split <;> exact row
  | insertCandidate id new =>
    simp only [exec, PgCmd.taskStatusOver]
    split
    · exact row
    · split <;> exact row
  | insertExecution runId new =>
    simp only [exec, PgCmd.taskStatusOver]
    split
    · exact row
    · split <;> exact row
  | markExecutionStarted runId =>
    simp only [exec, PgCmd.taskStatusOver]
    split <;> exact row
  | completeExecution pack =>
    simp only [exec, PgCmd.taskStatusOver]
    split <;> exact row
  | recordPolicyDecision id new =>
    simp only [exec, PgCmd.taskStatusOver]
    split <;> exact row
  | _ => exact row

/-- A statement removes no candidate row and leaves the status it is to leave. -/
theorem exec_candidateStatus {p : Postgres} {candidateId old : String}
    (row : p.candidateStatus candidateId = some old) (c : PgCmd) :
    (p.exec c).2.candidateStatus candidateId = some (c.candidateStatusOver candidateId old) := by
  cases c with
  | setCandidateStatus id status =>
    simp only [exec, PgCmd.candidateStatusOver]
    split
    · rw [candidateStatus_putCandidate]
      split <;> first | rfl | exact row
    · next missing =>
      have other : id ≠ candidateId := by
        rintro rfl
        simp only [candidateStatus, missing, Option.map_none, reduceCtorEq] at row
      rw [if_neg other]
      exact row
  | insertCandidate id new =>
    simp only [exec, PgCmd.candidateStatusOver]
    split
    · rw [candidateStatus_putCandidate]
      split <;> first | rfl | exact row
    · next missing =>
      have other : id ≠ candidateId := by
        rintro rfl
        simp only [candidateStatus, missing, Option.map_none, reduceCtorEq] at row
      rw [if_neg other]
      split
      · rw [candidateStatus_putCandidate, if_neg other]
        exact row
      · exact row
  | setTaskStatus id status =>
    simp only [exec, PgCmd.candidateStatusOver]
    split <;> exact row
  | insertExecution runId new =>
    simp only [exec, PgCmd.candidateStatusOver]
    split
    · exact row
    · split <;> exact row
  | markExecutionStarted runId =>
    simp only [exec, PgCmd.candidateStatusOver]
    split <;> exact row
  | completeExecution pack =>
    simp only [exec, PgCmd.candidateStatusOver]
    split <;> exact row
  | recordPolicyDecision id new =>
    simp only [exec, PgCmd.candidateStatusOver]
    split <;> exact row
  | _ => exact row

/-- What a statement can do to a task's status. -/
theorem exec_taskStatus_cases (p : Postgres) (c : PgCmd) (taskId : String) :
    (p.exec c).2.taskStatus taskId = p.taskStatus taskId ∨
      (∃ status, c = .setTaskStatus taskId status ∧ (p.exec c).2.taskStatus taskId = some status) ∨
      ∃ row, c = .insertTask taskId row ∧ (p.exec c).2.taskStatus taskId = some row.status := by
  cases c with
  | setTaskStatus id status =>
    simp only [exec]
    split
    · rw [taskStatus_putTask]
      split
      · next same => exact .inr (.inl ⟨status, same ▸ rfl, rfl⟩)
      · exact .inl rfl
    · exact .inl rfl
  | insertTask id row =>
    simp only [exec, taskStatus_putTask]
    split
    · next same => exact .inr (.inr ⟨row, same ▸ rfl, rfl⟩)
    · exact .inl rfl
  | setCandidateStatus _ _ | markExecutionStarted _ | completeExecution _
  | recordPolicyDecision _ _ =>
    simp only [exec]
    split <;> exact .inl rfl
  | insertCandidate _ _ | insertExecution _ _ =>
    simp only [exec]
    split
    · exact .inl rfl
    · split <;> exact .inl rfl
  | _ => exact .inl rfl

/-- What a statement can do to a candidate's status. -/
theorem exec_candidateStatus_cases (p : Postgres) (c : PgCmd) (candidateId : String) :
    (p.exec c).2.candidateStatus candidateId = p.candidateStatus candidateId ∨
      (∃ status, c = .setCandidateStatus candidateId status ∧
        (p.exec c).2.candidateStatus candidateId = some status) ∨
      ∃ row, c = .insertCandidate candidateId row ∧
        (p.exec c).2.candidateStatus candidateId = some row.status := by
  cases c with
  | setCandidateStatus id status =>
    simp only [exec]
    split
    · rw [candidateStatus_putCandidate]
      split
      · next same => exact .inr (.inl ⟨status, same ▸ rfl, rfl⟩)
      · exact .inl rfl
    · exact .inl rfl
  | insertCandidate id row =>
    simp only [exec]
    split
    · rw [candidateStatus_putCandidate]
      split
      · next same => exact .inr (.inr ⟨row, same ▸ rfl, rfl⟩)
      · exact .inl rfl
    · split
      · rw [candidateStatus_putCandidate]
        split
        · next same => exact .inr (.inr ⟨row, same ▸ rfl, rfl⟩)
        · exact .inl rfl
      · exact .inl rfl
  | setTaskStatus _ _ | markExecutionStarted _ | completeExecution _ | recordPolicyDecision _ _ =>
    simp only [exec]
    split <;> exact .inl rfl
  | insertExecution _ _ =>
    simp only [exec]
    split
    · exact .inl rfl
    · split <;> exact .inl rfl
  | _ => exact .inl rfl

/-- A statement removes no execution row. -/
theorem exec_executions {p : Postgres} {runId : String} (row : (p.executions runId).isSome)
    (c : PgCmd) : ((p.exec c).2.executions runId).isSome := by
  have put : ∀ id new, ((p.putExecution id new).executions runId).isSome := by
    intro id new
    simp only [putExecution, Function.update_apply]
    split
    · rfl
    · exact row
  cases c with
  | insertExecution id new =>
    simp only [exec]
    split
    · exact put _ _
    · split
      · exact put _ _
      · exact row
  | markExecutionStarted id =>
    simp only [exec]
    split
    · exact put _ _
    · exact row
  | completeExecution pack =>
    simp only [exec]
    split
    · exact put _ _
    · exact row
  | setTaskStatus _ _ =>
    simp only [exec]
    split <;> exact row
  | setCandidateStatus _ _ =>
    simp only [exec]
    split <;> exact row
  | insertCandidate _ _ =>
    simp only [exec]
    split
    · exact row
    · split <;> exact row
  | recordPolicyDecision _ _ =>
    simp only [exec]
    split <;> exact row
  | _ => exact row

/-- A statement removes no candidate row. -/
theorem exec_candidates {p : Postgres} {candidateId : String}
    (row : (p.candidates candidateId).isSome) (c : PgCmd) :
    ((p.exec c).2.candidates candidateId).isSome := by
  obtain ⟨old, found⟩ := Option.isSome_iff_exists.mp row
  have status : p.candidateStatus candidateId = some old.status := by
    rw [candidateStatus, found, Option.map_some]
  have later := exec_candidateStatus status c
  rw [candidateStatus] at later
  obtain ⟨new, found', -⟩ := Option.map_eq_some_iff.mp later
  rw [found', Option.isSome_some]

/-- A statement removes no task row. -/
theorem exec_tasks {p : Postgres} {taskId : String} (row : (p.tasks taskId).isSome) (c : PgCmd) :
    ((p.exec c).2.tasks taskId).isSome := by
  obtain ⟨old, found⟩ := Option.isSome_iff_exists.mp row
  have status : p.taskStatus taskId = some old.status := by
    rw [taskStatus, found, Option.map_some]
  have later := exec_taskStatus status c
  rw [taskStatus] at later
  obtain ⟨new, found', -⟩ := Option.map_eq_some_iff.mp later
  rw [found', Option.isSome_some]

/-- An insert that is not refused leaves its row there. -/
theorem candidates_of_insertCandidate {p : Postgres} {id : String} {row : CandidateRow}
    (stored : (p.exec (.insertCandidate id row)).1 = .ok ()) :
    ((p.exec (.insertCandidate id row)).2.candidates id).isSome := by
  have put : ∀ new, ((p.putCandidate id new).candidates id).isSome := fun _ => by
    simp only [putCandidate, Function.update_self, Option.isSome_some]
  simp only [exec] at stored ⊢
  split at stored
  · exact put _
  · split at stored
    · next known =>
      rw [if_pos known]
      exact put _
    · cases stored

/-- After an insert that went through the row is there. -/
theorem executions_of_insertExecution {p : Postgres} {runId : String} {row : ExecutionRow}
    (stored : (p.exec (.insertExecution runId row)).1 = .ok ()) :
    ((p.exec (.insertExecution runId row)).2.executions runId).isSome := by
  have put : ∀ new, ((p.putExecution runId new).executions runId).isSome := fun _ => by
    simp only [putExecution, Function.update_self, Option.isSome_some]
  simp only [exec] at stored ⊢
  split at stored
  · exact put _
  · split at stored
    · next known =>
      rw [if_pos known]
      exact put _
    · cases stored

end Postgres

/-! ## The order -/

theorem canTransitionTaskStatus_self (status : String) :
    canTransitionTaskStatus (some status) status = true := by
  simp only [canTransitionTaskStatus, or_true, ↓reduceIte]

theorem canTransitionCandidateStatus_self (status : String) :
    canTransitionCandidateStatus (some status) status = true := by
  simp only [canTransitionCandidateStatus, or_true, ↓reduceIte]

/-- The candidate statuses nothing may follow. -/
def finalCandidateStatuses : List String :=
  ["merged", "rejected_policy", "failed", "dispatch_failed", "merge_failed"]

theorem eq_of_canTransition_of_final {status new : String} (final : status ∈ finalCandidateStatuses)
    (allowed : canTransitionCandidateStatus (some status) new = true) : new = status := by
  by_contra other
  simp only [finalCandidateStatuses, List.mem_cons, List.not_mem_nil, or_false] at final
  rcases final with rfl | rfl | rfl | rfl | rfl <;>
    simp [canTransitionCandidateStatus, other, Ne.symm other] at allowed

theorem eq_merged_of_canTransition {new : String}
    (allowed : canTransitionTaskStatus (some "merged") new = true) : new = "merged" := by
  by_contra other
  simp [canTransitionTaskStatus, other, Ne.symm other] at allowed

/-- Every row of `p` is in `p'`, with a status that may follow the one it had. -/
structure StatusOrder (p p' : Postgres) : Prop where
  tasks : ∀ id old, p.taskStatus id = some old →
    ∃ new, p'.taskStatus id = some new ∧ canTransitionTaskStatus (some old) new = true
  candidates : ∀ id old, p.candidateStatus id = some old →
    ∃ new, p'.candidateStatus id = some new ∧ canTransitionCandidateStatus (some old) new = true

namespace StatusOrder

variable {p p' p'' : Postgres}

theorem refl (p : Postgres) : StatusOrder p p :=
  ⟨fun _ old row => ⟨old, row, canTransitionTaskStatus_self old⟩,
    fun _ old row => ⟨old, row, canTransitionCandidateStatus_self old⟩⟩

/-- A final status is there afterwards as well. -/
theorem final (order : StatusOrder p p') {id status : String}
    (final : status ∈ finalCandidateStatuses) (row : p.candidateStatus id = some status) :
    p'.candidateStatus id = some status := by
  obtain ⟨new, row', allowed⟩ := order.candidates id status row
  rw [row', eq_of_canTransition_of_final final allowed]

theorem merged (order : StatusOrder p p') {id : String}
    (row : p.taskStatus id = some "merged") : p'.taskStatus id = some "merged" := by
  obtain ⟨new, row', allowed⟩ := order.tasks id "merged" row
  rw [row', eq_merged_of_canTransition allowed]

end StatusOrder

/-- What a statement writes over an existing row is allowed there. -/
def PgCmd.Respects (p : Postgres) : PgCmd → Prop
  | .setTaskStatus id status =>
    ∀ old, p.taskStatus id = some old → canTransitionTaskStatus (some old) status = true
  | .insertTask id row =>
    ∀ old, p.taskStatus id = some old → canTransitionTaskStatus (some old) row.status = true
  | .setCandidateStatus id status =>
    ∀ old, p.candidateStatus id = some old → canTransitionCandidateStatus (some old) status = true
  | .insertCandidate id row =>
    ∀ old, p.candidateStatus id = some old → canTransitionCandidateStatus (some old) row.status = true
  | _ => True

instance (p : Postgres) : (c : PgCmd) → Decidable (c.Respects p)
  | .setTaskStatus id status =>
    inferInstanceAs (Decidable (∀ old ∈ p.taskStatus id,
      canTransitionTaskStatus (some old) status = true))
  | .insertTask id row =>
    inferInstanceAs (Decidable (∀ old ∈ p.taskStatus id,
      canTransitionTaskStatus (some old) row.status = true))
  | .setCandidateStatus id status =>
    inferInstanceAs (Decidable (∀ old ∈ p.candidateStatus id,
      canTransitionCandidateStatus (some old) status = true))
  | .insertCandidate id row =>
    inferInstanceAs (Decidable (∀ old ∈ p.candidateStatus id,
      canTransitionCandidateStatus (some old) row.status = true))
  | .fetchTaskStatus _ | .mergeTaskMetadata _ | .fetchCandidateStatus _ | .mergeCandidateMetadata _
  | .insertExecution _ _ | .markExecutionStarted _ | .mergeExecutionMeta _ | .completeExecution _
  | .recordPolicyDecision _ _ => .isTrue trivial

/-- A statement that respects the ledger keeps its order. -/
theorem StatusOrder.exec {p : Postgres} {c : PgCmd} (respects : c.Respects p) :
    StatusOrder p (p.exec c).2 := by
  constructor
  · intro id old row
    refine ⟨_, Postgres.exec_taskStatus row c, ?_⟩
    cases c with
    | setTaskStatus id' status =>
      simp only [PgCmd.taskStatusOver]
      split
      · next same => exact respects old (same ▸ row)
      · exact canTransitionTaskStatus_self old
    | insertTask id' new =>
      simp only [PgCmd.taskStatusOver]
      split
      · next same => exact respects old (same ▸ row)
      · exact canTransitionTaskStatus_self old
    | _ => exact canTransitionTaskStatus_self old
  · intro id old row
    refine ⟨_, Postgres.exec_candidateStatus row c, ?_⟩
    cases c with
    | setCandidateStatus id' status =>
      simp only [PgCmd.candidateStatusOver]
      split
      · next same => exact respects old (same ▸ row)
      · exact canTransitionCandidateStatus_self old
    | insertCandidate id' new =>
      simp only [PgCmd.candidateStatusOver]
      split
      · next same => exact respects old (same ▸ row)
      · exact canTransitionCandidateStatus_self old
    | _ => exact canTransitionCandidateStatus_self old

/-- A command keeps the order when the statement it is, if it is one, respects the ledger. -/
theorem StatusOrder.world {c : Cmd} {w : World}
    (respects : ∀ statement, c = .pg statement → statement.Respects w.pg) (x : Choice) :
    StatusOrder w.pg (World.exec x c w).2.pg := by
  rcases World.exec_pg x c w with same | ⟨statement, rfl, after⟩
  · rw [same]
    exact .refl w.pg
  · rw [after]
    exact .exec (respects statement rfl)

/-- And only such a statement does. -/
theorem PgCmd.respects_of_order {p : Postgres} {c : PgCmd} (order : StatusOrder p (p.exec c).2) :
    c.Respects p := by
  cases c with
  | setTaskStatus id status =>
    intro old row
    obtain ⟨new, row', allowed⟩ := order.tasks id old row
    rw [Postgres.exec_taskStatus row] at row'
    simp only [PgCmd.taskStatusOver, ↓reduceIte, Option.some.injEq] at row'
    exact row' ▸ allowed
  | insertTask id new =>
    intro old row
    obtain ⟨status, row', allowed⟩ := order.tasks id old row
    rw [Postgres.exec_taskStatus row] at row'
    simp only [PgCmd.taskStatusOver, ↓reduceIte, Option.some.injEq] at row'
    exact row' ▸ allowed
  | setCandidateStatus id status =>
    intro old row
    obtain ⟨new, row', allowed⟩ := order.candidates id old row
    rw [Postgres.exec_candidateStatus row] at row'
    simp only [PgCmd.candidateStatusOver, ↓reduceIte, Option.some.injEq] at row'
    exact row' ▸ allowed
  | insertCandidate id new =>
    intro old row
    obtain ⟨status, row', allowed⟩ := order.candidates id old row
    rw [Postgres.exec_candidateStatus row] at row'
    simp only [PgCmd.candidateStatusOver, ↓reduceIte, Option.some.injEq] at row'
    exact row' ▸ allowed
  | _ => trivial

end KernelOmega
