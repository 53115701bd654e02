import KernelOmega.Dispatcher
import KernelOmega.ForestWorker
import KernelOmega.GlobalMemory
import KernelOmega.Ledger.Calls
import KernelOmega.Merger
import KernelOmega.PolicyGate
import Mathlib.Data.Finset.Basic
import Mathlib.Data.List.Permutation

/-!
# The order of the status updates of a candidate

Every candidate has its course: it is queued, its dispatch succeeds or fails, its one
result is remembered and judged, and an accepted candidate is merged or not. Each event
updates the candidate's status, and the events of different daemons happen in any order
that respects causality. The two consumers of the results write a status of their own, and
the guard refuses what may not follow the one that is there.

For a passing result the guard makes the order irrelevant. For a failing result of a
capsule that was sent it does not: both `failed` and `rejected_policy` are final, and the
consumer that comes first decides.
-/

namespace KernelOmega

open Concurrent

/-- What becomes of a candidate. A dispatch that fails publishes a failing pack, the gate
accepts passing packs only, and only an accepted candidate goes to the merger. -/
inductive Course where
  /-- The capsule could not be sent; the dispatcher publishes the result. -/
  | unsent
  /-- The executor's result does not pass. -/
  | failing
  /-- The result passes and the gate turns it down. -/
  | rejected
  /-- The result passes and the gate accepts it; whether the merge succeeds, if the merger takes
  the candidate up. -/
  | accepted (merged : Option Bool)
  deriving DecidableEq

/-- The events of a course that update the candidate's status. -/
inductive StatusStep where
  | queue
  | dispatch
  | remember
  | gate
  | merge
  deriving DecidableEq

namespace Course

variable (course : Course)

/-- The status an event writes. -/
def status : StatusStep → String
  | .queue => "queued"
  | .dispatch => if course = .unsent then "dispatch_failed" else "running"
  | .remember => if course = .unsent ∨ course = .failing then "failed" else "verified"
  | .gate =>
    match course with
    | .accepted _ => "accepted"
    | _ => "rejected_policy"
  | .merge => if course = .accepted (some true) then "merged" else "merge_failed"

/-- The daemons' updates of a candidate in the order the course has them. -/
def steps : List StatusStep :=
  match course with
  | .accepted (some _) => [.queue, .dispatch, .remember, .gate, .merge]
  | _ => [.queue, .dispatch, .remember, .gate]

/-- Causality within a candidate. A failed dispatch publishes the result after its update; the
update after a successful sending may come late, since the executor may already answer. -/
def before : StatusStep → StatusStep → Bool
  | .queue, step => step ≠ .queue
  | .dispatch, .remember => course = .unsent
  | .dispatch, .gate => course = .unsent
  | .gate, .merge => true
  | _, _ => false

/-- An order of the candidate's events that respects causality. -/
def Causal (order : List StatusStep) : Prop :=
  order.Perm course.steps ∧ order.Pairwise fun a b => course.before b a = false

instance (order : List StatusStep) : Decidable (course.Causal order) :=
  inferInstanceAs (Decidable (_ ∧ _))

/-- The status an update leaves. -/
def advance (status new : String) : String :=
  if canTransitionCandidateStatus (some status) new then new else status

/-- The status the events leave when they come in this order. -/
def outcome (order : List StatusStep) : String :=
  order.foldl (fun status step => advance status (course.status step)) "generated"

/-- The status a candidate ends with when no failing result is in the way. -/
def verdict : String :=
  match course with
  | .unsent => "dispatch_failed"
  | .failing => "failed"
  | .rejected => "rejected_policy"
  | .accepted none => "accepted"
  | .accepted (some true) => "merged"
  | .accepted (some false) => "merge_failed"

set_option maxRecDepth 20000 in
/-- Every order of a candidate's events ends in its verdict, unless its capsule was sent and its
result fails. -/
theorem outcome_eq_verdict (passes : course ≠ .failing) {order : List StatusStep}
    (causal : course.Causal order) : course.outcome order = course.verdict := by
  -- The orders of at most five events, one course at a time.
  have all : ∀ order ∈ course.steps.permutations',
      order.Pairwise (fun a b => course.before b a = false) →
        course.outcome order = course.verdict := by
    cases course with
    | unsent => decide
    | failing => exact absurd rfl passes
    | rejected => decide
    | accepted merged =>
      match merged with
      | none => decide
      | some true => decide
      | some false => decide
  exact all order (List.mem_permutations'.mpr causal.1) causal.2

/-- The events in the order in which they are listed. -/
theorem causal_steps : course.Causal course.steps := by
  refine ⟨List.Perm.refl _, ?_⟩
  match course with
  | .unsent => decide
  | .failing => decide
  | .rejected => decide
  | .accepted none => decide
  | .accepted (some true) => decide
  | .accepted (some false) => decide

/-- The gate is first with the result. -/
def gateFirst : List StatusStep := [.queue, .dispatch, .gate, .remember]

/-- A failing result ends in the status of the consumer that is first with it. -/
theorem outcome_failing :
    failing.Causal gateFirst ∧ failing.outcome gateFirst = "rejected_policy" ∧
      failing.outcome failing.steps = "failed" :=
  ⟨⟨by decide, by decide⟩, by decide, by decide⟩

end Course

/-! ## Schedules of many candidates -/

/-- A status update of a candidate. -/
abbrev StatusEvent := String × StatusStep

/-- The events of one candidate, in the order in which they happen. -/
def stepsOf (id : String) (schedule : List StatusEvent) : List StatusStep :=
  (schedule.filter fun e => e.1 = id).map (·.2)

/-- The events of the candidates `ids`, each candidate's in a causal order. -/
structure Schedule (courses : String → Course) (ids : Finset String)
    (schedule : List StatusEvent) : Prop where
  causal : ∀ id ∈ ids, (courses id).Causal (stepsOf id schedule)
  only : ∀ e ∈ schedule, e.1 ∈ ids

/-- The world after the updates of a schedule, one complete call after the other. -/
def runSchedule (courses : String → Course) (schedule : List StatusEvent) (w : World) : World :=
  storeRun (schedule.map fun e => .updateCandidateStatus e.1 ((courses e.1).status e.2)) w

/-- An update advances the status of its own candidate. -/
theorem candidateStatus_update {w : World} {id status : String}
    (row : w.pg.candidateStatus id = some status) (candidateId new : String) :
    ((StoreCall.updateCandidateStatus candidateId new).exec w).pg.candidateStatus id =
      some (if candidateId = id then Course.advance status new else status) := by
  rw [StoreCall.exec_updateCandidateStatus]
  by_cases same : candidateId = id
  · subst same
    rw [row, if_pos rfl, Course.advance]
    split
    · rw [Postgres.exec_candidateStatus row]
      simp only [PgCmd.candidateStatusOver, ↓reduceIte]
    · exact row
  · rw [if_neg same]
    split
    · rw [Postgres.exec_candidateStatus row]
      simp only [PgCmd.candidateStatusOver, same, ↓reduceIte]
    · exact row

/-- A candidate's status depends on its own events only. -/
theorem candidateStatus_runSchedule (courses : String → Course) (schedule : List StatusEvent)
    {w : World} {id status : String} (row : w.pg.candidateStatus id = some status) :
    (runSchedule courses schedule w).pg.candidateStatus id =
      some ((stepsOf id schedule).foldl
        (fun status step => Course.advance status ((courses id).status step)) status) := by
  induction schedule generalizing w status with
  | nil => exact row
  | cons e rest ih =>
    have first := candidateStatus_update row e.1 ((courses e.1).status e.2)
    have later := ih first
    show (runSchedule courses rest _).pg.candidateStatus id = _
    rw [later]
    by_cases same : e.1 = id
    · subst same
      simp only [stepsOf, List.filter_cons, decide_true, ↓reduceIte, List.map_cons, List.foldl_cons]
    · simp only [stepsOf, List.filter_cons, same, decide_false, Bool.false_eq_true, ↓reduceIte]

/-- One candidate after the other, each in an order of its own. -/
def inTurn (order : String → List StatusStep) (ids : List String) : List StatusEvent :=
  ids.flatMap fun id => (order id).map fun step => (id, step)

/-- Of the candidates taken in turn, each has its own steps in its own order. -/
theorem stepsOf_inTurn (order : String → List StatusStep) {ids : List String} (distinct : ids.Nodup)
    {id : String} (mem : id ∈ ids) : stepsOf id (inTurn order ids) = order id := by
  have others : ∀ rest : List String, id ∉ rest → stepsOf id (inTurn order rest) = [] := by
    intro rest missing
    simp only [stepsOf, inTurn, List.map_eq_nil_iff, List.filter_eq_nil_iff, List.mem_flatMap,
      List.mem_map, decide_eq_true_eq]
    rintro e ⟨other, here, step, -, rfl⟩ rfl
    exact missing here
  induction ids with
  | nil => cases mem
  | cons first rest ih =>
    obtain ⟨fresh, distinct⟩ := List.nodup_cons.mp distinct
    have split : stepsOf id (inTurn order (first :: rest)) =
        stepsOf id ((order first).map fun step => (first, step)) ++ stepsOf id (inTurn order rest) := by
      simp only [stepsOf, inTurn, List.flatMap_cons, List.filter_append, List.map_append]
    rw [split]
    by_cases same : first = id
    · subst same
      rw [others rest fresh, List.append_nil]
      simp [stepsOf, List.filter_map, Function.comp_def]
    · have later := (List.mem_cons.mp mem).resolve_left (Ne.symm same)
      rw [ih distinct later]
      simp [stepsOf, List.filter_map, Function.comp_def, same]

/-- Taking the candidates in turn is a schedule, when each one's order is causal. -/
theorem schedule_inTurn (courses : String → Course) (ids : Finset String)
    {order : String → List StatusStep} (causal : ∀ id, (courses id).Causal (order id)) :
    Schedule courses ids (inTurn order ids.toList) where
  causal := by
    intro id mem
    rw [stepsOf_inTurn order ids.nodup_toList (Finset.mem_toList.mpr mem)]
    exact causal id
  only := by
    intro e mem
    obtain ⟨id, here, inside⟩ := List.mem_flatMap.mp mem
    obtain ⟨step, -, rfl⟩ := List.mem_map.mp inside
    exact Finset.mem_toList.mp here

/-! ## The events are the daemons'

Each event is one status update of the daemon whose event it is; whatever else the daemon does
there leaves the candidates alone. -/

/-- The candidates after an update of one status. -/
def statusUpdated (candidates : String → Option CandidateRow) (candidateId status : String) :
    String → Option CandidateRow :=
  match candidates candidateId with
  | some row =>
    if canTransitionCandidateStatus (some row.status) status then
      Function.update candidates candidateId (some { row with status := status })
    else candidates
  | none => candidates

/-- A guarded update, run without a break, on the table of the candidates. -/
theorem exec_updateCandidateStatus_candidates (candidateId status : String) (w : World) :
    ((StoreCall.updateCandidateStatus candidateId status).exec w).pg.candidates =
      statusUpdated w.pg.candidates candidateId status := by
  rw [StoreCall.exec_updateCandidateStatus, statusUpdated, Postgres.candidateStatus]
  cases found : w.pg.candidates candidateId with
  | none =>
    simp only [Option.map_none]
    split
    · simp only [Postgres.exec, found]
    · rfl
  | some row =>
    simp only [Option.map_some]
    split
    · simp only [Postgres.exec, found, Postgres.putCandidate]
    · rfl

/-- A command that leaves the candidates alone. -/
def Cmd.SparesCandidates : Cmd → Prop
  | .pg (.setCandidateStatus _ _) => False
  | .pg (.insertCandidate _ _) => False
  | _ => True

/-- A command that spares the candidates leaves their table as it is. -/
theorem Cmd.SparesCandidates.exec {c : Cmd} (spares : c.SparesCandidates) (x : Choice) (w : World) :
    (World.exec x c w).2.pg.candidates = w.pg.candidates := by
  rcases World.exec_pg x c w with same | ⟨statement, rfl, after⟩
  · rw [same]
  · rw [after]
    cases statement with
    | setCandidateStatus _ _ => exact spares.elim
    | insertCandidate _ _ => exact spares.elim
    | setTaskStatus _ _ =>
      simp only [Postgres.exec]
      split <;> rfl
    | insertExecution _ _ =>
      simp only [Postgres.exec]
      split
      · rfl
      · split <;> rfl
    | markExecutionStarted _ =>
      simp only [Postgres.exec]
      split <;> rfl
    | completeExecution _ =>
      simp only [Postgres.exec]
      split <;> rfl
    | recordPolicyDecision _ _ =>
      simp only [Postgres.exec]
      split <;> rfl
    | _ => rfl

/-- A program that spares the candidates leaves their table as it is, whatever fails on the way. -/
theorem run_candidates {α : Type} {p : Daemon α} (spares : p.Uses Cmd.SparesCandidates)
    (xs : Nat → Choice) (w : World) :
    (p.run World.exec xs w).2.pg.candidates = w.pg.candidates := by
  induction p generalizing xs w with
  | ret a => rfl
  | raise e => rfl
  | cmd c k ih =>
    have later := ih (World.exec (xs 0) c w).1 (spares.2 _) (fun n => xs (n + 1))
      (World.exec (xs 0) c w).2
    exact later.trans (spares.1.exec (xs 0) w)

/-- Run alone, the program updates the status of one candidate, and nothing else of any. -/
def Updates {α : Type} (p : Daemon α) (w : World) (candidateId status : String) : Prop :=
  (p.run World.exec (fun _ => {}) w).2.pg.candidates =
    statusUpdated w.pg.candidates candidateId status

/-- The update comes first, and the rest leaves the candidates alone. -/
theorem Updates.first {α : Type} (candidateId status : String) {f : Bool → Daemon α}
    (rest : ∀ written, (f written).Uses Cmd.SparesCandidates) (w : World) :
    Updates (Daemon.updateCandidateStatus candidateId status >>= f) w candidateId status := by
  unfold Updates
  rw [Prog.run_bind f (Daemon.run_updateCandidateStatus candidateId status w),
    run_candidates (rest _), ← exec_updateCandidateStatus_candidates,
    StoreCall.exec_updateCandidateStatus]
  split <;> rfl

/-- A command that leaves the candidates alone comes before the update. -/
theorem Updates.after {α : Type} {c : Cmd} {f : c.Reply → Daemon α} {w : World}
    (spares : c.SparesCandidates) {v : c.Reply} (reply : (World.exec {} c w).1 = .ok v)
    {candidateId status : String} (rest : Updates (f v) (World.exec {} c w).2 candidateId status) :
    Updates (Prog.call c >>= f) w candidateId status := by
  have returns : (Prog.call c : Daemon c.Reply).run World.exec (fun _ => {}) w =
      (.ok v, (World.exec {} c w).2) := by
    simp only [Prog.call, Prog.run, reply]
  unfold Updates at rest ⊢
  rw [Prog.run_bind f returns, rest, spares.exec]

theorem updateTaskStatus_spares (taskId status : String) :
    (Daemon.updateTaskStatus taskId status).Uses Cmd.SparesCandidates := by
  refine (Prog.uses_call trivial).bind fun current => ?_
  split
  · exact (Prog.uses_call trivial).bind fun _ => trivial
  · trivial

/-- The worker's event. -/
theorem queueExecution_updates (self : ForestWorker) (request : ExecutionRequest) {w : World}
    (recorded : (w.pg.executions request.runId).isSome ∨
      (w.pg.candidates request.candidateId).isSome ∧ (w.pg.tasks request.taskId).isSome) :
    Updates (self.queueExecution request) w request.candidateId "queued" := by
  unfold ForestWorker.queueExecution
  refine Updates.after (v := ()) ?_ ?_ (Updates.first _ _ (fun _ => ?_) _)
  · trivial
  · simp only [World.exec, Bool.false_eq_true, ↓reduceIte, Postgres.exec]
    split
    · rfl
    · next missing =>
      rcases recorded with known | ⟨candidate, task⟩
      · rw [missing] at known
        cases known
      · rw [candidate, task]
        rfl
  · exact Prog.uses_call trivial

/-- The dispatcher's event when the capsule was sent. -/
theorem dispatched_updates (request : ExecutionRequest) (w : World) :
    Updates (Dispatcher.dispatched request) w request.candidateId "running" := by
  unfold Dispatcher.dispatched
  refine Updates.after (v := ()) ?_ ?_ (Updates.after (v := ()) ?_ rfl
    (Updates.first _ _ (fun _ => ?_) _))
  · trivial
  · simp only [World.exec, Bool.false_eq_true, ↓reduceIte, Postgres.exec]
    split <;> rfl
  · trivial
  · trivial

/-- The dispatcher's event when it was not. -/
theorem dispatchFailed_updates (self : Dispatcher) (request : ExecutionRequest) (message : String)
    (w : World) :
    Updates (self.dispatchFailed request message) w request.candidateId "dispatch_failed" := by
  unfold Dispatcher.dispatchFailed
  refine Updates.after ?_ rfl (Updates.first _ _ (fun _ => ?_) _)
  · trivial
  · exact (Prog.uses_call trivial).bind fun _ => Prog.uses_call trivial

/-- The memory's event. -/
theorem settle_updates (taskId : String) (pack : VerificationPack) (w : World) :
    Updates (GlobalMemory.settle taskId pack) w pack.capsuleId
      (if pack.passed then "verified" else "failed") := by
  unfold GlobalMemory.settle
  split
  · refine Updates.first _ _ (fun _ => ?_) w
    exact (updateTaskStatus_spares _ _).bind fun _ => trivial
  · refine Updates.first _ _ (fun _ => ?_) w
    trivial

/-- The gate's event for a candidate it accepts. -/
theorem accept_updates {pack : VerificationPack} {node : NodeHash} {payload : AcceptedPayload}
    (made : PolicyGate.acceptedPayload pack node = .ok payload) (w : World) :
    Updates (PolicyGate.accept pack node) w pack.capsuleId "accepted" := by
  unfold PolicyGate.accept
  rw [made]
  refine Updates.first _ _ (fun _ => ?_) w
  trivial

/-- The gate's event for a candidate it turns down. -/
theorem reject_updates (pack : VerificationPack) (w : World) :
    Updates (PolicyGate.reject pack) w pack.capsuleId "rejected_policy" := by
  unfold PolicyGate.reject
  refine Updates.first _ _ (fun _ => ?_) w
  trivial

/-- The merger's event when the patch was applied. -/
theorem mergeCapsule_updates (payload : AcceptedPayload) (w : World) :
    Updates (Merger.mergeCapsule payload) w payload.capsuleId "merged" := by
  unfold Merger.mergeCapsule
  refine Updates.after (v := ()) ?_ rfl (Updates.first _ _ (fun _ => ?_) _)
  · trivial
  · exact (updateTaskStatus_spares _ _).bind fun _ => Prog.uses_call trivial

/-- The merger's event when it was not. -/
theorem releaseTree_updates (payload : AcceptedPayload) (w : World) :
    Updates (Merger.releaseTree payload) w payload.capsuleId "merge_failed" := by
  unfold Merger.releaseTree
  refine Updates.after (v := ()) ?_ rfl (Updates.first _ _ (fun _ => ?_) _)
  · trivial
  · exact Prog.uses_call trivial

/-- A result that does not pass is turned down by the gate, and the result of a failed dispatch
does not pass: the courses are the code's. -/
theorem failedPack_not_passed (self : Dispatcher) (request : ExecutionRequest) (message : String) :
    (self.failedPack request message).passed = false := rfl

/-! ## Commuting -/

/-- Every two schedules leave every candidate with the same status, exactly when no capsule that
was sent has a failing result. -/
theorem consumers_commute_iff (courses : String → Course) (ids : Finset String) {w : World}
    (recorded : ∀ id ∈ ids, w.pg.candidateStatus id = some "generated") :
    (∀ schedule schedule', Schedule courses ids schedule → Schedule courses ids schedule' →
      ∀ id ∈ ids, (runSchedule courses schedule w).pg.candidateStatus id =
        (runSchedule courses schedule' w).pg.candidateStatus id) ↔
      ∀ id ∈ ids, courses id ≠ .failing := by
  constructor
  · intro commute id mem failing
    obtain ⟨causal, rejected, failed⟩ := Course.outcome_failing
    -- Everything in the listed order, and the same with the gate first at this candidate.
    let order : String → List StatusStep :=
      Function.update (fun id => (courses id).steps) id Course.gateFirst
    have causal' : ∀ other, (courses other).Causal (order other) := by
      intro other
      by_cases same : other = id
      · subst same
        simpa only [order, Function.update_self, failing] using causal
      · simpa only [order, Function.update_of_ne same] using (courses other).causal_steps
    have same := commute _ _ (schedule_inTurn courses ids fun other => (courses other).causal_steps)
      (schedule_inTurn courses ids causal') id mem
    rw [candidateStatus_runSchedule courses _ (recorded id mem),
      candidateStatus_runSchedule courses _ (recorded id mem),
      stepsOf_inTurn _ ids.nodup_toList (Finset.mem_toList.mpr mem),
      stepsOf_inTurn _ ids.nodup_toList (Finset.mem_toList.mpr mem)] at same
    simp only [order, Function.update_self, failing] at same
    have outcomes : Course.failing.outcome Course.failing.steps =
        Course.failing.outcome Course.gateFirst := Option.some.inj same
    rw [failed, rejected] at outcomes
    exact absurd outcomes (by decide)
  · intro passes schedule schedule' scheduled scheduled' id mem
    rw [candidateStatus_runSchedule courses _ (recorded id mem),
      candidateStatus_runSchedule courses _ (recorded id mem)]
    have first := (courses id).outcome_eq_verdict (passes id mem) (scheduled.causal id mem)
    have second := (courses id).outcome_eq_verdict (passes id mem) (scheduled'.causal id mem)
    exact congrArg some (first.trans second.symm)

/-! ## Two candidates -/

/-- Two recorded candidates of a task. -/
def recordedLedger : Postgres where
  tasks := Function.update (fun _ => none) "t"
    (some { repoPath := "/repo", sourcePath := "/repo/app.py", testPath := "/repo/test_app.py"
            status := "running" })
  candidates := fun id =>
    if id ∈ ["a", "b"] then
      some { taskId := "t", parentId := none, patchKind := "comparison_swap", status := "generated"
             sourceRelpath := "app.py", filesTouched := ["app.py"], diffSummary := ""
             staticScore := 1 }
    else none

/-- A candidate that is merged next to one that could not be sent. -/
def mergedAndUnsent (id : String) : Course :=
  if id = "a" then .accepted (some true) else .unsent

/-- One of the two is merged and the other could not be sent. No course is `failing`, so every
schedule ends alike. -/
theorem consumers_commute_mergedAndUnsent :
    (∀ schedule schedule', Schedule mergedAndUnsent {"a", "b"} schedule →
      Schedule mergedAndUnsent {"a", "b"} schedule' → ∀ id ∈ ({"a", "b"} : Finset String),
        (runSchedule mergedAndUnsent schedule { pg := recordedLedger }).pg.candidateStatus id =
          (runSchedule mergedAndUnsent schedule' { pg := recordedLedger }).pg.candidateStatus id) ↔
      ∀ id ∈ ({"a", "b"} : Finset String), mergedAndUnsent id ≠ .failing :=
  consumers_commute_iff mergedAndUnsent {"a", "b"} (w := { pg := recordedLedger }) (by decide)

/-- None of the two was sent and failed. -/
example : ∀ id ∈ ({"a", "b"} : Finset String), mergedAndUnsent id ≠ .failing := by decide

/-- A candidate that fails its tests: the memory says `failed` and the gate `rejected_policy`, and
whichever comes first keeps its word. -/
theorem not_consumers_commute :
    ¬ ∀ (courses : String → Course) (ids : Finset String) (w : World),
      (∀ id ∈ ids, w.pg.candidateStatus id = some "generated") →
        ∀ schedule schedule', Schedule courses ids schedule → Schedule courses ids schedule' →
          ∀ id ∈ ids, (runSchedule courses schedule w).pg.candidateStatus id =
            (runSchedule courses schedule' w).pg.candidateStatus id := by
  intro commute
  have memoryFirst : Schedule (fun _ => .failing) {"a"}
      [("a", .queue), ("a", .dispatch), ("a", .remember), ("a", .gate)] :=
    ⟨by decide, by decide⟩
  have gateFirst : Schedule (fun _ => .failing) {"a"}
      [("a", .queue), ("a", .dispatch), ("a", .gate), ("a", .remember)] :=
    ⟨by decide, by decide⟩
  have same := commute (fun _ => .failing) {"a"} { pg := recordedLedger } (by decide) _ _
    memoryFirst gateFirst "a" (by decide)
  exact absurd same (by decide)

end KernelOmega
