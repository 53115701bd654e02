import KernelOmega.Plant.Posts
import KernelOmega.Plant.Small

/-!
# The start of an execution

The dispatcher records the start of an execution after it has sent the capsule, and the
memory records its end when the result has come. Nothing orders the two, and the statement
that records a start asks for no status. An execution stays finished exactly as long as no
start is recorded after the memory has recorded the end.

The other writers are no danger: a run id is drawn once, and from there it is in one place at
a time, `Post.custody` or the dispatch stream, until its dispatch is over. A worker that
queues an execution and a dispatcher that reports a failure have it in their custody.
-/

namespace KernelOmega

open Concurrent

/-! ## What statements do to executions -/

namespace Postgres

/-- The status of an execution, if it has a row. -/
def executionStatus (p : Postgres) (runId : String) : Option String :=
  (p.executions runId).map (·.status)

theorem executionStatus_putExecution (p : Postgres) (id : String) (row : ExecutionRow)
    (runId : String) : (p.putExecution id row).executionStatus runId =
      if runId = id then some row.status else p.executionStatus runId := by
  simp only [executionStatus, putExecution]
  split
  · next same => rw [same, Function.update_self, Option.map_some]
  · next other => rw [Function.update_of_ne other]

/-- What a statement does to the status of an execution. -/
theorem exec_executionStatus_cases (p : Postgres) (c : PgCmd) (runId : String) :
    (p.exec c).2.executionStatus runId = p.executionStatus runId ∨
      (∃ row, c = .insertExecution runId row ∧
        (p.exec c).2.executionStatus runId = some row.status) ∨
      (c = .markExecutionStarted runId ∧ (p.executionStatus runId).isSome ∧
        (p.exec c).2.executionStatus runId = some "running") ∨
      ∃ pack, c = .completeExecution pack ∧ pack.runId = runId ∧
        (p.executionStatus runId).isSome ∧ (p.exec c).2.executionStatus runId =
          some (if pack.passed then "succeeded" else "failed") := by
  have same : (Cmd.pg c).Apart → (p.exec c).2.executionStatus runId = p.executionStatus runId := by
    intro apart
    unfold executionStatus
    rw [exec_executions_of_apart apart]
  cases c with
  | insertExecution id row =>
    simp only [exec]
    split
    · rw [executionStatus_putExecution]
      split
      · next here => exact .inr (.inl ⟨row, by rw [here], rfl⟩)
      · exact .inl rfl
    · split
      · rw [executionStatus_putExecution]
        split
        · next here => exact .inr (.inl ⟨row, by rw [here], rfl⟩)
        · exact .inl rfl
      · exact .inl rfl
  | markExecutionStarted id =>
    simp only [exec]
    split
    · next old found =>
      rw [executionStatus_putExecution]
      split
      · next here =>
        subst here
        refine .inr (.inr (.inl ⟨rfl, ?_, rfl⟩))
        rw [executionStatus, found, Option.map_some, Option.isSome_some]
      · exact .inl rfl
    · exact .inl rfl
  | completeExecution pack =>
    simp only [exec]
    split
    · next old found =>
      rw [executionStatus_putExecution]
      split
      · next here =>
        subst here
        refine .inr (.inr (.inr ⟨pack, rfl, rfl, ?_, rfl⟩))
        rw [executionStatus, found, Option.map_some, Option.isSome_some]
      · exact .inl rfl
    · exact .inl rfl
  | _ => exact .inl (same trivial)

/-- A row appears when it is inserted. -/
theorem isSome_executionStatus_of_exec {p : Postgres} {c : PgCmd} {runId : String}
    (there : ((p.exec c).2.executionStatus runId).isSome) :
    (p.executionStatus runId).isSome ∨ ∃ row, c = .insertExecution runId row := by
  rcases p.exec_executionStatus_cases c runId with
    same | ⟨row, rfl, -⟩ | ⟨-, before, -⟩ | ⟨pack, -, -, before, -⟩
  · exact .inl (same ▸ there)
  · exact .inr ⟨row, rfl⟩
  · exact .inl before
  · exact .inl before

end Postgres

/-- The statuses of an execution that is over. -/
def finishedStatuses : List String := ["succeeded", "failed"]

/-- The execution is over. -/
def Finished (p : Postgres) (runId : String) : Prop :=
  ∃ status ∈ p.executionStatus runId, status ∈ finishedStatuses

/-! ## Custody -/

/-- The run ids of the requests whose dispatch is not over: the started execution is not
recorded, nor the failed one. -/
def Sending.custody : Sending → List String
  | .idle rest => rest.map (·.runId)
  | .opened request rest => request.runId :: rest.map (·.runId)
  | .sent request rest => request.runId :: rest.map (·.runId)
  | .failed request rest => request.runId :: rest.map (·.runId)
  | .refunded request rest => request.runId :: rest.map (·.runId)
  | .completed _ rest => rest.map (·.runId)

/-- The run ids a thread has yet to see dispatched. -/
def Post.custody : Post → List String
  | .worker stage => stage.runs
  | .dispatcher q => q.custody
  | _ => []

/-- The run ids whose executions a thread has yet to record. -/
def Post.unrecorded : Post → List String
  | .worker stage => stage.unrecorded
  | _ => []

theorem Role.custody_post (role : Role) : role.post.custody = [] := by
  cases role <;> rfl

theorem Role.unrecorded_post (role : Role) : role.post.unrecorded = [] := by
  cases role <;> rfl

section Steps

variable {c : Cmd} (x : Choice) (w : World) (runId : String)

/-- A worker's command passes its run id on to the stream, or keeps it. -/
theorem Stage.custody_step {sha256 : Sha256} {stage : Stage} (keyed : stage.Keyed)
    (allowed : stage.Allows sha256 c) :
    (stage.next c (World.exec x c w).1).runs.count runId +
        (World.exec x c w).2.traffic.undelivered.count runId ≤
      stage.runs.count runId + w.traffic.undelivered.count runId +
        (c.draws (World.exec x c w).1).count runId := by
  rcases stage.apart_or keyed allowed with ⟨apart, same⟩ | rfl | ⟨id, row, rfl⟩ | ⟨request, rfl⟩
  · rw [(same _).1, World.exec_undelivered apart.leaves]
    omega
  · obtain ⟨nodeId, taskId, childId, rfl⟩ := allowed
    simp only [World.exec, Stage.next, Stage.runs, Cmd.draws, List.count_nil]
    omega
  · obtain ⟨⟨nodeId, rfl⟩, -⟩ := allowed
    have leaves : (Cmd.pg (.insertExecution id row)).LeavesRequests := trivial
    rw [World.exec_undelivered leaves]
    cases (World.exec x (.pg (.insertExecution id row)) w).1 <;> exact Nat.le_add_right _ _
  · obtain ⟨⟨nodeId, rfl⟩, -⟩ := allowed
    rw [World.exec_xaddDispatch_traffic]
    cases fails : x.fail with
    | true =>
      rw [World.exec_redis_fail fails]
      exact Nat.le_add_right _ _
    | false =>
      rw [World.exec_redis_ok fails]
      simp only [Stage.next, Stage.runs, Traffic.undelivered, List.count_nil, Bool.false_eq_true,
        ↓reduceIte, List.drop_append, List.map_append, List.count_append]
      have rest : (List.map (·.runId) (List.drop (w.traffic.taken - w.traffic.dispatch.length)
          [request])).count runId ≤ [request.runId].count runId :=
        ((List.drop_sublist _ [request]).map _).count_le runId
      omega

/-- A dispatcher's command ends a dispatch, or keeps the requests. -/
theorem Sending.custody_step {q : Sending} (allowed : q.Allows c) :
    (q.next c (World.exec x c w).1).custody.count runId +
        (World.exec x c w).2.traffic.undelivered.count runId ≤
      q.custody.count runId + w.traffic.undelivered.count runId := by
  have leaves : ∀ {q' : Sending}, c.LeavesRequests →
      q'.custody.count runId ≤ q.custody.count runId →
      q'.custody.count runId + (World.exec x c w).2.traffic.undelivered.count runId ≤
        q.custody.count runId + w.traffic.undelivered.count runId := by
    intro q' leaves fewer
    rw [World.exec_undelivered leaves]
    omega
  cases c with
  | redis c =>
    cases c with
    | xreadgroupDispatch group count =>
      obtain ⟨rfl, rfl⟩ := allowed
      rcases World.exec_xreadgroupDispatch_traffic x w count with
        ⟨-, e, failed⟩ | ⟨messages, reply, batch, after⟩
      · rw [failed]
        exact le_refl _
      · rw [reply, after]
        simp only [Sending.next, Sending.custody, batch, List.map_nil, List.count_nil, Nat.zero_add]
        rw [w.traffic.undelivered_eq count, List.count_append]
    | incr key =>
      obtain ⟨rfl, request, rest, rfl⟩ := allowed
      refine leaves trivial ?_
      cases (World.exec x (.redis (.incr statsInflight)) w).1 <;> exact le_refl _
    | decr key =>
      obtain ⟨rfl, request, rest, rfl⟩ := allowed
      refine leaves trivial ?_
      cases (World.exec x (.redis (.decr statsInflight)) w).1 <;> exact le_refl _
    | xaddResult pack =>
      obtain ⟨request, rest, rfl, -⟩ := allowed
      refine leaves trivial ?_
      cases (World.exec x (.redis (.xaddResult pack)) w).1 <;> exact le_refl _
    | pipeline ops => exact leaves trivial (le_refl _)
    | _ => exact allowed.elim
  | pg c =>
    cases c with
    | completeExecution pack =>
      obtain ⟨request, rest, rfl, -⟩ := allowed
      refine leaves trivial ?_
      cases (World.exec x (.pg (.completeExecution pack)) w).1 with
      | error e => exact le_refl _
      | ok v => exact (List.sublist_cons_self _ _).count_le runId
    | markExecutionStarted id =>
      obtain ⟨request, rest, rfl, -⟩ := allowed
      refine leaves trivial ?_
      cases (World.exec x (.pg (.markExecutionStarted id)) w).1 with
      | error e => exact le_refl _
      | ok v => exact (List.sublist_cons_self _ _).count_le runId
    | fetchCandidateStatus _ | setCandidateStatus _ _ | mergeExecutionMeta _ =>
      exact leaves trivial (le_refl _)
    | _ => exact allowed.elim
  | host c =>
    cases c with
    | connect core =>
      obtain ⟨request, rest, rfl⟩ := allowed
      refine leaves trivial ?_
      cases (World.exec x (.host (.connect core)) w).1 <;> exact le_refl _
    | sendall core capsule =>
      obtain ⟨request, rest, rfl, -⟩ := allowed
      refine leaves trivial ?_
      cases (World.exec x (.host (.sendall core capsule)) w).1 <;> exact le_refl _
    | shutdown core capsule =>
      obtain ⟨request, rest, rfl, -⟩ := allowed
      refine leaves trivial ?_
      cases (World.exec x (.host (.shutdown core capsule)) w).1 <;> exact le_refl _
    | _ => exact allowed.elim
  | _ => exact allowed.elim

/-- An executor has no part in the dispatch stream. -/
theorem Running.Allows.leaves {q : Running} (allowed : q.Allows c) : c.LeavesRequests := by
  cases c with
  | redis c =>
    cases c with
    | xaddResult _ | decr _ => trivial
    | _ => exact allowed.elim
  | host c => trivial
  | _ => exact allowed.elim

/-- A run id leaves the custody of the threads and the stream, or stays in it. Only a draw brings
one in. -/
theorem Post.custody_step {sha256 : Sha256} {q : Post} (keyed : ∀ stage, q = .worker stage → stage.Keyed)
    (allowed : q.Allows sha256 c) :
    (q.next c (World.exec x c w).1).custody.count runId +
        (World.exec x c w).2.traffic.undelivered.count runId ≤
      q.custody.count runId + w.traffic.undelivered.count runId +
        (c.draws (World.exec x c w).1).count runId := by
  cases q with
  | worker stage => exact stage.custody_step x w runId (keyed stage rfl) allowed
  | dispatcher q => exact (q.custody_step x w runId allowed).trans (Nat.le_add_right _ _)
  | executor reads q =>
    have leaves := Running.Allows.leaves allowed
    rw [World.exec_undelivered leaves]
    exact Nat.le_add_right _ _
  | memory =>
    have leaves : c.LeavesRequests := by
      rcases allowed with apart | ⟨pack, rfl⟩
      · exact apart.leaves
      · trivial
    rw [World.exec_undelivered leaves]
    exact Nat.le_add_right _ _
  | bystander =>
    rw [World.exec_undelivered (Cmd.Apart.leaves allowed)]
    exact Nat.le_add_right _ _

/-- The run ids that have no row yet are at most those of before and those the step draws. -/
theorem Post.unrecorded_step {sha256 : Sha256} {q : Post}
    (keyed : ∀ stage, q = .worker stage → stage.Keyed) (allowed : q.Allows sha256 c) :
    (q.next c (World.exec x c w).1).unrecorded.count runId ≤
      q.unrecorded.count runId + (c.draws (World.exec x c w).1).count runId := by
  cases q with
  | worker stage =>
    rcases stage.apart_or (keyed stage rfl) allowed with
      ⟨-, same⟩ | rfl | ⟨id, row, rfl⟩ | ⟨request, rfl⟩
    · show (stage.next c _).unrecorded.count runId ≤ stage.unrecorded.count runId + _
      rw [(same _).2]
      exact Nat.le_add_right _ _
    · obtain ⟨nodeId, taskId, childId, rfl⟩ := allowed
      exact Nat.le_add_left _ _
    · obtain ⟨⟨nodeId, rfl⟩, -⟩ := allowed
      cases (World.exec x (.pg (.insertExecution id row)) w).1 with
      | error e => exact Nat.le_add_right _ _
      | ok v => exact Nat.zero_le _
    · obtain ⟨⟨nodeId, rfl⟩, -⟩ := allowed
      cases (World.exec x (.redis (.xaddDispatch request)) w).1 <;> exact Nat.zero_le _
  | _ => exact Nat.zero_le _

end Steps

/-! ## The law -/

/-- The run ids whose completion a command records. -/
def Cmd.completes : (c : Cmd) → Except PyError c.Reply → List String
  | .pg (.completeExecution pack) => fun
    | .ok _ => [pack.runId]
    | .error _ => []
  | _ => fun _ => []

/-- The run ids whose completion a memory has recorded. -/
def remembered {ι : Type} (roles : ι → Role) (history : List (Event ι Cmd Cmd.Reply PyError)) :
    List String :=
  history.flatMap fun e => if (roles e.thread).isMemory then e.cmd.completes e.reply else []

/-- What a command has to meet for a finished execution to stay finished. -/
structure StartsFirst {ι : Type} (roles : ι → Role) (s : Snapshot ι Cmd Cmd.Reply PyError World)
    (x : Choice) (c : Cmd) : Prop where
  /-- A drawn run id is new. -/
  fresh : ∀ runId ∈ c.draws (World.exec x c s.world).1, runId ∉ drawn s.history
  /-- A start is recorded before the memory records the end. -/
  starts : ∀ runId, c = .pg (.markExecutionStarted runId) → runId ∉ remembered roles s.history

/-- The run id whose start a command records. -/
def Cmd.starts : Cmd → Option String
  | .pg (.markExecutionStarted runId) => some runId
  | _ => none

/-- A run is started by the statement of its name. -/
theorem Cmd.mem_starts {c : Cmd} {runId : String} :
    runId ∈ c.starts ↔ c = .pg (.markExecutionStarted runId) := by
  constructor
  · intro mem
    cases c with
    | pg c =>
      cases c with
      | markExecutionStarted id =>
        obtain rfl := Option.some.inj mem
        rfl
      | _ => cases mem
    | _ => cases mem
  · rintro rfl
    rfl

instance {ι : Type} (roles : ι → Role) (s : Snapshot ι Cmd Cmd.Reply PyError World) (x : Choice)
    (c : Cmd) : Decidable (StartsFirst roles s x c) :=
  decidable_of_iff
    ((∀ runId ∈ c.draws (World.exec x c s.world).1, runId ∉ drawn s.history) ∧
      ∀ runId ∈ c.starts, runId ∉ remembered roles s.history)
    ⟨fun ⟨fresh, starts⟩ => ⟨fresh, fun runId same => starts runId (Cmd.mem_starts.mpr same)⟩,
      fun ⟨fresh, starts⟩ => ⟨fresh, fun runId mem => starts runId (Cmd.mem_starts.mp mem)⟩⟩

theorem drawn_cons {ι : Type} (e : Event ι Cmd Cmd.Reply PyError)
    (history : List (Event ι Cmd Cmd.Reply PyError)) :
    drawn (e :: history) = e.cmd.draws e.reply ++ drawn history := rfl

/-- A command draws at most one run id. -/
theorem Cmd.count_draws_le (c : Cmd) (reply : Except PyError c.Reply) (runId : String) :
    (c.draws reply).count runId ≤ 1 := by
  cases c with
  | uuid4 =>
    cases reply with
    | ok hex => exact List.count_le_length
    | error e => exact Nat.zero_le 1
  | _ => exact Nat.zero_le 1

/-- With fresh draws a run id is drawn once. -/
theorem count_drawn_cons {ι : Type} {history : List (Event ι Cmd Cmd.Reply PyError)} {i : ι} {c : Cmd}
    {reply : Except PyError c.Reply} (fresh : ∀ runId ∈ c.draws reply, runId ∉ drawn history)
    {runId : String} (once : (drawn history).count runId ≤ 1) :
    (drawn (⟨i, c, reply⟩ :: history)).count runId ≤ 1 ∧
      (runId ∈ drawn history → (c.draws reply).count runId = 0) := by
  rw [drawn_cons, List.count_append]
  dsimp only
  by_cases known : runId ∈ drawn history
  · have none : (c.draws reply).count runId = 0 :=
      List.count_eq_zero.mpr fun mem => fresh runId mem known
    exact ⟨by omega, fun _ => none⟩
  · have none := List.count_eq_zero.mpr known
    have few := c.count_draws_le reply runId
    exact ⟨by omega, fun mem => absurd mem known⟩

/-- Where the run ids are, and what that says of the executions. -/
structure Custody {ι S : Type} [DecidableEq ι] (plant : Plant ι S)
    (s : Snapshot ι Cmd Cmd.Reply PyError World) : Prop where
  once : ∀ runId, (drawn s.history).count runId ≤ 1
  held : ∀ runId, plant.load Post.custody runId s.history +
    s.world.traffic.undelivered.count runId ≤ (drawn s.history).count runId
  unrecorded : ∀ runId, plant.load Post.unrecorded runId s.history ≤ (drawn s.history).count runId
  /-- An execution that is recorded is not to be recorded again, -/
  recorded : ∀ runId, (s.world.pg.executionStatus runId).isSome →
    runId ∈ drawn s.history ∧ plant.load Post.unrecorded runId s.history = 0
  /-- and one that is over was ended by the memory, or is out of every dispatcher's hands. -/
  finished : ∀ runId, Finished s.world.pg runId → runId ∈ remembered plant.roles s.history ∨
    plant.load Post.custody runId s.history = 0 ∧ s.world.traffic.undelivered.count runId = 0

section Step

variable {ι S : Type} [DecidableEq ι] {plant : Plant ι S} {i : ι} {x : Choice} {c : Cmd}
  {s : Snapshot ι Cmd Cmd.Reply PyError World} (custody : Custody plant s)
  (keyed : ∀ stage, plant.postOf i s.history = .worker stage → stage.Keyed)
  (allowed : (plant.postOf i s.history).Allows plant.sha256 c)

include custody keyed allowed

/-- A run id is held once after the step, if it was before. -/
theorem Custody.held_after (runId : String) :
    plant.load Post.custody runId (s.after World.exec i x c).history +
        (s.after World.exec i x c).world.traffic.undelivered.count runId ≤
      (drawn (s.after World.exec i x c).history).count runId := by
  have before := custody.held runId
  have step := (plant.postOf i s.history).custody_step x s.world runId keyed allowed
  rw [Snapshot.after_history, plant.load_cons, drawn_cons, List.count_append, Snapshot.after_world]
  dsimp only
  omega

/-- After the step every run id without a row was drawn. -/
theorem Custody.unrecorded_after (runId : String) :
    plant.load Post.unrecorded runId (s.after World.exec i x c).history ≤
      (drawn (s.after World.exec i x c).history).count runId := by
  have before := custody.unrecorded runId
  have step := (plant.postOf i s.history).unrecorded_step x s.world runId keyed allowed
  rw [Snapshot.after_history, plant.load_cons, drawn_cons, List.count_append]
  dsimp only
  omega

variable (may : StartsFirst plant.roles s x c) {runId : String} (known : runId ∈ drawn s.history)

include may known

/-- A run id that was drawn before is not to be recorded later if it is not now. -/
theorem Custody.unrecorded_stays (none : plant.load Post.unrecorded runId s.history = 0) :
    plant.load Post.unrecorded runId (s.after World.exec i x c).history = 0 := by
  have step := (plant.postOf i s.history).unrecorded_step x s.world runId keyed allowed
  have undrawn := (count_drawn_cons (i := i) may.fresh (custody.once runId)).2 known
  have positive := plant.load_nonneg (fun i => (plant.roles i).unrecorded_post) runId
    (s.after World.exec i x c).history
  rw [Snapshot.after_history, plant.load_cons] at positive ⊢
  omega

/-- A run id that was drawn before and is out of all hands does not come back. -/
theorem Custody.custody_stays (none : plant.load Post.custody runId s.history = 0 ∧
      s.world.traffic.undelivered.count runId = 0) :
    plant.load Post.custody runId (s.after World.exec i x c).history = 0 ∧
      (s.after World.exec i x c).world.traffic.undelivered.count runId = 0 := by
  have step := (plant.postOf i s.history).custody_step x s.world runId keyed allowed
  have undrawn := (count_drawn_cons (i := i) may.fresh (custody.once runId)).2 known
  have positive := plant.load_nonneg (fun i => (plant.roles i).custody_post) runId
    (s.after World.exec i x c).history
  rw [Snapshot.after_history, plant.load_cons] at positive ⊢
  rw [Snapshot.after_world]
  omega

end Step

section Steps

variable {ι S : Type} [DecidableEq ι] {plant : Plant ι S} {i : ι} {x : Choice}
  {s : Snapshot ι Cmd Cmd.Reply PyError World} (custody : Custody plant s) {runId : String}

include custody

/-- An execution is recorded by the worker that has its run id, which is then rid of it. -/
theorem Custody.recorded_of_insert {row : ExecutionRow}
    (allowed : (plant.postOf i s.history).Allows plant.sha256 (.pg (.insertExecution runId row)))
    {v : Unit} (reply : (World.exec x (.pg (.insertExecution runId row)) s.world).1 = .ok v) :
    runId ∈ drawn s.history ∧
      plant.load Post.unrecorded runId
        (s.after World.exec i x (.pg (.insertExecution runId row))).history = 0 := by
  have bound := plant.count_le_load (fun i => (plant.roles i).unrecorded_post) runId s.history i
  have positive := plant.load_nonneg (fun i => (plant.roles i).unrecorded_post) runId
    (s.after World.exec i x (.pg (.insertExecution runId row))).history
  have once := custody.once runId
  have early := custody.unrecorded runId
  rw [Snapshot.after_history, plant.load_cons, reply] at positive ⊢
  cases here : plant.postOf i s.history with
  | worker stage =>
    rw [here] at allowed bound positive
    obtain ⟨⟨nodeId, rfl⟩, -⟩ := allowed
    simp only [Post.next, Stage.next, Post.unrecorded, Stage.unrecorded, List.count_nil,
      List.count_cons_self] at bound positive ⊢
    refine ⟨List.count_pos_iff.mp ?_, ?_⟩ <;> omega
  | memory =>
    rw [here] at allowed
    rcases allowed with apart | ⟨pack, other⟩
    · exact apart.elim
    · cases other
  | _ =>
    rw [here] at allowed
    exact allowed.elim

/-- A dispatcher that records a failed execution has the run id, which is then out of all hands. -/
theorem Custody.finished_of_failure {q : Sending} (here : plant.postOf i s.history = .dispatcher q)
    {pack : VerificationPack} (allowed : q.Allows (.pg (.completeExecution pack)))
    {v : Unit} (reply : (World.exec x (.pg (.completeExecution pack)) s.world).1 = .ok v) :
    plant.load Post.custody pack.runId
        (s.after World.exec i x (.pg (.completeExecution pack))).history = 0 ∧
      (s.after World.exec i x (.pg (.completeExecution pack))).world.traffic.undelivered.count
        pack.runId = 0 := by
  have once := custody.once pack.runId
  have held := custody.held pack.runId
  have positive := plant.load_nonneg (fun i => (plant.roles i).custody_post) pack.runId
    (s.after World.exec i x (.pg (.completeExecution pack))).history
  have leaves : (Cmd.pg (.completeExecution pack)).LeavesRequests := trivial
  obtain ⟨request, rest, rfl, same⟩ := allowed
  rw [Snapshot.after_history, plant.load_cons, reply, here] at positive ⊢
  rw [Snapshot.after_world, World.exec_undelivered leaves]
  simp only [Post.next, Sending.next, Post.custody, Sending.custody, same, List.count_cons_self]
    at held once positive ⊢
  omega

omit custody in
/-- A dispatcher at the record of a start has the run id. -/
theorem Custody.load_pos_of_start
    (allowed : (plant.postOf i s.history).Allows plant.sha256 (.pg (.markExecutionStarted runId))) :
    0 < plant.load Post.custody runId s.history := by
  have bound := plant.count_le_load (fun i => (plant.roles i).custody_post) runId s.history i
  cases here : plant.postOf i s.history with
  | dispatcher q =>
    rw [here] at allowed bound
    obtain ⟨request, rest, rfl, rfl⟩ := allowed
    simp only [Post.custody, Sending.custody, List.count_cons_self] at bound
    omega
  | memory =>
    rw [here] at allowed
    rcases allowed with apart | ⟨pack, other⟩
    · exact apart.elim
    · cases other
  | _ =>
    rw [here] at allowed
    exact allowed.elim

omit custody in
/-- Only a worker inserts an execution, as queued. -/
theorem Plant.queued_of_insert {row : ExecutionRow}
    (allowed : (plant.postOf i s.history).Allows plant.sha256 (.pg (.insertExecution runId row))) :
    row.status = "queued" ∧ 0 < plant.load Post.unrecorded runId s.history := by
  have bound := plant.count_le_load (fun i => (plant.roles i).unrecorded_post) runId s.history i
  cases here : plant.postOf i s.history with
  | worker stage =>
    rw [here] at allowed bound
    obtain ⟨⟨nodeId, rfl⟩, queued⟩ := allowed
    simp only [Post.unrecorded, Stage.unrecorded, List.count_cons_self] at bound
    exact ⟨queued, by omega⟩
  | memory =>
    rw [here] at allowed
    rcases allowed with apart | ⟨pack, other⟩
    · exact apart.elim
    · cases other
  | _ =>
    rw [here] at allowed
    exact allowed.elim

/-- The executions that are over after a step. -/
theorem Custody.finished_after {c : Cmd}
    (keyed : ∀ stage, plant.postOf i s.history = .worker stage → stage.Keyed)
    (allowed : (plant.postOf i s.history).Allows plant.sha256 c) (may : StartsFirst plant.roles s x c)
    (ended : Finished (s.after World.exec i x c).world.pg runId) :
    runId ∈ remembered plant.roles (s.after World.exec i x c).history ∨
      plant.load Post.custody runId (s.after World.exec i x c).history = 0 ∧
        (s.after World.exec i x c).world.traffic.undelivered.count runId = 0 := by
  have carry : Finished s.world.pg runId →
      runId ∈ remembered plant.roles (s.after World.exec i x c).history ∨
        plant.load Post.custody runId (s.after World.exec i x c).history = 0 ∧
          (s.after World.exec i x c).world.traffic.undelivered.count runId = 0 := by
    intro before
    have known : runId ∈ drawn s.history := by
      obtain ⟨status, row, -⟩ := before
      exact (custody.recorded runId (Option.isSome_of_mem row)).1
    rcases custody.finished runId before with ended | none
    · exact .inl (List.mem_append_right _ ended)
    · exact .inr (custody.custody_stays keyed allowed may known none)
  obtain ⟨status, row, final⟩ := ended
  rw [Snapshot.after_world] at row
  rcases World.exec_pg x c s.world with same | ⟨statement, rfl, after⟩
  · exact carry ⟨status, same ▸ row, final⟩
  · rw [after] at row
    rcases s.world.pg.exec_executionStatus_cases statement runId with
      same | ⟨new, rfl, written⟩ | ⟨rfl, -, written⟩ | ⟨pack, rfl, rfl, -, -⟩
    · exact carry ⟨status, same ▸ row, final⟩
    · obtain rfl : new.status = status := Option.some.inj (written.symm.trans row)
      rw [(Plant.queued_of_insert allowed).1] at final
      exact absurd final (by decide)
    · obtain rfl : "running" = status := Option.some.inj (written.symm.trans row)
      exact absurd final (by decide)
    · cases reply : (World.exec x (.pg (.completeExecution pack)) s.world).1 with
      | error e =>
        rw [← after, World.exec_pg_error reply] at row
        exact carry ⟨status, row, final⟩
      | ok v =>
        cases here : plant.postOf i s.history with
        | dispatcher q =>
          rw [here] at allowed
          exact .inr (custody.finished_of_failure here allowed reply)
        | memory =>
          left
          have memory : (plant.roles i).isMemory = true := by
            have role := plant.postOf_of i s.history
            rw [here] at role
            exact role
          refine List.mem_append_left _ ?_
          simp only [memory, reply, ↓reduceIte, Cmd.completes, List.mem_singleton]
        | worker stage =>
          rw [here] at allowed
          exact allowed.elim
        | executor reads q =>
          rw [here] at allowed
          exact allowed.elim
        | bystander =>
          rw [here] at allowed
          exact allowed.elim

/-- What every step keeps. -/
theorem Custody.step {c : Cmd}
    (keyed : ∀ stage, plant.postOf i s.history = .worker stage → stage.Keyed)
    (allowed : (plant.postOf i s.history).Allows plant.sha256 c) (may : StartsFirst plant.roles s x c) :
    Custody plant (s.after World.exec i x c) where
  once := fun runId => (count_drawn_cons may.fresh (custody.once runId)).1
  held := custody.held_after keyed allowed
  unrecorded := custody.unrecorded_after keyed allowed
  recorded := by
    intro runId row
    rw [Snapshot.after_world] at row
    have carry : (s.world.pg.executionStatus runId).isSome →
        runId ∈ drawn (s.after World.exec i x c).history ∧
          plant.load Post.unrecorded runId (s.after World.exec i x c).history = 0 := by
      intro before
      obtain ⟨known, none⟩ := custody.recorded runId before
      exact ⟨List.mem_append_right _ known, custody.unrecorded_stays keyed allowed may known none⟩
    rcases World.exec_pg x c s.world with same | ⟨statement, rfl, after⟩
    · exact carry (same ▸ row)
    · rw [after] at row
      rcases Postgres.isSome_executionStatus_of_exec row with before | ⟨new, rfl⟩
      · exact carry before
      · cases reply : (World.exec x (.pg (.insertExecution runId new)) s.world).1 with
        | error e =>
          rw [← after, World.exec_pg_error reply] at row
          exact carry row
        | ok v =>
          obtain ⟨known, none⟩ := custody.recorded_of_insert allowed reply
          exact ⟨List.mem_append_right _ known, none⟩
  finished := fun _ ended => custody.finished_after keyed allowed may ended

end Steps

section Runs

variable {ι S : Type} [DecidableEq ι] [LinearOrder S] (plant : Plant ι S)

/-- The runs in which starts are recorded first. -/
abbrev Plant.startsFirst : System ι Cmd Cmd.Reply PyError Choice World :=
  plant.systemOf fun s _ x c => StartsFirst plant.roles s x c

variable {plant} {s t : State ι Cmd Cmd.Reply PyError World}

/-- Every reachable state: each run id is in one place, on its way from its draw to its answer. -/
theorem Plant.custody (reached : plant.startsFirst.Reachable s) : Custody plant s.toSnapshot := by
  refine System.Reachable.invariant (I := Custody plant) ?_ ?_ ?_ reached
  · rintro w rfl
    have pristine := pristine_seedAll plant.tasks
    have empty : ∀ runId, (seedAll plant.tasks).pg.executionStatus runId = none := by
      intro runId
      rw [Postgres.executionStatus, pristine.executions, Option.map_none]
    refine ⟨fun _ => Nat.zero_le 1, fun runId => ?_, fun _ => le_refl _, fun runId row => ?_, ?_⟩
    · simp only [plant.load_nil, World.traffic, Traffic.undelivered, pristine.dispatch, List.drop_nil,
        List.map_nil, List.count_nil]
      exact le_refl _
    · rw [empty runId] at row
      cases row
    · rintro runId ⟨status, row, -⟩
      rw [empty runId] at row
      cases row
  · intro s i x c k reached custody issues may
    exact custody.step (fun _ => Plant.keyed reached i) (Plant.post_allows reached issues) may
  · intro s w _ custody around
    have same : w.pg = s.world.pg := by
      cases around <;> rfl
    refine ⟨custody.once, ?_, custody.unrecorded, ?_, ?_⟩
    · rw [around.traffic]
      exact custody.held
    · rw [same]
      exact custody.recorded
    · rw [same, around.traffic]
      exact custody.finished

/-- An execution that is over stays over: it never becomes `queued` or `running` again. -/
theorem finished_stays (reached : plant.startsFirst.Reachable s) (later : plant.startsFirst.Later s t)
    {runId : String} (ended : Finished s.world.pg runId) : Finished t.world.pg runId := by
  refine reached.always (P := fun s => Finished s.world.pg runId) ?_ ?_ later ended
  · rintro s i x c k reached ⟨status, row, final⟩ issues may
    have custody := Plant.custody reached
    have allowed := Plant.post_allows reached issues
    show Finished (World.exec x c s.world).2.pg runId
    rcases World.exec_pg x c s.world with same | ⟨statement, rfl, after⟩
    · rw [same]
      exact ⟨status, row, final⟩
    · rw [after]
      rcases s.world.pg.exec_executionStatus_cases statement runId with
        same | ⟨new, rfl, -⟩ | ⟨rfl, -, -⟩ | ⟨pack, rfl, rfl, -, written⟩
      · exact ⟨status, same ▸ row, final⟩
      · -- The worker would have to have the run id still.
        have none := (custody.recorded runId (Option.isSome_of_mem row)).2
        exact absurd none (Plant.queued_of_insert allowed).2.ne'
      · -- So would the dispatcher, unless the memory was quicker.
        rcases custody.finished runId ⟨status, row, final⟩ with ended | ⟨none, -⟩
        · exact absurd ended (may.starts runId rfl)
        · exact absurd none (Custody.load_pos_of_start allowed).ne'
      · refine ⟨_, written, ?_⟩
        split <;> decide
  · rintro s w _ ended around
    have same : w.pg = s.world.pg := by
      cases around <;> rfl
    rw [same]
    exact ended

end Runs

/-! ## An answer before the start is recorded -/

namespace SmallPlant

/-- The first candidate is dispatched, run and remembered, in this order. -/
def answered : List Beat :=
  starts 0 22 { fresh := "0" } ++ starts 2 10 ++ starts 3 5 passing ++ starts 4 13

/-- The memory records the end before the dispatcher, which has sent the capsule, records the
start. -/
def answeredEarly : List Beat :=
  starts 0 22 { fresh := "0" } ++ starts 2 5 ++ starts 3 5 passing ++ starts 4 13

end SmallPlant

set_option maxRecDepth 20000 in
open SmallPlant in
/-- The start of the run is recorded before its end, and the row of the run stays `succeeded`. -/
theorem finished_stays_answered :
    Finished (after (answered ++ starts 5 9)).world.pg "run_0" := by
  have run : plant.startsFirst.PermitsAll still (answered.map Beat.move) ∧
      plant.startsFirst.PermitsAll (after answered) ((starts 5 9).map Beat.move) ∧
      (after answered).world.pg.executionStatus "run_0" = some "succeeded" := by
    decide
  obtain ⟨first, second, row⟩ := run
  exact finished_stays (reachable_after first) (later_after second) ⟨_, row, by decide⟩

open SmallPlant in
/-- The dispatcher records the start of a run that the memory has ended: the row goes from
`succeeded` back to `running`. -/
theorem not_finished_stays :
    ¬ ∀ s t, plant.system.Reachable s → plant.system.Later s t → ∀ runId,
      Finished s.world.pg runId → t.world.pg.executionStatus runId ≠ some "running" ∧
        t.world.pg.executionStatus runId ≠ some "queued" := by
  intro stays
  have run : plant.system.PermitsAll still (answeredEarly.map Beat.move) ∧
      plant.system.PermitsAll (after answeredEarly) ((goesOn 2 1).map Beat.move) ∧
      (after answeredEarly).world.pg.executionStatus "run_0" = some "succeeded" ∧
      (after (answeredEarly ++ goesOn 2 1)).world.pg.executionStatus "run_0" = some "running" := by
    decide
  obtain ⟨first, second, row, back⟩ := run
  exact (stays _ _ (reachable_after first) (later_after second) _ ⟨_, row, by decide⟩).1 back

end KernelOmega
