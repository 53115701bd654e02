import KernelOmega.Concurrent.Typestate
import KernelOmega.Ledger.Calls

/-!
# Overlapping status updates

`update_task_status` and `update_candidate_status` read the status in one statement and
write it in another. What a thread has read is a typestate of its own commands: every
`UPDATE` a daemon issues follows a read of the same row that the guard let pass. Whether
the guard also holds of the value overwritten depends on what other calls wrote between
the two statements. `Unraced` is the condition that they left the status that was read.
-/

namespace KernelOmega

open Concurrent

/-- What the latest command of a thread has read of a status column. -/
inductive Reading where
  | nothing
  | task (taskId : String) (current : Option String)
  | candidate (candidateId : String) (current : Option String)
  deriving DecidableEq

/-- What a reply says about a status column. -/
def Reading.of : (c : Cmd) → Except PyError c.Reply → Reading
  | .pg (.fetchTaskStatus taskId) => fun reply =>
    match reply with
    | .ok current => .task taskId current
    | .error _ => .nothing
  | .pg (.fetchCandidateStatus candidateId) => fun reply =>
    match reply with
    | .ok current => .candidate candidateId current
    | .error _ => .nothing
  | _ => fun _ => .nothing

/-- A status is only written right after it was read and the guard has let it pass. -/
def Reading.Permits (reading : Reading) : Cmd → Prop
  | .pg (.setTaskStatus taskId status) =>
    ∃ current, reading = .task taskId current ∧ canTransitionTaskStatus current status = true
  | .pg (.setCandidateStatus candidateId status) =>
    ∃ current, reading = .candidate candidateId current ∧
      canTransitionCandidateStatus current status = true
  | _ => True

/-- The guarded updates of one daemon: a status is written only upon a reading that permits it. -/
def guarded : Typestate Cmd Cmd.Reply PyError Reading where
  next := fun _ => Reading.of
  allows := Reading.Permits

/-- What thread `i` has read when it issues its next command. -/
def reading {ι : Type} [DecidableEq ι] (i : ι) (history : List (Event ι Cmd Cmd.Reply PyError)) :
    Reading :=
  guarded.current .nothing i history

/-- What a thread has to have read for a status it writes to be based on the ledger `p`. -/
def Cmd.basis (p : Postgres) : Cmd → Option Reading
  | .pg (.setTaskStatus taskId _) => some (.task taskId (p.taskStatus taskId))
  | .pg (.setCandidateStatus candidateId _) =>
    some (.candidate candidateId (p.candidateStatus candidateId))
  | _ => none

/-- A status is written only where the row still has the status that was read. -/
def Unraced {ι : Type} [DecidableEq ι] (s : Snapshot ι Cmd Cmd.Reply PyError World) (i : ι)
    (c : Cmd) : Prop :=
  ∀ basis ∈ c.basis s.world.pg, reading i s.history = basis

instance {ι : Type} [DecidableEq ι] (s : Snapshot ι Cmd Cmd.Reply PyError World) (i : ι)
    (c : Cmd) : Decidable (Unraced s i c) :=
  inferInstanceAs (Decidable (∀ basis ∈ c.basis s.world.pg, reading i s.history = basis))

/-- A guarded update reads the status it writes over, -/
theorem guarded_updateTaskStatus (taskId status : String) (q : Reading) :
    (Daemon.updateTaskStatus taskId status).Keeps guarded (fun _ _ => True) (fun _ _ => True) q := by
  refine Prog.Keeps.call_bind trivial (fun current => ?_) fun _ => trivial
  split
  · next allowed =>
    exact Prog.Keeps.call_bind ⟨current, rfl, allowed⟩ (fun _ => trivial) fun _ => trivial
  · trivial

/-- for tasks as for candidates. -/
theorem guarded_updateCandidateStatus (candidateId status : String) (q : Reading) :
    (Daemon.updateCandidateStatus candidateId status).Keeps guarded
      (fun _ _ => True) (fun _ _ => True) q := by
  refine Prog.Keeps.call_bind trivial (fun current => ?_) fun _ => trivial
  split
  · next allowed =>
    exact Prog.Keeps.call_bind ⟨current, rfl, allowed⟩ (fun _ => trivial) fun _ => trivial
  · trivial

/-- A command that is not a record statement, which overwrites a status without reading it. -/
def Cmd.RecordsNothing : Cmd → Prop
  | .pg (.insertTask _ _) => False
  | .pg (.insertCandidate _ _) => False
  | _ => True

/-- A record statement writes over an existing row only what may follow there. -/
def Cmd.RecordsRespect (p : Postgres) : Cmd → Prop
  | .pg (.insertTask id row) => (PgCmd.insertTask id row).Respects p
  | .pg (.insertCandidate id row) => (PgCmd.insertCandidate id row).Respects p
  | _ => True

instance (p : Postgres) : (c : Cmd) → Decidable (c.RecordsRespect p)
  | .pg (.insertTask id row) => inferInstanceAs (Decidable ((PgCmd.insertTask id row).Respects p))
  | .pg (.insertCandidate id row) =>
    inferInstanceAs (Decidable ((PgCmd.insertCandidate id row).Respects p))
  | .pg (.fetchTaskStatus _) | .pg (.setTaskStatus _ _) | .pg (.mergeTaskMetadata _)
  | .pg (.fetchCandidateStatus _) | .pg (.setCandidateStatus _ _) | .pg (.mergeCandidateMetadata _)
  | .pg (.insertExecution _ _) | .pg (.markExecutionStarted _) | .pg (.mergeExecutionMeta _)
  | .pg (.completeExecution _) | .pg (.recordPolicyDecision _ _) | .redis _ | .uuid4 | .time
  | .applyPatch _ | .host _ | .mark _ => .isTrue trivial

/-- A guarded write of a status that nobody has changed meanwhile respects the ledger. -/
theorem respects_of_unraced {ι : Type} [DecidableEq ι] {s : Snapshot ι Cmd Cmd.Reply PyError World}
    {i : ι} {c : PgCmd} (allowed : guarded.allows (reading i s.history) (.pg c))
    (unraced : Unraced s i (.pg c)) (records : ¬ (Cmd.pg c).RecordsNothing → c.Respects s.world.pg) :
    c.Respects s.world.pg := by
  cases c with
  | setTaskStatus taskId status =>
    obtain ⟨current, read, allowed⟩ := allowed
    have stored : reading i s.history = .task taskId (s.world.pg.taskStatus taskId) :=
      unraced _ rfl
    have same : s.world.pg.taskStatus taskId = current := by
      rw [read] at stored
      exact (Reading.task.inj stored).2.symm
    intro old row
    rw [← row, same]
    exact allowed
  | setCandidateStatus candidateId status =>
    obtain ⟨current, read, allowed⟩ := allowed
    have stored : reading i s.history =
        .candidate candidateId (s.world.pg.candidateStatus candidateId) :=
      unraced _ rfl
    have same : s.world.pg.candidateStatus candidateId = current := by
      rw [read] at stored
      exact (Reading.candidate.inj stored).2.symm
    intro old row
    rw [← row, same]
    exact allowed
  | insertTask id row => exact records not_false
  | insertCandidate id row => exact records not_false
  | _ => trivial

/-- So a daemon whose updates are not raced keeps the order, as far as its records do. -/
theorem order_of_unraced {ι : Type} [DecidableEq ι] {s : Snapshot ι Cmd Cmd.Reply PyError World}
    {i : ι} {c : Cmd} (allowed : guarded.allows (reading i s.history) c) (unraced : Unraced s i c)
    (records : c.RecordsRespect s.world.pg) (x : Choice) :
    StatusOrder s.world.pg (World.exec x c s.world).2.pg := by
  refine StatusOrder.world (fun statement same => ?_) x
  subst same
  refine respects_of_unraced allowed unraced fun writes => ?_
  cases statement with
  | insertTask _ _ => exact records
  | insertCandidate _ _ => exact records
  | _ => exact absurd trivial writes

/-! ## Daemons that update statuses -/

/-- Any number of daemons that call the update methods, on any ledger, with their statements in
any order. -/
def updates (ι : Type) : System ι Cmd Cmd.Reply PyError Choice World where
  exec := World.exec
  init := fun _ => True
  calls := fun _ p => ∃ id status, p = (StoreCall.updateTaskStatus id status).prog ∨
    p = (StoreCall.updateCandidateStatus id status).prog
  env := fun _ _ => False
  may := fun _ _ _ _ => True

/-- The runs in which no status changes between the two statements of an update of it. -/
def unracedUpdates (ι : Type) [DecidableEq ι] : System ι Cmd Cmd.Reply PyError Choice World :=
  { updates ι with may := fun s i _ c => Unraced s i c }

section Overlap

variable {ι : Type} [DecidableEq ι]

instance (s : Snapshot ι Cmd Cmd.Reply PyError World) (i : ι) (x : Choice) (c : Cmd) :
    Decidable ((unracedUpdates ι).may s i x c) :=
  inferInstanceAs (Decidable (Unraced s i c))

/-- Every daemon that updates keeps to the guard. -/
theorem updates_follow :
    (unracedUpdates ι).Follows guarded (fun _ => .nothing) fun _ _ => True where
  start := fun _ => trivial
  calls := by
    rintro i p q ⟨id, status, rfl | rfl⟩ _
    · exact (guarded_updateTaskStatus id status q).bind fun _ _ _ => trivial
    · exact (guarded_updateCandidateStatus id status q).bind fun _ _ _ => trivial

/-- The update methods record nothing. -/
theorem updates_use {i : ι} {p : Daemon Unit} (called : (unracedUpdates ι).calls i p) :
    p.Uses Cmd.RecordsNothing := by
  obtain ⟨id, status, rfl | rfl⟩ := called
  · refine Prog.Uses.bind ?_ fun _ => trivial
    refine (Prog.uses_call trivial).bind fun current => ?_
    split
    · exact (Prog.uses_call trivial).bind fun _ => trivial
    · trivial
  · refine Prog.Uses.bind ?_ fun _ => trivial
    refine (Prog.uses_call trivial).bind fun current => ?_
    split
    · exact (Prog.uses_call trivial).bind fun _ => trivial
    · trivial

/-- Every step keeps the order. -/
theorem updates_step {s t : State ι Cmd Cmd.Reply PyError World}
    (reached : (unracedUpdates ι).Reachable s) (moved : (unracedUpdates ι).Step s t) :
    StatusOrder s.world.pg t.world.pg := by
  cases moved with
  | call i p rests called => exact .refl _
  | cmd i x c k issues may =>
    refine StatusOrder.world (fun statement same => ?_) x
    subst same
    have silent : (Cmd.pg statement).RecordsNothing := reached.uses (fun _ _ => updates_use) issues
    exact respects_of_unraced (reached.allows updates_follow issues) may fun records =>
      absurd silent records
  | env w acts => exact acts.elim

/-- When no status changes between the two statements of an update of it, the guard holds of
every value overwritten, and a merged row stays merged. -/
theorem updates_keep_order {s : State ι Cmd Cmd.Reply PyError World}
    (reached : (unracedUpdates ι).Reachable s) :
    (∀ t, (unracedUpdates ι).Step s t → StatusOrder s.world.pg t.world.pg) ∧
      ∀ t, (unracedUpdates ι).Later s t →
        (∀ id, s.world.pg.taskStatus id = some "merged" →
          t.world.pg.taskStatus id = some "merged") ∧
        ∀ id status, status ∈ finalCandidateStatuses →
          s.world.pg.candidateStatus id = some status →
            t.world.pg.candidateStatus id = some status := by
  refine ⟨fun t moved => updates_step reached moved, fun t later => ?_⟩
  induction later with
  | refl => exact ⟨fun _ row => row, fun _ _ _ row => row⟩
  | tail passed moved ih =>
    have order := updates_step (reached.later passed) moved
    exact ⟨fun id row => order.merged (ih.1 id row),
      fun id status final row => order.final final (ih.2 id status final row)⟩

end Overlap

/-! ## Two updates of one candidate -/

/-- A candidate that is running. -/
def runningLedger : Postgres where
  tasks := Function.update (fun _ => none) "t"
    (some { repoPath := "/repo", sourcePath := "/repo/app.py", testPath := "/repo/test_app.py"
            status := "running" })
  candidates := Function.update (fun _ => none) "c"
    (some { taskId := "t", parentId := none, patchKind := "comparison_swap", status := "running"
            sourceRelpath := "app.py", filesTouched := ["app.py"], diffSummary := ""
            staticScore := 1 })

/-- Two daemons at rest over it. -/
def runningState : State (Fin 2) Cmd Cmd.Reply PyError World where
  world := { pg := runningLedger }
  history := []
  threads := fun _ => .ret ()

/-- A move of two daemons that update statuses. -/
abbrev UpdateMove := System.Move (Fin 2) Cmd Cmd.Reply PyError Choice World

/-- The merger has recorded the merge when the memory starts to report the verification. -/
def oneAfterTheOther : List UpdateMove :=
  [.call 0 (StoreCall.updateCandidateStatus "c" "merged").prog, .cmd 0 {}, .cmd 0 {},
    .call 1 (StoreCall.updateCandidateStatus "c" "verified").prog, .cmd 1 {}]

/-- The memory has read the status when the merger records the merge, and writes after it. -/
def readMergeWrite : List UpdateMove :=
  [.call 1 (StoreCall.updateCandidateStatus "c" "verified").prog, .cmd 1 {},
    .call 0 (StoreCall.updateCandidateStatus "c" "merged").prog, .cmd 0 {}, .cmd 0 {}]

/-- The memory reads `merged` and leaves the row alone. -/
theorem updates_keep_order_oneAfterTheOther :
    (((unracedUpdates (Fin 2)).schedule runningState oneAfterTheOther).world.pg.candidateStatus "c"
      = some "merged") := by
  have start : (unracedUpdates (Fin 2)).Reachable runningState :=
    .init runningState.world trivial
  have merged : (unracedUpdates (Fin 2)).PermitsAll runningState (oneAfterTheOther.take 3) :=
    ⟨⟨"c", "merged", .inr rfl⟩, by decide, by decide, trivial⟩
  have refused : (unracedUpdates (Fin 2)).PermitsAll
      ((unracedUpdates (Fin 2)).schedule runningState (oneAfterTheOther.take 3))
      (oneAfterTheOther.drop 3) :=
    ⟨⟨"c", "verified", .inr rfl⟩, by decide, trivial⟩
  exact ((updates_keep_order (start.later merged.later)).2 _ refused.later).2 "c" "merged"
    (by decide) (by decide)

/-- The memory has read `running` before the merge was recorded, and takes `merged` back. -/
theorem not_updates_keep_order :
    ¬ ∀ s : State (Fin 2) Cmd Cmd.Reply PyError World, (updates (Fin 2)).Reachable s →
      (∀ t, (updates (Fin 2)).Step s t → StatusOrder s.world.pg t.world.pg) ∧
        ∀ t, (updates (Fin 2)).Later s t → ∀ id status, status ∈ finalCandidateStatuses →
          s.world.pg.candidateStatus id = some status →
            t.world.pg.candidateStatus id = some status := by
  intro keeps
  have start : (updates (Fin 2)).Reachable runningState := .init runningState.world trivial
  have between : (updates (Fin 2)).PermitsAll runningState readMergeWrite :=
    ⟨⟨"c", "verified", .inr rfl⟩, fun _ _ _ => trivial, ⟨"c", "merged", .inr rfl⟩,
      fun _ _ _ => trivial, fun _ _ _ => trivial, trivial⟩
  have write : (updates (Fin 2)).PermitsAll ((updates (Fin 2)).schedule runningState readMergeWrite)
      [.cmd 1 {}] :=
    ⟨fun _ _ _ => trivial, trivial⟩
  have kept := (keeps _ (start.later between.later)).2 _ write.later "c" "merged" (by decide)
    (by decide)
  exact absurd kept (by decide)

end KernelOmega
