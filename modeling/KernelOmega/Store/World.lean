import KernelOmega.Concurrent.Prog
import KernelOmega.Store.Metadata
import KernelOmega.Store.Redis

/-!
# The world of the daemons

One command of a daemon is a Redis command, a Postgres statement, the creation of
a fresh identifier, a look at the clock, the merger's `apply_patch`, or what a
dispatcher and an executor do outside the stores: a capsule sent over a socket, the
run of its tests, the artifact kept of it. The scheduler's choice decides whether
the connection fails, which identifier is drawn, whether `apply_patch` raises, and
what becomes of a capsule.
-/

namespace KernelOmega

open Concurrent

/-- What the stores leave to the scheduler. -/
structure Choice where
  /-- The connection fails, or `apply_patch` raises; the command changes nothing. -/
  fail : Bool := false
  /-- The identifier drawn by `uuid4`, or the place an artifact is kept at. -/
  fresh : String := ""
  /-- A socket operation that fails has delivered the capsule whole all the same. -/
  delivered : Bool := false
  /-- Which of the waiting capsules an executor takes. -/
  pick : Nat := 0
  /-- What the tests of a capsule report. -/
  outcome : TestOutcome := {}
  deriving DecidableEq

/-- Everything the daemons share: the two stores, the patches that have been applied, and the clock.
-/
structure World where
  redis : Redis := {}
  pg : Postgres := {}
  clock : Nat := 0
  /-- The payloads `apply_patch` returned normally for, oldest first. -/
  patched : List AcceptedPayload := []
  /-- The capsules that reached an executor's port whole and wait there, with the core. -/
  inbox : List (Nat × TaskCapsule) := []

/-- A point of a program worth naming in the history. Marks have no effect. -/
inductive Mark where
  /-- An `expand` call starts to generate the children of this node. -/
  | expanding (nodeId : String)
  deriving DecidableEq

/-- A command outside the stores. The executor reads a connection to its end, so a capsule
is there for it when the writing side is shut down, or closed after an error. -/
inductive HostCmd where
  /-- `socket.create_connection` to the port of a core. -/
  | connect (core : Nat)
  /-- `sock.sendall` of a capsule's JSON. -/
  | sendall (core : Nat) (capsule : TaskCapsule)
  /-- `sock.shutdown(SHUT_WR)` after the capsule. -/
  | shutdown (core : Nat) (capsule : TaskCapsule)
  /-- An executor takes a connection of its port and reads it to its end. -/
  | accept (core : Nat)
  /-- The tests of a capsule are run. -/
  | runTests (capsule : TaskCapsule)
  /-- The artifact of a run is kept; the reply is where. -/
  | putArtifact (capsule : TaskCapsule) (outcome : TestOutcome)
  deriving DecidableEq

/-- What each call to the host returns. -/
abbrev HostCmd.Reply : HostCmd → Type
  | .accept _ => Option TaskCapsule
  | .runTests _ => TestOutcome
  | .putArtifact _ _ => String
  | _ => Unit

/-- All a daemon does to the outside. `mark` does nothing and leaves its event in the history, where
statements about the program's own progress find it. -/
inductive Cmd where
  | redis (c : RedisCmd)
  | pg (c : PgCmd)
  | uuid4
  | time
  | applyPatch (payload : AcceptedPayload)
  | host (c : HostCmd)
  | mark (m : Mark)
  deriving DecidableEq

/-- What each command returns when it does not raise. -/
abbrev Cmd.Reply : Cmd → Type
  | .redis c => c.Reply
  | .pg c => c.Reply
  | .uuid4 => String
  | .time => Nat
  | .applyPatch _ => Unit
  | .host c => c.Reply
  | .mark _ => Unit

/-- The capsule is at the port. -/
def World.receive (w : World) (core : Nat) (capsule : TaskCapsule) : World :=
  { w with inbox := w.inbox ++ [(core, capsule)] }

/-- The meaning of one command outside the stores. -/
def World.execHost (x : Choice) (w : World) : (c : HostCmd) → Except PyError c.Reply × World
  | .connect _ => if x.fail then (.error (.osError x.fresh), w) else (.ok (), w)
  | .sendall core capsule =>
    if x.fail then
      (.error (.osError x.fresh), if x.delivered then w.receive core capsule else w)
    else (.ok (), w)
  | .shutdown core capsule =>
    if x.fail then
      (.error (.osError x.fresh), if x.delivered then w.receive core capsule else w)
    else (.ok (), w.receive core capsule)
  | .accept core =>
    match w.inbox[x.pick]? with
    | some (port, capsule) =>
      if port = core then (.ok (some capsule), { w with inbox := w.inbox.eraseIdx x.pick })
      else (.ok none, w)
    | none => (.ok none, w)
  | .runTests _ => if x.fail then (.error (.runtimeError "funnel"), w) else (.ok x.outcome, w)
  | .putArtifact _ _ => if x.fail then (.error (.runtimeError "artifact"), w) else (.ok x.fresh, w)

/-- The meaning of one command of a daemon. -/
def World.exec : Exec Cmd Cmd.Reply PyError Choice World
  | x, .redis c, w =>
    if x.fail then (.error .connectionError, w)
    else (.ok (w.redis.exec w.clock c).1, { w with redis := (w.redis.exec w.clock c).2 })
  | x, .pg c, w =>
    if x.fail then (.error .connectionError, w)
    else ((w.pg.exec c).1, { w with pg := (w.pg.exec c).2 })
  | x, .uuid4, w => (.ok x.fresh, w)
  | _, .time, w => (.ok w.clock, w)
  | x, .applyPatch payload, w =>
    if x.fail then (.error (.runtimeError "git"), w)
    else (.ok (), { w with patched := w.patched ++ [payload] })
  | x, .host c, w => w.execHost x c
  | _, .mark _, w => (.ok (), w)

theorem World.exec_redis_fail {x : Choice} (fail : x.fail = true) (c : RedisCmd) (w : World) :
    World.exec x (.redis c) w = (.error .connectionError, w) := by
  simp only [World.exec, fail, ↓reduceIte]

theorem World.exec_redis_ok {x : Choice} (ok : x.fail = false) (c : RedisCmd) (w : World) :
    World.exec x (.redis c) w =
      (.ok (w.redis.exec w.clock c).1, { w with redis := (w.redis.exec w.clock c).2 }) := by
  simp only [World.exec, ok, Bool.false_eq_true, ↓reduceIte]

/-- A reply comes from the store as the command found it. -/
theorem World.exec_redis_eq_ok {x : Choice} {c : RedisCmd} {w : World} {v : c.Reply}
    (reply : (World.exec x (.redis c) w).1 = .ok v) :
    x.fail = false ∧ v = (w.redis.exec w.clock c).1 := by
  cases fails : x.fail with
  | true =>
    rw [World.exec_redis_fail fails] at reply
    cases reply
  | false =>
    rw [World.exec_redis_ok fails] at reply
    exact ⟨rfl, (Except.ok.inj reply).symm⟩

theorem World.exec_pg_ok {x : Choice} (ok : x.fail = false) (c : PgCmd) (w : World) :
    World.exec x (.pg c) w = ((w.pg.exec c).1, { w with pg := (w.pg.exec c).2 }) := by
  simp only [World.exec, ok, Bool.false_eq_true, ↓reduceIte]

/-- A statement's reply comes from the ledger as it found it. -/
theorem World.exec_pg_eq_ok {x : Choice} {c : PgCmd} {w : World} {v : c.Reply}
    (reply : (World.exec x (.pg c) w).1 = .ok v) :
    (w.pg.exec c).1 = .ok v ∧ (World.exec x (.pg c) w).2.pg = (w.pg.exec c).2 := by
  cases fails : x.fail with
  | true =>
    simp only [World.exec, fails, ↓reduceIte] at reply
    cases reply
  | false =>
    simp only [World.exec, fails, Bool.false_eq_true, ↓reduceIte] at reply ⊢
    exact ⟨reply, trivial⟩

/-- A statement that fails changes nothing. -/
theorem World.exec_pg_error {x : Choice} {c : PgCmd} {w : World} {e : PyError}
    (failed : (World.exec x (.pg c) w).1 = .error e) : (World.exec x (.pg c) w).2.pg = w.pg := by
  cases fails : x.fail with
  | true => simp only [World.exec, fails, ↓reduceIte]
  | false =>
    rw [World.exec_pg_ok fails] at failed ⊢
    exact Postgres.exec_error failed

/-- A command outside the stores changes what waits at the ports, if anything. -/
theorem World.execHost_inbox (x : Choice) (w : World) (c : HostCmd) :
    ∃ inbox, (w.execHost x c).2 = { w with inbox := inbox } := by
  have same : ∃ inbox, w = { w with inbox := inbox } := ⟨w.inbox, rfl⟩
  have received : ∀ core capsule, ∃ inbox,
      (if x.delivered then w.receive core capsule else w) = { w with inbox := inbox } := by
    intro core capsule
    split
    · exact ⟨_, rfl⟩
    · exact same
  cases c with
  | connect core =>
    simp only [World.execHost]
    split <;> exact same
  | sendall core capsule =>
    simp only [World.execHost]
    split
    · exact received core capsule
    · exact same
  | shutdown core capsule =>
    simp only [World.execHost]
    split
    · exact received core capsule
    · exact ⟨_, rfl⟩
  | accept core =>
    simp only [World.execHost]
    split
    · split
      · exact ⟨_, rfl⟩
      · exact same
    · exact same
  | runTests capsule =>
    simp only [World.execHost]
    split <;> exact same
  | putArtifact capsule outcome =>
    simp only [World.execHost]
    split <;> exact same

/-- A command changes Redis through a Redis command only. -/
theorem World.exec_redis_cases (x : Choice) (c : Cmd) (w : World) :
    (World.exec x c w).2.redis = w.redis ∨
      ∃ command, c = .redis command ∧
        (World.exec x c w).2.redis = (w.redis.exec w.clock command).2 := by
  cases c with
  | redis command =>
    simp only [World.exec]
    split
    · exact .inl rfl
    · exact .inr ⟨command, rfl, rfl⟩
  | pg statement =>
    simp only [World.exec]
    split <;> exact .inl rfl
  | applyPatch payload =>
    simp only [World.exec]
    split <;> exact .inl rfl
  | host c =>
    obtain ⟨inbox, after⟩ := World.execHost_inbox x w c
    left
    show (w.execHost x c).2.redis = w.redis
    rw [after]
  | _ => exact .inl rfl

/-- A command changes the ledger through a statement only. -/
theorem World.exec_pg (x : Choice) (c : Cmd) (w : World) :
    (World.exec x c w).2.pg = w.pg ∨
      ∃ statement, c = .pg statement ∧ (World.exec x c w).2.pg = (w.pg.exec statement).2 := by
  cases c with
  | pg statement =>
    simp only [World.exec]
    split
    · exact .inl rfl
    · exact .inr ⟨statement, rfl, rfl⟩
  | redis c =>
    simp only [World.exec]
    split <;> exact .inl rfl
  | applyPatch payload =>
    simp only [World.exec]
    split <;> exact .inl rfl
  | host c =>
    obtain ⟨inbox, after⟩ := World.execHost_inbox x w c
    left
    show (w.execHost x c).2.pg = w.pg
    rw [after]
  | _ => exact .inl rfl

/-- A command that changes nothing in Redis except how far a consumer group has read. -/
def Cmd.Passive : Cmd → Prop
  | .redis c => c.Passive
  | .pg _ => True
  | .uuid4 => True
  | .time => True
  | .applyPatch _ => False
  | .host _ => True
  | .mark _ => False

/-- A program of a daemon. -/
abbrev Daemon (α : Type) := Prog Cmd Cmd.Reply PyError α

namespace Daemon

/-- A command of the store, -/
def redis (c : RedisCmd) : Daemon c.Reply := Prog.call (Cmd.redis c)

/-- of the ledger, -/
def pg (c : PgCmd) : Daemon c.Reply := Prog.call (Cmd.pg c)

/-- or of the host. -/
def host (c : HostCmd) : Daemon c.Reply := Prog.call (Cmd.host c)

/-- `MetadataStore.update_task_status`; the reply tells whether the row was written. -/
def updateTaskStatus (taskId status : String) : Daemon Bool := do
  let current ← pg (.fetchTaskStatus taskId)
  if canTransitionTaskStatus current status then
    pg (.setTaskStatus taskId status)
    return true
  else
    return false

/-- `MetadataStore.update_candidate_status` -/
def updateCandidateStatus (candidateId status : String) : Daemon Bool := do
  let current ← pg (.fetchCandidateStatus candidateId)
  if canTransitionCandidateStatus current status then
    pg (.setCandidateStatus candidateId status)
    return true
  else
    return false

/-! The two statements of each of them. -/

/-- A guarded update issues a `SELECT` and an `UPDATE` of the same row, -/
theorem updateTaskStatus_uses {P : Cmd → Prop} {taskId status : String}
    (fetch : P (.pg (.fetchTaskStatus taskId))) (set : P (.pg (.setTaskStatus taskId status))) :
    (updateTaskStatus taskId status).Uses P := by
  refine (Prog.uses_call fetch).bind fun current => ?_
  split
  · exact (Prog.uses_call set).bind fun _ => trivial
  · trivial

/-- for tasks as for candidates. -/
theorem updateCandidateStatus_uses {P : Cmd → Prop} {candidateId status : String}
    (fetch : P (.pg (.fetchCandidateStatus candidateId)))
    (set : P (.pg (.setCandidateStatus candidateId status))) :
    (updateCandidateStatus candidateId status).Uses P := by
  refine (Prog.uses_call fetch).bind fun current => ?_
  split
  · exact (Prog.uses_call set).bind fun _ => trivial
  · trivial

theorem updateTaskStatus_passive (taskId status : String) :
    (updateTaskStatus taskId status).Uses Cmd.Passive :=
  updateTaskStatus_uses trivial trivial

theorem updateCandidateStatus_passive (candidateId status : String) :
    (updateCandidateStatus candidateId status).Uses Cmd.Passive :=
  updateCandidateStatus_uses trivial trivial

end Daemon

end KernelOmega
