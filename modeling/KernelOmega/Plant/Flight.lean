import KernelOmega.Dispatcher
import KernelOmega.Plant.Claiming
import KernelOmega.Plant.Gating
import KernelOmega.Plant.Remembering
import KernelOmega.Plant.Seeding
import KernelOmega.Store.Effects

/-!
# Requests under way

A request goes from the worker that draws its run id through the dispatch stream to a
dispatcher, from there through an executor's port to the executor, and comes back as a
result. `Sending` is how far a dispatcher is with the request at hand, and `Running` how far
an executor is with its capsule. `Cmd.Apart` are the commands that touch nothing of this
traffic; the memories, the gates and the mergers issue no others, except for the completions
a memory records.
-/

namespace KernelOmega

open Concurrent

/-! ## The dispatcher -/

/-- How far a dispatcher is; `rest` are the requests of the batch after the one at hand. -/
inductive Sending where
  | idle (rest : List ExecutionRequest)
  /-- The request is counted in flight. -/
  | opened (request : ExecutionRequest) (rest : List ExecutionRequest)
  /-- The whole capsule is sent. -/
  | sent (request : ExecutionRequest) (rest : List ExecutionRequest)
  /-- A socket operation has raised. -/
  | failed (request : ExecutionRequest) (rest : List ExecutionRequest)
  /-- The request is counted out again. -/
  | refunded (request : ExecutionRequest) (rest : List ExecutionRequest)
  /-- Its execution is recorded as failed. -/
  | completed (request : ExecutionRequest) (rest : List ExecutionRequest)

namespace Sending

/-- Where a command leads. A failing command raises; the socket's errors are caught. -/
def next (q : Sending) : (c : Cmd) → Except PyError c.Reply → Sending
  | .redis (.xreadgroupDispatch _ _) => fun
    | .ok messages => .idle (messages.map (·.request))
    | .error _ => q
  | .redis (.incr _) => fun
    | .ok _ =>
      match q with
      | .idle (request :: rest) => .opened request rest
      | _ => q
    | .error _ => q
  | .host (.connect _) => fun
    | .ok _ => q
    | .error _ =>
      match q with
      | .opened request rest => .failed request rest
      | _ => q
  | .host (.sendall _ _) => fun
    | .ok _ => q
    | .error _ =>
      match q with
      | .opened request rest => .failed request rest
      | _ => q
  | .host (.shutdown _ _) => fun
    | .ok _ =>
      match q with
      | .opened request rest => .sent request rest
      | _ => q
    | .error _ =>
      match q with
      | .opened request rest => .failed request rest
      | _ => q
  | .redis (.decr _) => fun
    | .ok _ =>
      match q with
      | .failed request rest => .refunded request rest
      | _ => q
    | .error _ => q
  | .pg (.completeExecution _) => fun
    | .ok _ =>
      match q with
      | .refunded request rest => .completed request rest
      | _ => q
    | .error _ => q
  | .redis (.xaddResult _) => fun
    | .ok _ =>
      match q with
      | .completed _ rest => .idle rest
      | _ => q
    | .error _ => q
  | .pg (.markExecutionStarted _) => fun
    | .ok _ =>
      match q with
      | .sent _ rest => .idle rest
      | _ => q
    | .error _ => q
  | _ => fun _ => q

/-- The commands of a dispatcher. -/
def Allows (q : Sending) : Cmd → Prop
  | .redis (.xreadgroupDispatch group _) => group = "dispatch_group" ∧ q = .idle []
  | .redis (.incr key) => key = statsInflight ∧ ∃ request rest, q = .idle (request :: rest)
  | .host (.connect _) => ∃ request rest, q = .opened request rest
  | .host (.sendall _ capsule) => ∃ request rest, q = .opened request rest ∧ capsule = request.capsule
  | .host (.shutdown _ capsule) => ∃ request rest, q = .opened request rest ∧ capsule = request.capsule
  | .redis (.decr key) => key = statsInflight ∧ ∃ request rest, q = .failed request rest
  | .pg (.completeExecution pack) => ∃ request rest, q = .refunded request rest ∧
      pack.runId = request.runId
  | .redis (.xaddResult pack) => ∃ request rest, q = .completed request rest ∧
      pack.runId = request.runId
  | .pg (.markExecutionStarted runId) => ∃ request rest, q = .sent request rest ∧
      runId = request.runId
  | .redis (.pipeline ops) => ∀ op ∈ ops, ∃ id, op = .xack "dispatch_group" id
  | .pg (.fetchCandidateStatus _) => True
  | .pg (.setCandidateStatus _ _) => True
  | .pg (.mergeExecutionMeta _) => True
  | _ => False

end Sending

/-- A dispatcher's way with a request, -/
def sendProtocol : Typestate Cmd Cmd.Reply PyError Sending where
  next := Sending.next
  allows := Sending.Allows

namespace Dispatcher

variable (self : Dispatcher)

/-- A dispatcher's report of a status leaves its request where it is. -/
theorem updateCandidateStatus_sends (q : Sending) (candidateId status : String) :
    (Daemon.updateCandidateStatus candidateId status).Keeps sendProtocol (fun _ q' => q' = q)
      (fun _ _ => True) q := by
  refine Prog.Keeps.call_bind trivial (fun current => ?_) fun _ => trivial
  split
  · exact Prog.Keeps.call_bind trivial (fun _ => rfl) fun _ => trivial
  · exact rfl

/-- The attempt to send says how it ended: a failure is caught, and the request is answered for. -/
theorem sendCatching_keeps (request : ExecutionRequest) (rest : List ExecutionRequest) :
    (sendCatching request).Keeps sendProtocol
      (fun failure q => q = if failure.isSome then .failed request rest else .sent request rest)
      (fun _ _ => True) (.opened request rest) := by
  have sends : (send request).Keeps sendProtocol (fun _ q => q = .sent request rest)
      (fun _ q => q = .failed request rest) (.opened request rest) := by
    refine Prog.Keeps.call_bind ⟨request, rest, rfl⟩ (fun _ => ?_) fun _ => rfl
    refine Prog.Keeps.call_bind ⟨request, rest, rfl, rfl⟩ (fun _ => ?_) fun _ => rfl
    exact Prog.Keeps.call ⟨request, rest, rfl, rfl⟩ (fun _ => rfl) fun _ => rfl
  refine Prog.Keeps.tryCatch (sends.bind fun _ q here => ?_) fun e q here => ?_
  · exact here
  · subst here
    cases e with
    | osError message => exact rfl
    | _ => exact trivial

/-- One request is dispatched and the next is at hand. -/
theorem dispatch_keeps (request : ExecutionRequest) (rest : List ExecutionRequest) :
    (self.dispatch request).Keeps sendProtocol (fun _ q => q = .idle rest) (fun _ _ => True)
      (.idle (request :: rest)) := by
  refine Prog.Keeps.call_bind ⟨rfl, request, rest, rfl⟩ (fun _ => ?_) fun _ => trivial
  refine (sendCatching_keeps request rest).bind fun failure q here => ?_
  subst here
  cases failure with
  | some message =>
    refine Prog.Keeps.call_bind ⟨rfl, request, rest, rfl⟩ (fun _ => ?_) fun _ => trivial
    refine (updateCandidateStatus_sends _ _ _).bind fun _ q here => ?_
    subst here
    refine Prog.Keeps.call_bind ⟨request, rest, rfl, rfl⟩ (fun _ => ?_) fun _ => trivial
    exact Prog.Keeps.call ⟨request, rest, rfl, rfl⟩ (fun _ => rfl) fun _ => trivial
  | none =>
    refine Prog.Keeps.call_bind ⟨request, rest, rfl, rfl⟩ (fun _ => ?_) fun _ => trivial
    refine Prog.Keeps.call_bind trivial (fun _ => ?_) fun _ => trivial
    exact (updateCandidateStatus_sends _ _ _).bind fun _ q here => here

/-- A turn of the dispatcher. -/
theorem turn_keeps : self.turn.Keeps sendProtocol (fun _ q => q = .idle []) (fun _ _ => True)
    (.idle []) := by
  have batch : ∀ messages pipe, (∀ op ∈ pipe, ∃ id, op = RedisOp.xack "dispatch_group" id) →
      (self.dispatchBatch messages pipe).Keeps sendProtocol (fun _ q => q = .idle [])
        (fun _ _ => True) (.idle (messages.map (·.request))) := by
    intro messages
    induction messages with
    | nil => exact fun pipe acks => Prog.Keeps.call acks (fun _ => rfl) fun _ => trivial
    | cons message rest ih =>
      intro pipe acks
      refine (self.dispatch_keeps message.request _).bind fun _ q here => ?_
      subst here
      refine ih _ fun op mem => ?_
      rcases List.mem_append.mp mem with mem | mem
      · exact acks op mem
      · exact ⟨_, List.mem_singleton.mp mem⟩
  refine Prog.Keeps.call_bind ⟨rfl, rfl⟩ (fun messages => ?_) fun _ => trivial
  split
  · next none =>
    rw [List.isEmpty_iff] at none
    subst none
    exact rfl
  · exact batch messages [] fun _ mem => by cases mem

end Dispatcher

/-! ## The executors -/

/-- How far an executor is with its capsule. -/
inductive Running where
  | idle
  | holding (capsule : TaskCapsule)
  /-- The result is published. -/
  | published (capsule : TaskCapsule)
  /-- The capsule could not be read, or what was to follow the run has failed. -/
  | lost

namespace Running

/-- An executor holds the capsule it has read until its pack is on the results stream, and is
counted in flight until its `DECR`. An exception loses it. -/
def next (reads : TaskCapsule → Bool) (q : Running) : (c : Cmd) → Except PyError c.Reply → Running
  | .host (.accept _) => fun
    | .ok (some capsule) => if reads capsule then .holding capsule else .lost
    | _ => q
  | .redis (.xaddResult _) => fun
    | .ok _ =>
      match q with
      | .holding capsule => .published capsule
      | _ => q
    | .error _ => .lost
  | .redis (.decr _) => fun
    | .ok _ => .idle
    | .error _ => .lost
  | _ => fun _ => q

/-- The commands of an executor. -/
def Allows (q : Running) : Cmd → Prop
  | .host (.accept _) => q = .idle ∨ q = .lost
  | .host (.runTests _) => True
  | .host (.putArtifact _ _) => True
  | .redis (.xaddResult pack) => ∃ capsule, q = .holding capsule ∧ pack.runId = capsule.runId
  | .redis (.decr key) => key = statsInflight ∧ ∃ capsule, q = .published capsule
  | _ => False

end Running

/-- and an executor's with a capsule. -/
def runProtocol (reads : TaskCapsule → Bool) : Typestate Cmd Cmd.Reply PyError Running where
  next := Running.next reads
  allows := Running.Allows

namespace Executor

variable (self : Executor)

/-- The simulator reads every capsule. -/
theorem handle_keeps (core : Nat) {q : Running} (rests : q = .idle ∨ q = .lost) :
    (self.handle core).Keeps (runProtocol fun _ => true) (fun _ q => q = .idle ∨ q = .lost)
      (fun _ _ => True) q := by
  refine Prog.Keeps.call_bind rests (fun received => ?_) fun _ => trivial
  cases received with
  | none => exact rests
  | some capsule =>
    refine Prog.Keeps.call_bind trivial (fun outcome => ?_) fun _ => trivial
    refine Prog.Keeps.call_bind trivial (fun artifactUri => ?_) fun _ => trivial
    refine Prog.Keeps.call_bind ⟨capsule, rfl, rfl⟩ (fun _ => ?_) fun _ => trivial
    exact Prog.Keeps.call_bind ⟨rfl, capsule, rfl⟩ (fun _ => .inl rfl) fun _ => trivial

/-- Publishing a result answers the capsule, and lowers the counter unless an exception comes
between. -/
theorem publishResult_keeps {reads : TaskCapsule → Bool} {capsule : TaskCapsule}
    {pack : VerificationPack} (same : pack.runId = capsule.runId) :
    (publishResult pack).Keeps (runProtocol reads) (fun _ q => q = .idle ∨ q = .lost)
      (fun _ _ => True) (.holding capsule) := by
  have publishes : (do
        Daemon.redis (.xaddResult pack)
        let _ ← Daemon.redis (.decr statsInflight)
        return () : Daemon Unit).Keeps (runProtocol reads) (fun _ q => q = .idle ∨ q = .lost)
      (fun _ q => q = .lost) (.holding capsule) := by
    refine Prog.Keeps.call_bind ⟨capsule, rfl, same⟩ (fun _ => ?_) fun _ => rfl
    exact Prog.Keeps.call_bind ⟨rfl, capsule, rfl⟩ (fun _ => .inl rfl) fun _ => rfl
  exact publishes.tryCatch fun _ _ here => .inr here

/-- A core's task takes one capsule and answers it, or loses it with its connection. -/
theorem coreTask_keeps (reads : TaskCapsule → Bool) (core : Nat) {q : Running}
    (rests : q = .idle ∨ q = .lost) :
    (self.coreTask reads core).Keeps (runProtocol reads) (fun _ q => q = .idle ∨ q = .lost)
      (fun _ _ => True) q := by
  refine Prog.Keeps.call_bind rests (fun received => ?_) fun _ => trivial
  cases received with
  | none => exact rests
  | some capsule =>
    dsimp only
    split
    · next readable =>
      have holds : q.next reads (.host (.accept core)) (.ok (some capsule)) = .holding capsule :=
        if_pos readable
      have tests : ((Daemon.host (.runTests capsule)).tryCatch fun _ =>
            return { testsFailed := 1, error := some "VMFailure" }).Keeps (runProtocol reads)
          (fun _ q => q = .holding capsule) (fun _ _ => True) (.holding capsule) := by
        have runs : (Daemon.host (.runTests capsule)).Keeps (runProtocol reads)
            (fun _ q => q = .holding capsule) (fun _ q => q = .holding capsule) (.holding capsule) :=
          Prog.Keeps.call trivial (fun _ => rfl) fun _ => rfl
        exact runs.tryCatch fun _ _ here => show _ = _ from here
      have keeps : ∀ outcome, ((do
            let kept ← Daemon.host (.putArtifact capsule outcome)
            return some kept : Daemon (Option String)).tryCatch fun _ => return none).Keeps
          (runProtocol reads) (fun _ q => q = .holding capsule) (fun _ _ => True)
          (.holding capsule) := by
        intro outcome
        have puts : (do
              let kept ← Daemon.host (.putArtifact capsule outcome)
              return some kept : Daemon (Option String)).Keeps (runProtocol reads)
            (fun _ q => q = .holding capsule) (fun _ q => q = .holding capsule) (.holding capsule) :=
          Prog.Keeps.call_bind trivial (fun _ => rfl) fun _ => rfl
        exact puts.tryCatch fun _ _ here => show _ = _ from here
      show Prog.Keeps _ _ _ _ (q.next reads (.host (.accept core)) (.ok (some capsule)))
      rw [holds]
      refine tests.bind fun outcome q here => ?_
      subst here
      refine (keeps outcome).bind fun artifactUri q here => ?_
      subst here
      exact publishResult_keeps rfl
    · next unreadable => exact .inr (if_neg unreadable)

end Executor

/-! ## Commands apart from the traffic -/

/-- A command that touches no request, no capsule, no result, no execution and not the counter
of requests in flight. -/
def Cmd.Apart : Cmd → Prop
  | .redis (.incr key) => key ≠ statsInflight
  | .redis (.decr key) => key ≠ statsInflight
  | .redis (.xaddDispatch _) => False
  | .redis (.xaddResult _) => False
  | .redis (.xreadgroupDispatch _ _) => False
  | .redis (.xreadgroupResults group _) => group ≠ "dispatch_group"
  | .redis (.xreadgroupAccepted group _) => group ≠ "dispatch_group"
  | .redis (.pipeline ops) => (ops.map (RedisOp.adds statsInflight)).sum = 0
  | .redis _ => True
  | .pg (.insertExecution _ _) => False
  | .pg (.markExecutionStarted _) => False
  | .pg (.completeExecution _) => False
  | .pg _ => True
  | .uuid4 => False
  | .host (.sendall _ _) => False
  | .host (.shutdown _ _) => False
  | .host (.accept _) => False
  | .host _ => True
  | .time => True
  | .applyPatch _ => True
  | .mark _ => True

/-- What the stores and the ports hold of the traffic. -/
structure Traffic where
  dispatch : List ExecutionRequest
  taken : Nat
  packs : List (Except PyError VerificationPack)
  count : Int
  inbox : List (Nat × TaskCapsule)
  executions : String → Option ExecutionRow

/-- What of the world the capsules in flight are about. -/
def World.traffic (w : World) : Traffic where
  dispatch := w.redis.dispatch
  taken := w.redis.delivered "dispatch_group"
  packs := w.redis.packs
  count := w.redis.count statsInflight
  inbox := w.inbox
  executions := w.pg.executions

/-- The part of the traffic that is in Redis. -/
theorem Redis.exec_traffic_of_apart {c : RedisCmd} (apart : (Cmd.redis c).Apart) (now : Nat)
    (r : Redis) :
    (r.exec now c).2.dispatch = r.dispatch ∧
      (r.exec now c).2.delivered "dispatch_group" = r.delivered "dispatch_group" ∧
      (r.exec now c).2.packs = r.packs ∧
      (r.exec now c).2.count statsInflight = r.count statsInflight := by
  cases c with
  | incr key =>
    refine ⟨rfl, rfl, rfl, ?_⟩
    exact (r.count_addToCounter statsInflight key 1).trans (by rw [if_neg apart, Int.add_zero])
  | decr key =>
    refine ⟨rfl, rfl, rfl, ?_⟩
    exact (r.count_addToCounter statsInflight key (-1)).trans (by rw [if_neg apart, Int.add_zero])
  | set key value nx ex =>
    simp only [Redis.exec]
    split <;> exact ⟨rfl, rfl, rfl, rfl⟩
  | xreadgroupResults group count => exact ⟨rfl, Function.update_of_ne (Ne.symm apart) _ _, rfl, rfl⟩
  | xreadgroupAccepted group count => exact ⟨rfl, Function.update_of_ne (Ne.symm apart) _ _, rfl, rfl⟩
  | pipeline ops =>
    refine ⟨applyAll_dispatch r ops, congrFun (applyAll_delivered r ops) _,
      congrArg (List.map ResultMessage.pack) (applyAll_results r ops), ?_⟩
    exact (applyAll_count r ops statsInflight).trans (by rw [show _ = (0 : Int) from apart, Int.add_zero])
  | xaddDispatch _ | xaddResult _ | xreadgroupDispatch _ _ => exact apart.elim
  | _ => exact ⟨rfl, rfl, rfl, rfl⟩

/-- The executions are the part that is in the ledger. -/
theorem Postgres.exec_executions_of_apart {c : PgCmd} (apart : (Cmd.pg c).Apart) (p : Postgres) :
    (p.exec c).2.executions = p.executions := by
  cases c with
  | setTaskStatus _ _ | setCandidateStatus _ _ =>
    simp only [Postgres.exec]
    split <;> rfl
  | insertCandidate id row => exact SeedTask.insertCandidate_executions p id row
  | recordPolicyDecision _ _ =>
    simp only [Postgres.exec]
    split <;> rfl
  | insertExecution _ _ | markExecutionStarted _ | completeExecution _ => exact apart.elim
  | _ => rfl

/-- A command apart from the traffic leaves all of it alone. -/
theorem World.exec_traffic_of_apart {c : Cmd} (apart : c.Apart) (x : Choice) (w : World) :
    (World.exec x c w).2.traffic = w.traffic := by
  cases c with
  | redis c =>
    simp only [World.exec]
    split
    · rfl
    · obtain ⟨dispatch, taken, packs, count⟩ := Redis.exec_traffic_of_apart apart w.clock w.redis
      simp only [traffic, dispatch, taken, packs, count]
  | pg c =>
    simp only [World.exec]
    split
    · rfl
    · simp only [traffic, Postgres.exec_executions_of_apart apart w.pg]
  | applyPatch payload =>
    simp only [World.exec]
    split <;> rfl
  | host c =>
    cases c with
    | connect _ | runTests _ | putArtifact _ _ =>
      simp only [World.exec, World.execHost]
      split <;> rfl
    | _ => exact apart.elim
  | _ => rfl

theorem Weather.traffic {w w' : World} (around : Weather w w') : w'.traffic = w.traffic := by
  cases around <;> rfl

/-! ### The commands of the traffic -/

namespace Traffic

/-- The run ids of the requests no dispatcher has taken. -/
def undelivered (t : Traffic) : List String := (t.dispatch.drop t.taken).map (·.runId)

/-- The run ids of the capsules that wait at a port. -/
def waiting (t : Traffic) : List String := t.inbox.map (·.2.runId)

/-- The run ids of all requests. -/
def entries (t : Traffic) : List String := t.dispatch.map (·.runId)

/-- The run ids of all results. -/
def results (t : Traffic) : List String :=
  t.packs.filterMap fun pack => pack.toOption.map (·.runId)

/-- The next requests. -/
def batch (t : Traffic) (count : Nat) : List ExecutionRequest := (t.dispatch.drop t.taken).take count

/-- Taking the next requests leaves the ones after them. -/
theorem undelivered_eq (t : Traffic) (count : Nat) :
    t.undelivered = (t.batch count).map (·.runId) ++
      undelivered { t with taken := t.taken + (t.batch count).length } := by
  have rest : ∀ l : List ExecutionRequest, l = l.take count ++ l.drop (l.take count).length := by
    intro l
    rw [List.length_take]
    rcases Nat.le_total count l.length with short | long
    · rw [Nat.min_eq_left short, List.take_append_drop]
    · rw [Nat.min_eq_right long, List.take_of_length_le long, List.drop_length, List.append_nil]
  unfold undelivered batch
  rw [← List.map_append, ← List.drop_drop, ← rest]

end Traffic

/-- A command that neither adds a request nor takes one. -/
def Cmd.LeavesRequests : Cmd → Prop
  | .redis (.xaddDispatch _) => False
  | .redis (.xreadgroupDispatch _ _) => False
  | .redis (.xreadgroupResults group _) => group ≠ "dispatch_group"
  | .redis (.xreadgroupAccepted group _) => group ≠ "dispatch_group"
  | _ => True

/-- Only workers and dispatchers move the dispatch stream. -/
theorem World.exec_requests {c : Cmd} (leaves : c.LeavesRequests) (x : Choice) (w : World) :
    (World.exec x c w).2.traffic.dispatch = w.traffic.dispatch ∧
      (World.exec x c w).2.traffic.taken = w.traffic.taken := by
  rcases World.exec_redis_cases x c w with same | ⟨command, rfl, after⟩
  · simp only [traffic, same, and_self]
  · simp only [traffic, after]
    cases command with
    | set key value nx ex =>
      simp only [Redis.exec]
      split <;> exact ⟨rfl, rfl⟩
    | xreadgroupResults group count => exact ⟨rfl, Function.update_of_ne (Ne.symm leaves) _ _⟩
    | xreadgroupAccepted group count => exact ⟨rfl, Function.update_of_ne (Ne.symm leaves) _ _⟩
    | pipeline ops =>
      exact ⟨Redis.applyAll_dispatch w.redis ops, congrFun (Redis.applyAll_delivered w.redis ops) _⟩
    | xaddDispatch _ | xreadgroupDispatch _ _ => exact leaves.elim
    | _ => exact ⟨rfl, rfl⟩

theorem World.exec_undelivered {c : Cmd} (leaves : c.LeavesRequests) (x : Choice) (w : World) :
    (World.exec x c w).2.traffic.undelivered = w.traffic.undelivered := by
  obtain ⟨dispatch, taken⟩ := World.exec_requests leaves x w
  simp only [Traffic.undelivered, dispatch, taken]

theorem Cmd.Apart.leaves {c : Cmd} (apart : c.Apart) : c.LeavesRequests := by
  cases c with
  | redis c => cases c <;> first | exact apart | trivial
  | _ => trivial

section Commands

variable (x : Choice) (w : World)

theorem World.exec_uuid4_traffic : (World.exec x .uuid4 w).2.traffic = w.traffic := rfl

theorem World.exec_xaddDispatch_traffic (request : ExecutionRequest) :
    (World.exec x (.redis (.xaddDispatch request)) w).2.traffic =
      if x.fail then w.traffic
      else { w.traffic with dispatch := w.traffic.dispatch ++ [request] } := by
  simp only [World.exec]
  split <;> rfl

/-- The traffic after a result is published, -/
theorem World.exec_xaddResult_traffic (pack : VerificationPack) :
    (World.exec x (.redis (.xaddResult pack)) w).2.traffic =
      if x.fail then w.traffic else { w.traffic with packs := w.traffic.packs ++ [.ok pack] } := by
  simp only [World.exec]
  split
  · rfl
  · simp only [traffic, Redis.exec, Redis.packs, List.map_append, List.map_cons, List.map_nil]
    rfl

/-- after the counter went up, -/
theorem World.exec_incr_traffic : (World.exec x (.redis (.incr statsInflight)) w).2.traffic =
    if x.fail then w.traffic else { w.traffic with count := w.traffic.count + 1 } := by
  simp only [World.exec]
  split
  · rfl
  · have counted := w.redis.count_addToCounter statsInflight statsInflight 1
    simp only [traffic, Redis.exec, counted]
    rfl

/-- and after it went down. -/
theorem World.exec_decr_traffic : (World.exec x (.redis (.decr statsInflight)) w).2.traffic =
    if x.fail then w.traffic else { w.traffic with count := w.traffic.count - 1 } := by
  simp only [World.exec]
  split
  · rfl
  · have counted := w.redis.count_addToCounter statsInflight statsInflight (-1)
    simp only [traffic, Redis.exec, counted]
    rfl

/-- A dispatcher that reads takes the next requests, in their order. -/
theorem World.exec_xreadgroupDispatch_traffic (count : Nat) :
    (x.fail = true ∧ ∃ e, World.exec x (.redis (.xreadgroupDispatch "dispatch_group" count)) w =
        (.error e, w)) ∨
      ∃ messages, (World.exec x (.redis (.xreadgroupDispatch "dispatch_group" count)) w).1 =
          .ok messages ∧ messages.map (·.request) = w.traffic.batch count ∧
        (World.exec x (.redis (.xreadgroupDispatch "dispatch_group" count)) w).2.traffic =
          { w.traffic with taken := w.traffic.taken + (w.traffic.batch count).length } := by
  cases fails : x.fail with
  | true => exact .inl ⟨rfl, _, World.exec_redis_fail fails _ w⟩
  | false =>
    have requests : ∀ (l : List ExecutionRequest) (f : Nat → ExecutionRequest → DispatchMessage),
        (∀ n request, (f n request).request = request) → (l.mapIdx f).map (·.request) = l := by
      intro l f same
      apply List.ext_getElem
      · simp only [List.length_map, List.length_mapIdx]
      · intro i _ _
        simp only [List.getElem_map, List.getElem_mapIdx, same]
    rw [World.exec_redis_ok fails]
    refine .inr ⟨_, rfl, ?_, ?_⟩
    · simp only [Redis.exec, List.map_take, List.map_drop]
      rw [requests _ _ fun _ _ => rfl]
      rfl
    · simp only [traffic, Redis.exec, Function.update_self, Traffic.batch, List.length_take,
        List.length_drop, List.length_mapIdx]
      rfl

/-- A capsule is at the port when the writing side is shut down, or when the operation that
failed had delivered it. -/
theorem World.exec_sendall_traffic (core : Nat) (capsule : TaskCapsule) :
    (World.exec x (.host (.sendall core capsule)) w).2.traffic =
      if x.fail && x.delivered then { w.traffic with inbox := w.traffic.inbox ++ [(core, capsule)] }
      else w.traffic := by
  simp only [World.exec, World.execHost]
  cases x.fail <;> cases x.delivered <;> rfl

theorem World.exec_shutdown_traffic (core : Nat) (capsule : TaskCapsule) :
    (World.exec x (.host (.shutdown core capsule)) w).2.traffic =
      if x.fail && !x.delivered then w.traffic
      else { w.traffic with inbox := w.traffic.inbox ++ [(core, capsule)] } := by
  simp only [World.exec, World.execHost]
  cases x.fail <;> cases x.delivered <;> rfl

/-- An executor that accepts takes a capsule of its port, or finds none. -/
theorem World.exec_accept_traffic (core : Nat) :
    (World.exec x (.host (.accept core)) w = (.ok none, w)) ∨
      ∃ capsule rest, (World.exec x (.host (.accept core)) w).1 = .ok (some capsule) ∧
        (World.exec x (.host (.accept core)) w).2.traffic = { w.traffic with inbox := rest } ∧
        w.traffic.inbox.Perm ((core, capsule) :: rest) := by
  simp only [World.exec, World.execHost]
  cases found : w.inbox[x.pick]? with
  | none => exact .inl rfl
  | some entry =>
    obtain ⟨port, capsule⟩ := entry
    dsimp only
    split
    · next same =>
      subst same
      obtain ⟨inside, here⟩ := List.getElem?_eq_some_iff.mp found
      refine .inr ⟨capsule, w.inbox.eraseIdx x.pick, rfl, rfl, ?_⟩
      rw [← here]
      exact (List.getElem_cons_eraseIdx_perm inside).symm
    · exact .inl rfl

/-- A statement changes the executions, if anything. -/
theorem World.exec_pg_traffic (c : PgCmd) : ∃ executions,
    (World.exec x (.pg c) w).2.traffic = { w.traffic with executions := executions } := by
  simp only [World.exec]
  split
  · exact ⟨w.pg.executions, rfl⟩
  · exact ⟨_, rfl⟩

end Commands

/-! ### Who issues others -/

theorem sum_adds_of_forall {ops : List RedisOp} (others : ∀ op ∈ ops, op.adds statsInflight = 0) :
    (ops.map (RedisOp.adds statsInflight)).sum = 0 := by
  refine List.sum_eq_zero fun n mem => ?_
  obtain ⟨op, here, rfl⟩ := List.mem_map.mp mem
  exact others op here

/-- A gate has no part in the traffic of capsules, -/
theorem PolicyGate.Allows.apart {policy : PolicyGate} {q : Gating} {c : Cmd}
    (allowed : policy.Allows q c) : c.Apart := by
  cases c with
  | redis c =>
    cases c with
    | xreadgroupResults group count =>
      obtain ⟨rfl, -⟩ := allowed
      exact show "policy_group" ≠ "dispatch_group" by decide
    | pipeline ops =>
      refine sum_adds_of_forall fun op mem => ?_
      have queued := allowed.2.queued op mem
      cases op with
      | incr _ => exact queued.elim
      | _ => rfl
    | hgetall _ | get _ | set _ _ _ _ => trivial
    | _ => exact allowed.elim
  | pg c =>
    cases c with
    | fetchCandidateStatus _ | setCandidateStatus _ _ | mergeCandidateMetadata _
    | recordPolicyDecision _ _ => trivial
    | _ => exact allowed.elim
  | _ => exact allowed.elim

/-- and neither has a merger. -/
theorem Claiming.Allows.apart {q : Claiming} {c : Cmd} (allowed : q.Allows c) : c.Apart := by
  cases c with
  | redis c =>
    cases c with
    | xreadgroupAccepted group count =>
      obtain ⟨rfl, -⟩ := allowed
      exact show "merger_group" ≠ "dispatch_group" by decide
    | pipeline ops =>
      obtain ⟨done, -, acks⟩ := allowed
      refine sum_adds_of_forall fun op mem => ?_
      obtain ⟨message, -, rfl⟩ := acks op mem
      rfl
    | get _ | set _ _ _ _ | delete _ => trivial
    | _ => exact allowed.elim
  | pg c =>
    cases c with
    | fetchCandidateStatus _ | setCandidateStatus _ _ | fetchTaskStatus _ | setTaskStatus _ _
    | mergeCandidateMetadata _ => trivial
    | _ => exact allowed.elim
  | applyPatch _ => trivial
  | _ => exact allowed.elim

/-- The memory only records completions. -/
theorem Remembering.Allows.apart {q : Remembering} {c : Cmd} (allowed : q.Allows c) :
    c.Apart ∨ ∃ pack, c = .pg (.completeExecution pack) := by
  cases c with
  | redis c =>
    left
    cases c with
    | xreadgroupResults group count =>
      obtain rfl : group = "memory_group" := allowed
      exact show "memory_group" ≠ "dispatch_group" by decide
    | pipeline ops =>
      refine sum_adds_of_forall fun op mem => ?_
      have justified := allowed op mem
      cases op with
      | incr key =>
        obtain rfl : key = statsTotalEvals := justified
        decide
      | _ => rfl
    | hgetall _ => trivial
    | _ => exact allowed.elim
  | pg c =>
    cases c with
    | completeExecution pack => exact .inr ⟨pack, rfl⟩
    | fetchTaskStatus _ | setTaskStatus _ _ | fetchCandidateStatus _ | setCandidateStatus _ _ =>
      exact .inl trivial
    | _ => exact allowed.elim
  | time => exact .inl trivial
  | _ => exact allowed.elim

end KernelOmega
