import KernelOmega.Plant.Posts

/-!
# What a command moves

A run id is with the worker that has drawn it, on the dispatch stream, with a dispatcher, at a
port, with an executor, or in a result. `Balance` is what a command does to these places, to
the counter of the requests in flight, and to the run ids that were counted in flight and
accounted for. `Whole` is what a command has to meet for none to get lost or to be doubled: a
socket operation that fails has not delivered the capsule all the same, and an executor that
has taken a capsule comes to its end.
-/

namespace KernelOmega

open Concurrent

/-! ## What a thread has at hand -/

namespace Sending

/-- The requests of the batch that are not counted in flight yet. -/
def ahead : Sending → List ExecutionRequest
  | .idle rest => rest
  | .opened _ rest => rest
  | .sent _ rest => rest
  | .failed _ rest => rest
  | .refunded _ rest => rest
  | .completed _ rest => rest

/-- The request that is in flight in the dispatcher's hands. -/
def flying : Sending → List ExecutionRequest
  | .opened request _ => [request]
  | .failed request _ => [request]
  | _ => []

/-- The requests for which the dispatcher may have to publish a result. -/
def unanswered : Sending → List ExecutionRequest
  | .idle rest => rest
  | .opened request rest => request :: rest
  | .sent _ rest => rest
  | .failed request rest => request :: rest
  | .refunded request rest => request :: rest
  | .completed request rest => request :: rest

end Sending

namespace Post

/-- The run ids of requests a thread has yet to put on the stream. -/
def undispatched : Post → List String
  | .worker stage => stage.runs
  | _ => []

def ahead : Post → List String
  | .dispatcher q => q.ahead.map (·.runId)
  | _ => []

/-- The run ids a post has counted in flight, -/
def flying : Post → List String
  | .dispatcher q => q.flying.map (·.runId)
  | .executor _ (.holding capsule) => [capsule.runId]
  | .executor _ (.published capsule) => [capsule.runId]
  | _ => []

/-- and those it owes a result for. -/
def unanswered : Post → List String
  | .dispatcher q => q.unanswered.map (·.runId)
  | .executor _ (.holding capsule) => [capsule.runId]
  | _ => []

/-- The run ids a command counts in flight. -/
def opens (q : Post) : (c : Cmd) → Except PyError c.Reply → List String
  | .redis (.incr _) => fun
    | .ok _ =>
      match q with
      | .dispatcher (.idle (request :: _)) => [request.runId]
      | _ => []
    | .error _ => []
  | _ => fun _ => []

/-- The run ids a command accounts for: the dispatcher's failure path, or the executor's
completion. -/
def accounts (q : Post) : (c : Cmd) → Except PyError c.Reply → List String
  | .redis (.decr _) => fun
    | .ok _ =>
      match q with
      | .dispatcher (.failed request _) => [request.runId]
      | .executor _ (.published capsule) => [capsule.runId]
      | _ => []
    | .error _ => []
  | _ => fun _ => []

/-- The capsules of the requests at hand carry their run ids. -/
def Sound : Post → Prop
  | .dispatcher q => ∀ request ∈ q.unanswered, request.capsule.runId = request.runId
  | _ => True

end Post

theorem Role.undispatched_post (role : Role) : role.post.undispatched = [] := by
  cases role <;> rfl

theorem Role.ahead_post (role : Role) : role.post.ahead = [] := by
  cases role <;> rfl

theorem Role.flying_post (role : Role) : role.post.flying = [] := by
  cases role <;> rfl

theorem Role.unanswered_post (role : Role) : role.post.unanswered = [] := by
  cases role <;> rfl

section Histories

variable {ι S : Type} [DecidableEq ι] (plant : Plant ι S)

/-- The run ids of the requests whose dispatch has counted them in flight. -/
def Plant.opened : List (Event ι Cmd Cmd.Reply PyError) → List String
  | [] => []
  | e :: earlier => (plant.postOf e.thread earlier).opens e.cmd e.reply ++ Plant.opened earlier

/-- The run ids that are accounted for. -/
def Plant.accounted : List (Event ι Cmd Cmd.Reply PyError) → List String
  | [] => []
  | e :: earlier => (plant.postOf e.thread earlier).accounts e.cmd e.reply ++ Plant.accounted earlier

end Histories

/-! ## What a command moves -/

/-- The capsules a command receives. -/
def Cmd.received : (c : Cmd) → Except PyError c.Reply → List TaskCapsule
  | .host (.accept _) => fun
    | .ok (some capsule) => [capsule]
    | _ => []
  | _ => fun _ => []

/-- A socket operation that carries a capsule. -/
def Cmd.sends : Cmd → Bool
  | .host (.sendall _ _) => true
  | .host (.shutdown _ _) => true
  | _ => false

def Cmd.isRedis : Cmd → Bool
  | .redis _ => true
  | _ => false

/-- What a command has to meet for the requests in flight to be counted. -/
structure Whole {ι : Type} (roles : ι → Role) (s : Snapshot ι Cmd Cmd.Reply PyError World) (i : ι)
    (x : Choice) (c : Cmd) : Prop where
  /-- A drawn run id is new. -/
  fresh : ∀ runId ∈ c.draws (World.exec x c s.world).1, runId ∉ drawn s.history
  /-- A socket operation that fails has not delivered the capsule. -/
  undelivered : c.sends = true → x.fail = true → x.delivered = false
  /-- An executor can read the capsules it takes, -/
  readable : ∀ reads ∈ (roles i).reads, ∀ capsule ∈ c.received (World.exec x c s.world).1,
    reads capsule = true
  /-- and its publications succeed. -/
  published : (roles i).reads.isSome = true → c.isRedis = true → x.fail = false

instance {ι : Type} (roles : ι → Role) (s : Snapshot ι Cmd Cmd.Reply PyError World) (i : ι)
    (x : Choice) (c : Cmd) : Decidable (Whole roles s i x c) :=
  decidable_of_iff
    ((∀ runId ∈ c.draws (World.exec x c s.world).1, runId ∉ drawn s.history) ∧
      (c.sends = true → x.fail = true → x.delivered = false) ∧
      (∀ reads ∈ (roles i).reads, ∀ capsule ∈ c.received (World.exec x c s.world).1,
        reads capsule = true) ∧
      ((roles i).reads.isSome = true → c.isRedis = true → x.fail = false))
    ⟨fun ⟨fresh, undelivered, readable, published⟩ => ⟨fresh, undelivered, readable, published⟩,
      fun ⟨fresh, undelivered, readable, published⟩ => ⟨fresh, undelivered, readable, published⟩⟩

/-- What a step does to the places a run id can be at, from post `q` and traffic `t` to `q'` and
`t'`. -/
structure Balance (q q' : Post) (t t' : Traffic) (draws opens accounts : List String) : Prop where
  entered : ∀ runId, q'.undispatched.count runId + t'.entries.count runId ≤
    q.undispatched.count runId + t.entries.count runId + draws.count runId
  dispatched : ∀ runId, t'.entries.count runId + t.undelivered.count runId + q.ahead.count runId =
    t.entries.count runId + t'.undelivered.count runId + q'.ahead.count runId + opens.count runId
  flying : ∀ runId, t.waiting.count runId + q.flying.count runId + opens.count runId =
    t'.waiting.count runId + q'.flying.count runId + accounts.count runId
  answered : ∀ runId, t'.entries.count runId + t.undelivered.count runId + t.waiting.count runId +
      q.unanswered.count runId + t.results.count runId =
    t.entries.count runId + t'.undelivered.count runId + t'.waiting.count runId +
      q'.unanswered.count runId + t'.results.count runId
  counted : t'.count = t.count + opens.length - accounts.length

namespace Balance

variable {q q' : Post} {t t' : Traffic}

/-- A step that moves nothing. -/
theorem still (draws : List String) (undispatched : q'.undispatched = q.undispatched)
    (ahead : q'.ahead = q.ahead) (flying : q'.flying = q.flying)
    (unanswered : q'.unanswered = q.unanswered) (dispatch : t'.dispatch = t.dispatch)
    (taken : t'.taken = t.taken) (packs : t'.packs = t.packs) (count : t'.count = t.count)
    (inbox : t'.inbox = t.inbox) : Balance q q' t t' draws [] [] := by
  have entries : t'.entries = t.entries := by rw [Traffic.entries, dispatch, Traffic.entries]
  have undelivered : t'.undelivered = t.undelivered := by
    rw [Traffic.undelivered, dispatch, taken, Traffic.undelivered]
  have waiting : t'.waiting = t.waiting := by rw [Traffic.waiting, inbox, Traffic.waiting]
  have results : t'.results = t.results := by rw [Traffic.results, packs, Traffic.results]
  constructor <;> simp [undispatched, ahead, flying, unanswered, entries, undelivered, waiting,
    results, count]

/-- A command apart from the traffic, after which the thread has the same at hand. -/
theorem apart {c : Cmd} (apart : c.Apart) {x : Choice} {w : World} (draws : List String)
    (undispatched : q'.undispatched = q.undispatched) (ahead : q'.ahead = q.ahead)
    (flying : q'.flying = q.flying) (unanswered : q'.unanswered = q.unanswered) :
    Balance q q' w.traffic (World.exec x c w).2.traffic draws [] [] := by
  rw [World.exec_traffic_of_apart apart]
  exact still draws undispatched ahead flying unanswered rfl rfl rfl rfl rfl

/-- A statement, after which the thread has the same at hand. -/
theorem statement {c : PgCmd} {x : Choice} {w : World}
    (undispatched : q'.undispatched = q.undispatched) (ahead : q'.ahead = q.ahead)
    (flying : q'.flying = q.flying) (unanswered : q'.unanswered = q.unanswered) :
    Balance q q' w.traffic (World.exec x (.pg c) w).2.traffic [] [] [] := by
  obtain ⟨executions, after⟩ := World.exec_pg_traffic x w c
  rw [after]
  exact still [] undispatched ahead flying unanswered rfl rfl rfl rfl rfl

-- In the cases below both posts are known, so that what each has at hand is a list to count in.
attribute [local simp] Post.undispatched Post.ahead Post.flying Post.unanswered Post.opens
  Post.accounts Sending.ahead Sending.flying Sending.unanswered Traffic.entries Traffic.results

/-- A worker draws a run id, and puts it on the stream with a request. -/
theorem worker {sha256 : Sha256} {stage : Stage} (keyed : stage.Keyed) {c : Cmd}
    (allowed : stage.Allows sha256 c) {x : Choice} {w : World}
    (taken : w.traffic.taken ≤ w.traffic.dispatch.length) :
    Balance (.worker stage) (.worker (stage.next c (World.exec x c w).1)) w.traffic
      (World.exec x c w).2.traffic (c.draws (World.exec x c w).1) [] [] := by
  rcases stage.apart_or keyed allowed with ⟨apart, same⟩ | rfl | ⟨id, row, rfl⟩ | ⟨request, rfl⟩
  · exact Balance.apart apart _ (same _).1 rfl rfl rfl
  · obtain ⟨nodeId, taskId, childId, rfl⟩ := allowed
    rw [World.exec_uuid4_traffic]
    constructor <;> simp [World.exec, Stage.next, Stage.runs, Cmd.draws, Nat.add_comm]
  · obtain ⟨⟨nodeId, rfl⟩, -⟩ := allowed
    cases (World.exec x (.pg (.insertExecution id row)) w).1 <;> exact statement rfl rfl rfl rfl
  · obtain ⟨⟨nodeId, rfl⟩, -⟩ := allowed
    rw [World.exec_xaddDispatch_traffic]
    cases fails : x.fail with
    | true =>
      rw [World.exec_redis_fail fails]
      exact still _ rfl rfl rfl rfl rfl rfl rfl rfl rfl
    | false =>
      have undelivered : ∀ l, (w.traffic.dispatch ++ l).drop w.traffic.taken =
          w.traffic.dispatch.drop w.traffic.taken ++ l := by
        intro l
        exact List.drop_append_of_le_length taken
      rw [World.exec_redis_ok fails]
      constructor <;> simp [Stage.next, Stage.runs, Traffic.undelivered, Traffic.waiting,
        undelivered] <;> omega

/-- A dispatcher's Redis command: it takes requests, counts one in flight or out again, or
publishes a result. -/
theorem dispatcherRedis {q : Sending} {c : RedisCmd} (allowed : q.Allows (.redis c)) {x : Choice}
    {w : World} :
    Balance (.dispatcher q) (.dispatcher (q.next (.redis c) (World.exec x (.redis c) w).1)) w.traffic
      (World.exec x (.redis c) w).2.traffic []
      ((Post.dispatcher q).opens (.redis c) (World.exec x (.redis c) w).1)
      ((Post.dispatcher q).accounts (.redis c) (World.exec x (.redis c) w).1) := by
  cases c with
  | xreadgroupDispatch group count =>
    obtain ⟨rfl, rfl⟩ := allowed
    rcases World.exec_xreadgroupDispatch_traffic x w count with
      ⟨-, e, failed⟩ | ⟨messages, reply, batch, after⟩
    · rw [failed]
      exact still _ rfl rfl rfl rfl rfl rfl rfl rfl rfl
    · have split := w.traffic.undelivered_eq count
      rw [reply, after]
      constructor <;> simp [Sending.next, batch, split, Traffic.waiting] <;> omega
  | incr key =>
    obtain ⟨rfl, request, rest, rfl⟩ := allowed
    rw [World.exec_incr_traffic]
    cases fails : x.fail with
    | true =>
      rw [World.exec_redis_fail fails]
      exact still _ rfl rfl rfl rfl rfl rfl rfl rfl rfl
    | false =>
      rw [World.exec_redis_ok fails]
      constructor <;> simp [Sending.next, Traffic.undelivered, Traffic.waiting, List.count_cons]
      omega
  | decr key =>
    obtain ⟨rfl, request, rest, rfl⟩ := allowed
    rw [World.exec_decr_traffic]
    cases fails : x.fail with
    | true =>
      rw [World.exec_redis_fail fails]
      exact still _ rfl rfl rfl rfl rfl rfl rfl rfl rfl
    | false =>
      rw [World.exec_redis_ok fails]
      constructor <;> simp [Sending.next, Traffic.undelivered, Traffic.waiting]
  | xaddResult pack =>
    obtain ⟨request, rest, rfl, same⟩ := allowed
    rw [World.exec_xaddResult_traffic]
    cases fails : x.fail with
    | true =>
      rw [World.exec_redis_fail fails]
      exact still _ rfl rfl rfl rfl rfl rfl rfl rfl rfl
    | false =>
      rw [World.exec_redis_ok fails]
      constructor <;> simp [Sending.next, Traffic.undelivered, Traffic.waiting, Except.toOption, same,
        List.count_cons]
      omega
  | pipeline ops =>
    have acks : (Cmd.redis (.pipeline ops)).Apart := by
      refine sum_adds_of_forall fun op mem => ?_
      obtain ⟨id, rfl⟩ := allowed op mem
      rfl
    cases (World.exec x (.redis (.pipeline ops)) w).1 <;>
      exact Balance.apart acks _ rfl rfl rfl rfl
  | _ => exact allowed.elim

/-- A dispatcher's socket operation: the capsule is at the port, or the request has failed. -/
theorem dispatcherHost {q : Sending} {c : HostCmd} (allowed : q.Allows (.host c)) {x : Choice}
    {w : World} (sound : ∀ request ∈ q.unanswered, request.capsule.runId = request.runId)
    (whole : (Cmd.host c).sends = true → x.fail = true → x.delivered = false) :
    Balance (.dispatcher q) (.dispatcher (q.next (.host c) (World.exec x (.host c) w).1)) w.traffic
      (World.exec x (.host c) w).2.traffic [] [] [] := by
  cases c with
  | connect core =>
    obtain ⟨request, rest, rfl⟩ := allowed
    cases (World.exec x (.host (.connect core)) w).1 <;>
      exact Balance.apart (c := .host (.connect core)) trivial _ rfl rfl rfl rfl
  | sendall core capsule =>
    obtain ⟨request, rest, rfl, -⟩ := allowed
    have same : (World.exec x (.host (.sendall core capsule)) w).2.traffic = w.traffic := by
      rw [World.exec_sendall_traffic]
      cases fails : x.fail with
      | false => rfl
      | true =>
        rw [whole rfl fails]
        rfl
    rw [same]
    cases (World.exec x (.host (.sendall core capsule)) w).1 <;>
      exact still _ rfl rfl rfl rfl rfl rfl rfl rfl rfl
  | shutdown core capsule =>
    obtain ⟨request, rest, rfl, rfl⟩ := allowed
    have carries := sound request List.mem_cons_self
    rw [World.exec_shutdown_traffic]
    cases fails : x.fail with
    | true =>
      rw [whole rfl fails]
      simp only [World.exec, World.execHost, fails, ↓reduceIte]
      exact still _ rfl rfl rfl rfl rfl rfl rfl rfl rfl
    | false =>
      simp only [World.exec, World.execHost, fails]
      constructor <;> simp [Sending.next, Traffic.undelivered, Traffic.waiting, carries, List.count_cons]
      omega
  | _ => exact allowed.elim

/-- A dispatcher takes requests, counts them in flight, sends their capsules, or accounts for them
and publishes a result. -/
theorem dispatcher {q : Sending} {c : Cmd} (allowed : q.Allows c) {x : Choice} {w : World}
    (sound : ∀ request ∈ q.unanswered, request.capsule.runId = request.runId)
    (whole : c.sends = true → x.fail = true → x.delivered = false) :
    Balance (.dispatcher q) (.dispatcher (q.next c (World.exec x c w).1)) w.traffic
      (World.exec x c w).2.traffic [] ((Post.dispatcher q).opens c (World.exec x c w).1)
      ((Post.dispatcher q).accounts c (World.exec x c w).1) := by
  cases c with
  | redis c => exact dispatcherRedis allowed
  | host c => exact dispatcherHost allowed sound whole
  | pg c =>
    have same : (q.next (.pg c) (World.exec x (.pg c) w).1).ahead = q.ahead ∧
        (q.next (.pg c) (World.exec x (.pg c) w).1).flying = q.flying ∧
        (q.next (.pg c) (World.exec x (.pg c) w).1).unanswered = q.unanswered := by
      cases c with
      | completeExecution pack =>
        obtain ⟨request, rest, rfl, -⟩ := allowed
        cases (World.exec x (.pg (.completeExecution pack)) w).1 <;> exact ⟨rfl, rfl, rfl⟩
      | markExecutionStarted runId =>
        obtain ⟨request, rest, rfl, -⟩ := allowed
        cases (World.exec x (.pg (.markExecutionStarted runId)) w).1 <;> exact ⟨rfl, rfl, rfl⟩
      | _ => exact ⟨rfl, rfl, rfl⟩
    exact statement rfl (congrArg (List.map ExecutionRequest.runId) same.1)
      (congrArg (List.map ExecutionRequest.runId) same.2.1)
      (congrArg (List.map ExecutionRequest.runId) same.2.2)
  | _ => exact allowed.elim

/-- An executor takes a capsule, publishes its result, and accounts for it. -/
theorem executor {reads : TaskCapsule → Bool} {q : Running} {c : Cmd} (allowed : q.Allows c)
    (found : q ≠ .lost) {x : Choice} {w : World}
    (readable : ∀ capsule ∈ c.received (World.exec x c w).1, reads capsule = true)
    (published : c.isRedis = true → x.fail = false) :
    Balance (.executor reads q) (.executor reads (q.next reads c (World.exec x c w).1)) w.traffic
      (World.exec x c w).2.traffic [] [] ((Post.executor reads q).accounts c (World.exec x c w).1) := by
  cases c with
  | redis c =>
    cases c with
    | xaddResult pack =>
      obtain ⟨capsule, rfl, same⟩ := allowed
      have ok := published rfl
      rw [World.exec_xaddResult_traffic, World.exec_redis_ok ok, ok]
      constructor <;> simp [Running.next, Traffic.undelivered, Traffic.waiting, Except.toOption, same]
      omega
    | decr key =>
      obtain ⟨rfl, capsule, rfl⟩ := allowed
      have ok := published rfl
      rw [World.exec_decr_traffic, World.exec_redis_ok ok, ok]
      constructor <;> simp [Running.next, Traffic.undelivered, Traffic.waiting]
    | _ => exact allowed.elim
  | host c =>
    cases c with
    | accept core =>
      obtain rfl : q = .idle := allowed.resolve_right found
      rcases World.exec_accept_traffic x w core with none | ⟨capsule, rest, reply, after, perm⟩
      · rw [none]
        exact still _ rfl rfl rfl rfl rfl rfl rfl rfl rfl
      · rw [reply] at readable ⊢
        have holds : Running.next reads .idle (.host (.accept core)) (.ok (some capsule)) =
            .holding capsule := if_pos (readable capsule (List.mem_singleton.mpr rfl))
        have waits : Traffic.waiting { w.traffic with inbox := rest } =
            rest.map fun entry : Nat × TaskCapsule => entry.2.runId := rfl
        have waiting : ∀ runId, w.traffic.waiting.count runId =
            (capsule.runId :: rest.map fun entry : Nat × TaskCapsule => entry.2.runId).count runId :=
          (perm.map fun entry : Nat × TaskCapsule => entry.2.runId).count_eq
        rw [after, holds]
        constructor <;> simp [waiting, waits, Traffic.undelivered, List.count_cons]
        omega
    | runTests capsule => exact Balance.apart (c := .host (.runTests capsule)) trivial _ rfl rfl rfl rfl
    | putArtifact capsule outcome =>
      exact Balance.apart (c := .host (.putArtifact capsule outcome)) trivial _ rfl rfl rfl rfl
    | _ => exact allowed.elim
  | _ => exact allowed.elim

end Balance

/-- Only a dispatcher counts requests in flight, -/
theorem Post.opens_eq_nil {q : Post} (other : ∀ sending, q ≠ .dispatcher sending) (c : Cmd)
    (reply : Except PyError c.Reply) : q.opens c reply = [] := by
  cases c with
  | redis c =>
    cases c with
    | incr key =>
      cases reply with
      | error e => rfl
      | ok v =>
        cases q with
        | dispatcher sending => exact absurd rfl (other sending)
        | _ => rfl
    | _ => rfl
  | _ => rfl

/-- and only dispatchers and executors account for them. -/
theorem Post.accounts_eq_nil {q : Post} (other : ∀ sending, q ≠ .dispatcher sending)
    (other' : ∀ reads running, q ≠ .executor reads running) (c : Cmd)
    (reply : Except PyError c.Reply) : q.accounts c reply = [] := by
  cases c with
  | redis c =>
    cases c with
    | decr key =>
      cases reply with
      | error e => rfl
      | ok v =>
        cases q with
        | dispatcher sending => exact absurd rfl (other sending)
        | executor reads running => exact absurd rfl (other' reads running)
        | _ => rfl
    | _ => rfl
  | _ => rfl

/-- Only a worker draws run ids. -/
theorem Post.draws_eq_nil {sha256 : Sha256} {q : Post} (other : ∀ stage, q ≠ .worker stage) {c : Cmd}
    (allowed : q.Allows sha256 c) (reply : Except PyError c.Reply) : c.draws reply = [] := by
  cases c with
  | uuid4 =>
    cases q with
    | worker stage => exact absurd rfl (other stage)
    | memory =>
      rcases allowed with apart | ⟨pack, other⟩
      · exact apart.elim
      · cases other
    | _ => exact allowed.elim
  | _ => rfl

/-- What a step of any thread moves. -/
theorem Post.balance {sha256 : Sha256} {q : Post} {c : Cmd} (allowed : q.Allows sha256 c)
    (keyed : ∀ stage, q = .worker stage → stage.Keyed) (sound : q.Sound)
    (found : ∀ reads, q ≠ .executor reads .lost) {x : Choice} {w : World}
    (taken : w.traffic.taken ≤ w.traffic.dispatch.length)
    (undelivered : c.sends = true → x.fail = true → x.delivered = false)
    (readable : ∀ reads running, q = .executor reads running →
      ∀ capsule ∈ c.received (World.exec x c w).1, reads capsule = true)
    (published : ∀ reads running, q = .executor reads running → c.isRedis = true → x.fail = false) :
    Balance q (q.next c (World.exec x c w).1) w.traffic (World.exec x c w).2.traffic
      (c.draws (World.exec x c w).1) (q.opens c (World.exec x c w).1)
      (q.accounts c (World.exec x c w).1) := by
  cases q with
  | worker stage =>
    rw [Post.opens_eq_nil (q := .worker stage) nofun,
      Post.accounts_eq_nil (q := .worker stage) nofun nofun]
    exact Balance.worker (keyed stage rfl) allowed taken
  | dispatcher q =>
    rw [Post.draws_eq_nil (q := .dispatcher q) nofun allowed]
    exact Balance.dispatcher allowed sound undelivered
  | executor reads q =>
    have held : q ≠ .lost := by
      rintro rfl
      exact found reads rfl
    rw [Post.draws_eq_nil (q := .executor reads q) nofun allowed,
      Post.opens_eq_nil (q := .executor reads q) nofun]
    exact Balance.executor allowed held (readable reads q rfl) (published reads q rfl)
  | memory =>
    rw [Post.draws_eq_nil (q := .memory) nofun allowed, Post.opens_eq_nil (q := .memory) nofun,
      Post.accounts_eq_nil (q := .memory) nofun nofun]
    rcases allowed with apart | ⟨pack, rfl⟩
    · exact Balance.apart apart _ rfl rfl rfl rfl
    · exact Balance.statement rfl rfl rfl rfl
  | bystander =>
    rw [Post.opens_eq_nil (q := .bystander) nofun, Post.accounts_eq_nil (q := .bystander) nofun nofun]
    exact Balance.apart (c := c) allowed _ rfl rfl rfl rfl

end KernelOmega
