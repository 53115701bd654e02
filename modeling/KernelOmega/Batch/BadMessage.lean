import KernelOmega.Batch.Sequence
import KernelOmega.Dispatcher
import KernelOmega.Search.System
import Mathlib

/-!
# A message that raises

Both daemons go through a batch with the acknowledgements waiting in a pipeline, and an
exception leaves the loop. What a restarted daemon reads are new messages, so the rest of the
batch is never looked at again. The memory's effects wait in the same pipeline: one bad
message costs the whole batch. The dispatcher sends at once: a bad message costs those after
it.

The standard of comparison is the daemon's own batch loop on the other messages of the batch.
-/

namespace KernelOmega

open Concurrent

/-! ## The memory -/

namespace GlobalMemory

open Daemon

/-- Processing the message raises: its payload cannot be read, or its node has no `tree_id`. -/
def Raises (r : Redis) (message : ResultMessage) : Prop :=
  match message.pack with
  | .error _ => True
  | .ok pack => match r.hashes pack.capsuleId with
    | none => False
    | some node => node.treeId = none

instance (r : Redis) (message : ResultMessage) : Decidable (Raises r message) := by
  unfold Raises
  cases message.pack with
  | error _ => exact isTrue trivial
  | ok pack =>
    dsimp only
    cases r.hashes pack.capsuleId with
    | none => exact isFalse id
    | some node => exact inferInstanceAs (Decidable (_ = _))

/-- The message is a result of a known node. -/
def Counts (r : Redis) (message : ResultMessage) : Prop :=
  match message.pack with
  | .error _ => False
  | .ok pack => match r.hashes pack.capsuleId with
    | none => False
    | some node => node.treeId ≠ none

/-- Every walk from a node ends. -/
def WalksEnd (fuel : Nat) (r : Redis) : Prop :=
  ∀ id node, r.hashes id = some node → ∃ path, walk r fuel id = .ok path

/-- Payloads arrive on the results stream, readable or not. -/
def arrive (r : Redis) (payloads : List (Except PyError VerificationPack)) : Redis :=
  { r with
    results := r.results ++
      payloads.mapIdx fun place pack => { id := r.results.length + place, pack := pack } }

/-- The daemon keeps reading what arrives, and is restarted when it raises. -/
def keepReading (fuel : Nat) (w : World)
    (arrivals : List (List (Except PyError VerificationPack))) : World :=
  arrivals.foldl (fun w payloads =>
    ({ w with redis := arrive w.redis payloads }.alone (remember fuel)).2) w

/-- The batch the memory reads next, with the messages that raise. -/
def handled (fuel : Nat) (w : World) : World := (w.alone (remember fuel)).2

/-- The same batch without the messages that raise. -/
def handledClean (fuel : Nat) (w : World) : World :=
  ({ w with redis := afterRead w.redis }.alone (rememberBatch fuel w.clock
    ((nextBatch w.redis).filter fun message => ¬Raises w.redis message) [])).2

/-- What results leave behind: the statistics, the closed trees and the counters. -/
structure SameEffects (r r' : Redis) : Prop where
  visits : ∀ id, visitsOf r id = visitsOf r' id
  values : ∀ id, valueOf r id = valueOf r' id
  done : ∀ taskId, r.strings (treeDoneKey taskId) = r'.strings (treeDoneKey taskId)
  counters : ∀ key, r.counters key = r'.counters key

/-- Whatever the restarted daemon reads afterwards, every other message of the batch has had its
effect exactly once. -/
def OthersCount (fuel : Nat) (w : World) : Prop :=
  ∀ arrivals, SameEffects (keepReading fuel (handled fuel w) arrivals).redis
    (keepReading fuel (handledClean fuel w) arrivals).redis

/-! ### Stores that differ in their acknowledgements -/

/-- The stores differ in their acknowledgements at most. -/
def Alike (r r' : Redis) : Prop := r' = { r with acked := r'.acked }

theorem Alike.refl (r : Redis) : Alike r r := rfl

theorem Alike.trans {a b c : Redis} (first : Alike a b) (second : Alike b c) : Alike a c := by
  rw [Alike] at first second
  rw [first] at second
  exact second

theorem Alike.apply {r r' : Redis} (alike : Alike r r') (op : RedisOp) :
    Alike (r.apply op) (r'.apply op) := by
  rw [Alike] at alike
  rw [alike]
  cases op <;> rfl

theorem Alike.applyAll {r r' : Redis} (alike : Alike r r') (ops : List RedisOp) :
    Alike (r.applyAll ops) (r'.applyAll ops) := by
  induction ops generalizing r r' with
  | nil => exact alike
  | cons op rest ih => exact ih (alike.apply op)

/-- Acknowledgements change nothing that is counted. -/
theorem Alike.xacks {r : Redis} {ops : List RedisOp}
    (acks : ∀ op ∈ ops, ∃ group id, op = .xack group id) : Alike r (r.applyAll ops) := by
  induction ops generalizing r with
  | nil => exact .refl r
  | cons op rest ih =>
    obtain ⟨group, id, rfl⟩ := acks op List.mem_cons_self
    have first : Alike r (r.apply (.xack group id)) := rfl
    exact first.trans (ih fun op' mem => acks op' (List.mem_cons_of_mem _ mem))

theorem Alike.sameEffects {r r' : Redis} (alike : Alike r r') : SameEffects r r' := by
  rw [Alike] at alike
  rw [alike]
  exact ⟨fun _ => rfl, fun _ => rfl, fun _ => rfl, fun _ => rfl⟩

/-- Alike stores stay alike while the daemon keeps reading. -/
theorem Alike.keepReading {fuel : Nat} {w w' : World} (alike : Alike w.redis w'.redis)
    (clock : w.clock = w'.clock) (arrivals : List (List (Except PyError VerificationPack))) :
    Alike (keepReading fuel w arrivals).redis (keepReading fuel w' arrivals).redis := by
  induction arrivals generalizing w w' with
  | nil => exact alike
  | cons payloads rest ih =>
    obtain ⟨pg, runs⟩ := remember_alone fuel { w with redis := arrive w.redis payloads }
    obtain ⟨pg', runs'⟩ := remember_alone fuel { w' with redis := arrive w'.redis payloads }
    have arrived : Alike (arrive w.redis payloads) (arrive w'.redis payloads) := by
      rw [Alike] at alike
      rw [alike]
      rfl
    have hashes : (arrive w'.redis payloads).hashes = (arrive w.redis payloads).hashes := by
      rw [arrived]
    have batch : nextBatch (arrive w'.redis payloads) = nextBatch (arrive w.redis payloads) := by
      rw [arrived]
      rfl
    have read : Alike (afterRead (arrive w.redis payloads)) (afterRead (arrive w'.redis payloads)) := by
      rw [arrived]
      rfl
    rw [GlobalMemory.keepReading, GlobalMemory.keepReading, List.foldl_cons, List.foldl_cons]
    dsimp only at runs runs'
    rw [batch, queuedBatch_congr hashes] at runs'
    rw [runs, runs', ← clock]
    cases queuedBatch fuel w.clock (arrive w.redis payloads)
        (nextBatch (arrive w.redis payloads)) with
    | ok ops => exact ih (read.applyAll ops) rfl
    | error e => exact ih read rfl

/-! ### What a batch comes to -/

section Batch

variable {fuel : Nat} (now : Nat) {r : Redis} {message : ResultMessage}
  {messages : List ResultMessage}

/-- One message that raises is enough, wherever it stands: the operations of those before it are
lost. -/
theorem Raises.queuedBatch (raises : ∃ message ∈ messages, Raises r message) :
    ∃ e, queuedBatch fuel now r messages = .error e := by
  induction messages with
  | nil =>
    obtain ⟨message, mem, -⟩ := raises
    cases mem
  | cons first rest ih =>
    rw [GlobalMemory.queuedBatch]
    cases decoded : first.pack with
    | error e => exact ⟨e, rfl⟩
    | ok pack =>
      dsimp only
      cases own : queued fuel now r pack with
      | error e => exact ⟨e, rfl⟩
      | ok ops =>
        obtain ⟨message, mem, raises⟩ := raises
        rcases List.mem_cons.mp mem with rfl | mem
        · -- A message that raises queues nothing.
          simp only [Raises, decoded] at raises
          rcases queued_eq_ok own with ⟨missing, -⟩ | ⟨node, taskId, path, found, named, -⟩
          · rw [missing] at raises
            exact raises.elim
          · rw [found] at raises
            cases named.symm.trans raises
        · obtain ⟨e, later⟩ := ih ⟨message, mem, raises⟩
          exact ⟨e, by rw [later]; rfl⟩

/-- A message that does not raise queues something exactly when it counts. -/
theorem queued_of_not_raises (ends : WalksEnd fuel r) (fine : ¬Raises r message) :
    ∃ pack, message.pack = .ok pack ∧
      ((Counts r message ∧ ∃ node taskId path,
        queued fuel now r pack = .ok (resultOps now r pack node taskId path)) ∨
      ¬Counts r message ∧ queued fuel now r pack = .ok []) := by
  unfold Raises at fine
  unfold Counts
  cases decoded : message.pack with
  | error e =>
    rw [decoded] at fine
    exact absurd trivial fine
  | ok pack =>
    rw [decoded] at fine
    refine ⟨pack, rfl, ?_⟩
    dsimp only at fine ⊢
    unfold queued
    cases found : r.hashes pack.capsuleId with
    | none => exact .inr ⟨id, rfl⟩
    | some node =>
      rw [found] at fine
      dsimp only at fine ⊢
      obtain ⟨taskId, named⟩ := Option.ne_none_iff_exists'.mp fine
      obtain ⟨path, walked⟩ := ends pack.capsuleId node found
      refine .inl ⟨fine, node, taskId, path, ?_⟩
      rw [named, walked]
      rfl

/-- Among the operations queued for a result one counts the evaluation, and only one. -/
theorem resultOps_adds (pack : VerificationPack) (node : NodeHash) (taskId : String)
    (path : List String) :
    ((resultOps now r pack node taskId path).map (RedisOp.adds statsTotalEvals)).sum = 1 := by
  have stats : ((statsOps now pack (reward r pack node)).map (RedisOp.adds statsTotalEvals)).sum =
      1 := rfl
  have walks : ∀ op ∈ walkOps pack (reward r pack node) path,
      RedisOp.adds statsTotalEvals op = 0 := by
    intro op mem
    obtain ⟨current, -, mem⟩ := List.mem_flatMap.mp mem
    unfold visitOps at mem
    split at mem <;> simp at mem <;> rcases mem with rfl | rfl | rfl <;> rfl
  have summary : ∀ op ∈ summaries r (rootNodeId taskId) (reward r pack node) (node.depth.getD 0),
      RedisOp.adds statsTotalEvals op = 0 := by
    intro op mem
    unfold summaries at mem
    split at mem <;> split at mem <;> simp at mem <;> rcases mem with rfl | rfl <;> rfl
  have close : ∀ op ∈ closing taskId pack, RedisOp.adds statsTotalEvals op = 0 := by
    intro op mem
    unfold closing at mem
    split at mem <;> simp at mem
    rcases mem with rfl | rfl <;> rfl
  rw [resultOps, List.map_append, List.map_append, List.map_append, List.sum_append,
    List.sum_append, List.sum_append, stats, sum_map_eq_zero walks, sum_map_eq_zero summary,
    sum_map_eq_zero close]
  rfl

/-- A batch without a message that raises counts each of its results once. -/
theorem queuedBatch_of_not_raises (ends : WalksEnd fuel r)
    (fine : ∀ message ∈ messages, ¬Raises r message) :
    ∃ ops, queuedBatch fuel now r messages = .ok ops ∧
      0 ≤ (ops.map (RedisOp.adds statsTotalEvals)).sum ∧
      ((∃ message ∈ messages, Counts r message) →
        0 < (ops.map (RedisOp.adds statsTotalEvals)).sum) ∧
      ((∀ message ∈ messages, ¬Counts r message) → ∀ op ∈ ops, ∃ group id, op = .xack group id) := by
  induction messages with
  | nil =>
    refine ⟨[], rfl, le_rfl, fun counted => ?_, fun _ op mem => ?_⟩
    · obtain ⟨message, mem, -⟩ := counted
      cases mem
    · cases mem
  | cons first rest ih =>
    obtain ⟨more, others, atLeast, some, none⟩ :=
      ih fun message mem => fine message (List.mem_cons_of_mem first mem)
    obtain ⟨pack, decoded, own⟩ :=
      queued_of_not_raises now ends (fine first List.mem_cons_self)
    have batch : ∀ ops, queued fuel now r pack = .ok ops →
        queuedBatch fuel now r (first :: rest) =
          .ok ((ops ++ [.xack "memory_group" first.id]) ++ more) := by
      intro ops own
      rw [GlobalMemory.queuedBatch, decoded]
      dsimp only
      rw [own, others]
      rfl
    have ack : ([RedisOp.xack "memory_group" first.id].map (RedisOp.adds statsTotalEvals)).sum =
        0 := rfl
    rcases own with ⟨counts, node, taskId, path, own⟩ | ⟨idle, own⟩
    · have total : (((resultOps now r pack node taskId path ++ [RedisOp.xack "memory_group" first.id]) ++
          more).map (RedisOp.adds statsTotalEvals)).sum =
            1 + (more.map (RedisOp.adds statsTotalEvals)).sum := by
        rw [List.map_append, List.map_append, List.sum_append, List.sum_append, resultOps_adds, ack,
          add_zero]
      refine ⟨_, batch _ own, ?_, fun _ => ?_, fun idle => ?_⟩
      · omega
      · omega
      · exact absurd counts (idle first List.mem_cons_self)
    · have total : ((([] ++ [RedisOp.xack "memory_group" first.id]) ++ more).map
          (RedisOp.adds statsTotalEvals)).sum = (more.map (RedisOp.adds statsTotalEvals)).sum := by
        rw [List.map_append, List.sum_append, List.nil_append, ack, zero_add]
      refine ⟨_, batch _ own, ?_, fun counted => ?_, fun idle op mem => ?_⟩
      · omega
      · obtain ⟨message, mem, counts⟩ := counted
        rcases List.mem_cons.mp mem with rfl | mem
        · exact absurd counts idle
        · have above := some ⟨message, mem, counts⟩
          omega
      · rcases List.mem_append.mp mem with mem | mem
        · rw [List.nil_append, List.mem_singleton] at mem
          exact ⟨"memory_group", first.id, mem⟩
        · exact none (fun message mem => idle message (List.mem_cons_of_mem first mem)) op mem

end Batch

/-- A message that raises costs only itself exactly when there is none in the batch, or no other
message of the batch is a result of a known node. -/
theorem othersCount_iff (fuel : Nat) (w : World) (ends : WalksEnd fuel w.redis) :
    OthersCount fuel w ↔
      (∀ message ∈ nextBatch w.redis, ¬Raises w.redis message) ∨
        ∀ message ∈ nextBatch w.redis, ¬Counts w.redis message := by
  obtain ⟨pg, runs⟩ := remember_alone fuel w
  obtain ⟨pg', clean⟩ := rememberBatch_alone fuel w.clock
    ((nextBatch w.redis).filter fun message => ¬Raises w.redis message) []
    { w with redis := afterRead w.redis }
  have same : (afterRead w.redis).hashes = w.redis.hashes := rfl
  have fine : ∀ message ∈ (nextBatch w.redis).filter fun message => ¬Raises w.redis message,
      ¬Raises w.redis message :=
    fun message mem => by simpa using (List.mem_filter.mp mem).2
  obtain ⟨ops, queues, -, counted, idle⟩ := queuedBatch_of_not_raises w.clock ends fine
  have cleanRedis : (handledClean fuel w).redis = (afterRead w.redis).applyAll ops := by
    rw [handledClean, clean]
    dsimp only
    rw [queuedBatch_congr same, queues]
    rfl
  have cleanClock : (handledClean fuel w).clock = w.clock := by
    rw [handledClean, clean]
    dsimp only
    rw [queuedBatch_congr same, queues]
  have clock : (handled fuel w).clock = w.clock := by
    rw [handled, runs]
    split <;> rfl
  constructor
  · intro others
    by_contra neither
    obtain ⟨bad, good⟩ := not_or.mp neither
    push Not at bad good
    obtain ⟨e, raised⟩ : ∃ e, queuedBatch fuel w.clock w.redis (nextBatch w.redis) = .error e :=
      Raises.queuedBatch w.clock bad
    have lost : (handled fuel w).redis = afterRead w.redis := by
      rw [handled, runs, raised]
    obtain ⟨message, mem, counts⟩ := good
    have keeps : ¬Raises w.redis message := by
      intro raises
      unfold Raises at raises
      unfold Counts at counts
      cases decoded : message.pack with
      | error e => rw [decoded] at counts; exact counts
      | ok pack =>
        rw [decoded] at raises counts
        dsimp only at raises counts
        cases found : w.redis.hashes pack.capsuleId with
        | none => rw [found] at raises; exact raises
        | some node => rw [found] at raises counts; exact counts raises
    have more := counted ⟨message, List.mem_filter.mpr ⟨mem, by simpa using keeps⟩, counts⟩
    have counters := (others []).counters statsTotalEvals
    have count : (handled fuel w).redis.count statsTotalEvals =
        (handledClean fuel w).redis.count statsTotalEvals :=
      congrArg (fun c => Option.getD c 0) counters
    rw [lost, cleanRedis, Redis.applyAll_count] at count
    omega
  · intro condition arrivals
    refine Alike.sameEffects (Alike.keepReading ?_ (clock.trans cleanClock.symm) arrivals)
    rcases condition with fine | quiet
    · -- Without a message that raises the two batches are one.
      have all : ((nextBatch w.redis).filter fun message => ¬Raises w.redis message) =
          nextBatch w.redis :=
        List.filter_eq_self.mpr fun message mem => by simpa using fine message mem
      rw [all] at queues
      rw [cleanRedis, handled, runs, queues]
      exact .refl _
    · have acks := idle fun message mem => quiet message (List.mem_filter.mp mem).1
      have cleanAlike : Alike (afterRead w.redis) (handledClean fuel w).redis := by
        rw [cleanRedis]
        exact .xacks acks
      by_cases bad : ∃ message ∈ nextBatch w.redis, Raises w.redis message
      · obtain ⟨e, raised⟩ : ∃ e,
            queuedBatch fuel w.clock w.redis (nextBatch w.redis) = .error e :=
          Raises.queuedBatch w.clock bad
        rw [handled, runs, raised]
        exact cleanAlike
      · have all : ((nextBatch w.redis).filter fun message => ¬Raises w.redis message) =
            nextBatch w.redis :=
          List.filter_eq_self.mpr fun message mem => by
            simpa using fun raises => bad ⟨message, mem, raises⟩
        rw [all] at queues
        rw [cleanRedis, handled, runs, queues]
        exact .refl _

end GlobalMemory

/-! ## The dispatcher -/

namespace Dispatcher

open Daemon

/-- A message of the dispatch stream, readable or not. -/
structure RawMessage where
  id : Nat
  request : Except PyError ExecutionRequest

/-- The delivery of a request: its capsule at the port of its core. -/
def delivery (request : ExecutionRequest) : Nat × TaskCapsule :=
  (request.executorCore, request.capsule)

/-- The requests of the messages that can be read. -/
def readable (messages : List RawMessage) : List ExecutionRequest :=
  messages.filterMap fun message => message.request.toOption

/-- The requests of the messages before the first that cannot be read. -/
def untilUnreadable : List RawMessage → List ExecutionRequest
  | [] => []
  | message :: rest =>
    match message.request with
    | .ok request => request :: untilUnreadable rest
    | .error _ => []

/-- No readable message stands after an unreadable one. -/
def ReadableFirst (messages : List RawMessage) : Prop :=
  messages.Pairwise fun earlier later =>
    earlier.request.toOption = none → later.request.toOption = none

instance (messages : List RawMessage) : Decidable (ReadableFirst messages) :=
  inferInstanceAs (Decidable (messages.Pairwise _))

variable (self : Dispatcher)

/-- The batch loop on messages as they stand on the stream: each is read, then dispatched. -/
def rawBatch : List RawMessage → (pipe : List RedisOp) → Daemon Unit
  | [], pipe => redis (.pipeline pipe)
  | message :: rest, pipe => do
    let request ← Prog.ofExcept message.request
    self.dispatch request
    rawBatch rest (pipe ++ [.xack "dispatch_group" message.id])

/-- On messages that can all be read this is the dispatcher's batch loop. -/
theorem rawBatch_ok (messages : List DispatchMessage) (pipe : List RedisOp) :
    self.rawBatch (messages.map fun m => { id := m.id, request := .ok m.request }) pipe =
      self.dispatchBatch messages pipe := by
  induction messages generalizing pipe with
  | nil => rfl
  | cons message rest ih =>
    rw [List.map_cons, rawBatch, dispatchBatch, Prog.ofExcept_ok, Prog.ret_bind]
    exact congrArg (self.dispatch message.request >>= ·) (funext fun _ => ih _)

/-- The dispatch stream, how far the group has been delivered it, and the world. -/
structure Line where
  stream : List (Except PyError ExecutionRequest)
  delivered : Nat := 0
  world : World

namespace Line

variable (line : Line)

/-- What the dispatcher reads next. -/
def nextBatch : List RawMessage :=
  ((line.stream.mapIdx fun id request => { id := id, request := request }).drop
    line.delivered).take 50

/-- The line after the dispatcher has read its next batch. -/
def afterRead : Line := { line with delivered := line.delivered + line.nextBatch.length }

/-- Requests arrive on the stream, readable or not. -/
def arrive (requests : List (Except PyError ExecutionRequest)) : Line :=
  { line with stream := line.stream ++ requests }

/-- The line after a batch loop. -/
def after (messages : List RawMessage) : Line :=
  { line with world := (line.world.alone (self.rawBatch messages [])).2 }

/-- The batch the dispatcher reads next. -/
def handled : Line :=
  if line.nextBatch.isEmpty then line.afterRead else line.afterRead.after self line.nextBatch

/-- The same batch without the messages that cannot be read. -/
def handledClean : Line :=
  line.afterRead.after self
    (line.nextBatch.filter fun message => message.request.toOption.isSome)

/-- The dispatcher keeps reading what arrives, and is restarted when it raises. -/
def keepReading (arrivals : List (List (Except PyError ExecutionRequest))) : Line :=
  arrivals.foldl (fun line requests => (line.arrive requests).handled self) line

end Line

/-- Whatever the restarted dispatcher reads afterwards, every other message of the batch has had
its capsule delivered exactly once. -/
def OthersDelivered (line : Line) : Prop :=
  ∀ arrivals, ((line.handled self).keepReading self arrivals).world.inbox =
    ((line.handledClean self).keepReading self arrivals).world.inbox

/-! ### What a batch comes to -/

/-- With no failing command a dispatched request is one delivery. -/
theorem dispatch_alone (request : ExecutionRequest) (w : World) :
    ∃ redis pg, w.alone (self.dispatch request) =
      (.ok (), { w with redis := redis, pg := pg, inbox := w.inbox ++ [delivery request] }) := by
  let sent : World :=
    { w with
      redis := w.redis.addToCounter statsInflight 1
      inbox := w.inbox ++ [delivery request] }
  obtain ⟨pg, marked⟩ : ∃ p, sent.alone (pg (.markExecutionStarted request.runId)) =
      (.ok (), { sent with pg := p }) := by
    have replies : (sent.pg.exec (.markExecutionStarted request.runId)).1 = .ok () := by
      simp only [Postgres.exec]
      split <;> rfl
    refine ⟨(sent.pg.exec (.markExecutionStarted request.runId)).2, ?_⟩
    simp only [World.alone, Daemon.pg, Prog.call, Prog.run, World.exec, Bool.false_eq_true,
      ↓reduceIte, replies]
  obtain ⟨pg', updated⟩ : ∃ p, ({ sent with pg := pg } : World).alone (do
      let _ ← updateCandidateStatus request.candidateId "running"
      return ()) = (.ok (), { sent with pg := p }) := by
    rw [World.alone, Prog.run_bind _ (run_updateCandidateStatus _ _ _)]
    split <;> exact ⟨_, rfl⟩
  refine ⟨sent.redis, pg', ?_⟩
  have sends : w.alone (self.dispatch request) = sent.alone (dispatched request) := rfl
  rw [sends]
  exact (Prog.run_bind _ marked).trans updated

/-- The batch loop delivers the requests before the first message that cannot be read. -/
theorem rawBatch_alone (messages : List RawMessage) (pipe : List RedisOp) (w : World) :
    (w.alone (self.rawBatch messages pipe)).2.inbox =
      w.inbox ++ (untilUnreadable messages).map delivery := by
  induction messages generalizing pipe w with
  | nil => exact (List.append_nil _).symm
  | cons message rest ih =>
    rw [rawBatch, untilUnreadable]
    cases message.request with
    | error e => exact (List.append_nil _).symm
    | ok request =>
      obtain ⟨redis, pg, runs⟩ := self.dispatch_alone request w
      have later := ih (pipe ++ [.xack "dispatch_group" message.id])
        { w with redis := redis, pg := pg, inbox := w.inbox ++ [delivery request] }
      rw [Prog.ofExcept_ok, Prog.ret_bind, World.alone, Prog.run_bind _ runs, later,
        List.append_assoc]
      rfl

theorem untilUnreadable_eq_nil {messages : List RawMessage}
    (unreadable : ∀ message ∈ messages, message.request.toOption = none) :
    untilUnreadable messages = [] := by
  cases messages with
  | nil => rfl
  | cons message rest =>
    have first := unreadable message List.mem_cons_self
    rw [untilUnreadable]
    cases read : message.request with
    | error e => rfl
    | ok request =>
      rw [read] at first
      cases first

theorem readable_eq_nil {messages : List RawMessage} :
    readable messages = [] ↔ ∀ message ∈ messages, message.request.toOption = none :=
  List.filterMap_eq_nil_iff

/-- All readable requests come before the first unreadable message exactly when no readable
message stands after an unreadable one. -/
theorem untilUnreadable_eq_readable_iff (messages : List RawMessage) :
    (untilUnreadable messages).length = (readable messages).length ↔ ReadableFirst messages := by
  induction messages with
  | nil => simp [untilUnreadable, readable, ReadableFirst]
  | cons message rest ih =>
    rw [ReadableFirst, List.pairwise_cons, ← ReadableFirst, ← ih, untilUnreadable, readable,
      List.filterMap_cons]
    cases message.request with
    | ok request =>
      show (untilUnreadable rest).length + 1 = (readable rest).length + 1 ↔ _
      constructor
      · exact fun same => ⟨fun _ _ none => (by cases none), Nat.succ_inj.mp same⟩
      · exact fun ⟨_, same⟩ => congrArg (· + 1) same
    | error e =>
      show 0 = (readable rest).length ↔ _
      constructor
      · intro none
        have unreadable := readable_eq_nil.mp (List.length_eq_zero_iff.mp none.symm)
        refine ⟨fun later mem _ => unreadable later mem, ?_⟩
        rw [untilUnreadable_eq_nil unreadable, ← none]
        rfl
      · rintro ⟨unreadable, -⟩
        rw [readable_eq_nil.mpr fun later mem => unreadable later mem rfl]
        rfl

/-- What is dispatched is a front of what could be read. -/
theorem untilUnreadable_starts (messages : List RawMessage) :
    untilUnreadable messages <+: readable messages := by
  induction messages with
  | nil => exact List.nil_prefix
  | cons message rest ih =>
    rw [untilUnreadable, readable, List.filterMap_cons]
    cases message.request with
    | ok request => exact List.cons_prefix_cons.mpr ⟨rfl, ih⟩
    | error e => exact List.nil_prefix

/-- Without its unreadable messages a batch is delivered whole. -/
theorem untilUnreadable_filter (messages : List RawMessage) :
    untilUnreadable (messages.filter fun message => message.request.toOption.isSome) =
      readable messages := by
  induction messages with
  | nil => rfl
  | cons message rest ih =>
    rw [List.filter_cons, readable, List.filterMap_cons]
    cases read : message.request with
    | ok request =>
      simp only [Except.toOption, Option.isSome_some, ↓reduceIte]
      rw [untilUnreadable, read]
      exact congrArg (request :: ·) ih
    | error e => exact ih

namespace Line

variable (line : Line)

/-- A batch sends what can be read in front of the first message that cannot. -/
theorem handled_inbox :
    (line.handled self).world.inbox =
      line.world.inbox ++ (untilUnreadable line.nextBatch).map delivery := by
  unfold handled
  cases batch : line.nextBatch with
  | nil => exact (List.append_nil _).symm
  | cons message rest => exact self.rawBatch_alone (message :: rest) [] line.afterRead.world

/-- The readable messages of the batch are one delivery each. -/
theorem handledClean_inbox :
    (line.handledClean self).world.inbox =
      line.world.inbox ++ (readable line.nextBatch).map delivery := by
  rw [← untilUnreadable_filter]
  exact self.rawBatch_alone _ [] line.afterRead.world

theorem handled_place :
    (line.handled self).stream = line.stream ∧
      (line.handled self).delivered = line.delivered + line.nextBatch.length := by
  unfold handled
  split <;> exact ⟨rfl, rfl⟩

/-- What is delivered depends on the stream and the place in it. -/
theorem keepReading_inbox {line line' : Line} (stream : line.stream = line'.stream)
    (delivered : line.delivered = line'.delivered)
    (inbox : line.world.inbox = line'.world.inbox)
    (arrivals : List (List (Except PyError ExecutionRequest))) :
    (line.keepReading self arrivals).world.inbox =
      (line'.keepReading self arrivals).world.inbox := by
  induction arrivals generalizing line line' with
  | nil => exact inbox
  | cons requests rest ih =>
    have streams : (line.arrive requests).stream = (line'.arrive requests).stream :=
      congrArg (· ++ requests) stream
    have batch : (line.arrive requests).nextBatch = (line'.arrive requests).nextBatch := by
      rw [nextBatch, nextBatch, streams]
      exact congrArg (fun place => List.take 50 (List.drop place _)) delivered
    obtain ⟨kept, place⟩ := (line.arrive requests).handled_place self
    obtain ⟨kept', place'⟩ := (line'.arrive requests).handled_place self
    refine ih ?_ ?_ ?_
    · rw [kept, kept', streams]
    · rw [place, place', batch]
      exact congrArg (· + _) delivered
    · rw [handled_inbox, handled_inbox, batch]
      exact congrArg (· ++ _) inbox

end Line

/-- An unreadable message costs only itself exactly when no readable message of the batch stands
after it. -/
theorem othersDelivered_iff (line : Line) :
    self.OthersDelivered line ↔ ReadableFirst line.nextBatch := by
  have first := line.handled_inbox self
  have clean := line.handledClean_inbox self
  rw [← untilUnreadable_eq_readable_iff]
  constructor
  · intro others
    have same : (line.handled self).world.inbox = (line.handledClean self).world.inbox := others []
    rw [first, clean] at same
    have lengths := congrArg List.length (List.append_cancel_left same)
    rwa [List.length_map, List.length_map] at lengths
  · intro lengths arrivals
    have same := (untilUnreadable_starts line.nextBatch).eq_of_length lengths
    obtain ⟨kept, place⟩ := line.handled_place self
    have stream : (line.handled self).stream = (line.handledClean self).stream := kept
    refine Line.keepReading_inbox self stream place ?_ arrivals
    rw [first, clean, same]

end Dispatcher

/-! ## Both daemons -/

/-- A bad message costs only itself, in the memory exactly when no message of its batch raises or
none counts, and in the dispatcher exactly when no readable message stands behind an unreadable one.
-/
theorem bad_message_costs_itself_iff (fuel : Nat) (w : World)
    (ends : GlobalMemory.WalksEnd fuel w.redis) (self : Dispatcher) (line : Dispatcher.Line) :
    (GlobalMemory.OthersCount fuel w ↔
      (∀ message ∈ GlobalMemory.nextBatch w.redis, ¬GlobalMemory.Raises w.redis message) ∨
        ∀ message ∈ GlobalMemory.nextBatch w.redis, ¬GlobalMemory.Counts w.redis message) ∧
    (self.OthersDelivered line ↔ Dispatcher.ReadableFirst line.nextBatch) :=
  ⟨GlobalMemory.othersCount_iff fuel w ends, self.othersDelivered_iff line⟩

/-! ### A payload that is no JSON, and a message after it -/

namespace SmallBatch

/-- One node, and a result of it behind a payload that cannot be read. -/
def badFirst : World where
  redis :=
    { hashes := fun id => if id = "a" then some { treeId := some "t" } else none
      results :=
        [{ id := 0, pack := .error (.valueError "Expecting value") },
          { id := 1, pack := .ok (SmallSearch.result "a" 5 1) }] }

/-- The walk from the only node ends there. -/
theorem badFirst_walksEnd : GlobalMemory.WalksEnd 1 badFirst.redis := by
  intro id node there
  have known : id = "a" := by
    by_contra unknown
    simp only [badFirst, unknown, ↓reduceIte] at there
    cases there
  subst known
  exact ⟨["a"], by decide⟩

/-- One message of the batch raises and another one counts. -/
theorem badFirst_batch :
    (∃ message ∈ GlobalMemory.nextBatch badFirst.redis,
      GlobalMemory.Raises badFirst.redis message) ∧
    ∃ message ∈ GlobalMemory.nextBatch badFirst.redis,
      GlobalMemory.Counts badFirst.redis message :=
  ⟨⟨_, List.mem_cons_self, trivial⟩,
    ⟨_, List.mem_cons_of_mem _ List.mem_cons_self, fun none => by cases none⟩⟩

def dispatcher : Dispatcher where
  sha256 := { text := fun _ => "", hex := fun _ _ mem => by cases mem }

def request : ExecutionRequest where
  runId := "run_0"
  candidateId := "a"
  taskId := "t"
  executorCore := 0
  capsule :=
    { id := "a", treeId := "t", sourcePath := "p.py", testPath := "t.py", code := "", testCode := "" }
  createdAt := 0

/-- The same on the dispatch stream. -/
def badLine : Dispatcher.Line where
  stream := [.error (.valueError "Expecting value"), .ok request]
  world := {}

end SmallBatch

open SmallBatch in
/-- A payload that is no JSON stands in front of a message that is sound, on both streams. -/
theorem bad_message_costs_itself_iff_badFirst :
    (GlobalMemory.OthersCount 1 badFirst ↔
      (∀ message ∈ GlobalMemory.nextBatch badFirst.redis,
        ¬GlobalMemory.Raises badFirst.redis message) ∨
        ∀ message ∈ GlobalMemory.nextBatch badFirst.redis,
          ¬GlobalMemory.Counts badFirst.redis message) ∧
    (dispatcher.OthersDelivered badLine ↔ Dispatcher.ReadableFirst badLine.nextBatch) :=
  bad_message_costs_itself_iff 1 badFirst badFirst_walksEnd dispatcher badLine

open SmallBatch in
/-- The result behind the payload is lost, and so is the request. -/
theorem not_bad_message_costs_itself :
    (¬ ∀ (fuel : Nat) (w : World), GlobalMemory.WalksEnd fuel w.redis →
      GlobalMemory.OthersCount fuel w) ∧
    ¬ ∀ (self : Dispatcher) (line : Dispatcher.Line), self.OthersDelivered line := by
  constructor
  · intro others
    obtain ⟨⟨bad, inBatch, raises⟩, good, alsoInBatch, counts⟩ := badFirst_batch
    rcases (GlobalMemory.othersCount_iff 1 badFirst badFirst_walksEnd).mp
      (others 1 badFirst badFirst_walksEnd) with fine | quiet
    · exact fine bad inBatch raises
    · exact quiet good alsoInBatch counts
  · intro others
    have first := (dispatcher.othersDelivered_iff badLine).mp (others dispatcher badLine)
    revert first
    decide

end KernelOmega
