import KernelOmega.Ledger.Calls
import KernelOmega.Search.Walk

/-!
# A turn of the memory

What `GlobalMemory.run` makes of one batch when nothing else touches the store. All it reads
while it goes through the batch, it reads from the store as the batch found it, and what it
queues is applied afterwards in one transaction, or not at all when a message raises.
-/

namespace KernelOmega

open Concurrent

/-- The run of a program with nothing around it and no failure. -/
abbrev World.alone {α : Type} (p : Daemon α) (w : World) : Except PyError α × World :=
  p.run World.exec (fun _ => {}) w

namespace GlobalMemory

open Daemon

/-! ## What a message queues -/

/-- The nodes the walk passes. -/
def walk (r : Redis) : (fuel : Nat) → (current : String) → Except PyError (List String)
  | 0, current => if current = "" then .ok [] else .error .outOfFuel
  | fuel + 1, current =>
    if current = "" then .ok []
    else (walk r fuel (((r.hashes current).bind (·.parent)).getD "")).map (current :: ·)

/-- The parent's hash as the message finds it. -/
def parentHash (r : Redis) (node : NodeHash) : Option NodeHash :=
  if node.parent.getD "" = "" then none else r.hashes (node.parent.getD "")

/-- The reward a result earns against the store. -/
def reward (r : Redis) (pack : VerificationPack) (node : NodeHash) : Rat :=
  computeReward pack (parentHash r node)

/-- The summaries queued against the store. -/
def summaries (r : Redis) (rootId : String) (reward : Rat) (nodeDepth : Nat) : List RedisOp :=
  (if ((r.hashes rootId).bind (·.bestReward)).getD 0 < reward then
    [.hset rootId { bestReward := some reward }] else []) ++
  if ((r.hashes rootId).bind (·.maxDepthSeen)).getD 0 < nodeDepth then
    [.hset rootId { maxDepthSeen := some nodeDepth }] else []

/-- The operations that close the tree, when the result passes. -/
def closing (taskId : String) (pack : VerificationPack) : List RedisOp :=
  if pack.passed then
    [.set (treeDoneKey taskId) pack.capsuleId, .hset pack.capsuleId { isTerminal := some true }]
  else []

/-- The operations queued for a result of a known node. -/
def resultOps (now : Nat) (r : Redis) (pack : VerificationPack) (node : NodeHash) (taskId : String)
    (path : List String) : List RedisOp :=
  statsOps now pack (reward r pack node) ++ walkOps pack (reward r pack node) path ++
    summaries r (rootNodeId taskId) (reward r pack node) (node.depth.getD 0) ++ closing taskId pack

/-- What one message queues, or the exception it raises. -/
def queued (fuel now : Nat) (r : Redis) (pack : VerificationPack) :
    Except PyError (List RedisOp) :=
  match r.hashes pack.capsuleId with
  | none => .ok []
  | some node =>
    match node.treeId with
    | none => .error (.keyError "tree_id")
    | some taskId => (walk r fuel pack.capsuleId).map (resultOps now r pack node taskId)

/-- What a batch queues: the first message that raises ends it. -/
def queuedBatch (fuel now : Nat) (r : Redis) : List ResultMessage → Except PyError (List RedisOp)
  | [] => .ok []
  | message :: rest =>
    match message.pack with
    | .error e => .error e
    | .ok pack =>
      match queued fuel now r pack with
      | .error e => .error e
      | .ok ops => (queuedBatch fuel now r rest).map ((ops ++ [.xack "memory_group" message.id]) ++ ·)

/-! ## The code queues it -/

theorem alone_hgetall {α : Type} (key : String) (f : Option NodeHash → Daemon α) (w : World) :
    w.alone (redis (.hgetall key) >>= f) = w.alone (f (w.redis.hashes key)) := rfl

/-- Alone in the store, the loop up the parents is the walk from the node, and it queues the
operations of the walk. -/
theorem backpropagate_alone (pack : VerificationPack) (reward : Rat) (fuel : Nat)
    (current : String) (w : World) :
    w.alone (backpropagate pack reward fuel current) =
      ((walk w.redis fuel current).map (walkOps pack reward), w) := by
  induction fuel generalizing current with
  | zero =>
    unfold backpropagate walk
    split <;> rfl
  | succ fuel ih =>
    unfold backpropagate walk
    split
    · rfl
    · rw [alone_hgetall]
      have rest := ih (((w.redis.hashes current).bind (·.parent)).getD "")
      cases walked : walk w.redis fuel (((w.redis.hashes current).bind (·.parent)).getD "") with
      | error e =>
        rw [walked] at rest
        exact Prog.run_bind_error _ rest
      | ok path =>
        rw [walked] at rest
        exact Prog.run_bind _ rest

/-- The end of a result writes to the ledger at once and queues the closing of the tree. -/
theorem settle_alone (taskId : String) (pack : VerificationPack) (w : World) :
    ∃ pg, w.alone (settle taskId pack) = (.ok (closing taskId pack), { w with pg := pg }) := by
  have updated : ∀ (condition : Bool) (w : World) (statement : PgCmd), ∃ pg,
      (if condition then { w with pg := (w.pg.exec statement).2 } else w) = { w with pg := pg } := by
    intro condition w statement
    split
    · exact ⟨_, rfl⟩
    · exact ⟨w.pg, rfl⟩
  unfold settle closing
  split
  · obtain ⟨pg, first⟩ := updated
      (canTransitionCandidateStatus (w.pg.candidateStatus pack.capsuleId) "verified") w
      (.setCandidateStatus pack.capsuleId "verified")
    obtain ⟨pg', second⟩ := updated
      (canTransitionTaskStatus (pg.taskStatus taskId) "verified") { w with pg := pg }
      (.setTaskStatus taskId "verified")
    refine ⟨pg', (Prog.run_bind _ (run_updateCandidateStatus _ _ _)).trans ?_⟩
    rw [first]
    refine (Prog.run_bind _ (run_updateTaskStatus _ _ _)).trans ?_
    rw [second]
    rfl
  · obtain ⟨pg, first⟩ := updated
      (canTransitionCandidateStatus (w.pg.candidateStatus pack.capsuleId) "failed") w
      (.setCandidateStatus pack.capsuleId "failed")
    refine ⟨pg, (Prog.run_bind _ (run_updateCandidateStatus _ _ _)).trans ?_⟩
    rw [first]
    rfl

/-- The end of an execution is a statement of the ledger, and does not fail. -/
theorem completeExecution_alone (pack : VerificationPack) (w : World) :
    ∃ p, w.alone (Daemon.pg (.completeExecution pack)) = (.ok (), { w with pg := p }) := by
  have replies : (w.pg.exec (.completeExecution pack)).1 = .ok () := by
    simp only [Postgres.exec]
    split <;> rfl
  refine ⟨(w.pg.exec (.completeExecution pack)).2, ?_⟩
  simp only [World.alone, Daemon.pg, Prog.call, Prog.run, World.exec, Bool.false_eq_true, ↓reduceIte,
    replies]

theorem parentData_alone (node : NodeHash) (w : World) :
    w.alone (parentData node) = (.ok (parentHash w.redis node), w) := by
  unfold parentData parentHash
  dsimp only
  split <;> rfl

/-- One result, alone in the store: what it queues depends on the store before the batch, for
nothing of the batch has been applied yet. -/
theorem rememberResult_alone (fuel now : Nat) (pack : VerificationPack) (w : World) :
    ∃ pg, w.alone (rememberResult fuel now pack) =
      (queued fuel now w.redis pack, { w with pg := pg }) := by
  obtain ⟨pg, completed⟩ := completeExecution_alone pack w
  unfold rememberResult queued
  rw [World.alone, Prog.run_bind _ completed]
  refine Exists.imp (fun pg' => (alone_hgetall pack.capsuleId _ { w with pg := pg }).trans) ?_
  dsimp only
  cases w.redis.hashes pack.capsuleId with
  | none => exact ⟨pg, rfl⟩
  | some node =>
    dsimp only
    have parent := parentData_alone node { w with pg := pg }
    cases treeId : node.treeId with
    | none => exact ⟨pg, (Prog.run_bind _ parent).trans rfl⟩
    | some taskId =>
      have named : (Prog.ofExcept (subscript "tree_id" (some taskId)) : Daemon String).run World.exec
          (fun _ => {}) { w with pg := pg } = (.ok taskId, { w with pg := pg }) := rfl
      have walks := backpropagate_alone pack (reward w.redis pack node) fuel pack.capsuleId
        { w with pg := pg }
      dsimp only
      cases walked : walk w.redis fuel pack.capsuleId with
      | error e =>
        refine ⟨pg, (Prog.run_bind _ parent).trans ((Prog.run_bind _ named).trans ?_)⟩
        rw [walked] at walks
        exact Prog.run_bind_error _ walks
      | ok path =>
        rw [walked] at walks
        obtain ⟨pg', settled⟩ := settle_alone taskId pack { w with pg := pg }
        refine ⟨pg', (Prog.run_bind _ parent).trans ((Prog.run_bind _ named).trans ?_)⟩
        exact (Prog.run_bind _ walks).trans (Prog.run_bind _ settled)

/-- A batch that raises has queued in vain. -/
theorem rememberBatch_alone (fuel now : Nat) (messages : List ResultMessage)
    (pipe : List RedisOp) (w : World) :
    ∃ pg, w.alone (rememberBatch fuel now messages pipe) =
      match queuedBatch fuel now w.redis messages with
      | .ok ops => (.ok (), { w with pg := pg, redis := w.redis.applyAll (pipe ++ ops) })
      | .error e => (.error e, { w with pg := pg }) := by
  induction messages generalizing pipe w with
  | nil =>
    refine ⟨w.pg, ?_⟩
    simp only [queuedBatch, List.append_nil]
    rfl
  | cons message rest ih =>
    rw [queuedBatch]
    cases decoded : message.pack with
    | error e =>
      refine ⟨w.pg, ?_⟩
      rw [rememberBatch, decoded]
      rfl
    | ok pack =>
      obtain ⟨pg, handled⟩ := rememberResult_alone fuel now pack w
      have split : w.alone (rememberBatch fuel now (message :: rest) pipe) =
          w.alone (rememberResult fuel now pack >>= fun ops =>
            rememberBatch fuel now rest (pipe ++ (ops ++ [.xack "memory_group" message.id]))) := by
        rw [rememberBatch, decoded]
        rfl
      rw [split]
      dsimp only
      cases ops : queued fuel now w.redis pack with
      | error e =>
        rw [ops] at handled
        exact ⟨pg, Prog.run_bind_error _ handled⟩
      | ok ops' =>
        rw [ops] at handled
        obtain ⟨pg', later⟩ := ih (pipe ++ (ops' ++ [.xack "memory_group" message.id]))
          { w with pg := pg }
        refine ⟨pg', (Prog.run_bind _ handled).trans (later.trans ?_)⟩
        dsimp only
        cases queuedBatch fuel now w.redis rest with
        | error e => rfl
        | ok more =>
          simp only [Except.map, List.append_assoc]

/-! ## A turn -/

/-- What the memory reads next. -/
def nextBatch (r : Redis) : List ResultMessage :=
  (r.results.drop (r.delivered "memory_group")).take 50

/-- The store after the memory has read its next batch. -/
def afterRead (r : Redis) : Redis :=
  { r with
    delivered := Function.update r.delivered "memory_group"
      (r.delivered "memory_group" + (nextBatch r).length) }

/-- Only the hashes decide what a result queues. -/
theorem queued_congr {fuel now : Nat} {r r' : Redis} (same : r'.hashes = r.hashes)
    (pack : VerificationPack) : queued fuel now r' pack = queued fuel now r pack := by
  have walks : ∀ fuel current, walk r' fuel current = walk r fuel current := by
    intro fuel
    induction fuel with
    | zero => exact fun _ => rfl
    | succ fuel ih =>
      intro current
      rw [walk, walk, same, ih]
  have earns : ∀ node, reward r' pack node = reward r pack node := by
    intro node
    rw [reward, reward, parentHash, parentHash, same]
  have ops : ∀ node taskId path,
      resultOps now r' pack node taskId path = resultOps now r pack node taskId path := by
    intro node taskId path
    rw [resultOps, resultOps, summaries, summaries, same, earns]
  rw [queued, queued, same]
  cases r.hashes pack.capsuleId with
  | none => rfl
  | some node =>
    dsimp only
    cases node.treeId with
    | none => rfl
    | some taskId =>
      dsimp only
      rw [walks]
      exact congrArg (Except.map · _) (funext (ops node taskId))

/-- Only the hashes decide what a batch queues. -/
theorem queuedBatch_congr {fuel now : Nat} {r r' : Redis} (same : r'.hashes = r.hashes)
    (messages : List ResultMessage) :
    queuedBatch fuel now r' messages = queuedBatch fuel now r messages := by
  induction messages with
  | nil => rfl
  | cons message rest ih =>
    rw [queuedBatch, queuedBatch, ih]
    cases message.pack with
    | error e => rfl
    | ok pack =>
      dsimp only
      rw [queued_congr same]

/-- A turn applies what its batch queues, all of it or nothing. -/
theorem remember_alone (fuel : Nat) (w : World) :
    ∃ pg, w.alone (remember fuel) =
      match queuedBatch fuel w.clock w.redis (nextBatch w.redis) with
      | .ok ops => (.ok (), { w with pg := pg, redis := (afterRead w.redis).applyAll ops })
      | .error e => (.error e, { w with pg := pg, redis := afterRead w.redis }) := by
  have read : w.alone (remember fuel) =
      { w with redis := afterRead w.redis }.alone
        (if (nextBatch w.redis).isEmpty then return () else do
          let now ← Prog.call Cmd.time
          rememberBatch fuel now (nextBatch w.redis) []) := rfl
  rw [read]
  cases batch : nextBatch w.redis with
  | nil => exact ⟨w.pg, rfl⟩
  | cons message rest =>
    obtain ⟨pg, runs⟩ := rememberBatch_alone fuel w.clock (message :: rest) []
      { w with redis := afterRead w.redis }
    refine ⟨pg, Eq.trans ?_ runs |>.trans ?_⟩
    · rfl
    · have same : (afterRead w.redis).hashes = w.redis.hashes := rfl
      rw [queuedBatch_congr same]
      rfl

end GlobalMemory

end KernelOmega
