import KernelOmega.Store.World

/-!
# The global memory

`control_plane/global_memory.py`: the daemon that turns results into statistics of
the search tree. For every message of a batch it walks from the node to the root,
one hash at a time, and queues the increments; the queue is executed as one
transaction after the batch. An exception leaves `run` with the queue unsent, so a
raised batch applies nothing.

The walk is an unbounded `while` loop in the source. Here it takes a bound and
raises `outOfFuel` past it.
-/

namespace KernelOmega

open Concurrent

/-- `s[-8:]` -/
def lastEight (s : String) : String := String.ofList (s.toList.drop (s.toList.length - 8))

namespace GlobalMemory

open Daemon

/-- `compute_reward`; the parent's hash is missing for the root. -/
def computeReward (pack : VerificationPack) (parentData : Option NodeHash) : Rat :=
  let parentFailed : Int :=
    match parentData with
    | some parent => parent.testsFailed.getD 999
    | none => 999
  let reward : Rat := 100 * pack.testsPassed - 200 * pack.testsFailed - pack.runtime / 100
  if pack.testsFailed < parentFailed then
    reward + 500 * (parentFailed - pack.testsFailed : Int)
  else reward

/-- What one iteration of the walk queues for the node it is at. -/
def visitOps (pack : VerificationPack) (reward : Rat) (current : String) : List RedisOp :=
  [.hincrbyVisits current, .hincrbyfloatValueSum current reward] ++
    if current = pack.capsuleId then
      [.hset current
        { testsFailed := some pack.testsFailed
          testsPassed := some pack.testsPassed
          artifactUri := some (pack.artifactUri.getD "") }]
    else []

/-- The `while current` loop, for at most `fuel` iterations. -/
def backpropagate (pack : VerificationPack) (reward : Rat) :
    (fuel : Nat) → (current : String) → Daemon (List RedisOp)
  | 0, current => if current = "" then return [] else .raise .outOfFuel
  | fuel + 1, current =>
    if current = "" then return []
    else do
      let currentData ← redis (.hgetall current)
      let parent := (currentData.bind (·.parent)).getD ""
      let rest ← backpropagate pack reward fuel parent
      return visitOps pack reward current ++ rest

/-- The counters and the recent-runs entry queued for a result. -/
def statsOps (now : Nat) (pack : VerificationPack) (reward : Rat) : List RedisOp :=
  [.applied pack.capsuleId reward,
    .incr statsTotalEvals,
    .zaddEvalTime now pack.capsuleId,
    .zremrangebyscoreEvalTimes ((now : Int) - 60),
    .lpushRecentRun
      { id := lastEight pack.capsuleId
        runtime := pack.runtime
        status := if pack.passed then "FORMAL PROOF" else "Failed"
        reward := reward },
    .ltrimRecentRuns 49]

/-- The root summaries queued for a result: each value is compared with what the
store holds when it is read. -/
def summaryOps (rootId : String) (reward : Rat) (nodeDepth : Nat) : Daemon (List RedisOp) := do
  let root ← redis (.hgetall rootId)
  let bestReward := (root.bind (·.bestReward)).getD 0
  let root ← redis (.hgetall rootId)
  let maxDepthSeen := (root.bind (·.maxDepthSeen)).getD 0
  return (if bestReward < reward then [.hset rootId { bestReward := some reward }] else []) ++
    if maxDepthSeen < nodeDepth then [.hset rootId { maxDepthSeen := some nodeDepth }] else []

/-- The end of a message's processing: a pass closes the tree. -/
def settle (taskId : String) (pack : VerificationPack) : Daemon (List RedisOp) :=
  if pack.passed then do
    let _ ← updateCandidateStatus pack.capsuleId "verified"
    let _ ← updateTaskStatus taskId "verified"
    return [.set (treeDoneKey taskId) pack.capsuleId,
      .hset pack.capsuleId { isTerminal := some true }]
  else do
    let _ ← updateCandidateStatus pack.capsuleId "failed"
    return []

/-- The parent's hash, read when the node names a parent. -/
def parentData (node : NodeHash) : Daemon (Option NodeHash) :=
  let parentId := node.parent.getD ""
  if parentId = "" then return none else redis (.hgetall parentId)

/-- One message of the batch: the operations it queues. -/
def rememberResult (fuel now : Nat) (pack : VerificationPack) : Daemon (List RedisOp) := do
  pg (.completeExecution pack)
  let found ← redis (.hgetall pack.capsuleId)
  match found with
  | none => return []
  | some node => do
    let parent ← parentData node
    let reward := computeReward pack parent
    let taskId ← Prog.ofExcept (subscript "tree_id" node.treeId)
    let path ← backpropagate pack reward fuel pack.capsuleId
    let summary ← summaryOps (rootNodeId taskId) reward (node.depth.getD 0)
    let closing ← settle taskId pack
    return statsOps now pack reward ++ path ++ summary ++ closing

/-- The batch loop; `pipe` is what the messages before have queued. -/
def rememberBatch (fuel now : Nat) : List ResultMessage → (pipe : List RedisOp) → Daemon Unit
  | [], pipe => redis (.pipeline pipe)
  | message :: rest, pipe => do
    let pack ← Prog.ofExcept message.pack
    let ops ← rememberResult fuel now pack
    rememberBatch fuel now rest (pipe ++ (ops ++ [.xack "memory_group" message.id]))

/-- One turn of `run`. -/
def remember (fuel : Nat) : Daemon Unit := do
  let messages ← redis (.xreadgroupResults "memory_group" 50)
  if messages.isEmpty then
    return ()
  else do
    let now ← Prog.call Cmd.time
    rememberBatch fuel now messages []

end GlobalMemory

/-! ## What the memory writes -/

/-- The operations the memory queues. -/
def RedisOp.OfMemory : RedisOp → Prop
  | .hset _ mapping => ∃ testsFailed testsPassed artifactUri isTerminal bestReward maxDepthSeen,
      isTerminal ≠ some false ∧ mapping = {
        testsFailed := testsFailed
        testsPassed := testsPassed
        artifactUri := artifactUri
        isTerminal := isTerminal
        bestReward := bestReward
        maxDepthSeen := maxDepthSeen }
  | .incr key => key = statsTotalEvals
  | .set key _ => ∃ taskId, key = treeDoneKey taskId
  | .sadd _ _ => False
  | .xaddAccepted _ => False
  | _ => True

/-- The commands the memory issues: reads, ledger statements and its pipeline. -/
def Cmd.OfMemory (c : Cmd) : Prop :=
  c.Passive ∨ ∃ ops, c = .redis (.pipeline ops) ∧ ∀ op ∈ ops, op.OfMemory

namespace GlobalMemory

open Daemon

/-- The operations of one visit are the memory's, -/
theorem visitOps_ofMemory (pack : VerificationPack) (reward : Rat) (current : String) :
    ∀ op ∈ visitOps pack reward current, op.OfMemory := by
  intro op mem
  unfold visitOps at mem
  rw [List.mem_append] at mem
  rcases mem with mem | mem
  · simp only [List.mem_cons, List.not_mem_nil, or_false] at mem
    rcases mem with rfl | rfl <;> trivial
  · split at mem
    · rw [List.mem_singleton] at mem
      subst mem
      exact ⟨_, _, _, none, none, none, nofun, rfl⟩
    · cases mem

/-- The loop up the parents reads on its way, and what it returns are operations of the memory. -/
theorem backpropagate_ofMemory (pack : VerificationPack) (reward : Rat) (fuel : Nat)
    (current : String) :
    (backpropagate pack reward fuel current).Uses Cmd.Passive ∧
      (backpropagate pack reward fuel current).Yields fun ops => ∀ op ∈ ops, op.OfMemory := by
  induction fuel generalizing current with
  | zero =>
    unfold backpropagate
    split
    · exact ⟨trivial, fun _ mem => by cases mem⟩
    · exact ⟨trivial, trivial⟩
  | succ fuel ih =>
    unfold backpropagate
    split
    · exact ⟨trivial, fun _ mem => by cases mem⟩
    · constructor
      · exact (Prog.uses_call trivial).bind fun _ => (ih _).1.bind fun _ => trivial
      · refine (Prog.yields_true _).bind fun _ _ => (ih _).2.bind fun rest older => ?_
        intro op mem
        rcases List.mem_append.mp mem with mem | mem
        · exact visitOps_ofMemory pack reward current op mem
        · exact older op mem

theorem statsOps_ofMemory (now : Nat) (pack : VerificationPack) (reward : Rat) :
    ∀ op ∈ statsOps now pack reward, op.OfMemory := by
  intro op mem
  simp only [statsOps, List.mem_cons, List.not_mem_nil, or_false] at mem
  rcases mem with rfl | rfl | rfl | rfl | rfl | rfl
  · trivial
  · rfl
  all_goals trivial

/-- those of the summary, -/
theorem summaryOps_ofMemory (rootId : String) (reward : Rat) (nodeDepth : Nat) :
    (summaryOps rootId reward nodeDepth).Uses Cmd.Passive ∧
      (summaryOps rootId reward nodeDepth).Yields fun ops => ∀ op ∈ ops, op.OfMemory := by
  constructor
  · exact (Prog.uses_call trivial).bind fun _ => (Prog.uses_call trivial).bind fun _ => trivial
  · refine (Prog.yields_true _).bind fun _ _ => (Prog.yields_true _).bind fun _ _ => ?_
    intro op mem
    rcases List.mem_append.mp mem with mem | mem
    · split at mem
      · rw [List.mem_singleton] at mem
        subst mem
        exact ⟨none, none, none, none, _, none, nofun, rfl⟩
      · cases mem
    · split at mem
      · rw [List.mem_singleton] at mem
        subst mem
        exact ⟨none, none, none, none, none, _, nofun, rfl⟩
      · cases mem

/-- those that settle a tree, -/
theorem settle_ofMemory (taskId : String) (pack : VerificationPack) :
    (settle taskId pack).Uses Cmd.Passive ∧
      (settle taskId pack).Yields fun ops => ∀ op ∈ ops, op.OfMemory := by
  unfold settle
  split
  · constructor
    · exact (updateCandidateStatus_passive _ _).bind fun _ =>
        (updateTaskStatus_passive _ _).bind fun _ => trivial
    · refine (Prog.yields_true _).bind fun _ _ => (Prog.yields_true _).bind fun _ _ => ?_
      intro op mem
      simp only [List.mem_cons, List.not_mem_nil, or_false] at mem
      rcases mem with rfl | rfl
      · exact ⟨taskId, rfl⟩
      · exact ⟨none, none, none, some true, none, none, nofun, rfl⟩
  · constructor
    · exact (updateCandidateStatus_passive _ _).bind fun _ => trivial
    · exact (Prog.yields_true _).bind fun _ _ _ mem => by cases mem

theorem parentData_passive (node : NodeHash) : (parentData node).Uses Cmd.Passive := by
  unfold parentData
  dsimp only
  split
  · trivial
  · exact Prog.uses_call trivial

/-- So it is with the whole of a result. -/
theorem rememberResult_ofMemory (fuel now : Nat) (pack : VerificationPack) :
    (rememberResult fuel now pack).Uses Cmd.Passive ∧
      (rememberResult fuel now pack).Yields fun ops => ∀ op ∈ ops, op.OfMemory := by
  constructor
  · refine (Prog.uses_call trivial).bind fun _ => (Prog.uses_call trivial).bind fun found => ?_
    cases found with
    | none => trivial
    | some node =>
      refine (parentData_passive node).bind fun parent => ?_
      refine (Prog.uses_ofExcept _).bind fun taskId => ?_
      refine (backpropagate_ofMemory _ _ _ _).1.bind fun path => ?_
      refine (summaryOps_ofMemory _ _ _).1.bind fun summary => ?_
      exact (settle_ofMemory _ _).1.bind fun _ => trivial
  · refine (Prog.yields_true _).bind fun _ _ => (Prog.yields_true _).bind fun found _ => ?_
    cases found with
    | none => exact fun _ mem => by cases mem
    | some node =>
      refine (Prog.yields_true _).bind fun parent _ => (Prog.yields_true _).bind fun taskId _ => ?_
      refine (backpropagate_ofMemory _ _ _ _).2.bind fun path onPath => ?_
      refine (summaryOps_ofMemory _ _ _).2.bind fun summary onRoot => ?_
      refine (settle_ofMemory _ _).2.bind fun closing onClose => ?_
      intro op mem
      simp only [List.mem_append] at mem
      rcases mem with ((mem | mem) | mem) | mem
      · exact statsOps_ofMemory now pack _ op mem
      · exact onPath op mem
      · exact onRoot op mem
      · exact onClose op mem

/-- and so is the transaction of a batch. -/
theorem rememberBatch_ofMemory (fuel now : Nat) (messages : List ResultMessage)
    {pipe : List RedisOp} (queued : ∀ op ∈ pipe, op.OfMemory) :
    (rememberBatch fuel now messages pipe).Uses Cmd.OfMemory := by
  induction messages generalizing pipe with
  | nil => exact Prog.uses_call (.inr ⟨pipe, rfl, queued⟩)
  | cons message rest ih =>
    refine (Prog.uses_ofExcept _).bind fun pack => ?_
    obtain ⟨uses, yields⟩ := rememberResult_ofMemory fuel now pack
    refine (uses.mono fun _ => .inl).bind_of_yields yields fun ops mine => ih fun op mem => ?_
    simp only [List.mem_append, List.mem_singleton] at mem
    rcases mem with mem | mem | rfl
    · exact queued op mem
    · exact mine op mem
    · trivial

/-- A turn of the memory reads, and writes only its own operations. -/
theorem remember_ofMemory (fuel : Nat) : (remember fuel).Uses Cmd.OfMemory := by
  refine (Prog.uses_call (.inl trivial)).bind fun messages => ?_
  split
  · trivial
  · refine (Prog.uses_call (.inl trivial)).bind fun now => ?_
    exact rememberBatch_ofMemory fuel now messages fun _ mem => by cases mem

end GlobalMemory

end KernelOmega
