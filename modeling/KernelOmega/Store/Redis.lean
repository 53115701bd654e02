import KernelOmega.Contracts
import KernelOmega.Planning
import KernelOmega.RedisKeys
import Mathlib.Logic.Function.Basic
import Mathlib.Data.String.Basic

/-!
# The Redis store

The part of Redis the control plane uses, one map for each kind of value it keeps
under a key: hashes, sets, strings and integer counters, and the two streams with
their consumer groups. A hash field holds the value itself rather than its text, so
`HINCRBYFLOAT` is exact.

A command is atomic. A pipeline is sent as one `MULTI`/`EXEC` transaction, so it is
one command that applies its operations in order.
-/

namespace KernelOmega

/-- The hash of a search-tree node, root included. A field that was never written is
absent, which is what `dict.get` with a default distinguishes. -/
structure NodeHash where
  treeId : Option String := none
  code : Option String := none
  testCode : Option String := none
  sourcePath : Option String := none
  testPath : Option String := none
  sourceRelpath : Option String := none
  testRelpath : Option String := none
  repoPath : Option String := none
  repoSnapshot : Option (List (String × String)) := none
  repoSnapshotDigest : Option String := none
  repoSnapshotBytes : Option Int := none
  repoSnapshotFiles : Option Int := none
  parent : Option String := none
  visits : Option Int := none
  valueSum : Option Rat := none
  testsFailed : Option Int := none
  testsPassed : Option Int := none
  isTerminal : Option Bool := none
  expanded : Option Bool := none
  depth : Option Nat := none
  bestReward : Option Rat := none
  maxDepthSeen : Option Nat := none
  generatedCapsules : Option Int := none
  suspiciousLines : Option (List Int) := none
  planJson : Option TaskPlan := none
  planningStatus : Option String := none
  artifactUri : Option String := none
  deriving DecidableEq

/-- `HSET key mapping`: the mapping's fields win, the others stay. -/
def NodeHash.update (mapping old : NodeHash) : NodeHash where
  treeId := mapping.treeId <|> old.treeId
  code := mapping.code <|> old.code
  testCode := mapping.testCode <|> old.testCode
  sourcePath := mapping.sourcePath <|> old.sourcePath
  testPath := mapping.testPath <|> old.testPath
  sourceRelpath := mapping.sourceRelpath <|> old.sourceRelpath
  testRelpath := mapping.testRelpath <|> old.testRelpath
  repoPath := mapping.repoPath <|> old.repoPath
  repoSnapshot := mapping.repoSnapshot <|> old.repoSnapshot
  repoSnapshotDigest := mapping.repoSnapshotDigest <|> old.repoSnapshotDigest
  repoSnapshotBytes := mapping.repoSnapshotBytes <|> old.repoSnapshotBytes
  repoSnapshotFiles := mapping.repoSnapshotFiles <|> old.repoSnapshotFiles
  parent := mapping.parent <|> old.parent
  visits := mapping.visits <|> old.visits
  valueSum := mapping.valueSum <|> old.valueSum
  testsFailed := mapping.testsFailed <|> old.testsFailed
  testsPassed := mapping.testsPassed <|> old.testsPassed
  isTerminal := mapping.isTerminal <|> old.isTerminal
  expanded := mapping.expanded <|> old.expanded
  depth := mapping.depth <|> old.depth
  bestReward := mapping.bestReward <|> old.bestReward
  maxDepthSeen := mapping.maxDepthSeen <|> old.maxDepthSeen
  generatedCapsules := mapping.generatedCapsules <|> old.generatedCapsules
  suspiciousLines := mapping.suspiciousLines <|> old.suspiciousLines
  planJson := mapping.planJson <|> old.planJson
  planningStatus := mapping.planningStatus <|> old.planningStatus
  artifactUri := mapping.artifactUri <|> old.artifactUri

/-- `HINCRBY key visits 1` -/
def NodeHash.addVisit (old : NodeHash) : NodeHash :=
  { old with visits := some (old.visits.getD 0 + 1) }

/-- `HINCRBYFLOAT key value_sum reward` -/
def NodeHash.addValue (reward : Rat) (old : NodeHash) : NodeHash :=
  { old with valueSum := some (old.valueSum.getD 0 + reward) }

/-- A string value with the time it expires, if it has one. -/
structure StringEntry where
  value : String
  deadline : Option Nat := none
  deriving DecidableEq

/-- The record `global_memory` pushes on the list of recent runs. -/
structure LiveRun where
  id : String
  runtime : Rat
  status : String
  reward : Rat
  deriving DecidableEq

/-- The keyspace and the three streams. The keys of different types are kept apart, as no key of the
source is used with two types. -/
structure Redis where
  hashes : String → Option NodeHash := fun _ => none
  sets : String → List String := fun _ => []
  strings : String → Option StringEntry := fun _ => none
  counters : String → Option Int := fun _ => none
  /-- `omega:stats:eval_times`, the sorted set of evaluation times. -/
  evalTimes : List (Nat × String) := []
  /-- `omega:recent_runs`, latest first. -/
  recentRuns : List LiveRun := []
  dispatch : List ExecutionRequest := []
  results : List ResultMessage := []
  accepted : List AcceptedMessage := []
  /-- How many entries of its stream each consumer group has been delivered. -/
  delivered : String → Nat := fun _ => 0
  acked : List (String × Nat) := []
  /-- The results applied so far with their rewards. Kept for statements; no program
  reads it. -/
  applied : List (String × Rat) := []

/-- An operation queued in a pipeline. -/
inductive RedisOp where
  | hset (key : String) (mapping : NodeHash)
  | sadd (key member : String)
  /-- `HINCRBY key visits 1` -/
  | hincrbyVisits (key : String)
  /-- `HINCRBYFLOAT key value_sum reward` -/
  | hincrbyfloatValueSum (key : String) (reward : Rat)
  | incr (key : String)
  /-- `ZADD omega:stats:eval_times`, the member being the time and the capsule. -/
  | zaddEvalTime (now : Nat) (capsuleId : String)
  | zremrangebyscoreEvalTimes (upTo : Int)
  | lpushRecentRun (run : LiveRun)
  | ltrimRecentRuns (last : Nat)
  | set (key value : String)
  | xaddAccepted (payload : AcceptedPayload)
  | xack (group : String) (messageId : Nat)
  /-- Not an operation of the source: it marks in `Redis.applied` that the pipeline
  applies this result. -/
  | applied (capsuleId : String) (reward : Rat)
  deriving DecidableEq

namespace Redis

def modifyHash (r : Redis) (key : String) (f : NodeHash → NodeHash) : Redis :=
  { r with hashes := Function.update r.hashes key (some (f ((r.hashes key).getD {}))) }

theorem modifyHash_hashes (r : Redis) (key : String) (f : NodeHash → NodeHash) :
    (r.modifyHash key f).hashes =
      Function.update r.hashes key (some (f ((r.hashes key).getD {}))) := rfl

/-- `SADD`, which does not add a member twice. -/
def addMember (r : Redis) (key member : String) : Redis :=
  { r with
    sets := Function.update r.sets key
      (if member ∈ r.sets key then r.sets key else r.sets key ++ [member]) }

def addToCounter (r : Redis) (key : String) (n : Int) : Redis :=
  { r with counters := Function.update r.counters key (some ((r.counters key).getD 0 + n)) }

def putString (r : Redis) (key : String) (entry : Option StringEntry) : Redis :=
  { r with strings := Function.update r.strings key entry }

/-- One operation of a pipeline. -/
def apply (r : Redis) : RedisOp → Redis
  | .hset key mapping => r.modifyHash key mapping.update
  | .sadd key member => r.addMember key member
  | .hincrbyVisits key => r.modifyHash key NodeHash.addVisit
  | .hincrbyfloatValueSum key reward => r.modifyHash key (NodeHash.addValue reward)
  | .incr key => r.addToCounter key 1
  | .zaddEvalTime now capsuleId => { r with evalTimes := r.evalTimes ++ [(now, capsuleId)] }
  | .zremrangebyscoreEvalTimes upTo =>
    { r with evalTimes := r.evalTimes.filter fun e => decide (upTo < e.1) }
  | .lpushRecentRun run => { r with recentRuns := run :: r.recentRuns }
  | .ltrimRecentRuns last => { r with recentRuns := r.recentRuns.take (last + 1) }
  | .set key value => r.putString key (some { value := value })
  | .xaddAccepted payload =>
    { r with accepted := r.accepted ++ [{ id := r.accepted.length, payload := payload }] }
  | .xack group messageId => { r with acked := r.acked ++ [(group, messageId)] }
  | .applied capsuleId reward => { r with applied := r.applied ++ [(capsuleId, reward)] }

def applyAll (r : Redis) (ops : List RedisOp) : Redis := ops.foldl apply r

end Redis

/-- The commands. An `HGET` of one field is an `hgetall` of which that field is used. -/
inductive RedisCmd where
  | hgetall (key : String)
  | hset (key : String) (mapping : NodeHash)
  | smembers (key : String)
  | sadd (key member : String)
  | get (key : String)
  | existsKey (key : String)
  /-- `SET key value`, with `NX` and `EX seconds` when given; the reply tells whether
  the value was stored. -/
  | set (key value : String) (nx : Bool := false) (ex : Option Nat := none)
  | delete (key : String)
  | incr (key : String)
  | decr (key : String)
  | getCounter (key : String)
  | xaddDispatch (request : ExecutionRequest)
  | xaddResult (pack : VerificationPack)
  | xreadgroupDispatch (group : String) (count : Nat)
  | xreadgroupResults (group : String) (count : Nat)
  | xreadgroupAccepted (group : String) (count : Nat)
  | pipeline (ops : List RedisOp)
  deriving DecidableEq

/-- What `redis-py` returns for each command, decoded. -/
abbrev RedisCmd.Reply : RedisCmd → Type
  | .hgetall _ => Option NodeHash
  | .hset _ _ => Unit
  | .smembers _ => List String
  | .sadd _ _ => Unit
  | .get _ => Option String
  | .existsKey _ => Bool
  | .set _ _ _ _ => Bool
  | .delete _ => Unit
  | .incr _ => Int
  | .decr _ => Int
  | .getCounter _ => Option Int
  | .xaddDispatch _ => Unit
  | .xaddResult _ => Unit
  | .xreadgroupDispatch _ _ => List DispatchMessage
  | .xreadgroupResults _ _ => List ResultMessage
  | .xreadgroupAccepted _ _ => List AcceptedMessage
  | .pipeline _ => Unit

/-- One command at time `now`: its reply and the store after it. -/
def Redis.exec (now : Nat) (r : Redis) : (c : RedisCmd) → c.Reply × Redis
  | .hgetall key => (r.hashes key, r)
  | .hset key mapping => ((), r.apply (.hset key mapping))
  | .smembers key => (r.sets key, r)
  | .sadd key member => ((), r.addMember key member)
  | .get key => ((r.strings key).map (·.value), r)
  | .existsKey key => ((r.strings key).isSome, r)
  | .set key value nx ex =>
    if nx && (r.strings key).isSome then (false, r)
    else (true, r.putString key (some { value := value, deadline := ex.map (now + ·) }))
  | .delete key => ((), r.putString key none)
  | .incr key => ((r.counters key).getD 0 + 1, r.addToCounter key 1)
  | .decr key => ((r.counters key).getD 0 - 1, r.addToCounter key (-1))
  | .getCounter key => (r.counters key, r)
  | .xaddDispatch request => ((), { r with dispatch := r.dispatch ++ [request] })
  | .xaddResult pack =>
    ((), { r with results := r.results ++ [{ id := r.results.length, pack := .ok pack }] })
  | .xreadgroupDispatch group count =>
    let messages := r.dispatch.mapIdx fun id request => { id := id, request := request }
    let batch := (messages.drop (r.delivered group)).take count
    (batch, { r with
      delivered := Function.update r.delivered group (r.delivered group + batch.length) })
  | .xreadgroupResults group count =>
    let batch := (r.results.drop (r.delivered group)).take count
    (batch, { r with
      delivered := Function.update r.delivered group (r.delivered group + batch.length) })
  | .xreadgroupAccepted group count =>
    let batch := (r.accepted.drop (r.delivered group)).take count
    (batch, { r with
      delivered := Function.update r.delivered group (r.delivered group + batch.length) })
  | .pipeline ops => ((), r.applyAll ops)

/-- A read that changes nothing except how far a consumer group has read. A `GET` is left
out: locks and reservations are read with it, and what their holder does next depends on
the reply. -/
def RedisCmd.Passive : RedisCmd → Prop
  | .hgetall _ => True
  | .smembers _ => True
  | .existsKey _ => True
  | .getCounter _ => True
  | .xreadgroupDispatch _ _ => True
  | .xreadgroupResults _ _ => True
  | .xreadgroupAccepted _ _ => True
  | _ => False

end KernelOmega
