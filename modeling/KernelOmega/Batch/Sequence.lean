import KernelOmega.Batch.Fields
import KernelOmega.Store.Effects

/-!
# Batches in sequence

Results arrive on the stream and the memory takes a turn, again and again: the ways in which
`xreadgroup` cuts a sequence of results into batches. A turn that returns adds the visits and
values of every walk and sets the fields of every message, all of it computed from the store
as the batch found it.
-/

namespace KernelOmega

open Concurrent

/-- Packs arrive on the results stream. -/
def Redis.publish (r : Redis) (packs : List VerificationPack) : Redis :=
  packs.foldl (fun r pack => (r.exec 0 (.xaddResult pack)).2) r

/-- The memory has read all there is. -/
def Redis.Drained (r : Redis) : Prop := r.delivered "memory_group" = r.results.length

instance Redis.decidableDrained (r : Redis) : Decidable r.Drained :=
  inferInstanceAs (Decidable (_ = _))

/-- Packs arrive and the memory takes a turn. -/
def World.turnOn (fuel : Nat) (w : World) (batch : List VerificationPack) :
    Except PyError Unit × World :=
  { w with redis := w.redis.publish batch }.alone (GlobalMemory.remember fuel)

/-- The memory takes a turn after each batch has arrived; a turn that raises ends the run. -/
def World.rememberAll (fuel : Nat) : World → List (List VerificationPack) → Except PyError World
  | w, [] => .ok w
  | w, batch :: rest =>
    match w.turnOn fuel batch with
    | (.ok (), w') => World.rememberAll fuel w' rest
    | (.error e, _) => .error e

/-- Publishing packs puts messages with these packs on the stream, and does nothing else. -/
theorem publish_eq (r : Redis) (packs : List VerificationPack) :
    ∃ messages, messages.map (·.pack) = packs.map .ok ∧
      r.publish packs = { r with results := r.results ++ messages } := by
  induction packs generalizing r with
  | nil => exact ⟨[], rfl, by rw [List.append_nil]; rfl⟩
  | cons pack rest ih =>
    obtain ⟨messages, packs, after⟩ := ih (r.exec 0 (.xaddResult pack)).2
    refine ⟨{ id := r.results.length, pack := .ok pack } :: messages, ?_, ?_⟩
    · rw [List.map_cons, List.map_cons, packs]
    · refine after.trans ?_
      simp only [Redis.exec, List.append_assoc, List.singleton_append]

namespace GlobalMemory

/-- What a message queues when it does not raise. -/
def opsOf (fuel now : Nat) (r : Redis) (pack : VerificationPack) : List RedisOp :=
  match queued fuel now r pack with
  | .ok ops => ops
  | .error _ => []

/-- The operations of a batch that does not raise. -/
theorem queuedBatch_eq_ok {fuel now : Nat} {r : Redis} {messages : List ResultMessage}
    {packs : List VerificationPack} (decoded : messages.map (·.pack) = packs.map .ok)
    {ops : List RedisOp} (queues : queuedBatch fuel now r messages = .ok ops) :
    (∀ pack ∈ packs, queued fuel now r pack = .ok (opsOf fuel now r pack)) ∧
      ∃ ids : List Nat, ids.length = packs.length ∧
        ops = (packs.zip ids).flatMap fun m =>
          opsOf fuel now r m.1 ++ [.xack "memory_group" m.2] := by
  induction messages generalizing packs ops with
  | nil =>
    obtain rfl := List.map_eq_nil_iff.mp decoded.symm
    obtain rfl := Except.ok.inj queues
    exact ⟨fun _ mem => absurd mem List.not_mem_nil, [], rfl, rfl⟩
  | cons message rest ih =>
    cases packs with
    | nil => cases decoded
    | cons pack packs =>
      obtain ⟨first, later⟩ := List.cons.inj decoded
      dsimp only at first
      rw [queuedBatch, first] at queues
      dsimp only at queues
      cases here : queued fuel now r pack with
      | error e =>
        rw [here] at queues
        cases queues
      | ok own =>
        rw [here] at queues
        dsimp only at queues
        cases others : queuedBatch fuel now r rest with
        | error e =>
          rw [others] at queues
          cases queues
        | ok more =>
          rw [others] at queues
          obtain rfl := Except.ok.inj queues
          obtain ⟨each, ids, length, rfl⟩ := ih later others
          have same : opsOf fuel now r pack = own := by rw [opsOf, here]
          refine ⟨fun other mem => ?_, message.id :: ids, ?_, ?_⟩
          · rcases List.mem_cons.mp mem with rfl | mem
            · rw [here, same]
            · exact each other mem
          · rw [List.length_cons, List.length_cons, length]
          · rw [List.zip_cons_cons, List.flatMap_cons, same]

/-- What the operations of a batch amount to, when an acknowledgement amounts to nothing. -/
theorem filterMap_batch {β : Type} {f : RedisOp → Option β}
    (acks : ∀ group id, f (.xack group id) = none) (ops : VerificationPack → List RedisOp)
    {packs : List VerificationPack} {ids : List Nat} (length : ids.length = packs.length) :
    ((packs.zip ids).flatMap fun m => ops m.1 ++ [.xack "memory_group" m.2]).filterMap f =
      packs.flatMap fun pack => (ops pack).filterMap f := by
  induction packs generalizing ids with
  | nil => rfl
  | cons pack rest ih =>
    cases ids with
    | nil => cases length
    | cons id ids =>
      rw [List.zip_cons_cons, List.flatMap_cons, List.filterMap_append, List.filterMap_append,
        ih (Nat.succ.inj length), List.flatMap_cons]
      simp only [List.filterMap_cons, acks, List.filterMap_nil, List.append_nil]

theorem sum_batch {M : Type} [AddCommMonoid M] {f : RedisOp → M}
    (acks : ∀ group id, f (.xack group id) = 0) (ops : VerificationPack → List RedisOp)
    {packs : List VerificationPack} {ids : List Nat} (length : ids.length = packs.length) :
    (((packs.zip ids).flatMap fun m => ops m.1 ++ [.xack "memory_group" m.2]).map f).sum =
      (packs.map fun pack => ((ops pack).map f).sum).sum := by
  induction packs generalizing ids with
  | nil => rfl
  | cons pack rest ih =>
    cases ids with
    | nil => cases length
    | cons id ids =>
      rw [List.zip_cons_cons, List.flatMap_cons, List.map_append, List.sum_append,
        ih (Nat.succ.inj length), List.map_append, List.sum_append]
      simp only [List.map_cons, List.map_nil, List.sum_cons, List.sum_nil, acks, add_zero]

/-! ## What a message's operations amount to -/

section Result

variable {now : Nat} {r : Redis} {pack : VerificationPack} {node : NodeHash} {taskId : String}
  {path : List String}

/-- An operation that adds to no statistic. -/
def Uncounted (op : RedisOp) : Prop :=
  ∀ id, RedisOp.visitsAdded id op = 0 ∧ RedisOp.valueAdded id op = 0

theorem statsOps_uncounted (reward : Rat) : ∀ op ∈ statsOps now pack reward, Uncounted op := by
  simp [statsOps, Uncounted, RedisOp.visitsAdded, RedisOp.valueAdded]

theorem summaries_uncounted (rootId : String) (reward : Rat) (nodeDepth : Nat) :
    ∀ op ∈ summaries r rootId reward nodeDepth, Uncounted op := by
  intro op mem id
  unfold summaries at mem
  split at mem <;> split at mem <;> simp at mem <;> rcases mem with rfl | rfl <;> exact ⟨rfl, rfl⟩

theorem closing_uncounted : ∀ op ∈ closing taskId pack, Uncounted op := by
  intro op mem id
  unfold closing at mem
  split at mem <;> simp at mem
  rcases mem with rfl | rfl <;> exact ⟨rfl, rfl⟩

theorem sum_map_eq_zero {M : Type} [AddCommMonoid M] {f : RedisOp → M} {ops : List RedisOp}
    (none : ∀ op ∈ ops, f op = 0) : (ops.map f).sum = 0 := by
  refine List.sum_eq_zero fun x mem => ?_
  obtain ⟨op, inside, rfl⟩ := List.mem_map.mp mem
  exact none op inside

/-- A result counts once at every node of its walk. -/
theorem resultOps_visitsAdded (id : String) :
    ((resultOps now r pack node taskId path).map (RedisOp.visitsAdded id)).sum = path.count id := by
  rw [resultOps, List.map_append, List.map_append, List.map_append, List.sum_append,
    List.sum_append, List.sum_append,
    sum_map_eq_zero fun op mem => (statsOps_uncounted _ op mem id).1,
    sum_map_eq_zero fun op mem => (summaries_uncounted _ _ _ op mem id).1,
    sum_map_eq_zero fun op mem => (closing_uncounted op mem id).1,
    walkOps_visitsAdded, zero_add, add_zero, add_zero]

/-- A result adds its reward to every node on its path. -/
theorem resultOps_valueAdded (id : String) :
    ((resultOps now r pack node taskId path).map (RedisOp.valueAdded id)).sum =
      path.count id • reward r pack node := by
  rw [resultOps, List.map_append, List.map_append, List.map_append, List.sum_append,
    List.sum_append, List.sum_append,
    sum_map_eq_zero fun op mem => (statsOps_uncounted _ op mem id).2,
    sum_map_eq_zero fun op mem => (summaries_uncounted _ _ _ op mem id).2,
    sum_map_eq_zero fun op mem => (closing_uncounted op mem id).2,
    walkOps_valueAdded, zero_add, add_zero, add_zero]

/-- The root's summary is set to a reward above it. -/
theorem resultOps_bestReward (id : String) :
    (resultOps now r pack node taskId path).filterMap (HashField.bestReward.set id) =
      if rootNodeId taskId = id ∧ (HashField.bestReward.of r (rootNodeId taskId)).getD 0 <
        reward r pack node then [reward r pack node] else [] := by
  have walks : (walkOps pack (reward r pack node) path).filterMap (HashField.bestReward.set id) =
      [] := by
    refine List.filterMap_eq_nil_iff.mpr fun op mem => ?_
    obtain ⟨current, -, mem⟩ := List.mem_flatMap.mp mem
    unfold visitOps at mem
    split at mem <;> simp at mem <;> rcases mem with rfl | rfl | rfl <;>
      simp [HashField.set, HashField.bestReward]
  have summary : (summaries r (rootNodeId taskId) (reward r pack node)
      (node.depth.getD 0)).filterMap (HashField.bestReward.set id) =
        if rootNodeId taskId = id ∧ (HashField.bestReward.of r (rootNodeId taskId)).getD 0 <
          reward r pack node then [reward r pack node] else [] := by
    by_cases here : rootNodeId taskId = id <;> unfold summaries <;> split <;> split <;>
      simp_all [HashField.set, HashField.bestReward, HashField.of]
  have rest : (closing taskId pack).filterMap (HashField.bestReward.set id) = [] := by
    unfold closing
    split <;> simp [HashField.set, HashField.bestReward]
  have stats : (statsOps now pack (reward r pack node)).filterMap (HashField.bestReward.set id) =
      [] := rfl
  rw [resultOps, List.filterMap_append, List.filterMap_append, List.filterMap_append, stats, walks,
    summary, rest, List.nil_append, List.append_nil, List.nil_append]

/-- The root's summary is set to a depth above it. -/
theorem resultOps_maxDepthSeen (id : String) :
    (resultOps now r pack node taskId path).filterMap (HashField.maxDepthSeen.set id) =
      if rootNodeId taskId = id ∧ (HashField.maxDepthSeen.of r (rootNodeId taskId)).getD 0 <
        node.depth.getD 0 then [node.depth.getD 0] else [] := by
  have walks : (walkOps pack (reward r pack node) path).filterMap (HashField.maxDepthSeen.set id) =
      [] := by
    refine List.filterMap_eq_nil_iff.mpr fun op mem => ?_
    obtain ⟨current, -, mem⟩ := List.mem_flatMap.mp mem
    unfold visitOps at mem
    split at mem <;> simp at mem <;> rcases mem with rfl | rfl | rfl <;>
      simp [HashField.set, HashField.maxDepthSeen]
  have summary : (summaries r (rootNodeId taskId) (reward r pack node)
      (node.depth.getD 0)).filterMap (HashField.maxDepthSeen.set id) =
        if rootNodeId taskId = id ∧ (HashField.maxDepthSeen.of r (rootNodeId taskId)).getD 0 <
          node.depth.getD 0 then [node.depth.getD 0] else [] := by
    by_cases here : rootNodeId taskId = id <;> unfold summaries <;> split <;> split <;>
      simp_all [HashField.set, HashField.maxDepthSeen, HashField.of]
  have rest : (closing taskId pack).filterMap (HashField.maxDepthSeen.set id) = [] := by
    unfold closing
    split <;> simp [HashField.set, HashField.maxDepthSeen]
  have stats : (statsOps now pack (reward r pack node)).filterMap
      (HashField.maxDepthSeen.set id) = [] := rfl
  rw [resultOps, List.filterMap_append, List.filterMap_append, List.filterMap_append, stats, walks,
    summary, rest, List.nil_append, List.append_nil, List.nil_append]

/-- The walk passes nodes only. -/
theorem walk_isSome (linked : Linked r) (fuel : Nat) {current : String} {path : List String}
    (start : current = "" ∨ (r.hashes current).isSome) (walked : walk r fuel current = .ok path) :
    ∀ id ∈ path, (r.hashes id).isSome := by
  induction fuel generalizing current path with
  | zero =>
    unfold walk at walked
    split at walked
    · obtain rfl := Except.ok.inj walked
      exact fun id mem => absurd mem List.not_mem_nil
    · cases walked
  | succ fuel ih =>
    unfold walk at walked
    split at walked
    · obtain rfl := Except.ok.inj walked
      exact fun id mem => absurd mem List.not_mem_nil
    · next more =>
      have there := start.resolve_left more
      have above : ((r.hashes current).bind (·.parent)).getD "" = "" ∨
          (r.hashes (((r.hashes current).bind (·.parent)).getD "")).isSome := by
        cases link : (r.hashes current).bind (·.parent) with
        | none => exact .inl rfl
        | some p => exact linked.parent current p link
      cases rest : walk r fuel (((r.hashes current).bind (·.parent)).getD "") with
      | error e =>
        rw [rest] at walked
        cases walked
      | ok above' =>
        rw [rest] at walked
        obtain rfl := Except.ok.inj walked
        intro id mem
        rcases List.mem_cons.mp mem with rfl | mem
        · exact there
        · exact ih above rest id mem

/-- A field every result reports of its own node, and nothing else sets. -/
structure Reports {α : Type} (field : HashField α) (value : VerificationPack → α) : Prop where
  own : ∀ pack : VerificationPack, field.get
    { testsFailed := some pack.testsFailed
      testsPassed := some pack.testsPassed
      artifactUri := some (pack.artifactUri.getD "") } = some (value pack)
  bestReward : ∀ reward, field.get { bestReward := some reward } = none
  maxDepthSeen : ∀ nodeDepth, field.get { maxDepthSeen := some nodeDepth } = none
  isTerminal : field.get { isTerminal := some true } = none

theorem reports_testsFailed : Reports .testsFailed VerificationPack.testsFailed :=
  ⟨fun _ => rfl, fun _ => rfl, fun _ => rfl, rfl⟩

theorem reports_testsPassed : Reports .testsPassed VerificationPack.testsPassed :=
  ⟨fun _ => rfl, fun _ => rfl, fun _ => rfl, rfl⟩

/-- The operations of a result write the field on the node of the pack, once for every time the node
is on its own path, and nowhere else. -/
theorem resultOps_reports {α : Type} {field : HashField α} {value : VerificationPack → α}
    (reports : Reports field value) (id : String) :
    (resultOps now r pack node taskId path).filterMap (field.set id) =
      if pack.capsuleId = id then List.replicate (path.count id) (value pack) else [] := by
  have walks : (walkOps pack (reward r pack node) path).filterMap (field.set id) =
      if pack.capsuleId = id then List.replicate (path.count id) (value pack) else [] := by
    induction path with
    | nil => simp [walkOps]
    | cons current rest ih =>
      have first : (visitOps pack (reward r pack node) current).filterMap (field.set id) =
          if current = pack.capsuleId ∧ current = id then [value pack] else [] := by
        have counts : [RedisOp.hincrbyVisits current,
            .hincrbyfloatValueSum current (reward r pack node)].filterMap (field.set id) = [] := rfl
        rw [visitOps, List.filterMap_append, counts, List.nil_append]
        by_cases own : current = pack.capsuleId
        · by_cases here : current = id
          · simp only [own, HashField.set, if_pos (own.symm.trans here), reports.own,
              List.filterMap_cons, List.filterMap_nil, ↓reduceIte, true_and]
          · have other : pack.capsuleId ≠ id := fun same => here (own.trans same)
            simp only [own, HashField.set, if_neg other, List.filterMap_cons, List.filterMap_nil,
              ↓reduceIte, true_and]
        · simp only [own, ↓reduceIte, List.filterMap_nil, false_and]
      rw [walkOps, List.flatMap_cons, List.filterMap_append, first, ← walkOps, ih]
      by_cases same : pack.capsuleId = id
      · subst same
        by_cases here : current = pack.capsuleId
        · simp [here, List.replicate_succ]
        · simp [here]
      · have other : ¬(current = pack.capsuleId ∧ current = id) := fun both =>
          same (both.1.symm.trans both.2)
        rw [if_neg other, if_neg same, if_neg same, List.append_nil]
  have summary : (summaries r (rootNodeId taskId) (reward r pack node)
      (node.depth.getD 0)).filterMap (field.set id) = [] := by
    unfold summaries
    split <;> split <;> simp [HashField.set, reports.bestReward, reports.maxDepthSeen]
  have rest : (closing taskId pack).filterMap (field.set id) = [] := by
    unfold closing
    split <;> simp [HashField.set, reports.isTerminal]
  have stats : (statsOps now pack (reward r pack node)).filterMap (field.set id) = [] := rfl
  rw [resultOps, List.filterMap_append, List.filterMap_append, List.filterMap_append, stats, walks,
    summary, rest, List.nil_append, List.append_nil, List.append_nil]

/-- Where the tree is linked, a result leaves the links alone. -/
theorem resultOps_keepsLinks (linked : Linked r) (found : r.hashes pack.capsuleId = some node)
    (named : node.treeId = some taskId) {fuel : Nat} (walked : walk r fuel pack.capsuleId = .ok path) :
    ∀ op ∈ resultOps now r pack node taskId path, op.KeepsLinks r := by
  have there : (r.hashes pack.capsuleId).isSome := by rw [found]; rfl
  have root : (r.hashes (rootNodeId taskId)).isSome := by
    refine linked.root pack.capsuleId taskId ?_
    rw [HashField.of, found]
    exact named
  have onPath : ∀ id ∈ path, (r.hashes id).isSome := walk_isSome linked fuel (.inr there) walked
  intro op mem
  simp only [resultOps, List.mem_append] at mem
  rcases mem with ((mem | mem) | mem) | mem
  · simp only [statsOps, List.mem_cons, List.not_mem_nil, or_false] at mem
    rcases mem with rfl | rfl | rfl | rfl | rfl | rfl <;> trivial
  · obtain ⟨current, inside, mem⟩ := List.mem_flatMap.mp mem
    have here := onPath current inside
    unfold visitOps at mem
    split at mem <;> simp at mem
    · rcases mem with rfl | rfl | rfl
      · exact here
      · exact here
      · exact ⟨here, rfl, rfl, rfl⟩
    · rcases mem with rfl | rfl <;> exact here
  · unfold summaries at mem
    split at mem <;> split at mem <;> simp at mem
    · rcases mem with rfl | rfl <;> exact ⟨root, rfl, rfl, rfl⟩
    · exact mem ▸ ⟨root, rfl, rfl, rfl⟩
    · exact mem ▸ ⟨root, rfl, rfl, rfl⟩
  · unfold closing at mem
    split at mem <;> simp at mem
    rcases mem with rfl | rfl
    · trivial
    · exact ⟨there, rfl, rfl, rfl⟩

/-- The operations of a message that does not raise. -/
theorem queued_eq_ok {fuel : Nat} {ops : List RedisOp} (queues : queued fuel now r pack = .ok ops) :
    (r.hashes pack.capsuleId = none ∧ ops = []) ∨
      ∃ node taskId path, r.hashes pack.capsuleId = some node ∧ node.treeId = some taskId ∧
        walk r fuel pack.capsuleId = .ok path ∧ ops = resultOps now r pack node taskId path := by
  unfold queued at queues
  cases found : r.hashes pack.capsuleId with
  | none =>
    rw [found] at queues
    exact .inl ⟨rfl, (Except.ok.inj queues).symm⟩
  | some node =>
    rw [found] at queues
    dsimp only at queues
    cases named : node.treeId with
    | none =>
      rw [named] at queues
      cases queues
    | some taskId =>
      rw [named] at queues
      dsimp only at queues
      cases walked : walk r fuel pack.capsuleId with
      | error e =>
        rw [walked] at queues
        cases queues
      | ok path =>
        rw [walked] at queues
        exact .inr ⟨node, taskId, path, rfl, named, rfl, (Except.ok.inj queues).symm⟩

/-- All that a batch queues are operations of the memory, so what is known of those holds of the
transaction. -/
theorem queuedBatch_ofMemory {fuel : Nat} {messages : List ResultMessage} {ops : List RedisOp}
    (queues : queuedBatch fuel now r messages = .ok ops) : ∀ op ∈ ops, op.OfMemory := by
  have summary : ∀ rootId reward nodeDepth, ∀ op ∈ summaries r rootId reward nodeDepth,
      op.OfMemory := by
    intro rootId reward nodeDepth op mem
    unfold summaries at mem
    split at mem <;> split at mem <;> simp at mem
    · rcases mem with rfl | rfl
      · exact ⟨none, none, none, none, _, none, nofun, rfl⟩
      · exact ⟨none, none, none, none, none, _, nofun, rfl⟩
    · exact mem ▸ ⟨none, none, none, none, _, none, nofun, rfl⟩
    · exact mem ▸ ⟨none, none, none, none, none, _, nofun, rfl⟩
  have close : ∀ taskId pack, ∀ op ∈ closing taskId pack, op.OfMemory := by
    intro taskId pack op mem
    unfold closing at mem
    split at mem <;> simp at mem
    rcases mem with rfl | rfl
    · exact ⟨taskId, rfl⟩
    · exact ⟨none, none, none, some true, none, none, nofun, rfl⟩
  induction messages generalizing ops with
  | nil =>
    obtain rfl := Except.ok.inj queues
    exact fun op mem => absurd mem List.not_mem_nil
  | cons message rest ih =>
    rw [queuedBatch] at queues
    split at queues
    · cases queues
    · next pack _ =>
      split at queues
      · cases queues
      · next own here =>
        cases others : queuedBatch fuel now r rest with
        | error e =>
          rw [others] at queues
          cases queues
        | ok more =>
          rw [others] at queues
          obtain rfl := Except.ok.inj queues
          intro op mem
          simp only [List.mem_append, List.mem_singleton] at mem
          rcases mem with (mem | rfl) | mem
          · rcases queued_eq_ok here with ⟨-, rfl⟩ | ⟨node, taskId, path, -, -, -, rfl⟩
            · cases mem
            · simp only [resultOps, List.mem_append] at mem
              rcases mem with ((mem | mem) | mem) | mem
              · exact statsOps_ofMemory now pack _ op mem
              · exact walkOps_ofMemory pack _ path op mem
              · exact summary _ _ _ op mem
              · exact close _ _ op mem
          · trivial
          · exact ih others op mem

end Result

/-! ## What a turn does -/

/-- What a turn that returns has made of its batch, all of it computed from the store before. -/
structure Turned (fuel : Nat) (w w' : World) (batch : List VerificationPack) : Prop where
  queues : ∀ pack ∈ batch,
    queued fuel w.clock w.redis pack = .ok (opsOf fuel w.clock w.redis pack)
  visits : ∀ id, visitsOf w'.redis id = visitsOf w.redis id +
    (batch.map fun pack => ((opsOf fuel w.clock w.redis pack).map (RedisOp.visitsAdded id)).sum).sum
  values : ∀ id, valueOf w'.redis id = valueOf w.redis id +
    (batch.map fun pack => ((opsOf fuel w.clock w.redis pack).map (RedisOp.valueAdded id)).sum).sum
  field : ∀ {α : Type} (field : HashField α) id, field.of w'.redis id =
    ((batch.flatMap fun pack =>
      (opsOf fuel w.clock w.redis pack).filterMap (field.set id)).getLast? <|> field.of w.redis id)
  links : Linked w.redis → SameLinks w.redis w'.redis
  drained : w'.redis.Drained
  clock : w'.clock = w.clock

/-- A turn on a drained stream goes through what has arrived. -/
theorem turnOn_alone (fuel : Nat) {w : World} {batch : List VerificationPack}
    (drained : w.redis.Drained) (short : batch.length ≤ 50) :
    ∃ messages : List ResultMessage, messages.map (·.pack) = batch.map .ok ∧
      ∃ r pg, r.hashes = w.redis.hashes ∧ r.Drained ∧
        w.turnOn fuel batch = match queuedBatch fuel w.clock w.redis messages with
          | .ok ops => (.ok (), { w with pg := pg, redis := r.applyAll ops })
          | .error e => (.error e, { w with pg := pg, redis := r }) := by
  obtain ⟨messages, decoded, published⟩ := publish_eq w.redis batch
  have length : messages.length = batch.length := by
    simpa using congrArg List.length decoded
  have next : nextBatch (w.redis.publish batch) = messages := by
    have atEnd : w.redis.delivered "memory_group" = w.redis.results.length := drained
    rw [nextBatch, published, atEnd, List.drop_left, List.take_of_length_le (by omega)]
  obtain ⟨pg, runs⟩ := remember_alone fuel { w with redis := w.redis.publish batch }
  refine ⟨messages, decoded, afterRead (w.redis.publish batch), pg, ?_, ?_, ?_⟩
  · rw [published]
    rfl
  · have atEnd : w.redis.delivered "memory_group" = w.redis.results.length := drained
    unfold Redis.Drained afterRead
    dsimp only
    rw [Function.update_self, next, published]
    dsimp only
    rw [List.length_append, atEnd]
  · refine runs.trans ?_
    dsimp only
    rw [next]
    have same : (w.redis.publish batch).hashes = w.redis.hashes := by rw [published]
    cases queued : queuedBatch fuel w.clock w.redis messages with
    | ok ops => rw [queuedBatch_congr same, queued]
    | error e => rw [queuedBatch_congr same, queued]

/-- A turn that returns has applied its whole batch. The stream was drained before and the batch is
no longer than one read, so the turn reads it all. -/
theorem turnOn_turned {fuel : Nat} {w w' : World} {batch : List VerificationPack}
    (drained : w.redis.Drained) (short : batch.length ≤ 50)
    (returns : w.turnOn fuel batch = (.ok (), w')) : Turned fuel w w' batch := by
  obtain ⟨messages, decoded, r, pg, same, drained', runs⟩ := turnOn_alone fuel drained short
  rw [returns] at runs
  cases queues : queuedBatch fuel w.clock w.redis messages with
  | error e =>
    rw [queues] at runs
    cases (Prod.mk.inj runs).1
  | ok ops =>
    rw [queues] at runs
    obtain rfl := (Prod.mk.inj runs).2
    obtain ⟨each, ids, length, rfl⟩ := queuedBatch_eq_ok decoded queues
    have memory := queuedBatch_ofMemory queues
    constructor
    · exact each
    · intro id
      rw [visitsOf_applyAll id memory, sum_batch (fun _ _ => rfl) _ length, visitsOf, same, visitsOf]
    · intro id
      rw [valueOf_applyAll id memory, sum_batch (fun _ _ => rfl) _ length, valueOf, same, valueOf]
    · intro α field id
      rw [field.of_applyAll, filterMap_batch (fun _ _ => rfl) _ length, HashField.of, same,
        HashField.of]
    · intro linked
      have first := SameLinks.of_hashes same
      refine first.trans (sameLinks_applyAll fun op mem => ?_)
      obtain ⟨m, inside, mem⟩ := List.mem_flatMap.mp mem
      rcases List.mem_append.mp mem with mem | mem
      · have queuesOne := each m.1 (List.of_mem_zip inside).1
        rcases queued_eq_ok queuesOne with ⟨-, empty⟩ | ⟨node, taskId, path, found, named, walked, own⟩
        · rw [empty] at mem
          cases mem
        · rw [own] at mem
          exact (resultOps_keepsLinks linked found named walked op mem).congr first
      · obtain rfl := List.mem_singleton.mp mem
        trivial
    · rw [Redis.Drained, Redis.applyAll_delivered, Redis.applyAll_results]
      exact drained'
    · rfl

end GlobalMemory

end KernelOmega
