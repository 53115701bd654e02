import KernelOmega.Plant.Reserved
import KernelOmega.Plant.Small

/-!
# Closed trees

The memory closes a tree as soon as a candidate of it has passed its tests. Whether the
candidate is merged is decided later and elsewhere: a gate may turn it down, and its patch may
fail. Nothing opens the tree again. A closed tree is repaired exactly as long as no gate turns
down a pack that passed, and no patch fails, while the tree has no other candidate for it.

`Reservations` is the invariant of all runs: what is known of the reservations of the trees,
of the acknowledged messages and of the messages in the gates' batches.
-/

namespace KernelOmega

open Concurrent

/-! ## What the steps do to the stores -/

/-- An operation gives a node no tree but its own. -/
def RedisOp.Fits : RedisOp → Prop
  | .hset nodeId mapping => mapping.Fits nodeId
  | _ => True

namespace Redis

/-- Every node is of the tree its hash names. -/
def NodesFit (r : Redis) : Prop := ∀ key node, r.hashes key = some node → node.Fits key

/-- A change that fits its own node. -/
theorem NodesFit.modify {r : Redis} (fit : r.NodesFit) {key : String} {f : NodeHash → NodeHash}
    (fits : ∀ old : NodeHash, old.Fits key → (f old).Fits key) : (r.modifyHash key f).NodesFit := by
  intro key' node found
  rw [modifyHash_hashes] at found
  by_cases same : key' = key
  · subst same
    rw [Function.update_self, Option.some.injEq] at found
    subst found
    refine fits _ ?_
    cases old : r.hashes key' with
    | none => exact fun _ tree => by cases tree
    | some node => exact fit key' node old
  · rw [Function.update_of_ne same] at found
    exact fit key' node found

/-- An operation that fits, -/
theorem NodesFit.apply {r : Redis} (fit : r.NodesFit) {op : RedisOp} (fits : op.Fits) :
    (r.apply op).NodesFit := by
  cases op with
  | hset key mapping =>
    refine fit.modify fun old older taskId tree => ?_
    have merged : (mapping.treeId <|> old.treeId) = some taskId := tree
    cases here : mapping.treeId with
    | none =>
      rw [here] at merged
      exact older taskId merged
    | some taskId' =>
      rw [here] at merged
      obtain rfl : taskId' = taskId := Option.some.inj merged
      exact fits taskId' here
  | hincrbyVisits key => exact fit.modify fun _ older => older
  | hincrbyfloatValueSum key reward => exact fit.modify fun _ older => older
  | _ => exact fit

/-- and a command that writes fitting mappings only. -/
theorem NodesFit.exec {r : Redis} (fit : r.NodesFit) {now : Nat} {c : RedisCmd}
    (sets : ∀ key mapping, c = .hset key mapping → mapping.Fits key)
    (ops : ∀ ops, c = .pipeline ops → ∀ op ∈ ops, op.Fits) : (r.exec now c).2.NodesFit := by
  cases c with
  | hset key mapping =>
    have fits : (RedisOp.hset key mapping).Fits := sets key mapping rfl
    exact fit.apply fits
  | pipeline list =>
    exact applyAll_induction (fun op mem r fit => fit.apply (ops list rfl op mem)) fit
  | set key value nx ex =>
    simp only [Redis.exec]
    split <;> exact fit
  | _ => exact fit

end Redis

section Steps

variable {q : Desk} {c : Cmd} (allowed : q.Allows c) (x : Choice) {w : World}

include allowed

/-- No step gives a node's hash to another node. -/
theorem Desk.nodes_step (nodes : w.redis.NodesFit) : (World.exec x c w).2.redis.NodesFit := by
  rcases World.exec_redis_cases x c w with same | ⟨command, rfl, after⟩
  · rw [same]
    exact nodes
  · rw [after]
    refine nodes.exec ?_ ?_
    · rintro key mapping rfl
      cases q with
      | elsewhere => exact allowed
      | _ => exact allowed.elim
    · rintro ops rfl op mem
      cases q with
      | gate policy q =>
        have queued := allowed.2.queued op mem
        cases op with
        | xaddAccepted _ | xack _ _ => trivial
        | _ => exact queued.elim
      | merger q =>
        obtain ⟨done, -, acks⟩ := allowed
        obtain ⟨message, -, rfl⟩ := acks op mem
        trivial
      | memory q =>
        have justified := allowed op mem
        cases op with
        | hset key mapping =>
          obtain ⟨_, _, _, _, _, _, -, rfl⟩ := justified
          exact fun _ tree => by cases tree
        | _ => trivial
      | elsewhere =>
        have elsewhere := allowed op mem
        cases op with
        | hset key mapping => exact elsewhere
        | _ => trivial

/-- A reservation a gate has made stays with it until its entry is on the accepted stream. -/
theorem Desk.claims_step {claim : String × String} (claimed : claim ∈ q.claims) :
    claim ∈ (q.next c (World.exec x c w).1).claims ∨
      ∃ message ∈ (World.exec x c w).2.redis.accepted,
        message.payload.treeId = claim.1 ∧ message.payload.capsuleId = claim.2 := by
  cases q with
  | gate policy q =>
    have claimed : claim ∈ q.claims := claimed
    show claim ∈ (q.next c (World.exec x c w).1).claims ∨ _
    cases c with
    | redis c =>
      cases reply : (World.exec x (.redis c) w).1 with
      | error e => cases c <;> exact .inl claimed
      | ok v =>
        cases c with
        | xreadgroupResults group count =>
          obtain ⟨-, rfl⟩ := allowed
          cases claimed
        | hgetall key =>
          obtain ⟨message, rest, pack, left, read, -⟩ := allowed
          simp only [Gating.next, Gating.look, left, read]
          exact .inl claimed
        | set key value nx ex =>
          obtain ⟨-, -, pack, node, earlier, treeId, seen, tree, -, -, -⟩ := allowed
          simp only [Gating.next, Gating.try, Gating.tree, seen, tree]
          left
          split
          · exact List.mem_cons_of_mem _ claimed
          · exact claimed
        | pipeline ops =>
          obtain ⟨payload, queued, tree, capsule⟩ := allowed.2.claims claim claimed
          have there : payload ∈ (World.exec x (.redis (.pipeline ops)) w).2.redis.payloads := by
            rw [World.exec_payloads, reply]
            exact List.mem_append_right _ (List.mem_flatMap.mpr ⟨_, queued, List.mem_singleton.mpr rfl⟩)
          obtain ⟨message, mem, rfl⟩ := List.mem_map.mp there
          exact .inr ⟨message, mem, tree, capsule⟩
        | get key => exact .inl claimed
        | _ => exact allowed.elim
    | pg c => exact .inl claimed
    | _ => exact allowed.elim
  | _ => cases claimed

/-- A done key is set for a pack that passed. -/
theorem Desk.done_step (sound : q.Sound w) {taskId : String}
    (done : ((World.exec x c w).2.redis.strings (treeDoneKey taskId)).isSome = true) :
    (w.redis.strings (treeDoneKey taskId)).isSome = true ∨
      ∃ message ∈ w.redis.results, ∃ pack, message.pack = .ok pack ∧ pack.passed = true ∧
        NamesTree pack.capsuleId taskId := by
  rcases World.exec_strings x c w (treeDoneKey taskId) with
    same | ⟨value, nx, ex, rfl, -, -⟩ | ⟨rfl, gone⟩ | ⟨ops, value, rfl, mem, -⟩
  · exact .inl (same ▸ done)
  · cases q with
    | gate policy q =>
      obtain ⟨-, -, pack, node, earlier, treeId, -, -, -, same, -⟩ := allowed
      exact absurd same.symm (treeAcceptedKey_ne_treeDoneKey _ _)
    | merger q =>
      obtain ⟨-, -, message, left, done, -, same, -⟩ := allowed
      exact absurd same.symm (treeAcceptedKey_ne_treeDoneKey _ _)
    | memory q => exact allowed.elim
    | elsewhere =>
      have plain : PlainKey (treeDoneKey taskId) := allowed
      exact absurd rfl (plain.2 taskId)
  · rw [gone] at done
    cases done
  · cases q with
    | gate policy q => exact (allowed.2.queued _ mem).elim
    | merger q =>
      obtain ⟨done, -, acks⟩ := allowed
      obtain ⟨message, -, other⟩ := acks _ mem
      cases other
    | memory q =>
      obtain ⟨pack, known, passed, node, tree, read, here, same⟩ := allowed _ mem
      obtain rfl := treeDoneKey_injective same
      obtain ⟨message, there, text⟩ := sound.packs pack known
      exact .inr ⟨message, there, pack, text, passed, sound.found _ _ read taskId here⟩
    | elsewhere => exact (allowed _ mem).elim

/-- Who acknowledges to the gates' group is a gate at the end of its batch. -/
theorem Desk.acks_step : (World.exec x c w).2.redis.acksOf "policy_group" =
      w.redis.acksOf "policy_group" ∨
    ∃ policy gating ops, q = .gate policy gating ∧ c = .redis (.pipeline ops) ∧
      x.fail = false ∧ policy.Owes gating gating.batch ops ∧
      (World.exec x c w).2.redis.acksOf "policy_group" =
        w.redis.acksOf "policy_group" ++ gating.batch.map (·.id) := by
  rcases World.exec_acksOf x c w "policy_group" with same | ⟨ops, rfl, ok, more⟩
  · exact .inl same
  · have others : (∀ op ∈ ops, ∀ id, op ≠ .xack "policy_group" id) →
        (World.exec x (.redis (.pipeline ops)) w).2.redis.acksOf "policy_group" =
          w.redis.acksOf "policy_group" := by
      intro none
      rw [more, acksOf_eq_nil none, List.append_nil]
    cases q with
    | gate policy gating =>
      obtain ⟨-, owes⟩ := allowed
      exact .inr ⟨policy, gating, ops, rfl, rfl, ok, owes, by rw [more, owes.acks]⟩
    | merger q =>
      obtain ⟨done, -, acks⟩ := allowed
      refine .inl (others ?_)
      rintro op mem id rfl
      obtain ⟨message, -, other⟩ := acks _ mem
      injection other with group
      exact absurd group (by decide)
    | memory q =>
      refine .inl (others ?_)
      rintro op mem id rfl
      have group : "policy_group" = "memory_group" := allowed _ mem
      exact absurd group (by decide)
    | elsewhere =>
      refine .inl (others ?_)
      rintro op mem id rfl
      exact (allowed _ mem).1 rfl

/-- A batch changes with the next read, or ends. -/
theorem Desk.batch_next (reply : Except PyError c.Reply) :
    (q.next c reply).batch = q.batch ∨ (q.next c reply).batch = [] ∨
      ∃ policy count, q = .gate policy {} ∧ c = .redis (.xreadgroupResults "policy_group" count) := by
  cases q with
  | gate policy gating =>
    cases c with
    | redis c =>
      cases reply with
      | error e => cases c <;> exact .inl rfl
      | ok v =>
        cases c with
        | xreadgroupResults group count =>
          obtain ⟨rfl, rfl⟩ := allowed
          exact .inr (.inr ⟨policy, count, rfl, rfl⟩)
        | hgetall key =>
          obtain ⟨message, rest, pack, left, read, -⟩ := allowed
          left
          simp only [Desk.next, Desk.batch, Gating.next, Gating.look, left, read]
        | set key value nx ex =>
          obtain ⟨-, -, pack, node, earlier, treeId, seen, tree, -, -, -⟩ := allowed
          left
          simp only [Desk.next, Desk.batch, Gating.next, Gating.try, Gating.tree, seen, tree]
        | pipeline ops => exact .inr (.inl rfl)
        | get key => exact .inl rfl
        | _ => exact allowed.elim
    | pg c => exact .inl rfl
    | _ => exact allowed.elim
  | _ => exact .inl rfl

/-- A message is in one gate's batch, until the gate acknowledges it. -/
theorem Desk.token_step (numbered : Numbered ResultMessage.id w.redis.results) (id : Nat) :
    (q.next c (World.exec x c w).1).batch.count id +
        ((World.exec x c w).2.redis.acksOf "policy_group").count id +
        (if id < w.redis.delivered "policy_group" then 1 else 0) ≤
      q.batch.count id + (w.redis.acksOf "policy_group").count id +
        if id < (World.exec x c w).2.redis.delivered "policy_group" then 1 else 0 := by
  rcases Desk.acks_step allowed x (w := w) with same | ⟨policy, gating, ops, rfl, rfl, ok, owes, more⟩
  · have further := World.exec_delivered_le x c w "policy_group"
    rw [same]
    rcases Desk.batch_next allowed (World.exec x c w).1 with kept | none | ⟨policy, count, rfl, rfl⟩
    · rw [kept]
      split <;> split <;> omega
    · rw [none, List.count_nil]
      split <;> split <;> omega
    · cases fails : x.fail with
      | true =>
        rw [World.exec_redis_fail fails]
        exact le_refl _
      | false =>
        rw [World.exec_redis_ok fails]
        have bound : ((((w.redis.results.drop (w.redis.delivered "policy_group")).take count).map
            fun message => message.id).count id) ≤ _ :=
          numbered.count_drop_take (w.redis.delivered "policy_group") count id
        simp only [Desk.next, Desk.batch, Gating.next, Redis.exec, Function.update_self, List.map_nil,
          List.count_nil]
        split at bound <;> split <;> split <;> omega
  · rw [World.exec_redis_ok ok]
    rw [World.exec_redis_ok ok] at more
    have still : (w.redis.exec w.clock (.pipeline ops)).2.delivered = w.redis.delivered :=
      Redis.applyAll_delivered w.redis ops
    simp only [Desk.next, Desk.batch, Gating.next, still, more, List.map_nil, List.count_nil,
      List.count_append]
    omega

end Steps

namespace World

/-- The result with this id passed its tests only if its tree is spoken for. -/
def JudgedAt (w : World) (id : Nat) : Prop :=
  ∃ message ∈ w.redis.results, message.id = id ∧ ∀ pack, message.pack = .ok pack →
    pack.passed = true → ∀ taskId, NamesTree pack.capsuleId taskId → w.SpokenFor taskId

/-- The accepted entry with this id is of a repaired tree, or of one that another capsule has. -/
def MergedAt (w : World) (id : Nat) : Prop :=
  ∃ message ∈ w.redis.accepted, message.id = id ∧ w.Outdone message.payload

theorem Onward.judgedAt {w w' : World} (onward : w.Onward w') {id : Nat} (judged : w.JudgedAt id) :
    w'.JudgedAt id := by
  obtain ⟨message, there, same, spoken⟩ := judged
  exact ⟨message, onward.results message there, same, fun pack read passed taskId names =>
    onward.spokenFor (spoken pack read passed taskId names)⟩

theorem Onward.mergedAt {w w' : World} (onward : w.Onward w') {id : Nat} (merged : w.MergedAt id) :
    w'.MergedAt id := by
  obtain ⟨message, there, same, outdone⟩ := merged
  exact ⟨message, onward.accepted message there, same, onward.outdone outdone⟩

end World

/-- A message of a gate's batch that was decided, and passed its tests, has its tree spoken for. -/
theorem Gating.Sound.judgedAt {policy : PolicyGate} {w : World} {q : Gating} (sound : q.Sound policy w)
    {message : ResultMessage} (mem : message ∈ q.batch) (decided : policy.Decided q message) :
    w.JudgedAt message.id := by
  refine ⟨message, sound.batch message mem, rfl, fun pack read passed taskId names => ?_⟩
  obtain ⟨pack', found, read', seen, verdict⟩ := decided
  obtain rfl : pack' = pack := Except.ok.inj (read'.symm.trans read)
  -- The node is of the tree its id names.
  have tree : ∀ node treeId, found = some node → node.treeId = some treeId → treeId = taskId := by
    rintro node treeId rfl here
    exact (sound.named pack' node seen treeId here).unique names
  rcases verdict with ⟨reason, turned⟩ | ⟨-, node, treeId, here, known, tried⟩
  · obtain ⟨node, treeId, here, known, spoken⟩ := sound.passed pack' found seen passed reason turned
    exact tree node treeId here known ▸ spoken
  · exact tree node treeId here known ▸ sound.tried treeId tried

section Steps

variable {q : Desk} {c : Cmd} (allowed : q.Allows c) (x : Choice) {w : World} (sound : q.Sound w)

include allowed sound

/-- An entry of the results stream that the gates have acknowledged is judged, and stays so. -/
theorem Desk.judged_step (judged : ∀ id ∈ w.redis.acksOf "policy_group", w.JudgedAt id) :
    ∀ id ∈ (World.exec x c w).2.redis.acksOf "policy_group", (World.exec x c w).2.JudgedAt id := by
  intro id mem
  have onward := Desk.onward allowed x sound
  rcases Desk.acks_step allowed x (w := w) with same | ⟨policy, gating, ops, rfl, rfl, -, owes, more⟩
  · rw [same] at mem
    exact onward.judgedAt (judged id mem)
  · rw [more] at mem
    rcases List.mem_append.mp mem with before | new
    · exact onward.judgedAt (judged id before)
    · obtain ⟨message, there, rfl⟩ := List.mem_map.mp new
      exact onward.judgedAt (Gating.Sound.judgedAt sound there (owes.decided message there))

/-- An entry that the mergers have acknowledged is of a repaired tree or of one that another capsule
has, and stays so. -/
theorem Desk.merged_step (merged : ∀ id ∈ w.redis.acksOf "merger_group", w.MergedAt id) :
    ∀ id ∈ (World.exec x c w).2.redis.acksOf "merger_group", (World.exec x c w).2.MergedAt id := by
  intro id mem
  have onward := Desk.onward allowed x sound
  rcases World.exec_acksOf x c w "merger_group" with same | ⟨ops, rfl, -, more⟩
  · rw [same] at mem
    exact onward.mergedAt (merged id mem)
  · rw [more] at mem
    rcases List.mem_append.mp mem with before | new
    · exact onward.mergedAt (merged id before)
    · have ack := xack_mem_of_mem_acksOf new
      cases q with
      | gate policy gating => exact absurd (allowed.2.queued _ ack).1 (by decide)
      | merger claiming =>
        obtain ⟨done, rfl, acks⟩ := allowed
        obtain ⟨message, there, same⟩ := acks _ ack
        injection same with _ same
        subst same
        exact onward.mergedAt ⟨message, sound.accepted message there, rfl, sound.finished message there⟩
      | memory read =>
        have group : "merger_group" = "memory_group" := allowed _ ack
        exact absurd group (by decide)
      | elsewhere => exact absurd rfl (allowed _ ack).2

end Steps

/-! ## What a run keeps -/

/-- The tree, as read, of a pack that passed and is turned down. -/
def Desk.turnsDown : Desk → (c : Cmd) → Except PyError c.Reply → Option (Option String)
  | .gate policy q, c, reply => q.turnsDown policy c reply
  | _, _, _ => none

/-- What a command has to meet for a closed tree to be repaired in the end. -/
structure Repairs {ι S : Type} [DecidableEq ι] (plant : Plant ι S)
    (s : Snapshot ι Cmd Cmd.Reply PyError World) (i : ι) (x : Choice) (c : Cmd) : Prop where
  /-- A gate turns down a pack that passed only when its tree is spoken for. -/
  passes : ∀ tree ∈ (plant.deskOf i s.history).turnsDown c (World.exec x c s.world).1,
    ∃ taskId ∈ tree, s.world.SpokenFor taskId
  /-- A patch fails only when its tree is repaired. -/
  applies : ∀ payload ∈ c.applies, x.fail = true → s.world.Repaired payload.treeId

instance {ι S : Type} [DecidableEq ι] (plant : Plant ι S)
    (s : Snapshot ι Cmd Cmd.Reply PyError World) (i : ι) (x : Choice) (c : Cmd) :
    Decidable (Repairs plant s i x c) :=
  decidable_of_iff
    ((∀ tree ∈ (plant.deskOf i s.history).turnsDown c (World.exec x c s.world).1,
        ∃ taskId ∈ tree, s.world.SpokenFor taskId) ∧
      ∀ payload ∈ c.applies, x.fail = true → s.world.Repaired payload.treeId)
    ⟨fun ⟨passes, applies⟩ => ⟨passes, applies⟩, fun ⟨passes, applies⟩ => ⟨passes, applies⟩⟩

/-- A desk's knowledge goes on with the desk. -/
theorem Desk.Sound.next {q : Desk} {c : Cmd} {x : Choice} {w : World} (sound : q.Sound w)
    (allowed : q.Allows c) (nodes : w.redis.NodesFit)
    (passes : ∀ tree ∈ q.turnsDown c (World.exec x c w).1, ∃ taskId ∈ tree, w.SpokenFor taskId)
    (applies : ∀ payload ∈ c.applies, x.fail = true → w.Repaired payload.treeId) :
    (q.next c (World.exec x c w).1).Sound (World.exec x c w).2 := by
  cases q with
  | gate policy gating => exact Gating.Sound.next sound allowed nodes passes
  | merger claiming => exact Claiming.Sound.next sound allowed applies
  | memory read => exact Remembering.Sound.next sound allowed nodes
  | elsewhere => trivial

/-- What is known of the reservations, the acknowledged messages and the gates' batches. -/
structure Reservations {ι S : Type} [DecidableEq ι] (plant : Plant ι S)
    (s : Snapshot ι Cmd Cmd.Reply PyError World) : Prop where
  nodes : s.world.redis.NodesFit
  results : Numbered ResultMessage.id s.world.redis.results
  accepted : Numbered AcceptedMessage.id s.world.redis.accepted
  desks : ∀ i, (plant.deskOf i s.history).Sound s.world
  /-- A reservation does not expire, -/
  lasting : ∀ taskId entry, s.world.redis.strings (treeAcceptedKey taskId) = some entry →
    entry.deadline = none
  /-- and is for a capsule whose entry is on the accepted stream, or will be. -/
  backed : ∀ taskId entry, s.world.redis.strings (treeAcceptedKey taskId) = some entry →
    (∃ message ∈ s.world.redis.accepted, message.payload.treeId = taskId ∧
      message.payload.capsuleId = entry.value) ∨
    ∃ i, (taskId, entry.value) ∈ (plant.deskOf i s.history).claims
  done : ∀ taskId, (s.world.redis.strings (treeDoneKey taskId)).isSome = true →
    ∃ message ∈ s.world.redis.results, ∃ pack, message.pack = .ok pack ∧ pack.passed = true ∧
      NamesTree pack.capsuleId taskId
  /-- A message is in one gate's batch, or acknowledged once. -/
  tokens : ∀ id, plant.atGates id s.history +
      ((s.world.redis.acksOf "policy_group").count id : Int) ≤
    if id < s.world.redis.delivered "policy_group" then 1 else 0
  judged : ∀ id ∈ s.world.redis.acksOf "policy_group", s.world.JudgedAt id
  merged : ∀ id ∈ s.world.redis.acksOf "merger_group", s.world.MergedAt id

section Step

variable {ι S : Type} [DecidableEq ι] {plant : Plant ι S} {i : ι} {x : Choice} {c : Cmd}
  {s : Snapshot ι Cmd Cmd.Reply PyError World}

/-- One step of a desk. A gate's reservation is followed until its entry is on the stream; a
merger's comes from an entry, and ends with the repair. -/
theorem Reservations.step (kept : Reservations plant s)
    (allowed : (plant.deskOf i s.history).Allows c) (repairs : Repairs plant s i x c) :
    Reservations plant (s.after World.exec i x c) := by
  have sound := kept.desks i
  have onward := Desk.onward allowed x sound
  constructor
  case nodes => exact Desk.nodes_step allowed x kept.nodes
  case results => exact World.exec_results_numbered x c s.world kept.results
  case accepted => exact World.exec_accepted_numbered x c s.world kept.accepted
  case desks =>
    intro j
    rw [Snapshot.after_history, Snapshot.after_world]
    by_cases same : i = j
    · subst same
      rw [plant.deskOf_own]
      exact sound.next allowed kept.nodes repairs.passes repairs.applies
    · rw [plant.deskOf_other same]
      exact Desk.Sound.mono onward (kept.desks j)
  case lasting =>
    intro taskId entry here
    rw [Snapshot.after_world] at here
    rcases Desk.reserved_step allowed x sound taskId with
      same | ⟨-, value, stored, -⟩ | ⟨gone, -⟩
    · exact kept.lasting taskId entry (same ▸ here)
    · rw [stored, Option.some.injEq] at here
      rw [← here]
    · rw [gone] at here
      cases here
  case backed =>
    intro taskId entry here
    rw [Snapshot.after_world] at here ⊢
    rw [Snapshot.after_history]
    rcases Desk.reserved_step allowed x sound taskId with
      same | ⟨-, value, stored, reserves⟩ | ⟨gone, -⟩
    · rcases kept.backed taskId entry (same ▸ here) with ⟨message, there, named⟩ | ⟨j, claimed⟩
      · exact .inl ⟨message, onward.accepted message there, named⟩
      · by_cases own : i = j
        · subst own
          rcases Desk.claims_step allowed x (w := s.world) claimed with still | entered
          · refine .inr ⟨i, ?_⟩
            rw [plant.deskOf_own]
            exact still
          · exact .inl entered
        · refine .inr ⟨j, ?_⟩
          rw [plant.deskOf_other own]
          exact claimed
    · rw [stored, Option.some.injEq] at here
      subst here
      rcases reserves with claimed | ⟨message, there, named⟩
      · refine .inr ⟨i, ?_⟩
        rw [plant.deskOf_own]
        exact claimed
      · exact .inl ⟨message, onward.accepted message there, named⟩
    · rw [gone] at here
      cases here
  case done =>
    intro taskId closed
    rw [Snapshot.after_world] at closed ⊢
    rcases Desk.done_step allowed x sound closed with before | ⟨message, there, verified⟩
    · obtain ⟨message, there, verified⟩ := kept.done taskId before
      exact ⟨message, onward.results message there, verified⟩
    · exact ⟨message, onward.results message there, verified⟩
  case tokens =>
    intro id
    have before := kept.tokens id
    have moved := Desk.token_step allowed x kept.results id
    rw [Snapshot.after_history, plant.atGates_cons, Snapshot.after_world]
    split at before <;> split at moved <;> split at moved <;> split <;> omega
  case judged => exact Desk.judged_step allowed x sound kept.judged
  case merged => exact Desk.merged_step allowed x sound kept.merged

/-- Neither does the passing of time. -/
theorem Reservations.weather (kept : Reservations plant s) {w : World} (around : Weather s.world w) :
    Reservations plant ⟨w, s.history⟩ := by
  have onward : s.world.Onward w := by
    cases around with
    | tick n => exact ⟨fun _ mem => mem, fun _ mem => mem, fun _ same => same, fun _ _ => .inl⟩
    | expire key entry deadline here expires late =>
      refine ⟨fun _ mem => mem, fun _ mem => mem, fun _ same => same, fun taskId reserved held => ?_⟩
      left
      refine (Function.update_of_ne ?_ _ _).trans held
      rintro rfl
      obtain rfl := Option.some.inj (here.symm.trans held)
      rw [kept.lasting taskId entry held] at expires
      cases expires
  have strings : ∀ key entry, w.redis.strings key = some entry →
      s.world.redis.strings key = some entry := by
    intro key entry here
    cases around with
    | tick n => exact here
    | expire key' entry' deadline _ _ _ =>
      by_cases same : key = key'
      · subst same
        rw [show (s.world.redis.putString key none).strings key = none from
          Function.update_self ..] at here
        cases here
      · exact (Function.update_of_ne same _ _).symm.trans here
  have same : w.redis.hashes = s.world.redis.hashes ∧ w.redis.results = s.world.redis.results ∧
      w.redis.accepted = s.world.redis.accepted ∧ w.redis.acked = s.world.redis.acked ∧
      w.redis.delivered = s.world.redis.delivered := by
    cases around <;> exact ⟨rfl, rfl, rfl, rfl, rfl⟩
  obtain ⟨hashes, results, accepted, acked, delivered⟩ := same
  have acks : ∀ group, w.redis.acksOf group = s.world.redis.acksOf group := by
    intro group
    rw [Redis.acksOf, acked, Redis.acksOf]
  constructor
  case nodes =>
    intro key node found
    exact kept.nodes key node (hashes ▸ found)
  case results => exact results ▸ kept.results
  case accepted => exact accepted ▸ kept.accepted
  case desks => exact fun j => Desk.Sound.mono onward (kept.desks j)
  case lasting => exact fun taskId entry here => kept.lasting taskId entry (strings _ _ here)
  case backed =>
    intro taskId entry here
    rcases kept.backed taskId entry (strings _ _ here) with ⟨message, there, named⟩ | claimed
    · exact .inl ⟨message, onward.accepted message there, named⟩
    · exact .inr claimed
  case done =>
    intro taskId closed
    obtain ⟨entry, here⟩ := Option.isSome_iff_exists.mp closed
    obtain ⟨message, there, verified⟩ :=
      kept.done taskId (Option.isSome_iff_exists.mpr ⟨entry, strings _ _ here⟩)
    exact ⟨message, onward.results message there, verified⟩
  case tokens =>
    intro id
    show _ + ((w.redis.acksOf "policy_group").count id : Int) ≤
      if id < w.redis.delivered "policy_group" then 1 else 0
    rw [acks, delivered]
    exact kept.tokens id
  case judged => exact fun id mem => onward.judgedAt (kept.judged id (acks _ ▸ mem))
  case merged => exact fun id mem => onward.mergedAt (kept.merged id (acks _ ▸ mem))

end Step

/-! ## The law -/

/-- Every result has been read and acknowledged by the memories and by the gates, and every
accepted entry by the mergers. -/
def World.Consumed (w : World) : Prop :=
  (∀ message ∈ w.redis.results, message.id ∈ w.redis.acksOf "memory_group" ∧
    message.id ∈ w.redis.acksOf "policy_group") ∧
  ∀ message ∈ w.redis.accepted, message.id ∈ w.redis.acksOf "merger_group"

instance (w : World) : Decidable w.Consumed :=
  inferInstanceAs (Decidable (_ ∧ _))

/-- The tree is closed: the workers do not go on with it. -/
def World.Closed (w : World) (taskId : String) : Prop :=
  (w.redis.strings (treeDoneKey taskId)).isSome = true

instance World.decidableClosed (w : World) (taskId : String) : Decidable (w.Closed taskId) :=
  inferInstanceAs (Decidable (_ = true))

section Step

variable {ι S : Type} [DecidableEq ι] {plant : Plant ι S} {s : Snapshot ι Cmd Cmd.Reply PyError World}

/-- When every message has been consumed no gate has a batch at hand. -/
theorem Reservations.no_claims (kept : Reservations plant s) (consumed : s.world.Consumed) (i : ι)
    (claim : String × String) : claim ∉ (plant.deskOf i s.history).claims := by
  intro claimed
  have sound := kept.desks i
  cases here : plant.deskOf i s.history with
  | gate policy q =>
    rw [here] at claimed sound
    have sound : q.Sound policy s.world := sound
    have claimed : claim ∈ q.claims := claimed
    cases batch : q.batch with
    | nil =>
      rw [(sound.empty batch).2] at claimed
      cases claimed
    | cons message rest =>
      have mem : message ∈ q.batch := by
        rw [batch]
        exact List.mem_cons_self
      -- The message is in the batch and acknowledged, which makes two.
      have acked := List.count_pos_iff.mpr (consumed.1 message (sound.batch message mem)).2
      have held := plant.count_le_atGates message.id s.history i
      have tokens := kept.tokens message.id
      have one : 0 < (plant.deskOf i s.history).batch.count message.id := by
        rw [here]
        exact List.count_pos_iff.mpr (List.mem_map.mpr ⟨message, mem, rfl⟩)
      split at tokens <;> omega
  | _ =>
    rw [here] at claimed
    cases claimed

end Step

section Runs

variable {ι S : Type} [DecidableEq ι] [LinearOrder S] (plant : Plant ι S)

/-- The runs in which nothing that passed is lost. -/
abbrev Plant.repairs : System ι Cmd Cmd.Reply PyError Choice World :=
  plant.systemOf fun s i x c => Repairs plant s i x c

variable {plant} {s : State ι Cmd Cmd.Reply PyError World}

/-- Every reachable state: by induction over the run, a desk's own step by `Reservations.step` and
all else as it leaves reservations alone. -/
theorem Plant.reservations (reached : plant.repairs.Reachable s) : Reservations plant s.toSnapshot := by
  refine System.Reachable.invariant (I := Reservations plant) ?_ ?_ ?_ reached
  · rintro w rfl
    have pristine := pristine_seedAll plant.tasks
    have acks : ∀ group, (seedAll plant.tasks).redis.acksOf group = [] := by
      intro group
      rw [Redis.acksOf, pristine.acked, List.filterMap_nil]
    constructor
    case nodes =>
      intro key node found taskId tree
      obtain ⟨taskId', rfl, tree'⟩ := pristine.roots key node found
      obtain rfl : taskId' = taskId := Option.some.inj (tree'.symm.trans tree)
      exact namesTree_rootNodeId taskId'
    case results => exact pristine.results ▸ Numbered.nil
    case accepted => exact pristine.accepted ▸ Numbered.nil
    case desks =>
      intro i
      show ((plant.roles i).desk).Sound _
      cases plant.roles i with
      | gate policy => exact Gating.Sound.fresh fun _ mem => by cases mem
      | merger => exact ⟨fun _ mem => (by cases mem), fun _ mem => (by cases mem), trivial⟩
      | memory => exact ⟨fun _ mem => (by cases mem), fun _ _ mem => (by cases mem)⟩
      | _ => trivial
    case lasting =>
      intro taskId entry here
      rw [pristine.strings] at here
      cases here
    case backed =>
      intro taskId entry here
      rw [pristine.strings] at here
      cases here
    case done =>
      intro taskId closed
      rw [pristine.strings] at closed
      cases closed
    case tokens =>
      intro id
      rw [acks, List.count_nil]
      split
      · exact Int.zero_le_ofNat 1
      · exact le_refl _
    case judged =>
      intro id mem
      rw [acks] at mem
      cases mem
    case merged =>
      intro id mem
      rw [acks] at mem
      cases mem
  · intro s i x c k reached kept issues repairs
    exact kept.step (Plant.desk_allows reached issues) repairs
  · intro s w _ kept around
    exact kept.weather around

/-- A closed tree is repaired, when all messages have been consumed. -/
theorem closed_repaired (reached : plant.repairs.Reachable s) (consumed : s.world.Consumed)
    {taskId : String} (closed : s.world.Closed taskId) : s.world.Repaired taskId := by
  have kept := Plant.reservations reached
  obtain ⟨message, there, pack, read, passed, names⟩ := kept.done taskId closed
  obtain ⟨same, there', ids, spoken⟩ := kept.judged message.id (consumed.1 message there).2
  obtain rfl := kept.results.unique there' there ids
  rcases spoken pack read passed taskId names with reserved | repaired
  · obtain ⟨entry, here⟩ := Option.isSome_iff_exists.mp reserved
    rcases kept.backed taskId entry here with ⟨accepted, entered, rfl, capsule⟩ | ⟨i, claimed⟩
    · obtain ⟨same, there', ids, outdone⟩ := kept.merged accepted.id (consumed.2 accepted entered)
      obtain rfl := kept.accepted.unique there' entered ids
      rcases outdone with repaired | ⟨entry', here', other⟩
      · exact repaired
      · obtain rfl := Option.some.inj (here.symm.trans here')
        exact absurd capsule.symm other
    · exact absurd claimed (kept.no_claims consumed i _)
  · exact repaired

end Runs

/-! ## A patch that fails -/

namespace SmallPlant

/-- The first candidate passes its tests and is merged. -/
def merges : List Beat :=
  starts 0 22 { fresh := "0" } ++ starts 2 10 ++ starts 3 5 passing ++ starts 4 14 ++ starts 5 9 ++
    starts 6 9

/-- The tree is closed, and then the patch of its only candidate fails. -/
def closes : List Beat :=
  starts 0 22 { fresh := "0" } ++ starts 2 10 ++ starts 3 5 passing ++ starts 4 14 ++ starts 5 9 ++
    starts 6 2 ++ goesOn 6 1 { fail := true } ++ goesOn 6 5

end SmallPlant

open SmallPlant in
/-- The tree is closed by the candidate that passed, and this candidate is merged. -/
theorem closed_repaired_merges : (after merges).world.Repaired "task_00000001" := by
  have run : plant.repairs.PermitsAll still (merges.map Beat.move) ∧
      (after merges).world.Consumed ∧ (after merges).world.Closed "task_00000001" := by
    decide +kernel
  obtain ⟨permitted, consumed, closed⟩ := run
  exact closed_repaired (reachable_after permitted) consumed closed

open SmallPlant in
/-- The tree is closed for good, and nothing was merged. -/
theorem not_closed_repaired :
    ¬ ∀ s, plant.system.Reachable s → s.world.Consumed → ∀ taskId, s.world.Closed taskId →
      s.world.Repaired taskId := by
  intro repaired
  have run : plant.system.PermitsAll still (closes.map Beat.move) ∧
      (after closes).world.Consumed ∧ (after closes).world.Closed "task_00000001" ∧
      ¬ (after closes).world.Repaired "task_00000001" := by
    decide +kernel
  obtain ⟨permitted, consumed, closed, unrepaired⟩ := run
  exact unrepaired (repaired _ (reachable_after permitted) consumed _ closed)

end KernelOmega
