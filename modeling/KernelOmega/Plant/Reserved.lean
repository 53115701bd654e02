import KernelOmega.Plant.Desks

/-!
# Reservations of trees

A tree's accepted key is taken with `SET NX` by a gate or a merger, and deleted by a merger
whose patch has failed. `Desk.Sound` is what the desks know of the world, and `Onward` what no
step takes back, provided that a reservation is only given up when the tree is repaired: then
a tree that was spoken for once stays so.
-/

namespace KernelOmega

open Concurrent

namespace World

/-- A candidate of the tree has been merged. -/
def Repaired (w : World) (taskId : String) : Prop := ∃ payload ∈ w.patched, payload.treeId = taskId

instance (w : World) (taskId : String) : Decidable (w.Repaired taskId) :=
  inferInstanceAs (Decidable (∃ payload ∈ w.patched, payload.treeId = taskId))

/-- A candidate has the tree, or was merged. -/
def SpokenFor (w : World) (taskId : String) : Prop :=
  (w.redis.strings (treeAcceptedKey taskId)).isSome = true ∨ w.Repaired taskId

instance (w : World) (taskId : String) : Decidable (w.SpokenFor taskId) :=
  inferInstanceAs (Decidable (_ ∨ _))

/-- The payload's tree is repaired, or another capsule has it. -/
def Outdone (w : World) (payload : AcceptedPayload) : Prop :=
  w.Repaired payload.treeId ∨
    ∃ entry, w.redis.strings (treeAcceptedKey payload.treeId) = some entry ∧
      entry.value ≠ payload.capsuleId

/-- Nothing of the streams, of the patches and of the reservations of unrepaired trees is taken
back. A daemon decides on what it has read some steps before, so its knowledge has to outlast the
steps of all others; `Onward` is the order along which it does. -/
structure Onward (w w' : World) : Prop where
  results : ∀ message ∈ w.redis.results, message ∈ w'.redis.results
  accepted : ∀ message ∈ w.redis.accepted, message ∈ w'.redis.accepted
  repaired : ∀ taskId, w.Repaired taskId → w'.Repaired taskId
  reserved : ∀ taskId entry, w.redis.strings (treeAcceptedKey taskId) = some entry →
    w'.redis.strings (treeAcceptedKey taskId) = some entry ∨ w'.Repaired taskId

namespace Onward

variable {w w' : World} (onward : w.Onward w')

include onward

/-- A tree that was spoken for stays so, through its key or through its repair. -/
theorem spokenFor {taskId : String} (spoken : w.SpokenFor taskId) : w'.SpokenFor taskId := by
  rcases spoken with reserved | repaired
  · obtain ⟨entry, here⟩ := Option.isSome_iff_exists.mp reserved
    rcases onward.reserved taskId entry here with still | repaired
    · exact .inl (by rw [still, Option.isSome_some])
    · exact .inr repaired
  · exact .inr (onward.repaired taskId repaired)

/-- A payload that was outdone stays so: the tree's key changes hands only by way of a repair. -/
theorem outdone {payload : AcceptedPayload} (outdone : w.Outdone payload) : w'.Outdone payload := by
  rcases outdone with repaired | ⟨entry, here, other⟩
  · exact .inl (onward.repaired _ repaired)
  · rcases onward.reserved _ entry here with still | repaired
    · exact .inr ⟨entry, still, other⟩
    · exact .inl repaired

end Onward

theorem exec_repaired (x : Choice) (c : Cmd) {w : World} {taskId : String}
    (repaired : w.Repaired taskId) : (World.exec x c w).2.Repaired taskId := by
  obtain ⟨payload, mem, tree⟩ := repaired
  refine ⟨payload, ?_, tree⟩
  rw [exec_patched]
  exact List.mem_append_left _ mem

/-- After a `SET NX` that does not fail the key is there. -/
theorem exec_set_isSome {x : Choice} (ok : x.fail = false) (w : World) (key value : String)
    (ex : Option Nat) :
    ((World.exec x (.redis (.set key value true ex)) w).2.redis.strings key).isSome = true := by
  rw [exec_redis_ok ok]
  simp only [Redis.exec, Bool.true_and]
  split
  · next taken => exact taken
  · simp only [Redis.putString, Function.update_self, Option.isSome_some]

end World

/-! ## What the desks know -/

/-- What a gate knows of the world of the batch at hand. It has read its messages and its nodes some
steps ago, and others have written since; what it says of the
world is what no step takes back, and so may be kept from the read to the decision. -/
structure Gating.Sound (policy : PolicyGate) (w : World) (q : Gating) : Prop where
  batch : ∀ message ∈ q.batch, message ∈ w.redis.results
  left : ∀ message ∈ q.left, message ∈ q.batch
  empty : q.batch = [] → q.seen = [] ∧ q.claims = []
  named : ∀ pack node, (pack, some node) ∈ q.seen → node.Fits pack.capsuleId
  /-- A pack that passed its tests was not turned down, unless its tree was spoken for. -/
  passed : ∀ pack found, (pack, found) ∈ q.seen → pack.passed = true →
    ∀ reason, policy.judge pack found = .ok (some reason) →
      ∃ node taskId, found = some node ∧ node.treeId = some taskId ∧ w.SpokenFor taskId
  tried : ∀ taskId ∈ q.tried, w.SpokenFor taskId

namespace Claiming

/-- The messages a merger has at hand, those that are done included. -/
def messages : Claiming → List AcceptedMessage
  | .idle left done => left ++ done
  | .trying message left done => message :: (left ++ done)
  | .contested message left done => message :: (left ++ done)
  | .claimed message left done => message :: (left ++ done)
  | .applied message left done => message :: (left ++ done)
  | .releasing message left done => message :: (left ++ done)
  | .aborted => []

/-- The messages of the batch that the merger is done with, and acknowledges with its next pipeline.
-/
def finished : Claiming → List AcceptedMessage
  | .idle _ done => done
  | .trying _ _ done => done
  | .contested _ _ done => done
  | .claimed _ _ done => done
  | .applied _ _ done => done
  | .releasing _ _ done => done
  | .aborted => []

/-- What the merger knows of the tree at hand. -/
def Knows (w : World) : Claiming → Prop
  | .contested message _ _ => w.SpokenFor message.payload.treeId
  | .applied message _ _ => w.Repaired message.payload.treeId
  | .releasing message _ _ => w.Repaired message.payload.treeId
  | _ => True

/-- What a merger knows: its messages are on the accepted stream, and each one it is done with lost
its tree or finds it repaired. Without `finished` the acknowledgement at the end of the pass could
drop a message whose candidate was never merged. -/
structure Sound (w : World) (q : Claiming) : Prop where
  accepted : ∀ message ∈ q.messages, message ∈ w.redis.accepted
  finished : ∀ message ∈ q.finished, w.Outdone message.payload
  knows : q.Knows w

end Claiming

/-- What the memory knows: the packs it propagates are on the results stream, and the hashes it has
read are those of the nodes it read them for. -/
structure Remembering.Sound (w : World) (q : Remembering) : Prop where
  packs : ∀ pack ∈ q.packs, ∃ message ∈ w.redis.results, message.pack = .ok pack
  found : ∀ nodeId node, (nodeId, node) ∈ q.found → node.Fits nodeId

/-- The knowledge of whoever sits at the desk. The other daemons write none of the keys and streams
that it speaks of, and need none. -/
def Desk.Sound (w : World) : Desk → Prop
  | .gate policy q => q.Sound policy w
  | .merger q => q.Sound w
  | .memory q => q.Sound w
  | .elsewhere => True

section Mono

variable {w w' : World} (onward : w.Onward w')

include onward

/-- What a gate knows survives every step of another daemon. -/
theorem Gating.Sound.mono {policy : PolicyGate} {q : Gating} (sound : q.Sound policy w) :
    q.Sound policy w' where
  batch := fun message mem => onward.results message (sound.batch message mem)
  left := sound.left
  empty := sound.empty
  named := sound.named
  passed := by
    intro pack found mem passed reason turned
    obtain ⟨node, taskId, here, tree, spoken⟩ := sound.passed pack found mem passed reason turned
    exact ⟨node, taskId, here, tree, onward.spokenFor spoken⟩
  tried := fun taskId mem => onward.spokenFor (sound.tried taskId mem)

/-- So does what a merger knows: a tree that is spoken for is never free again, since its key is
only deleted when the tree is repaired. -/
theorem Claiming.Sound.mono {q : Claiming} (sound : q.Sound w) : q.Sound w' where
  accepted := fun message mem => onward.accepted message (sound.accepted message mem)
  finished := fun message mem => onward.outdone (sound.finished message mem)
  knows := by
    cases q with
    | contested message left done => exact onward.spokenFor sound.knows
    | applied message left done => exact onward.repaired _ sound.knows
    | releasing message left done => exact onward.repaired _ sound.knows
    | _ => trivial

/-- What the memory knows survives, as entries stay on the stream and a hash keeps its node. -/
theorem Remembering.Sound.mono {q : Remembering} (sound : q.Sound w) : q.Sound w' where
  packs := by
    intro pack mem
    obtain ⟨message, there, read⟩ := sound.packs pack mem
    exact ⟨message, onward.results message there, read⟩
  found := sound.found

/-- The knowledge of a desk survives the steps of the others. -/
theorem Desk.Sound.mono {q : Desk} (sound : q.Sound w) : q.Sound w' := by
  cases q with
  | gate policy q => exact Gating.Sound.mono onward sound
  | merger q => exact Claiming.Sound.mono onward sound
  | memory q => exact Remembering.Sound.mono onward sound
  | elsewhere => trivial

end Mono

/-! ## What a command does to a reservation -/

/-- A command leaves a tree's reservation as it is, makes it when the tree is free, for a gate's
capsule or a merger's, or gives it up for a merger whose patch has failed. -/
theorem Desk.reserved_cases {q : Desk} {c : Cmd} (allowed : q.Allows c) (x : Choice) (w : World)
    (taskId : String) :
    (World.exec x c w).2.redis.strings (treeAcceptedKey taskId) =
        w.redis.strings (treeAcceptedKey taskId) ∨
      (w.redis.strings (treeAcceptedKey taskId) = none ∧ ∃ value,
        (World.exec x c w).2.redis.strings (treeAcceptedKey taskId) = some { value := value } ∧
        ((taskId, value) ∈ (q.next c (World.exec x c w).1).claims ∨
          ∃ message left done, q = .merger (.trying message left done) ∧
            message.payload.treeId = taskId ∧ message.payload.capsuleId = value)) ∨
      (World.exec x c w).2.redis.strings (treeAcceptedKey taskId) = none ∧
        c = .redis (.delete (treeAcceptedKey taskId)) ∧
        ∃ message left done, q = .merger (.releasing message left done) ∧
          message.payload.treeId = taskId := by
  rcases World.exec_strings x c w (treeAcceptedKey taskId) with
    same | ⟨value, nx, ex, rfl, free, stored⟩ | ⟨rfl, gone⟩ | ⟨ops, value, rfl, mem, -⟩
  · exact .inl same
  · cases q with
    | gate policy q =>
      obtain ⟨rfl, rfl, pack, node, earlier, treeId, seen, tree, -, same, rfl⟩ := allowed
      obtain rfl := treeAcceptedKey_injective same
      refine .inr (.inl ⟨free rfl, pack.capsuleId, stored, .inl ?_⟩)
      -- A key that was free and is there now was stored.
      cases fails : x.fail with
      | true =>
        rw [World.exec_redis_fail fails, free rfl] at stored
        cases stored
      | false =>
        rw [World.exec_redis_ok fails]
        simp [Redis.exec, free rfl, Desk.next, Desk.claims, Gating.next, Gating.try, Gating.tree,
          seen, tree]
    | merger q =>
      obtain ⟨rfl, rfl, message, left, done, rfl, same, rfl⟩ := allowed
      obtain rfl := treeAcceptedKey_injective same
      exact .inr (.inl ⟨free rfl, _, stored, .inr ⟨message, left, done, rfl, rfl, rfl⟩⟩)
    | memory q => exact allowed.elim
    | elsewhere =>
      have plain : PlainKey (treeAcceptedKey taskId) := allowed
      exact absurd rfl (plain.1 taskId)
  · cases q with
    | gate policy q => exact allowed.elim
    | merger q =>
      obtain ⟨message, left, done, rfl, same⟩ := allowed
      obtain rfl := treeAcceptedKey_injective same
      exact .inr (.inr ⟨gone, rfl, message, left, done, rfl, rfl⟩)
    | memory q => exact allowed.elim
    | elsewhere =>
      have plain : PlainKey (treeAcceptedKey taskId) := allowed
      exact absurd rfl (plain.1 taskId)
  · cases q with
    | gate policy q => exact (allowed.2.queued _ mem).elim
    | merger q =>
      obtain ⟨done, -, acks⟩ := allowed
      obtain ⟨message, -, other⟩ := acks _ mem
      cases other
    | memory q =>
      obtain ⟨pack, -, -, node, tree, -, -, same⟩ := allowed _ mem
      exact absurd same (treeAcceptedKey_ne_treeDoneKey taskId tree)
    | elsewhere => exact (allowed _ mem).elim

/-- From a sound desk, a reservation is made for a capsule that has or will have an accepted
entry, and given up when the tree is repaired. -/
theorem Desk.reserved_step {q : Desk} {c : Cmd} (allowed : q.Allows c) (x : Choice) {w : World}
    (sound : q.Sound w) (taskId : String) :
    (World.exec x c w).2.redis.strings (treeAcceptedKey taskId) =
        w.redis.strings (treeAcceptedKey taskId) ∨
      (w.redis.strings (treeAcceptedKey taskId) = none ∧ ∃ value,
        (World.exec x c w).2.redis.strings (treeAcceptedKey taskId) = some { value := value } ∧
        ((taskId, value) ∈ (q.next c (World.exec x c w).1).claims ∨
          ∃ message ∈ w.redis.accepted, message.payload.treeId = taskId ∧
            message.payload.capsuleId = value)) ∨
      (World.exec x c w).2.redis.strings (treeAcceptedKey taskId) = none ∧ w.Repaired taskId := by
  rcases Desk.reserved_cases allowed x w taskId with
    same | ⟨free, value, stored, claimed | ⟨message, left, done, rfl, named⟩⟩ |
      ⟨gone, -, message, left, done, rfl, rfl⟩
  · exact .inl same
  · exact .inr (.inl ⟨free, value, stored, .inl claimed⟩)
  · exact .inr (.inl ⟨free, value, stored,
      .inr ⟨message, sound.accepted message List.mem_cons_self, named⟩⟩)
  · exact .inr (.inr ⟨gone, sound.knows⟩)

/-- Every step goes onward. -/
theorem Desk.onward {q : Desk} {c : Cmd} (allowed : q.Allows c) (x : Choice) {w : World}
    (sound : q.Sound w) : w.Onward (World.exec x c w).2 where
  results := fun _ => World.exec_results_mem x c w
  accepted := fun _ => World.exec_accepted_mem x c w
  repaired := fun _ => World.exec_repaired x c
  reserved := by
    intro taskId entry here
    rcases Desk.reserved_step allowed x sound taskId with same | ⟨free, -⟩ | ⟨-, repaired⟩
    · exact .inl (same.trans here)
    · rw [free] at here
      cases here
    · exact .inr (World.exec_repaired x c repaired)

/-! ## What the desks come to know -/

/-- The tree, as read, of a pack that passed its tests and is turned down when its node is read. -/
def Gating.turnsDown (policy : PolicyGate) (q : Gating) :
    (c : Cmd) → Except PyError c.Reply → Option (Option String)
  | .redis (.hgetall _) => fun
    | .ok found =>
      match q.left with
      | message :: _ =>
        match message.pack with
        | .ok pack =>
          match pack.passed, policy.judge pack found with
          | true, .ok (some _) => some (found.bind (·.treeId))
          | _, _ => none
        | .error _ => none
      | [] => none
    | .error _ => none
  | _ => fun _ => none

/-- The payload a command applies. -/
def Cmd.applies : Cmd → Option AcceptedPayload
  | .applyPatch payload => some payload
  | _ => none

section Next

variable {c : Cmd} {x : Choice} {w : World}

/-- Nothing is known of a batch that was just read. -/
theorem Gating.Sound.fresh {policy : PolicyGate} {w : World} {messages : List ResultMessage}
    (there : ∀ message ∈ messages, message ∈ w.redis.results) :
    Gating.Sound policy w { batch := messages, left := messages } where
  batch := there
  left := fun _ mem => mem
  empty := fun _ => ⟨rfl, rfl⟩
  named := fun _ _ mem => by cases mem
  passed := fun _ _ mem => by cases mem
  tried := fun _ mem => by cases mem

/-- A message is looked at, and its node's hash is read. -/
theorem Gating.Sound.look {policy : PolicyGate} {w : World} {q : Gating} (sound : q.Sound policy w)
    {message : ResultMessage} {rest : List ResultMessage} (left : q.left = message :: rest)
    {pack : VerificationPack} {found : Option NodeHash}
    (fits : ∀ node, found = some node → node.Fits pack.capsuleId)
    (passed : pack.passed = true → ∀ reason, policy.judge pack found = .ok (some reason) →
      ∃ node taskId, found = some node ∧ node.treeId = some taskId ∧ w.SpokenFor taskId) :
    Gating.Sound policy w { q with left := rest, seen := (pack, found) :: q.seen } where
  batch := sound.batch
  left := by
    intro m mem
    refine sound.left m ?_
    rw [left]
    exact List.mem_cons_of_mem _ mem
  empty := by
    intro none
    have inBatch : message ∈ q.batch := by
      refine sound.left message ?_
      rw [left]
      exact List.mem_cons_self
    have none : q.batch = [] := none
    rw [none] at inBatch
    cases inBatch
  named := by
    intro p node mem
    rcases List.mem_cons.mp mem with here | before
    · obtain ⟨rfl, rfl⟩ := Prod.mk.inj here
      exact fits node rfl
    · exact sound.named p node before
  passed := by
    intro p f mem
    rcases List.mem_cons.mp mem with here | before
    · obtain ⟨rfl, rfl⟩ := Prod.mk.inj here
      exact passed
    · exact sound.passed p f before
  tried := sound.tried

/-- A tree was tried, and is spoken for. -/
theorem Gating.Sound.tries {policy : PolicyGate} {w : World} {q : Gating} (sound : q.Sound policy w)
    (looked : q.seen ≠ []) {treeId : String} (spoken : w.SpokenFor treeId)
    (claims : List (String × String)) :
    Gating.Sound policy w { q with tried := treeId :: q.tried, claims := claims } where
  batch := sound.batch
  left := sound.left
  empty := fun none => absurd (sound.empty none).1 looked
  named := sound.named
  passed := sound.passed
  tried := by
    intro t mem
    rcases List.mem_cons.mp mem with rfl | before
    · exact spoken
    · exact sound.tried t before

/-- A gate's own step. Only a `SET NX` that was answered adds a tried tree, and it leaves the key in
place whether it stored or found one. A pack that passed and is turned down here needs `passes`: its
tree has to be spoken for already. -/
theorem Gating.Sound.next {policy : PolicyGate} {q : Gating} (sound : q.Sound policy w)
    (allowed : policy.Allows q c) (nodes : ∀ key node, w.redis.hashes key = some node → node.Fits key)
    (passes : ∀ tree ∈ q.turnsDown policy c (World.exec x c w).1, ∃ taskId ∈ tree, w.SpokenFor taskId) :
    (q.next c (World.exec x c w).1).Sound policy (World.exec x c w).2 := by
  have known : (Desk.gate policy q).Sound w := sound
  have allows : (Desk.gate policy q).Allows c := allowed
  have onward := Desk.onward allows x known
  have kept := sound.mono onward
  cases c with
  | redis c =>
    cases fails : x.fail with
    | true =>
      rw [World.exec_redis_fail fails] at kept ⊢
      cases c <;> exact kept
    | false =>
      have ran := World.exec_redis_ok fails c w
      cases c with
      | xreadgroupResults group count =>
        rw [ran]
        exact Gating.Sound.fresh fun message mem => List.mem_of_mem_drop (List.mem_of_mem_take mem)
      | hgetall key =>
        obtain ⟨message, rest, pack, left, read, rfl⟩ := allowed
        have reply : (World.exec x (.redis (.hgetall pack.capsuleId)) w).1 =
            .ok (w.redis.hashes pack.capsuleId) := by
          rw [ran]
          rfl
        have look : q.next (.redis (.hgetall pack.capsuleId)) (.ok (w.redis.hashes pack.capsuleId)) =
            { q with left := rest, seen := (pack, w.redis.hashes pack.capsuleId) :: q.seen } := by
          simp only [Gating.next, Gating.look, left, read]
        rw [reply] at passes ⊢
        rw [look]
        refine kept.look left (nodes pack.capsuleId) fun passed reason turned => ?_
        have turns : q.turnsDown policy (.redis (.hgetall pack.capsuleId))
            (.ok (w.redis.hashes pack.capsuleId)) =
              some ((w.redis.hashes pack.capsuleId).bind (·.treeId)) := by
          simp only [Gating.turnsDown, left, read, passed, turned]
        obtain ⟨taskId, tree, spoken⟩ := passes _ turns
        obtain ⟨node, found, tree⟩ := Option.bind_eq_some_iff.mp tree
        exact ⟨node, taskId, found, tree, onward.spokenFor spoken⟩
      | set key value nx ex =>
        obtain ⟨rfl, rfl, pack, node, earlier, treeId, seen, tree, -, rfl, rfl⟩ := allowed
        have spoken := World.exec_set_isSome fails w (treeAcceptedKey treeId) pack.capsuleId none
        have tries : ∀ stored, q.next (.redis (.set (treeAcceptedKey treeId) pack.capsuleId true))
            (.ok stored) = { q with
              tried := treeId :: q.tried
              claims := if stored then (treeId, pack.capsuleId) :: q.claims else q.claims } := by
          intro stored
          simp only [Gating.next, Gating.try, Gating.tree, seen, tree]
        have reply : ∃ stored,
            (World.exec x (.redis (.set (treeAcceptedKey treeId) pack.capsuleId true)) w).1 =
              .ok stored := by
          rw [ran]
          exact ⟨_, rfl⟩
        obtain ⟨stored, reply⟩ := reply
        rw [reply, tries]
        refine kept.tries ?_ (.inl spoken) _
        rw [seen]
        exact List.cons_ne_nil _ _
      | pipeline ops =>
        rw [ran]
        exact Gating.Sound.fresh fun _ mem => by cases mem
      | get key =>
        rw [ran] at kept ⊢
        exact kept
      | _ => exact allowed.elim
  | pg c => exact kept
  | _ => exact allowed.elim

/-- A merger that reads the winner of a tree is done with a capsule that is not it. -/
theorem Claiming.Sound.claim {w : World} {message : AcceptedMessage} {left done : List AcceptedMessage}
    (accepted : ∀ m ∈ message :: (left ++ done), m ∈ w.redis.accepted)
    (finished : ∀ m ∈ done, w.Outdone m.payload) (spoken : w.SpokenFor message.payload.treeId) :
    (Claiming.claim ((w.redis.strings (treeAcceptedKey message.payload.treeId)).map (·.value))
      message left done).Sound w := by
  unfold Claiming.claim
  split
  · exact ⟨accepted, finished, trivial⟩
  · next other =>
    refine ⟨fun m mem => accepted m ?_, fun m mem => ?_, trivial⟩
    · simp only [Claiming.messages, List.mem_append, List.mem_cons] at mem ⊢
      tauto
    · rcases List.mem_cons.mp mem with rfl | before
      · -- Whoever has the tree is not this capsule, unless the tree is repaired.
        rcases spoken with reserved | repaired
        · obtain ⟨entry, here⟩ := Option.isSome_iff_exists.mp reserved
          refine .inr ⟨entry, here, fun same => other ?_⟩
          rw [here, Option.map_some, same]
        · exact .inl repaired
      · exact finished m before

/-- A message of a repaired tree is done. -/
theorem Claiming.Sound.finish {w : World} {message : AcceptedMessage}
    {left done : List AcceptedMessage} (accepted : ∀ m ∈ message :: (left ++ done), m ∈ w.redis.accepted)
    (finished : ∀ m ∈ done, w.Outdone m.payload) (repaired : w.Repaired message.payload.treeId) :
    (Claiming.idle left (message :: done)).Sound w := by
  refine ⟨fun m mem => accepted m ?_, fun m mem => ?_, trivial⟩
  · simp only [Claiming.messages, List.mem_append, List.mem_cons] at mem ⊢
    tauto
  · rcases List.mem_cons.mp mem with rfl | before
    · exact .inl repaired
    · exact finished m before

/-- A batch of messages that was just read. -/
theorem Claiming.Sound.fresh {w : World} {messages : List AcceptedMessage}
    (there : ∀ message ∈ messages, message ∈ w.redis.accepted) :
    (Claiming.idle messages []).Sound w where
  accepted := by
    intro message mem
    rw [Claiming.messages, List.append_nil] at mem
    exact there message mem
  finished := fun _ mem => by cases mem
  knows := trivial

/-- A merger that has read the accepted key of the tree at hand: a value there is a reservation,
so the merger that goes on without one of its own is done with the message rightly. -/
theorem Claiming.Sound.got {q : Claiming} {w : World} {key : String} (sound : q.Sound w)
    (allowed : q.Allows (.redis (.get key))) :
    (q.advance (.redis (.get key)) ((w.redis.strings key).map (·.value))).Sound w := by
  rcases allowed with ⟨message, left, done, rfl, rfl⟩ | ⟨message, left, done, rfl, rfl⟩
  · simp only [Claiming.advance]
    split
    · next taken =>
      refine Claiming.Sound.claim sound.accepted sound.finished (.inl ?_)
      cases here : w.redis.strings (treeAcceptedKey message.payload.treeId) with
      | none =>
        rw [here] at taken
        cases taken
      | some entry => rfl
    · exact ⟨sound.accepted, sound.finished, trivial⟩
  · exact Claiming.Sound.claim sound.accepted sound.finished sound.knows

/-- After a `SET NX` of the merger, whatever its reply, the tree at hand is reserved. -/
theorem Claiming.Sound.contest {q : Claiming} {w : World} {key value : String} {nx : Bool}
    {ex : Option Nat} (sound : q.Sound w) (allowed : q.Allows (.redis (.set key value nx ex)))
    (there : (w.redis.strings key).isSome = true) (stored : Bool) :
    (q.advance (.redis (.set key value nx ex)) stored).Sound w := by
  obtain ⟨rfl, rfl, message, left, done, rfl, rfl, rfl⟩ := allowed
  cases stored with
  | true => exact ⟨sound.accepted, sound.finished, trivial⟩
  | false => exact ⟨sound.accepted, sound.finished, .inl there⟩

/-- The patch of the capsule at hand is in place. -/
theorem Claiming.Sound.patch {q : Claiming} {w : World} {payload : AcceptedPayload} (sound : q.Sound w)
    (allowed : q.Allows (.applyPatch payload)) (patched : payload ∈ w.patched) :
    (q.advance (.applyPatch payload) ()).Sound w := by
  obtain ⟨message, left, done, rfl, rfl⟩ := allowed
  exact ⟨sound.accepted, sound.finished, message.payload, patched, rfl⟩

/-- The merge is recorded, which ends the message at hand. -/
theorem Claiming.Sound.record {q : Claiming} {w : World} {id : String} (sound : q.Sound w)
    (allowed : q.Allows (.pg (.mergeCandidateMetadata id))) :
    (q.advance (.pg (.mergeCandidateMetadata id)) ()).Sound w := by
  cases q with
  | applied message left done =>
    exact Claiming.Sound.finish sound.accepted sound.finished sound.knows
  | releasing message left done =>
    exact Claiming.Sound.finish sound.accepted sound.finished sound.knows
  | _ => exact allowed.elim

/-- A patch that was asked for and does not end well is a step that fails. -/
theorem Cmd.fail_of_applies {payload : AcceptedPayload} (mem : payload ∈ c.applies) {e : PyError}
    (reply : (World.exec x c w).1 = .error e) : x.fail = true := by
  cases c with
  | applyPatch p =>
    by_contra ok
    simp only [World.exec, ok, ↓reduceIte, reduceCtorEq] at reply
  | _ => cases mem

/-- A failure before the patch ends the pass, and one after it leaves a repaired tree to be
recorded. A patch that fails itself is between the two, so `applies` is asked for: only then is
the reservation given up of a tree that is repaired. -/
theorem Claiming.Sound.failed {q : Claiming} (sound : q.Sound w) (allowed : q.Allows c)
    (applies : ∀ payload ∈ c.applies, w.Repaired payload.treeId) :
    q.fail.Sound w := by
  have abort : Claiming.aborted.Sound w :=
    ⟨fun _ mem => (by cases mem), fun _ mem => (by cases mem), trivial⟩
  cases q with
  | claimed message left done =>
    refine ⟨sound.accepted, sound.finished, ?_⟩
    cases c with
    | applyPatch payload =>
      obtain ⟨_, _, _, here, rfl⟩ := allowed
      obtain ⟨rfl, rfl, rfl⟩ := here
      exact applies _ rfl
    | redis c => cases c <;> simp [Claiming.Allows] at allowed
    | pg c => cases c <;> exact allowed.elim
    | _ => exact allowed.elim
  | applied message left done => exact ⟨sound.accepted, sound.finished, sound.knows⟩
  | _ => exact abort

/-- What a merger knows after a command that has succeeded. -/
theorem Claiming.Sound.advance {q : Claiming} (sound : q.Sound (World.exec x c w).2)
    (allowed : q.Allows c) {v : c.Reply} (reply : (World.exec x c w).1 = .ok v) :
    (q.advance c v).Sound (World.exec x c w).2 := by
  cases c with
  | redis c =>
    obtain ⟨ok, rfl⟩ := World.exec_redis_eq_ok reply
    have ran := World.exec_redis_ok ok c w
    cases c with
    | xreadgroupAccepted group count =>
      rw [ran]
      exact Claiming.Sound.fresh fun message mem => List.mem_of_mem_drop (List.mem_of_mem_take mem)
    | get key =>
      rw [ran] at sound ⊢
      exact sound.got allowed
    | set key value nx ex =>
      refine sound.contest allowed ?_ _
      obtain ⟨rfl, rfl, -⟩ := allowed
      exact World.exec_set_isSome ok w key value none
    | pipeline ops => exact Claiming.Sound.fresh fun _ mem => by cases mem
    | delete key => exact sound
    | _ => exact allowed.elim
  | applyPatch payload =>
    refine sound.patch allowed ?_
    rw [World.exec_patched, reply]
    exact List.mem_append_right _ (List.mem_singleton.mpr rfl)
  | pg c =>
    cases c with
    | mergeCandidateMetadata id => exact sound.record allowed
    | _ => exact sound
  | _ => exact allowed.elim

/-- A merger's own step, command by command; an exception is the case `failed`. -/
theorem Claiming.Sound.next {q : Claiming} (sound : q.Sound w) (allowed : q.Allows c)
    (applies : ∀ payload ∈ c.applies, x.fail = true → w.Repaired payload.treeId) :
    (q.next c (World.exec x c w).1).Sound (World.exec x c w).2 := by
  have known : (Desk.merger q).Sound w := sound
  have allows : (Desk.merger q).Allows c := allowed
  have kept := sound.mono (Desk.onward allows x known)
  cases reply : (World.exec x c w).1 with
  | ok v => exact kept.advance allowed reply
  | error e =>
    refine kept.failed allowed fun payload mem => ?_
    exact World.exec_repaired x c (applies payload mem (Cmd.fail_of_applies mem reply))

/-- The memory's own step: a batch replaces what it knew, and a node read is added. -/
theorem Remembering.Sound.next {q : Remembering} (sound : q.Sound w) (allowed : q.Allows c)
    (nodes : ∀ key node, w.redis.hashes key = some node → node.Fits key) :
    (q.next c (World.exec x c w).1).Sound (World.exec x c w).2 := by
  have known : (Desk.memory q).Sound w := sound
  have allows : (Desk.memory q).Allows c := allowed
  have kept := sound.mono (Desk.onward allows x known)
  cases c with
  | redis c =>
    cases reply : (World.exec x (.redis c) w).1 with
    | error e => cases c <;> exact kept
    | ok v =>
      obtain ⟨ok, rfl⟩ := World.exec_redis_eq_ok reply
      cases c with
      | xreadgroupResults group count =>
        rw [World.exec_redis_ok ok]
        refine ⟨fun pack mem => ?_, fun _ _ mem => by cases mem⟩
        obtain ⟨message, there, read⟩ := List.mem_filterMap.mp mem
        refine ⟨message, List.mem_of_mem_drop (List.mem_of_mem_take there), ?_⟩
        cases here : message.pack with
        | error e =>
          rw [here] at read
          cases read
        | ok p =>
          rw [here] at read
          exact congrArg Except.ok (Option.some.inj read)
      | hgetall key =>
        show Remembering.Sound _ (q.next (.redis (.hgetall key)) (.ok (w.redis.hashes key)))
        cases found : w.redis.hashes key with
        | none => exact kept
        | some node =>
          refine ⟨kept.packs, fun nodeId h mem => ?_⟩
          rcases List.mem_cons.mp mem with here | before
          · obtain ⟨rfl, rfl⟩ := Prod.mk.inj here
            exact nodes nodeId h found
          · exact kept.found nodeId h before
      | _ => exact kept
  | _ => exact kept

end Next

end KernelOmega
