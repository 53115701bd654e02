import KernelOmega.Plant.Conduct
import KernelOmega.Plant.Siege
import KernelOmega.Signing.Attestation

/-!
# A hostile results stream

Whoever adds to the results stream may add any packs in any number and order. What he cannot do
is sign: a signature that the trusted key takes is one of a digest that an executor has signed.
The gates verify with that key. In every reachable state the entries of the accepted stream are
sound: each is a stored node's, with a pack that an executor has signed for the node's code.
-/

namespace KernelOmega

open Concurrent

/-- The key the gates trust, and the digest that is signed. -/
structure Trust where
  ed25519 : Ed25519
  digest : ByteArray → ByteArray
  pubkey : String
  /-- The signatures the key takes for a digest. -/
  valid : ByteArray → List UInt8 → Bool
  isKey : ed25519.verifyKey pubkey = .ok valid

/-- The gates verify with the trusted key, and compare digests of the plant's kind. -/
def Plant.Trusts {ι S : Type} (plant : Plant ι S) (trust : Trust) : Prop :=
  ∀ i policy, plant.roles i = .gate policy → policy.sha256 = plant.sha256 ∧
    ∃ base : PolicyGate, policy = base.trusting trust.ed25519 trust.digest trust.pubkey

section Signed

variable {ι : Type} (roles : ι → Role)

/-- An executor has signed the pack, with these bytes hashed, and sent it. -/
def SignedWith (bytes : VerificationPack → ByteArray)
    (history : List (Event ι Cmd Cmd.Reply PyError)) (pack : VerificationPack) : Prop :=
  ∃ i self capsule outcome artifactUri reply, (roles i).Signs self bytes ∧
    pack = self.pack capsule outcome artifactUri ∧ ⟨i, .redis (.xaddResult pack), reply⟩ ∈ history

/-- An executor has signed the pack. -/
def SignedBefore (history : List (Event ι Cmd Cmd.Reply PyError)) (pack : VerificationPack) :
    Prop :=
  ∃ bytes, SignedWith roles bytes history pack

/-- A signature on the pack that the key takes is one of a digest an executor has signed. -/
def Unforged (trust : Trust) (history : List (Event ι Cmd Cmd.Reply PyError))
    (pack : VerificationPack) : Prop :=
  ValidSignature trust.digest trust.valid pack → ∃ bytes signed,
    SignedWith roles bytes history signed ∧
      trust.digest (canonicalSignatureBytes pack) = trust.digest (bytes signed)

/-- What happens to the stores without the daemons: anyone adds to the results, but nobody
signs. -/
inductive Hostile (trust : Trust) (s : Snapshot ι Cmd Cmd.Reply PyError World) : World → Prop
  | weather {w : World} : Weather s.world w → Hostile trust s w
  | garbled (e : PyError) : Hostile trust s (s.world.addResult (.error e))
  | result (pack : VerificationPack) : Unforged roles trust s.history pack →
      Hostile trust s (s.world.addResult (.ok pack))

end Signed

section Systems

variable {ι S : Type} [LinearOrder S] (plant : Plant ι S) (trust : Trust)

/-- The daemons in any interleaving over a hostile results stream. -/
def Plant.hostile : System ι Cmd Cmd.Reply PyError Choice World :=
  { plant.system with env := fun s w => Hostile plant.roles trust s w }

variable {plant trust} [DecidableEq ι] {s : State ι Cmd Cmd.Reply PyError World} {i : ι} {c : Cmd}
  {k : Except PyError c.Reply → Daemon Unit}

theorem Plant.hostile_desk_allows (reached : (plant.hostile trust).Reachable s)
    (issues : s.threads i = .cmd c k) : (plant.deskOf i s.history).Allows c := by
  have follows : (plant.hostile trust).Follows deskProtocol (fun i => (plant.roles i).desk)
      fun i => (plant.roles i).Idles :=
    ⟨(plant.desks fun _ _ _ _ => True).start, (plant.desks fun _ _ _ _ => True).calls⟩
  exact reached.allows follows issues

theorem Plant.hostile_conducts (reached : (plant.hostile trust).Reachable s)
    (issues : s.threads i = .cmd c k) : (plant.roles i).Conducts plant.sha256 c :=
  reached.uses (P := fun i => (plant.roles i).Conducts plant.sha256)
    (fun _ _ called => Plant.Call.conducts called) issues

/-- A worker writes under the nodes it has come down to. -/
theorem Plant.hostile_kinship (works : (plant.roles i).isWorker = true)
    (reached : (plant.hostile trust).Reachable s) (issues : s.threads i = .cmd c k) :
    (kinship plant.sha256).allows ((kinship plant.sha256).current [] i s.history) c := by
  have follows : (plant.hostile trust).FollowsAt i (kinship plant.sha256) [] fun _ => True := by
    refine ⟨trivial, fun p q called _ => ?_⟩
    have called : plant.Call (plant.roles i) p := called
    generalize plant.roles i = role at works called
    cases called with
    | work self own fuel => exact self.turn_kinship plant.ucb own fuel
    | _ => cases works
  exact reached.allowsAt follows issues

end Systems

/-! ## The entries and what they stand for -/

section Entries

variable {ι S : Type} (plant : Plant ι S)

/-- Thread `i` has put the payload on the accepted stream. -/
def EnteredBy (i : ι) (history : List (Event ι Cmd Cmd.Reply PyError)) (payload : AcceptedPayload) :
    Prop :=
  ∃ ops, ⟨i, .redis (.pipeline ops), .ok ()⟩ ∈ history ∧ RedisOp.xaddAccepted payload ∈ ops

/-- The node of the payload is in its tree, with its code. -/
def World.Stores (w : World) (payload : AcceptedPayload) : Prop :=
  ∃ node, w.redis.hashes payload.capsuleId = some node ∧ node.treeId = some payload.treeId ∧
    node.code = some payload.code

/-- The gate's policy accepts the code of the payload, and the pack passed for this code. -/
structure PolicyGate.Vouches (policy : PolicyGate) (sha256 : Sha256) (payload : AcceptedPayload)
    (pack : VerificationPack) : Prop where
  capsuleId : pack.capsuleId = payload.capsuleId
  success : pack.success = true
  testsFailed : pack.testsFailed = 0
  inputsDigest : pack.inputsDigest = sha256.text payload.code
  hardwareIsolated : policy.requireHardwareIsolation = true → pack.hardwareIsolated = true
  semantic : policy.enforceSemanticPolicy payload.code = .ok true

/-- An accepted entry is a stored node's, and the gate that entered it vouches with a pack that
an executor has signed. -/
structure Plant.Accounts (s : Snapshot ι Cmd Cmd.Reply PyError World) (payload : AcceptedPayload) :
    Prop where
  stores : s.world.Stores payload
  vouched : ∃ i policy signed, plant.roles i = .gate policy ∧ EnteredBy i s.history payload ∧
    SignedBefore plant.roles s.history signed ∧ policy.Vouches plant.sha256 payload signed

/-- A gate's batch is backed by the stores: its packs are on the stream, and the nodes it has seen
in a tree are there still. -/
structure Gating.Backed (r : Redis) (q : Gating) : Prop where
  left : ∀ message ∈ q.left, message ∈ r.results
  packs : ∀ pack found, (pack, found) ∈ q.seen → .ok pack ∈ r.packs
  nodes : ∀ pack node taskId, (pack, some node) ∈ q.seen → node.treeId = some taskId →
    ∃ node', r.hashes pack.capsuleId = some node' ∧ node'.treeId = some taskId ∧
      node'.code = node.code

/-- What holds of the plant, whoever adds to the results. -/
structure Fortified [DecidableEq ι] (trust : Trust) (s : Snapshot ι Cmd Cmd.Reply PyError World) :
    Prop where
  planted : s.world.redis.Planted plant.sha256
  kin : ∀ i, (plant.roles i).isWorker = true →
    KinRead plant.sha256 ((kinship plant.sha256).current [] i s.history)
  results : ∀ pack, .ok pack ∈ s.world.redis.packs →
    ValidSignature trust.digest trust.valid pack →
      ∃ signed, SignedBefore plant.roles s.history signed ∧ SameSigned pack signed
  gates : ∀ i policy q, plant.deskOf i s.history = .gate policy q → q.Backed s.world.redis
  accounts : ∀ payload ∈ s.world.redis.payloads, plant.Accounts s payload

end Entries

/-! ## What a step keeps -/

section Mono

variable {ι : Type} {roles : ι → Role} {history : List (Event ι Cmd Cmd.Reply PyError)}

theorem SignedBefore.cons {pack : VerificationPack} (signed : SignedBefore roles history pack)
    (e : Event ι Cmd Cmd.Reply PyError) : SignedBefore roles (e :: history) pack := by
  obtain ⟨bytes, i, self, capsule, outcome, artifactUri, reply, signs, here, mem⟩ := signed
  exact ⟨bytes, i, self, capsule, outcome, artifactUri, reply, signs, here,
    List.mem_cons_of_mem e mem⟩

theorem EnteredBy.cons {i : ι} {payload : AcceptedPayload} (entered : EnteredBy i history payload)
    (e : Event ι Cmd Cmd.Reply PyError) : EnteredBy i (e :: history) payload := by
  obtain ⟨ops, mem, queued⟩ := entered
  exact ⟨ops, List.mem_cons_of_mem e mem, queued⟩

theorem World.Stores.stays {w w' : World} {payload : AcceptedPayload} (stores : w.Stores payload)
    (stays : w.redis.Stays w'.redis) : w'.Stores payload := by
  obtain ⟨node, found, tree, code⟩ := stores
  obtain ⟨node', found', tree', code'⟩ := stays payload.capsuleId node payload.treeId found tree
  exact ⟨node', found', tree', code'.trans code⟩

/-- What backs a gate's knowledge is not taken away. -/
theorem Gating.Backed.mono {r r' : Redis} {q : Gating} (backed : q.Backed r)
    (results : ∀ message ∈ r.results, message ∈ r'.results) (stays : r.Stays r') :
    q.Backed r' where
  left := fun message mem => results message (backed.left message mem)
  packs := by
    intro pack found mem
    obtain ⟨message, there, read⟩ := List.mem_map.mp (backed.packs pack found mem)
    exact List.mem_map.mpr ⟨message, results message there, read⟩
  nodes := by
    intro pack node taskId mem tree
    obtain ⟨node', found', tree', code'⟩ := backed.nodes pack node taskId mem tree
    obtain ⟨node'', found'', tree'', code''⟩ := stays _ node' taskId found' tree'
    exact ⟨node'', found'', tree'', code''.trans code'⟩

theorem Gating.Backed.nothing (r : Redis) : ({} : Gating).Backed r where
  left := List.forall_mem_nil _
  packs := fun _ _ mem => by cases mem
  nodes := fun _ _ _ mem => by cases mem

end Mono

/-- The next message is looked at. -/
theorem Gating.Backed.look {r : Redis} {q : Gating} (backed : q.Backed r) {message : ResultMessage}
    {rest : List ResultMessage} (left : q.left = message :: rest) {pack : VerificationPack}
    (read : message.pack = .ok pack) :
    (q.look (r.hashes pack.capsuleId)).Backed r := by
  have there : message ∈ r.results := backed.left message (left ▸ List.mem_cons_self)
  have looked : q.look (r.hashes pack.capsuleId) =
      { q with left := rest, seen := (pack, r.hashes pack.capsuleId) :: q.seen } := by
    simp only [Gating.look, left, read]
  rw [looked]
  refine ⟨fun m mem => backed.left m (left ▸ List.mem_cons_of_mem message mem), ?_, ?_⟩
  · intro p found mem
    rcases List.mem_cons.mp mem with here | before
    · obtain ⟨rfl, -⟩ := Prod.mk.inj here
      exact List.mem_map.mpr ⟨message, there, read⟩
    · exact backed.packs p found before
  · intro p node taskId mem tree
    rcases List.mem_cons.mp mem with here | before
    · obtain ⟨rfl, found⟩ := Prod.mk.inj here
      exact ⟨node, found.symm, tree, rfl⟩
    · exact backed.nodes p node taskId before tree

/-- A gate's own command. -/
theorem Gating.Backed.next {policy : PolicyGate} {q : Gating} {w : World} {c : Cmd}
    (backed : q.Backed w.redis) (allowed : policy.Allows q c) (x : Choice)
    (stays : w.redis.Stays (World.exec x c w).2.redis) :
    (q.next c (World.exec x c w).1).Backed (World.exec x c w).2.redis := by
  refine Gating.Backed.mono ?_ (fun _ => World.exec_results_mem x c w) stays
  cases c with
  | redis c =>
    cases reply : (World.exec x (.redis c) w).1 with
    | error e => cases c <;> exact backed
    | ok v =>
      obtain ⟨-, rfl⟩ := World.exec_redis_eq_ok reply
      cases c with
      | xreadgroupResults group count =>
        refine ⟨fun message mem => ?_, fun _ _ mem => (by cases mem), fun _ _ _ mem => by cases mem⟩
        exact List.mem_of_mem_drop (List.mem_of_mem_take mem)
      | hgetall key =>
        obtain ⟨message, rest, pack, left, read, rfl⟩ := allowed
        exact backed.look left read
      | set key value nx ex =>
        obtain ⟨rfl, rfl, pack, node, earlier, treeId, seen, tree, -⟩ := allowed
        show (q.try value _).Backed w.redis
        simp only [Gating.try, Gating.tree, seen, tree]
        exact ⟨backed.left, fun p found mem => backed.packs p found (seen ▸ mem),
          fun p n taskId mem => backed.nodes p n taskId (seen ▸ mem)⟩
      | pipeline ops => exact .nothing _
      | get key => exact backed
      | _ => exact allowed.elim
  | pg c => exact backed
  | _ => exact allowed.elim

/-- What passes the trusted key has a valid signature. -/
theorem Trust.validSignature (trust : Trust) {policy base : PolicyGate} {pack : VerificationPack}
    (trusting : policy = base.trusting trust.ed25519 trust.digest trust.pubkey)
    (verified : policy.verifyPack pack = .ok true) :
    ValidSignature trust.digest trust.valid pack := by
  subst trusting
  have verified : verifyPack trust.ed25519 trust.digest pack trust.pubkey = .ok true := verified
  by_cases attestable : Attestable pack
  · obtain ⟨attested, judged, valid⟩ := verifyPack_of_attestable trust.isKey attestable
    rw [judged] at verified
    exact valid.mp (Except.ok.inj verified)
  · obtain ⟨message, raised⟩ := verifyPack_of_not_attestable trust.isKey attestable
    rw [raised] at verified
    cases verified

section Invariant

variable {ι S : Type} [DecidableEq ι] {plant : Plant ι S} {trust : Trust} {i : ι} {x : Choice}
  {c : Cmd} {s : Snapshot ι Cmd Cmd.Reply PyError World}

/-- A thread that is at a gate's desk is that gate. -/
theorem Plant.deskOf_gate {history : List (Event ι Cmd Cmd.Reply PyError)} {policy : PolicyGate}
    {q : Gating} (here : plant.deskOf i history = .gate policy q) :
    plant.roles i = .gate policy := by
  induction history generalizing q with
  | nil =>
    have start : (plant.roles i).desk = .gate policy q := here
    cases role : plant.roles i with
    | gate self =>
      rw [role] at start
      cases start
      rfl
    | _ =>
      rw [role] at start
      cases start
  | cons e earlier ih =>
    obtain ⟨j, c, reply⟩ := e
    by_cases same : j = i
    · subst same
      rw [plant.deskOf_own] at here
      cases before : plant.deskOf j earlier with
      | gate policy' q' =>
        rw [before] at here
        cases here
        exact ih before
      | _ =>
        rw [before] at here
        cases here
    · rw [plant.deskOf_other same] at here
      exact ih here

/-- An entry is queued by a gate that has seen its pack and node. -/
theorem Desk.queues {q : Desk} {ops : List RedisOp} (allowed : q.Allows (.redis (.pipeline ops)))
    {payload : AcceptedPayload} (mem : RedisOp.xaddAccepted payload ∈ ops) :
    ∃ policy gating pack node, q = .gate policy gating ∧ (pack, some node) ∈ gating.seen ∧
      policy.judge pack (some node) = .ok none ∧
      PolicyGate.acceptedPayload pack node = .ok payload := by
  cases q with
  | gate policy gating =>
    obtain ⟨pack, node, seen, judged, made⟩ := allowed.2.queued _ mem
    exact ⟨policy, gating, pack, node, rfl, seen, judged, made⟩
  | merger q =>
    obtain ⟨done, -, acks⟩ := allowed
    obtain ⟨message, -, other⟩ := acks _ mem
    cases other
  | memory q => exact (allowed _ mem).elim
  | elsewhere => exact (allowed _ mem).elim

/-- Only an `XADD` of the pack publishes it. -/
theorem Cmd.eq_of_mem_packs {c : Cmd} {reply : Except PyError c.Reply} {pack : VerificationPack}
    (mem : pack ∈ c.packs reply) : c = .redis (.xaddResult pack) := by
  cases c with
  | redis c =>
    cases c with
    | xaddResult pack' =>
      cases reply with
      | ok v =>
        obtain rfl := List.mem_singleton.mp mem
        rfl
      | error e => cases mem
    | _ => cases mem
  | _ => cases mem

omit [DecidableEq ι] in
/-- A payload enters the stream by a pipeline that has gone through. -/
theorem entered_of_mem_payloads {reply : Except PyError c.Reply} {payload : AcceptedPayload}
    (mem : payload ∈ c.payloads reply) (history : List (Event ι Cmd Cmd.Reply PyError)) :
    EnteredBy i (⟨i, c, reply⟩ :: history) payload ∧
      ∃ ops, c = .redis (.pipeline ops) ∧ RedisOp.xaddAccepted payload ∈ ops := by
  cases c with
  | redis c =>
    cases c with
    | pipeline ops =>
      cases reply with
      | error e => cases mem
      | ok v =>
        obtain ⟨op, queued, here⟩ := List.mem_flatMap.mp mem
        cases op with
        | xaddAccepted payload' =>
          obtain rfl := List.mem_singleton.mp here
          exact ⟨⟨ops, List.mem_cons_self, queued⟩, ops, rfl, queued⟩
        | _ => cases here
    | _ => cases mem
  | _ => cases mem

namespace Fortified

/-- What a thread writes is written where it belongs. -/
theorem plants (kept : Fortified plant trust s) (conducts : (plant.roles i).Conducts plant.sha256 c)
    (kinship : (plant.roles i).isWorker = true →
      (kinship plant.sha256).allows ((kinship plant.sha256).current [] i s.history) c) :
    c.Plants plant.sha256 := by
  cases works : (plant.roles i).isWorker with
  | true => exact kinship_plants (kept.kin i works) (kinship works)
  | false => exact conducts.plants works

/-- A gate enters a payload: it is accounted for. -/
theorem enters (kept : Fortified plant trust s) (trusts : plant.Trusts trust) {policy : PolicyGate}
    {q : Gating} (gate : plant.deskOf i s.history = .gate policy q) {pack : VerificationPack}
    {node : NodeHash} (seen : (pack, some node) ∈ q.seen)
    (judged : policy.judge pack (some node) = .ok none) {payload : AcceptedPayload}
    (made : PolicyGate.acceptedPayload pack node = .ok payload) :
    s.world.Stores payload ∧ ∃ signed, SignedBefore plant.roles s.history signed ∧
      policy.Vouches plant.sha256 payload signed := by
  obtain ⟨tree, capsule, code⟩ := PolicyGate.acceptedPayload_eq_ok made
  obtain ⟨same, base, trusting⟩ := trusts i policy (plant.deskOf_gate gate)
  obtain ⟨read, this, isolated, passed, verified, digest, permitted⟩ :=
    policy.judge_eq_ok_none judged
  obtain rfl := Option.some.inj this
  -- The pack is on the stream with a valid signature, so an executor has signed its fields.
  have backed := kept.gates i policy q gate
  obtain ⟨signed, before, agree⟩ := kept.results pack (backed.packs pack _ seen)
    (trust.validSignature trusting verified)
  obtain ⟨node', found, tree', code'⟩ := backed.nodes pack node payload.treeId seen tree
  have coded : node'.code = some payload.code := by
    obtain ⟨text, there⟩ := Option.isSome_iff_exists.mp
      ((kept.planted.placed _ node' found).code tree')
    rw [code, ← code', there, Option.getD_some]
  rw [← code] at digest permitted
  rw [VerificationPack.passed, Bool.and_eq_true, decide_eq_true_eq] at passed
  refine ⟨⟨node', capsule ▸ found, tree', coded⟩, signed, before, ?_⟩
  exact {
    capsuleId := agree.capsuleId.symm.trans capsule.symm
    success := agree.success.symm.trans passed.1
    testsFailed := agree.testsFailed.symm.trans passed.2
    inputsDigest := by rw [← agree.inputsDigest, ← digest, same]
    hardwareIsolated := fun required => agree.hardwareIsolated.symm.trans (isolated required)
    semantic := permitted }

/-- Every step of a daemon. -/
theorem step (kept : Fortified plant trust s) (collisionFree : plant.sha256.CollisionFree)
    (trusts : plant.Trusts trust) (allowed : (plant.deskOf i s.history).Allows c)
    (conducts : (plant.roles i).Conducts plant.sha256 c)
    (kinship : (plant.roles i).isWorker = true →
      (kinship plant.sha256).allows ((kinship plant.sha256).current [] i s.history) c) (x : Choice) :
    Fortified plant trust (s.after World.exec i x c) := by
  obtain ⟨planted, stays⟩ := kept.planted.world collisionFree (kept.plants conducts kinship) x
  refine ⟨planted, fun j works => ?_, fun pack mem valid => ?_, fun j policy q gate => ?_,
    fun payload mem => ?_⟩
  · rw [Snapshot.after_history]
    by_cases same : i = j
    · subst same
      rw [Typestate.current_own _ _ ⟨i, c, (World.exec x c s.world).1⟩ rfl]
      exact (kept.kin i works).next kept.planted.kin
    · rw [Typestate.current_other _ _ ⟨i, c, (World.exec x c s.world).1⟩ same]
      exact kept.kin j works
  · -- A new pack of the daemons is signed, or has no attestation.
    rw [Snapshot.after_history]
    rw [Snapshot.after_world, World.exec_packs, List.mem_append] at mem
    rcases mem with old | new
    · obtain ⟨signed, before, agree⟩ := kept.results pack old valid
      exact ⟨signed, before.cons _, agree⟩
    · obtain ⟨pack', published, here⟩ := List.mem_map.mp new
      obtain rfl := Except.ok.inj here
      have publishes := Cmd.eq_of_mem_packs published
      rcases conducts.publishes pack' publishes with
        none | ⟨self, bytes, capsule, outcome, artifactUri, signs, pack⟩
      · obtain ⟨attestation, -, there, -⟩ := valid
        rw [none] at there
        cases there
      · subst publishes
        refine ⟨pack', ⟨bytes, i, self, capsule, outcome, artifactUri, _, signs, pack,
          List.mem_cons_self⟩, ?_⟩
        exact ⟨rfl, rfl, rfl, rfl, rfl, rfl, rfl, rfl⟩
  · rw [Snapshot.after_history] at gate
    by_cases same : i = j
    · subst same
      rw [plant.deskOf_own] at gate
      cases before : plant.deskOf i s.history with
      | gate policy' q' =>
        rw [before] at gate allowed
        cases gate
        exact (kept.gates i _ q' before).next allowed x stays
      | _ =>
        rw [before] at gate
        cases gate
    · rw [plant.deskOf_other same] at gate
      exact (kept.gates j policy q gate).mono (fun _ => World.exec_results_mem x c s.world) stays
  · rw [Snapshot.after_world, World.exec_payloads, List.mem_append] at mem
    rcases mem with old | new
    · obtain ⟨stores, j, policy, signed, role, entered, before, vouches⟩ := kept.accounts payload old
      exact ⟨stores.stays stays, j, policy, signed, role, entered.cons _, before.cons _, vouches⟩
    · obtain ⟨entered, ops, pipeline, queued⟩ := entered_of_mem_payloads new s.history
      rw [pipeline] at allowed
      obtain ⟨policy, q, pack, node, gate, seen, judged, made⟩ := Desk.queues allowed queued
      obtain ⟨stores, signed, before, vouches⟩ := kept.enters trusts gate seen judged made
      exact ⟨stores.stays stays, i, policy, signed, plant.deskOf_gate gate, entered,
        before.cons _, vouches⟩

/-- Whoever adds to the results has the signatures of the executors only. -/
theorem hostile (kept : Fortified plant trust s) (digestInjective : Function.Injective trust.digest)
    {w : World} (around : Hostile plant.roles trust s w) : Fortified plant trust ⟨w, s.history⟩ := by
  have same : w.redis.hashes = s.world.redis.hashes ∧ w.redis.sets = s.world.redis.sets ∧
      w.redis.accepted = s.world.redis.accepted := by
    cases around with
    | weather around => cases around <;> exact ⟨rfl, rfl, rfl⟩
    | _ => exact ⟨rfl, rfl, rfl⟩
  obtain ⟨hashes, sets, accepted⟩ := same
  have stays : s.world.redis.Stays w.redis := .of_eq hashes
  have more : ∀ message ∈ s.world.redis.results, message ∈ w.redis.results := by
    cases around with
    | weather around => cases around <;> exact fun _ mem => mem
    | _ => exact fun _ mem => List.mem_append_left _ mem
  refine ⟨kept.planted.of_eq hashes sets, kept.kin, ?_, fun i policy q gate =>
    (kept.gates i policy q gate).mono more stays, fun payload mem => ?_⟩
  · cases around with
    | weather around => cases around <;> exact kept.results
    | garbled e =>
      intro pack mem valid
      rw [World.addResult, Redis.packs, List.map_append, List.mem_append] at mem
      rcases mem with old | new
      · exact kept.results pack old valid
      · cases List.mem_singleton.mp new
    | result added unforged =>
      intro pack mem valid
      rw [World.addResult, Redis.packs, List.map_append, List.mem_append] at mem
      rcases mem with old | new
      · exact kept.results pack old valid
      · obtain rfl := Except.ok.inj (List.mem_singleton.mp new)
        obtain ⟨bytes, signed, before, same⟩ := unforged valid
        obtain ⟨i, self, capsule, outcome, artifactUri, reply, signs, -⟩ := id before
        exact ⟨signed, ⟨bytes, before⟩, signs.signing.sameSigned (digestInjective same)⟩
  · have mem : payload ∈ s.world.redis.payloads := by
      rwa [Redis.payloads, ← accepted]
    obtain ⟨stores, vouched⟩ := kept.accounts payload mem
    exact ⟨stores.stays stays, vouched⟩

end Fortified

end Invariant

section Runs

variable {ι S : Type} [DecidableEq ι] [LinearOrder S] {plant : Plant ι S} {trust : Trust}
  {s : State ι Cmd Cmd.Reply PyError World}

/-- Every reachable state of a run with forged results, by induction over the run. -/
theorem Plant.fortified (collisionFree : plant.sha256.CollisionFree)
    (digestInjective : Function.Injective trust.digest) (trusts : plant.Trusts trust)
    (reached : (plant.hostile trust).Reachable s) : Fortified plant trust s.toSnapshot := by
  refine System.Reachable.invariant (I := Fortified plant trust) ?_ ?_ ?_ reached
  · rintro w rfl
    have pristine := pristine_seedAll plant.tasks
    refine ⟨planted_seedAll plant.sha256 plant.tasks, fun i _ => ?_, fun pack mem => ?_,
      fun i policy q gate => ?_, fun payload mem => ?_⟩
    · exact fun _ _ read => by cases read
    · rw [Redis.packs, pristine.results] at mem
      cases mem
    · have role := plant.deskOf_gate gate
      have start : (plant.roles i).desk = .gate policy q := gate
      rw [role] at start
      cases start
      exact .nothing _
    · rw [Redis.payloads, pristine.accepted] at mem
      cases mem
  · intro s i x c k reached kept issues _
    exact kept.step collisionFree trusts (Plant.hostile_desk_allows reached issues)
      (Plant.hostile_conducts reached issues)
      (fun works => Plant.hostile_kinship works reached issues) x
  · intro s w _ kept around
    exact kept.hostile digestInjective around

/-- Every accepted entry is of a stored node of its tree with its code, and an executor has signed
a pack that passed for this code; the gate that entered it accepts the code. -/
theorem accepted_entries_sound (collisionFree : plant.sha256.CollisionFree)
    (digestInjective : Function.Injective trust.digest) (trusts : plant.Trusts trust)
    (reached : (plant.hostile trust).Reachable s) :
    ∀ message ∈ s.world.redis.accepted, plant.Accounts s.toSnapshot message.payload :=
  fun _ mem => (Plant.fortified collisionFree digestInjective trusts reached).accounts _
    (List.mem_map_of_mem mem)

end Runs

/-! ## A forged pack after a signed one -/

namespace SmallPlant

open SmallSearch (sha256 sha256_collisionFree task meanReward idA codeA)

/-- The one signature. -/
def zeros : List UInt8 := List.replicate 64 0

/-- A key that takes this signature. -/
def trust : Trust where
  ed25519 := { verifyKey := fun _ => .ok fun _ signature => decide (signature = zeros) }
  digest := id
  pubkey := "trusted"
  valid := fun _ signature => decide (signature = zeros)
  isKey := rfl

def signer : Executor := { executor with sign := fun _ => Python.b64encode zeros }

def trustingGate : PolicyGate := gate.trusting trust.ed25519 trust.digest trust.pubkey

/-- The small plant with signatures. -/
def trustingPlant : Plant (Fin 7) Rat where
  sha256 := sha256
  ucb := meanReward
  tasks := [task]
  roles := fun
    | 3 => .executor signer 1
    | 5 => .gate trustingGate
    | i => roles i

/-- The plant's one gate trusts the plant's one signer. -/
theorem trustingPlant_trusts : trustingPlant.Trusts trust := by
  intro i policy role
  match i with
  | 5 =>
    cases role
    exact ⟨rfl, gate, rfl⟩
  | 0 | 1 | 2 | 3 | 4 | 6 => cases role

/-- A pack that says what the executor's says, without its signature. -/
def forged : VerificationPack where
  capsuleId := idA
  runId := "run_0"
  success := true
  runtime := 0
  nodeId := "nobody"
  hardwareIsolated := true
  inputsDigest := sha256.text codeA
  testsPassed := 5
  testsFailed := 0

/-- The worker, the dispatcher and the executor have each had their turn. -/
def afterWorker : Snapshot (Fin 7) Cmd Cmd.Reply PyError World :=
  (still.toSnapshot.run World.exec 0 (turn 0) fun n => { fresh := if n < 20 then "0" else "1" }).2

def afterDispatcher : Snapshot (Fin 7) Cmd Cmd.Reply PyError World :=
  (afterWorker.run World.exec 2 (turn 2) fun _ => {}).2

def afterSigner : Snapshot (Fin 7) Cmd Cmd.Reply PyError World :=
  (afterDispatcher.run World.exec 3 (signer.handle 1) fun _ => passing).2

/-- The forged pack is added, -/
def afterForger : Snapshot (Fin 7) Cmd Cmd.Reply PyError World :=
  { afterSigner with world := afterSigner.world.addResult (.ok forged) }

/-- and the gate has its turn. -/
def afterGate : Snapshot (Fin 7) Cmd Cmd.Reply PyError World :=
  (afterForger.run World.exec 5 trustingGate.gate fun _ => {}).2

set_option maxRecDepth 20000 in
/-- A run in which the gate accepts a pack while forged ones stand on the stream. -/
theorem afterGate_reachable : (trustingPlant.hostile trust).Reachable
    { afterGate with threads := fun _ => .ret () } := by
  have returns : (still.toSnapshot.run World.exec 0 (turn 0) fun n =>
        { fresh := if n < 20 then "0" else "1" }).1 = .ok () ∧
      (afterWorker.run World.exec 2 (turn 2) fun _ => {}).1 = .ok () ∧
      (afterDispatcher.run World.exec 3 (signer.handle 1) fun _ => passing).1 = .ok () ∧
      (afterForger.run World.exec 5 trustingGate.gate fun _ => {}).1 = .ok () := by
    decide
  obtain ⟨worked, dispatched, signs, gated⟩ := returns
  have start : (trustingPlant.hostile trust).Reachable still := .init _ rfl
  have alone : ∀ {s : Snapshot (Fin 7) Cmd Cmd.Reply PyError World} {i : Fin 7} {p : Daemon Unit}
      (xs : Nat → Choice), trustingPlant.Call (trustingPlant.roles i) p →
      (trustingPlant.hostile trust).Reachable { s with threads := fun _ => .ret () } →
      (s.run World.exec i p xs).1 = .ok () → (trustingPlant.hostile trust).Reachable
        { (s.run World.exec i p xs).2 with threads := fun _ => .ret () } :=
    fun xs called reached returns =>
      System.Reachable.call_alone called xs (System.allowed_of_forall (fun _ _ _ => trivial) _ _ _)
        reached rfl returns
  have sent := alone _ (.dispatch _) (alone _ (.work _ none 3) start worked) dispatched
  have signed := alone _ (.handle signer 1) sent signs
  have unsigned : Unforged trustingPlant.roles trust afterSigner.history forged := by
    rintro ⟨attestation, -, there, -⟩
    cases there
  exact alone _ (.gate trustingGate) (signed.step (.env _ (.result forged unsigned))) gated

end SmallPlant

set_option maxRecDepth 20000 in
open SmallPlant in
/-- A pack with an attestation of nobody's is on the results stream when the gate reads it. What is
accepted is the candidate the executor has signed for. -/
theorem accepted_entries_sound_forged :
    afterGate.world.redis.accepted.map (·.payload.capsuleId) = [SmallSearch.idA] ∧
      ∀ message ∈ afterGate.world.redis.accepted,
        trustingPlant.Accounts afterGate message.payload := by
  have sound : ∀ s : Snapshot (Fin 7) Cmd Cmd.Reply PyError World,
      (trustingPlant.hostile trust).Reachable { s with threads := fun _ => .ret () } →
        ∀ message ∈ s.world.redis.accepted, trustingPlant.Accounts s message.payload :=
    fun _ reached => accepted_entries_sound SmallSearch.sha256_collisionFree
      Function.injective_id trustingPlant_trusts reached
  constructor
  · decide
  · exact sound afterGate afterGate_reachable

end KernelOmega
