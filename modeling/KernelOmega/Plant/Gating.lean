import KernelOmega.Concurrent.Typestate
import KernelOmega.PolicyGate
import KernelOmega.Store.Streams

/-!
# A gate's batch

`Gating` is what a gate has read and done of the batch at hand: the messages, what it has
seen of each, the trees it has tried to reserve and the reservations it has made. The
transaction at the end of the batch comes after every message has been decided; it carries
an entry for every reservation of the batch, and an acknowledgement for every message.
-/

namespace KernelOmega

open Concurrent

/-- What a gate knows of the batch at hand. -/
structure Gating where
  batch : List ResultMessage := []
  /-- The messages not yet looked at. -/
  left : List ResultMessage := []
  /-- The packs looked at, with the node's hash as it was read, latest first. -/
  seen : List (VerificationPack × Option NodeHash) := []
  /-- The trees whose reservation was attempted. -/
  tried : List String := []
  /-- The reservations made: a tree and the capsule. -/
  claims : List (String × String) := []

/-- The tree of the pack looked at last. -/
def Gating.tree (q : Gating) : Option String :=
  match q.seen with
  | (_, some node) :: _ => node.treeId
  | _ => none

/-- The message looked at next, with the rest. -/
def Gating.look (q : Gating) (found : Option NodeHash) : Gating :=
  match q.left with
  | message :: rest =>
    match message.pack with
    | .ok pack => { q with left := rest, seen := (pack, found) :: q.seen }
    | .error _ => q
  | [] => q

/-- A reservation of the tree at hand was attempted. -/
def Gating.try (q : Gating) (capsuleId : String) (stored : Bool) : Gating :=
  match q.tree with
  | some treeId =>
    { q with
      tried := treeId :: q.tried
      claims := if stored then (treeId, capsuleId) :: q.claims else q.claims }
  | none => q

/-- What a gate knows after a command; one that fails raises, and the gate ends there. -/
def Gating.next (q : Gating) : (c : Cmd) → Except PyError c.Reply → Gating
  | .redis (.xreadgroupResults _ _) => fun
    | .ok messages => { batch := messages, left := messages }
    | .error _ => q
  | .redis (.hgetall _) => fun
    | .ok found => q.look found
    | .error _ => q
  | .redis (.set _ value _ _) => fun
    | .ok stored => q.try value stored
    | .error _ => q
  | .redis (.pipeline _) => fun
    | .ok _ => {}
    | .error _ => q
  | _ => fun _ => q

namespace PolicyGate

variable (policy : PolicyGate)

/-- A decision has been made about the message: its pack was turned down by the checks, or its
tree was tried. -/
def Decided (q : Gating) (message : ResultMessage) : Prop :=
  ∃ pack found, message.pack = .ok pack ∧ (pack, found) ∈ q.seen ∧
    ((∃ reason, policy.judge pack found = .ok (some reason)) ∨
      policy.judge pack found = .ok none ∧
        ∃ node treeId, found = some node ∧ node.treeId = some treeId ∧ treeId ∈ q.tried)

/-- An operation the gate queues: the payload of a pack that met the checks, or an
acknowledgement of one of the messages. -/
def Queues (q : Gating) (messages : List ResultMessage) : RedisOp → Prop
  | .xaddAccepted payload => ∃ pack node, (pack, some node) ∈ q.seen ∧
      policy.judge pack (some node) = .ok none ∧ acceptedPayload pack node = .ok payload
  | .xack group id => group = "policy_group" ∧ ∃ message ∈ messages, message.id = id
  | _ => False

/-- What the queue owes to the messages that are done. -/
structure Owes (q : Gating) (messages : List ResultMessage) (ops : List RedisOp) : Prop where
  decided : ∀ message ∈ messages, policy.Decided q message
  claims : ∀ claim ∈ q.claims, ∃ payload, .xaddAccepted payload ∈ ops ∧
    payload.treeId = claim.1 ∧ payload.capsuleId = claim.2
  queued : ∀ op ∈ ops, policy.Queues q messages op
  acks : acksOf "policy_group" ops = messages.map (·.id)

/-- The commands of a gate. -/
def Allows (q : Gating) : Cmd → Prop
  | .redis (.xreadgroupResults group _) => group = "policy_group" ∧ q = {}
  | .redis (.hgetall key) => ∃ message rest pack,
      q.left = message :: rest ∧ message.pack = .ok pack ∧ key = pack.capsuleId
  | .redis (.set key value nx ex) => nx = true ∧ ex = none ∧ ∃ pack node earlier treeId,
      q.seen = (pack, some node) :: earlier ∧ node.treeId = some treeId ∧
        policy.judge pack (some node) = .ok none ∧ key = treeAcceptedKey treeId ∧
        value = pack.capsuleId
  | .redis (.get _) => True
  | .redis (.pipeline ops) => q.left = [] ∧ policy.Owes q q.batch ops
  | .pg (.fetchCandidateStatus _) => True
  | .pg (.setCandidateStatus _ _) => True
  | .pg (.mergeCandidateMetadata _) => True
  | .pg (.recordPolicyDecision _ _) => True
  | _ => False

/-- A gate's way with its batch, command by command. -/
def protocol : Typestate Cmd Cmd.Reply PyError Gating where
  next := Gating.next
  allows := policy.Allows

end PolicyGate

/-! ## The code follows it -/

namespace PolicyGate

variable {policy : PolicyGate}

/-- A message that was decided stays so. -/
theorem Decided.mono {q q' : Gating} {message : ResultMessage} (decided : policy.Decided q message)
    (seen : ∀ e ∈ q.seen, e ∈ q'.seen) (tried : ∀ t ∈ q.tried, t ∈ q'.tried) :
    policy.Decided q' message := by
  obtain ⟨pack, found, read, mem, verdict⟩ := decided
  refine ⟨pack, found, read, seen _ mem, verdict.imp_right ?_⟩
  rintro ⟨judged, node, treeId, rfl, tree, attempted⟩
  exact ⟨judged, node, treeId, rfl, tree, tried _ attempted⟩

/-- What a gate has queued stays justified by what it has seen. -/
theorem Queues.mono {q q' : Gating} {messages messages' : List ResultMessage} {op : RedisOp}
    (queued : policy.Queues q messages op) (seen : ∀ e ∈ q.seen, e ∈ q'.seen)
    (more : ∀ message ∈ messages, message ∈ messages') : policy.Queues q' messages' op := by
  cases op with
  | xaddAccepted payload =>
    obtain ⟨pack, node, mem, judged, made⟩ := queued
    exact ⟨pack, node, seen _ mem, judged, made⟩
  | xack group id =>
    obtain ⟨same, message, mem, rfl⟩ := queued
    exact ⟨same, message, more _ mem, rfl⟩
  | _ => exact queued.elim

/-- A command that a gate issues at any point, and that tells it nothing new. -/
def Roams (policy : PolicyGate) (c : Cmd) : Prop := ∀ q, policy.Allows q c ∧ ∀ reply, q.next c reply = q

/-- A roaming program in front of a continuation. -/
theorem roam_bind {α β : Type} {p : Daemon α} {f : α → Daemon β} {post : β → Gating → Prop}
    {q : Gating} (uses : p.Uses policy.Roams)
    (rest : ∀ a, (f a).Keeps policy.protocol post (fun _ _ => True) q) :
    (p >>= f).Keeps policy.protocol post (fun _ _ => True) q := by
  have keeps : p.Keeps policy.protocol (fun _ q' => q' = q) (fun _ q' => q' = q) q := by
    refine Prog.Keeps.of_uses (I := fun q' => q' = q) (fun c roams q' here => ?_) uses rfl
    subst here
    exact roams q'
  refine Prog.Keeps.bind (keeps.mono (fun _ _ same => same) fun _ _ _ => trivial) fun a q' here => ?_
  subst here
  exact rest a

theorem updateCandidateStatus_roams (candidateId status : String) :
    (Daemon.updateCandidateStatus candidateId status).Uses policy.Roams := by
  refine (Prog.uses_call fun _ => ⟨trivial, fun _ => rfl⟩).bind fun current => ?_
  split
  · exact (Prog.uses_call fun _ => ⟨trivial, fun _ => rfl⟩).bind fun _ => trivial
  · trivial

theorem recordDecision_roams (capsuleId : String) (reason : Option String) :
    (recordDecision capsuleId reason).Uses policy.Roams :=
  (Prog.uses_call fun _ => ⟨trivial, fun _ => rfl⟩).bind fun _ =>
    Prog.uses_call fun _ => ⟨trivial, fun _ => rfl⟩

/-- What a message leads to: the operations queued for it, and what the gate then knows. -/
structure Handled (policy : PolicyGate) (q : Gating) (message : ResultMessage)
    (rest : List ResultMessage) (ops : List RedisOp) (q' : Gating) : Prop where
  batch : q'.batch = q.batch
  left : q'.left = rest
  seen : ∀ e ∈ q.seen, e ∈ q'.seen
  tried : ∀ t ∈ q.tried, t ∈ q'.tried
  decided : policy.Decided q' message
  claims : ∀ claim ∈ q'.claims, claim ∈ q.claims ∨ ∃ payload, .xaddAccepted payload ∈ ops ∧
    payload.treeId = claim.1 ∧ payload.capsuleId = claim.2
  queued : ∀ op ∈ ops, ∃ payload, op = .xaddAccepted payload ∧ ∃ pack node,
    (pack, some node) ∈ q'.seen ∧ policy.judge pack (some node) = .ok none ∧
      acceptedPayload pack node = .ok payload

/-- The queue after one more message. -/
theorem Owes.message {q q' : Gating} {messages rest : List ResultMessage} {pipe ops : List RedisOp}
    {message : ResultMessage} (owes : policy.Owes q messages pipe)
    (handled : policy.Handled q message rest ops q') :
    policy.Owes q' (messages ++ [message]) (pipe ++ (ops ++ [.xack "policy_group" message.id])) where
  decided := by
    intro m mem
    rcases List.mem_append.mp mem with before | here
    · exact (owes.decided m before).mono handled.seen handled.tried
    · rw [List.mem_singleton.mp here]
      exact handled.decided
  claims := by
    intro claim mem
    rcases handled.claims claim mem with before | ⟨payload, here, same⟩
    · obtain ⟨payload, queued, same⟩ := owes.claims claim before
      exact ⟨payload, List.mem_append_left _ queued, same⟩
    · exact ⟨payload, List.mem_append_right _ (List.mem_append_left _ here), same⟩
  queued := by
    intro op mem
    rcases List.mem_append.mp mem with before | new
    · exact (owes.queued op before).mono handled.seen fun m here => List.mem_append_left _ here
    · rcases List.mem_append.mp new with here | last
      · obtain ⟨payload, rfl, pack, node, mem, judged, made⟩ := handled.queued op here
        exact ⟨pack, node, mem, judged, made⟩
      · rw [List.mem_singleton.mp last]
        exact ⟨rfl, message, List.mem_append_right _ (List.mem_singleton.mpr rfl), rfl⟩
  acks := by
    have none : acksOf "policy_group" ops = [] := by
      refine List.filterMap_eq_nil_iff.mpr fun op mem => ?_
      obtain ⟨payload, rfl, -⟩ := handled.queued op mem
      rfl
    rw [acksOf_append, acksOf_append, none, owes.acks, List.map_append]
    rfl

/-- A payload is made of its node and its pack. -/
theorem acceptedPayload_eq_ok {pack : VerificationPack} {node : NodeHash} {payload : AcceptedPayload}
    (made : acceptedPayload pack node = .ok payload) :
    node.treeId = some payload.treeId ∧ payload.capsuleId = pack.capsuleId ∧
      payload.code = node.code.getD "" := by
  unfold acceptedPayload at made
  cases sourcePath : node.sourcePath with
  | none =>
    rw [sourcePath] at made
    cases made
  | some path =>
    cases repoPath : node.repoPath with
    | none =>
      rw [sourcePath, repoPath] at made
      cases made
    | some repo =>
      cases treeId : node.treeId with
      | none =>
        rw [sourcePath, repoPath, treeId] at made
        cases made
      | some tree =>
        rw [sourcePath, repoPath, treeId] at made
        obtain rfl := Except.ok.inj made
        exact ⟨rfl, rfl, rfl⟩

theorem accept_keeps {pack : VerificationPack} {node : NodeHash} {q : Gating} :
    (accept pack node).Keeps policy.protocol (fun ops q' => q' = q ∧
      ∃ payload, acceptedPayload pack node = .ok payload ∧ ops = [.xaddAccepted payload])
      (fun _ _ => True) q := by
  refine Prog.Keeps.ofExcept_bind (fun payload made => ?_) fun _ _ => trivial
  exact roam_bind (updateCandidateStatus_roams _ _) fun _ => ⟨rfl, payload, made, rfl⟩

theorem reject_keeps {pack : VerificationPack} {q : Gating} :
    (reject pack).Keeps policy.protocol (fun ops q' => q' = q ∧ ops = []) (fun _ _ => True) q :=
  roam_bind (updateCandidateStatus_roams _ _) fun _ => ⟨rfl, rfl⟩

/-- A pack that has met the checks, from its reservation to its record. -/
theorem contend_keeps {q : Gating} {pack : VerificationPack} {node : NodeHash} {message : ResultMessage}
    {rest : List ResultMessage} (read : message.pack = .ok pack)
    (judged : policy.judge pack (some node) = .ok none) :
    (contend pack node).Keeps policy.protocol (policy.Handled q message rest) (fun _ _ => True)
      { q with left := rest, seen := (pack, some node) :: q.seen } := by
  refine Prog.Keeps.ofExcept_bind (fun treeId found => ?_) fun _ _ => trivial
  have tree : node.treeId = some treeId := subscript_eq_ok found
  let tries (stored : Bool) : Gating :=
    { q with
      left := rest
      seen := (pack, some node) :: q.seen
      tried := treeId :: q.tried
      claims := if stored then (treeId, pack.capsuleId) :: q.claims else q.claims }
  have attempt : ∀ stored, ({ q with left := rest, seen := (pack, some node) :: q.seen } : Gating).try
      pack.capsuleId stored = tries stored := by
    intro stored
    simp only [Gating.try, Gating.tree, tree, tries]
  -- A reservation that was stored owes an entry; an attempt that failed owes nothing.
  have handled : ∀ stored ops, (stored = true → ∃ payload, .xaddAccepted payload ∈ ops ∧
        payload.treeId = treeId ∧ payload.capsuleId = pack.capsuleId) →
      (∀ op ∈ ops, ∃ payload, op = .xaddAccepted payload ∧ acceptedPayload pack node = .ok payload) →
      policy.Handled q message rest ops (tries stored) := by
    intro stored ops owed queued
    refine ⟨rfl, rfl, fun _ mem => List.mem_cons_of_mem _ mem, fun _ mem => List.mem_cons_of_mem _ mem,
      ?_, ?_, ?_⟩
    · exact ⟨pack, some node, read, List.mem_cons_self,
        .inr ⟨judged, node, treeId, rfl, tree, List.mem_cons_self⟩⟩
    · intro claim mem
      cases stored with
      | false => exact .inl mem
      | true =>
        rcases List.mem_cons.mp mem with rfl | before
        · exact .inr (owed rfl)
        · exact .inl before
    · intro op mem
      obtain ⟨payload, same, made⟩ := queued op mem
      exact ⟨payload, same, pack, node, List.mem_cons_self, judged, made⟩
  have reserves : (reserve treeId pack.capsuleId).Keeps policy.protocol
      (fun won q' => ∃ stored, (stored = true → won = true) ∧ q' = tries stored) (fun _ _ => True)
      { q with left := rest, seen := (pack, some node) :: q.seen } := by
    refine Prog.Keeps.call_bind ⟨rfl, rfl, pack, node, q.seen, treeId, rfl, tree, judged, rfl, rfl⟩
      (fun stored => ?_) fun _ => trivial
    refine Prog.Keeps.call_bind trivial (fun winner => ⟨stored, ?_, attempt stored⟩) fun _ => trivial
    rintro rfl
    exact Bool.true_or _
  refine reserves.bind fun won q' ⟨stored, wins, here⟩ => ?_
  subst here
  split
  · refine accept_keeps.bind fun ops q' ⟨here, payload, made, queued⟩ => ?_
    subst here queued
    refine roam_bind (recordDecision_roams _ _) fun _ => handled stored _ ?_ ?_
    · obtain ⟨tree', capsule, -⟩ := acceptedPayload_eq_ok made
      rw [tree, Option.some.injEq] at tree'
      exact fun _ => ⟨payload, List.mem_singleton.mpr rfl, tree'.symm, capsule⟩
    · exact fun op mem => ⟨payload, List.mem_singleton.mp mem, made⟩
  · next lost =>
    refine reject_keeps.bind fun ops q' ⟨here, queued⟩ => ?_
    subst here queued
    refine roam_bind (recordDecision_roams _ _) fun _ => handled stored [] ?_ ?_
    · exact fun stored => absurd (wins stored) lost
    · exact fun _ mem => by cases mem

/-- One message. -/
theorem gateResult_keeps {q : Gating} {pack : VerificationPack} {message : ResultMessage}
    {rest : List ResultMessage} (here : q.left = message :: rest) (read : message.pack = .ok pack) :
    (policy.gateResult pack).Keeps policy.protocol (policy.Handled q message rest) (fun _ _ => True)
      q := by
  refine Prog.Keeps.call_bind ⟨message, rest, pack, here, read, rfl⟩ (fun found => ?_) fun _ => trivial
  have look : q.look found = { q with left := rest, seen := (pack, found) :: q.seen } := by
    simp only [Gating.look, here, read]
  show Prog.Keeps _ _ _ _ (q.look found)
  rw [look]
  refine Prog.Keeps.ofExcept_bind (fun reason judged => ?_) fun _ _ => trivial
  have rejected : ∀ word, reason = some word →
      policy.Handled q message rest [] { q with left := rest, seen := (pack, found) :: q.seen } := by
    rintro word rfl
    exact ⟨rfl, rfl, fun _ mem => List.mem_cons_of_mem _ mem, fun _ mem => mem,
      ⟨pack, found, read, List.mem_cons_self, .inl ⟨word, judged⟩⟩, fun _ mem => .inl mem,
      fun _ mem => by cases mem⟩
  match reason, found with
  | none, some node => exact contend_keeps read judged
  | none, none => cases judged
  | some word, none =>
    exact roam_bind (updateCandidateStatus_roams _ _) fun _ => rejected word rfl
  | some word, some node =>
    refine reject_keeps.bind fun ops q' ⟨here, queued⟩ => ?_
    subst here queued
    exact roam_bind (recordDecision_roams _ _) fun _ => rejected word rfl

/-- The batch, of which the queue already owes what is done. -/
theorem gateBatch_keeps (messages : List ResultMessage) {rest : List ResultMessage}
    {pipe : List RedisOp} {q : Gating} (batch : q.batch = messages ++ rest)
    (left : q.left = rest) (owes : policy.Owes q messages pipe) :
    (policy.gateBatch rest pipe).Keeps policy.protocol (fun _ q' => q' = {}) (fun _ _ => True) q := by
  induction rest generalizing messages pipe q with
  | nil =>
    rw [List.append_nil] at batch
    exact Prog.Keeps.call ⟨left, batch ▸ owes⟩ (fun _ => rfl) fun _ => trivial
  | cons message rest ih =>
    refine Prog.Keeps.ofExcept_bind (fun pack read => ?_) fun _ _ => trivial
    refine (gateResult_keeps left read).bind fun ops q' handled => ?_
    refine ih (messages ++ [message]) ?_ handled.left (owes.message handled)
    rw [handled.batch, batch, List.append_assoc, List.singleton_append]

/-- A turn of the gate. -/
theorem gate_keeps : policy.gate.Keeps policy.protocol (fun _ q => q = {}) (fun _ _ => True) {} := by
  refine Prog.Keeps.call_bind ⟨rfl, rfl⟩ (fun messages => ?_) fun _ => trivial
  split
  · next none =>
    rw [List.isEmpty_iff] at none
    subst none
    exact rfl
  · refine gateBatch_keeps [] rfl rfl ⟨?_, ?_, ?_, rfl⟩
    · exact fun _ mem => by cases mem
    · exact fun _ mem => by cases mem
    · exact fun _ mem => by cases mem

end PolicyGate

end KernelOmega
