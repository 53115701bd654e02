import KernelOmega.Plant.Siege

/-!
# What a gate owes to the accepted stream

A gate reserves a tree and marks its candidate while it goes through the batch, and the entries
go to the accepted stream with one pipeline at the end. `Promise` is what it owes in between.
Every exception ends the gate with the pipeline unsent, so what it owes then is never paid: no
later turn reads these messages again. An entry that is no pack is such an exception, however far
behind the good ones it stands.
-/

namespace KernelOmega

open Concurrent

/-- What a gate owes of the batch at hand. The world does not show it: a tree is reserved and its
candidate marked while the entry that is to follow is only in the gate's own list, so a run that is
looked at between the two can be judged by the gate's past alone. -/
structure Promise where
  /-- The messages not yet looked at. -/
  left : List ResultMessage := []
  /-- The pack looked at last, with its node. -/
  looked : Option (VerificationPack × NodeHash) := none
  /-- The tree at hand was reserved just now. -/
  stored : Bool := false
  /-- The reservations made: a tree and the capsule. -/
  claims : List (String × String) := []
  /-- The candidates marked `accepted`. -/
  marks : List String := []
  /-- The command issued last leads to an exception. -/
  raised : Bool := false

/-- The checks on a node raise, or the node they permit has no tree. -/
def PolicyGate.judgeRaises (policy : PolicyGate) (pack : VerificationPack)
    (found : Option NodeHash) : Bool :=
  match policy.judge pack found with
  | .error _ => true
  | .ok (some _) => false
  | .ok none => (found.bind (·.treeId)).isNone

namespace Promise

/-- The message looked at next, with its node. -/
def look (policy : PolicyGate) (q : Promise) (found : Option NodeHash) : Promise :=
  match q.left with
  | message :: rest =>
    match message.pack with
    | .ok pack =>
      { q with
        left := rest
        looked := found.map (pack, ·)
        stored := false
        raised := policy.judgeRaises pack found }
    | .error _ => q
  | [] => q

/-- A reservation of the tree at hand was attempted. -/
def attempt (q : Promise) (stored : Bool) : Promise :=
  match q.looked with
  | some (pack, node) =>
    match node.treeId with
    | some treeId =>
      { q with
        stored := stored
        claims := if stored then (treeId, pack.capsuleId) :: q.claims else q.claims }
    | none => q
  | none => q

/-- The winner of the tree at hand is known; the payload of a node without its paths raises. -/
def win (q : Promise) (winner : Option String) : Promise :=
  match q.looked with
  | some (pack, node) =>
    { q with
      raised := (q.stored || decide (winner = some pack.capsuleId)) &&
        !(PolicyGate.acceptedPayload pack node).isOk }
  | none => q

/-- A read looks at the next message, a `SET NX` attempts its tree, and the pipeline clears the
debt. An exception only raises: the gate's locals are lost, and what they owed stays owed. -/
def next (policy : PolicyGate) (q : Promise) : (c : Cmd) → Except PyError c.Reply → Promise
  | .redis (.xreadgroupResults _ _), .ok messages => { left := messages }
  | .redis (.hgetall _), .ok found => q.look policy found
  | .redis (.set _ _ _ _), .ok stored => q.attempt stored
  | .redis (.get _), .ok winner => q.win winner
  | .redis (.pipeline _), .ok _ => {}
  | .pg (.setCandidateStatus capsuleId status), .ok _ =>
    if status = "accepted" then { q with marks := capsuleId :: q.marks } else q
  | _, .ok _ => q
  | _, .error _ => { q with raised := true }

/-- The pass will end in an exception: the last command raised, or what comes next is no pack. -/
def doomed (q : Promise) : Bool := q.raised || q.left.head?.any fun message => !message.pack.isOk

/-- There is a reservation or a mark whose entry has not been sent. -/
def owes (q : Promise) : Bool := !q.claims.isEmpty || !q.marks.isEmpty

/-- An entry for everything owed is among the operations. It is asked of the pipeline as a whole,
since the gate builds one list for the batch and a later message may pay nothing of its own. -/
structure Paid (q : Promise) (ops : List RedisOp) : Prop where
  claims : ∀ claim ∈ q.claims, ∃ payload, .xaddAccepted payload ∈ ops ∧
    payload.treeId = claim.1 ∧ payload.capsuleId = claim.2
  marks : ∀ capsuleId ∈ q.marks, ∃ payload, .xaddAccepted payload ∈ ops ∧
    payload.capsuleId = capsuleId

/-- A gate that owes nothing may send the empty list, as it does for a batch it turned down whole.
-/
theorem Paid.nil : ({} : Promise).Paid [] :=
  ⟨List.forall_mem_nil _, List.forall_mem_nil _⟩

/-- The commands of a gate: it reads with nothing owed, and pays all at the end. -/
def Allows (q : Promise) : Cmd → Prop
  | .redis (.xreadgroupResults _ _) => q.claims = [] ∧ q.marks = []
  | .redis (.set key value _ _) => ∃ pack node treeId, q.looked = some (pack, node) ∧
      node.treeId = some treeId ∧ key = treeAcceptedKey treeId ∧ value = pack.capsuleId
  | .redis (.pipeline ops) => q.Paid ops
  | _ => True

end Promise

/-- What a gate owes, command by command. -/
def PolicyGate.promising (policy : PolicyGate) : Typestate Cmd Cmd.Reply PyError Promise where
  next := Promise.next policy
  allows := Promise.Allows

/-! ## The code follows it -/

namespace Promise

/-- An exception comes when the state says so. -/
def Dooms (_ : PyError) (q : Promise) : Prop := q.doomed = true

theorem Dooms.raised (e : PyError) (q : Promise) : Dooms e { q with raised := true } := rfl

/-- What a message adds is owed, or is among the operations queued for it. The operations of one
message reach the pipeline only after the rest of the batch, so the step from `q` to `q'` cannot
speak of the stream and speaks of the queue. -/
structure Settled (q : Promise) (rest : List ResultMessage) (ops : List RedisOp) (q' : Promise) :
    Prop where
  left : q'.left = rest
  claims : ∀ claim ∈ q'.claims, claim ∈ q.claims ∨ ∃ payload, .xaddAccepted payload ∈ ops ∧
    payload.treeId = claim.1 ∧ payload.capsuleId = claim.2
  marks : ∀ capsuleId ∈ q'.marks, capsuleId ∈ q.marks ∨ ∃ payload, .xaddAccepted payload ∈ ops ∧
    payload.capsuleId = capsuleId

/-- The queue that paid for the messages before pays, with what this message has queued, for this
one too. -/
theorem Settled.paid {q q' : Promise} {rest : List ResultMessage} {pipe ops : List RedisOp}
    (settled : q.Settled rest ops q') (paid : q.Paid pipe) (acks : List RedisOp) :
    q'.Paid (pipe ++ (ops ++ acks)) where
  claims := by
    intro claim mem
    rcases settled.claims claim mem with before | ⟨payload, here, same⟩
    · obtain ⟨payload, queued, same⟩ := paid.claims claim before
      exact ⟨payload, List.mem_append_left _ queued, same⟩
    · exact ⟨payload, List.mem_append_right _ (List.mem_append_left _ here), same⟩
  marks := by
    intro capsuleId mem
    rcases settled.marks capsuleId mem with before | ⟨payload, here, same⟩
    · obtain ⟨payload, queued, same⟩ := paid.marks capsuleId before
      exact ⟨payload, List.mem_append_left _ queued, same⟩
    · exact ⟨payload, List.mem_append_right _ (List.mem_append_left _ here), same⟩

end Promise

namespace PolicyGate

open Promise (Dooms)

variable {policy : PolicyGate} {q : Promise}

/-- The guarded write of a status owes an entry only if it writes `accepted`. -/
theorem updateCandidateStatus_owes (capsuleId status : String) :
    (Daemon.updateCandidateStatus capsuleId status).Keeps policy.promising
      (fun _ q' => q' = q ∨ status = "accepted" ∧ q' = { q with marks := capsuleId :: q.marks })
      Dooms q := by
  refine Prog.Keeps.call_bind trivial (fun current => ?_) fun e => Dooms.raised e q
  split
  · refine Prog.Keeps.call_bind trivial (fun _ => ?_) fun e => Dooms.raised e q
    have marked : policy.promising.next q (.pg (.setCandidateStatus capsuleId status)) (.ok ()) =
        if status = "accepted" then { q with marks := capsuleId :: q.marks } else q := rfl
    by_cases accepted : status = "accepted"
    · exact .inr ⟨accepted, marked.trans (if_pos accepted)⟩
    · exact .inl (marked.trans (if_neg accepted))
  · exact .inl rfl

/-- The decision of a candidate, accepted or not, is a row of its own and owes nothing. -/
theorem recordDecision_owes (capsuleId : String) (reason : Option String) :
    (recordDecision capsuleId reason).Keeps policy.promising (fun _ q' => q' = q) Dooms q := by
  refine Prog.Keeps.call_bind trivial (fun _ => ?_) fun e => Dooms.raised e q
  exact Prog.Keeps.call trivial (fun _ => rfl) fun e => Dooms.raised e q

/-- A pack turned down queues nothing and marks its candidate with another word. -/
theorem reject_owes (pack : VerificationPack) :
    (reject pack).Keeps policy.promising (fun ops q' => q' = q ∧ ops = []) Dooms q := by
  refine (updateCandidateStatus_owes pack.capsuleId "rejected_policy").bind fun _ q' here => ?_
  rcases here with rfl | ⟨accepted, -⟩
  · exact ⟨rfl, rfl⟩
  · exact absurd accepted (by decide)

/-- The attempt on a tree, and who has it. -/
theorem reserve_owes {pack : VerificationPack} {node : NodeHash} {treeId : String}
    (looked : q.looked = some (pack, node)) (tree : node.treeId = some treeId) :
    (reserve treeId pack.capsuleId).Keeps policy.promising
      (fun won q' => q'.left = q.left ∧ q'.marks = q.marks ∧
        (q'.claims = q.claims ∨ won = true ∧ q'.claims = (treeId, pack.capsuleId) :: q.claims) ∧
        q'.raised = (won && !(acceptedPayload pack node).isOk)) Dooms q := by
  refine Prog.Keeps.call_bind ⟨pack, node, treeId, looked, tree, rfl, rfl⟩ (fun stored => ?_)
    fun e => Dooms.raised e q
  have tried : q.attempt stored = { q with
      stored := stored
      claims := if stored then (treeId, pack.capsuleId) :: q.claims else q.claims } := by
    simp only [Promise.attempt, looked, tree]
  show Prog.Keeps _ _ _ _ (q.attempt stored)
  rw [tried]
  refine Prog.Keeps.call_bind trivial (fun winner => ?_) fun e => Dooms.raised e _
  show _ ∧ _ ∧ _ ∧ _
  simp only [looked]
  refine ⟨rfl, rfl, ?_, rfl⟩
  cases stored with
  | false => exact .inl rfl
  | true => exact .inr ⟨rfl, rfl⟩

/-- The payload raises when the state said so. -/
theorem accept_owes {pack : VerificationPack} {node : NodeHash}
    (raises : ∀ e, acceptedPayload pack node = .error e → q.raised = true) :
    (accept pack node).Keeps policy.promising (fun ops q' => ∃ payload,
      acceptedPayload pack node = .ok payload ∧ ops = [.xaddAccepted payload] ∧
        (q' = q ∨ q' = { q with marks := pack.capsuleId :: q.marks })) Dooms q := by
  refine Prog.Keeps.ofExcept_bind (fun payload made => ?_) fun e missing => ?_
  · refine (updateCandidateStatus_owes pack.capsuleId "accepted").bind fun _ q' here => ?_
    exact ⟨payload, made, rfl, here.imp_right And.right⟩
  · show q.doomed = true
    rw [Promise.doomed, raises e missing, Bool.true_or]

/-- A pack that has met the checks: its reservation and its mark are paid for with its entry. -/
theorem contend_owes {pack : VerificationPack} {node : NodeHash}
    (looked : q.looked = some (pack, node)) (treeless : node.treeId = none → q.raised = true) :
    (contend pack node).Keeps policy.promising (fun ops q' => q.Settled q.left ops q') Dooms q := by
  refine Prog.Keeps.ofExcept_bind (fun treeId found => ?_) fun e missing => ?_
  · have tree : node.treeId = some treeId := subscript_eq_ok found
    refine (reserve_owes looked tree).bind fun won q₁ ⟨left, marks, claims, raised⟩ => ?_
    split
    · next wins =>
      refine (accept_owes fun e raises => ?_).bind fun ops q₂ ⟨payload, made, queued, here⟩ => ?_
      · rw [raised, wins, raises]
        rfl
      subst queued
      obtain ⟨tree', capsule, -⟩ := acceptedPayload_eq_ok made
      obtain rfl : treeId = payload.treeId := Option.some.inj (tree.symm.trans tree')
      have entry : RedisOp.xaddAccepted payload ∈ [RedisOp.xaddAccepted payload] :=
        List.mem_singleton_self _
      have same : q₂.claims = q₁.claims ∧ q₂.left = q₁.left := by
        rcases here with rfl | rfl <;> exact ⟨rfl, rfl⟩
      refine (recordDecision_owes _ _).bind fun _ q₃ after => ?_
      subst after
      refine ⟨same.2.trans left, fun claim mem => ?_, fun capsuleId mem => ?_⟩
      · rw [same.1] at mem
        rcases claims with before | ⟨-, more⟩
        · exact .inl (before ▸ mem)
        · rw [more] at mem
          rcases List.mem_cons.mp mem with rfl | before
          · exact .inr ⟨payload, entry, rfl, capsule⟩
          · exact .inl before
      · rcases here with rfl | rfl
        · exact .inl (marks ▸ mem)
        · rcases List.mem_cons.mp mem with rfl | before
          · exact .inr ⟨payload, entry, capsule⟩
          · exact .inl (marks ▸ before)
    · next lost =>
      have same : q₁.claims = q.claims := by
        rcases claims with same | ⟨wins, -⟩
        · exact same
        · exact absurd wins lost
      refine (reject_owes pack).bind fun ops q₂ ⟨here, nothing⟩ => ?_
      subst here nothing
      refine (recordDecision_owes _ _).bind fun _ q₃ here => ?_
      subst here
      exact ⟨left, fun _ mem => .inl (same ▸ mem), fun _ mem => .inl (marks ▸ mem)⟩
  · have none : node.treeId = none := by
      cases tree : node.treeId with
      | none => rfl
      | some treeId =>
        rw [tree] at missing
        cases missing
    show q.doomed = true
    rw [Promise.doomed, treeless none, Bool.true_or]

/-- One message. -/
theorem gateResult_owes {pack : VerificationPack} {message : ResultMessage}
    {rest : List ResultMessage} (left : q.left = message :: rest) (read : message.pack = .ok pack) :
    (policy.gateResult pack).Keeps policy.promising (q.Settled rest) Dooms q := by
  refine Prog.Keeps.call_bind trivial (fun found => ?_) fun e => Dooms.raised e q
  have look : q.look policy found = { q with
      left := rest
      looked := found.map (pack, ·)
      stored := false
      raised := policy.judgeRaises pack found } := by
    simp only [Promise.look, left, read]
  show Prog.Keeps _ _ _ _ (q.look policy found)
  rw [look]
  refine Prog.Keeps.ofExcept_bind (fun reason judged => ?_) fun e raises => ?_
  · have kept : q.Settled rest [] { q with
        left := rest
        looked := found.map (pack, ·)
        stored := false
        raised := policy.judgeRaises pack found } :=
      ⟨rfl, fun _ mem => .inl mem, fun _ mem => .inl mem⟩
    match reason, found with
    | none, some node =>
      refine Prog.Keeps.mono (fun ops q' settled => ?_) (fun _ _ same => same)
        (contend_owes rfl fun none => ?_)
      · exact ⟨settled.left, settled.claims, settled.marks⟩
      · show policy.judgeRaises pack (some node) = true
        rw [judgeRaises, judged]
        simp only [Option.bind_some, none, Option.isNone_none]
    | none, none => cases judged
    | some word, none =>
      refine Prog.Keeps.mono (fun ops q' here => ?_) (fun _ _ same => same) (reject_owes pack)
      rw [here.1, here.2]
      exact kept
    | some word, some node =>
      refine (reject_owes pack).bind fun ops q₂ ⟨here, nothing⟩ => ?_
      subst here nothing
      exact (recordDecision_owes _ _).bind fun _ q₃ here => here ▸ kept
  · show (policy.judgeRaises pack found || _) = true
    rw [judgeRaises, raises, Bool.true_or]

/-- The batch, of which the queue already pays what is done. -/
theorem gateBatch_owes {rest : List ResultMessage} {pipe : List RedisOp} (left : q.left = rest)
    (paid : q.Paid pipe) :
    (policy.gateBatch rest pipe).Keeps policy.promising (fun _ q' => q' = {}) Dooms q := by
  induction rest generalizing pipe q with
  | nil => exact Prog.Keeps.call paid (fun _ => rfl) fun e => Dooms.raised e q
  | cons message rest ih =>
    refine Prog.Keeps.ofExcept_bind (fun pack read => ?_) fun e bad => ?_
    · refine (gateResult_owes left read).bind fun ops q' settled => ?_
      exact ih settled.left (settled.paid paid _)
    · show q.doomed = true
      rw [Promise.doomed, left, List.head?_cons, Option.any_some, bad]
      exact Bool.or_true _

/-- A turn of the gate. -/
theorem gate_owes : policy.gate.Keeps policy.promising (fun _ q => q = {}) Dooms {} := by
  refine Prog.Keeps.call_bind ⟨rfl, rfl⟩ (fun messages => ?_) fun e => Dooms.raised e {}
  split
  · next none =>
    rw [List.isEmpty_iff] at none
    subst none
    exact rfl
  · exact gateBatch_owes rfl ⟨List.forall_mem_nil _, List.forall_mem_nil _⟩

end PolicyGate

/-! ## What a run keeps -/

section Events

variable {ι : Type}

/-- The key a command has set, when it was free, and its value. -/
def reserved (e : Event ι Cmd Cmd.Reply PyError) : Option (String × String) :=
  match e with
  | ⟨_, .redis (.set key value _ _), .ok true⟩ => some (key, value)
  | _ => none

/-- The candidate a command has marked `accepted`. -/
def marked (e : Event ι Cmd Cmd.Reply PyError) : Option String :=
  match e with
  | ⟨_, .pg (.setCandidateStatus capsuleId status), .ok _⟩ =>
    if status = "accepted" then some capsuleId else none
  | _ => none

end Events

/-- The policy of a gate; no other daemon promises anything. -/
def Role.policy : Role → Option PolicyGate
  | .gate policy => some policy
  | _ => none

section Invariant

variable {ι S : Type} [DecidableEq ι] (plant : Plant ι S)

/-- What gate `i` owes. -/
def PolicyGate.promiseOf (policy : PolicyGate) (i : ι)
    (history : List (Event ι Cmd Cmd.Reply PyError)) : Promise :=
  policy.promising.current {} i history

/-- No gate owes anything when its pass is about to end in an exception. -/
def KeepsPromises (s : Snapshot ι Cmd Cmd.Reply PyError World) (i : ι) (x : Choice) (c : Cmd) :
    Prop :=
  ∀ policy ∈ (plant.roles i).policy,
    ¬(((policy.promiseOf i s.history).next policy c (World.exec x c s.world).1).doomed = true ∧
      ((policy.promiseOf i s.history).next policy c (World.exec x c s.world).1).owes = true)

instance (s : Snapshot ι Cmd Cmd.Reply PyError World) (i : ι) (x : Choice) (c : Cmd) :
    Decidable (KeepsPromises plant s i x c) :=
  inferInstanceAs (Decidable (∀ policy ∈ _, _))

/-- The reservation has its entry. -/
def World.Enters (w : World) (treeId capsuleId : String) : Prop :=
  ∃ message ∈ w.redis.accepted,
    message.payload.treeId = treeId ∧ message.payload.capsuleId = capsuleId

/-- The candidate has an entry. -/
def World.EntersCapsule (w : World) (capsuleId : String) : Prop :=
  ∃ message ∈ w.redis.accepted, message.payload.capsuleId = capsuleId

/-- The stream is only appended to, so an entry that was there is there after every command. -/
theorem World.Enters.exec {w : World} {treeId capsuleId : String} (enters : w.Enters treeId capsuleId)
    (x : Choice) (c : Cmd) : (World.exec x c w).2.Enters treeId capsuleId := by
  obtain ⟨message, there, named⟩ := enters
  exact ⟨message, World.exec_accepted_mem x c w there, named⟩

/-- The same of a candidate's entry, whatever its tree. -/
theorem World.EntersCapsule.exec {w : World} {capsuleId : String}
    (enters : w.EntersCapsule capsuleId) (x : Choice) (c : Cmd) :
    (World.exec x c w).2.EntersCapsule capsuleId := by
  obtain ⟨message, there, named⟩ := enters
  exact ⟨message, World.exec_accepted_mem x c w there, named⟩

/-- What gate `i` has reserved or marked is owed or has its entry. `kept` is the condition of the
run read as an invariant: with it a gate that ends in an exception owes nothing, and its debt is not
lost with its locals. -/
structure Promised (policy : PolicyGate) (i : ι) (s : Snapshot ι Cmd Cmd.Reply PyError World) :
    Prop where
  claims : ∀ e ∈ s.history, e.thread = i → ∀ treeId capsuleId,
    reserved e = some (treeAcceptedKey treeId, capsuleId) →
      (treeId, capsuleId) ∈ (policy.promiseOf i s.history).claims ∨ s.world.Enters treeId capsuleId
  marks : ∀ e ∈ s.history, e.thread = i → ∀ capsuleId, marked e = some capsuleId →
    capsuleId ∈ (policy.promiseOf i s.history).marks ∨ s.world.EntersCapsule capsuleId
  kept : ¬((policy.promiseOf i s.history).doomed = true ∧
    (policy.promiseOf i s.history).owes = true)

variable {policy : PolicyGate} {q : Promise} {c : Cmd}

/-- A payload of a pipeline that has run is on the stream. -/
theorem World.mem_accepted_of_pipeline {x : Choice} {w : World} {ops : List RedisOp} {u : Unit}
    (ran : (World.exec x (.redis (.pipeline ops)) w).1 = .ok u) {payload : AcceptedPayload}
    (queued : .xaddAccepted payload ∈ ops) :
    ∃ message ∈ (World.exec x (.redis (.pipeline ops)) w).2.redis.accepted,
      message.payload = payload := by
  have there : payload ∈ (World.exec x (.redis (.pipeline ops)) w).2.redis.payloads := by
    rw [World.exec_payloads, ran]
    exact List.mem_append_right _
      (List.mem_flatMap.mpr ⟨_, queued, List.mem_singleton.mpr rfl⟩)
  exact List.mem_map.mp there

/-- Everything owed is owed still. Between two pipelines a gate only takes on more. -/
structure Promise.Carries (q q' : Promise) : Prop where
  claims : ∀ claim ∈ q.claims, claim ∈ q'.claims
  marks : ∀ capsuleId ∈ q.marks, capsuleId ∈ q'.marks

theorem Promise.Carries.of_eq {q q' : Promise} (claims : q'.claims = q.claims)
    (marks : q'.marks = q.marks) : q.Carries q' :=
  ⟨fun _ mem => claims ▸ mem, fun _ mem => marks ▸ mem⟩

/-- Looking at a message forgets the one before it, and none of what it left owing. -/
theorem Promise.carries_look (found : Option NodeHash) : q.Carries (q.look policy found) := by
  unfold Promise.look
  split
  · split <;> exact .of_eq rfl rfl
  · exact .of_eq rfl rfl

/-- An attempt on a tree adds a claim when the key was free, and drops none. -/
theorem Promise.carries_attempt (stored : Bool) : q.Carries (q.attempt stored) := by
  unfold Promise.attempt
  split
  · split
    · cases stored with
      | false => exact .of_eq rfl rfl
      | true => exact ⟨fun _ mem => List.mem_cons_of_mem _ mem, fun _ mem => mem⟩
    · exact .of_eq rfl rfl
  · exact .of_eq rfl rfl

theorem Promise.carries_win (winner : Option String) : q.Carries (q.win winner) := by
  unfold Promise.win
  split <;> exact .of_eq rfl rfl

/-- Whatever command has failed, the gate's pass is over and its debt as before. -/
theorem Promise.next_error (e : PyError) : q.next policy c (.error e) = { q with raised := true } := by
  cases c with
  | redis c => cases c <;> rfl
  | pg c => cases c <;> rfl
  | _ => rfl

/-- What is owed is owed still, or a pipeline has paid it. -/
theorem Promise.owed_next (allowed : q.Allows c) (x : Choice) (w : World) :
    q.Carries (q.next policy c (World.exec x c w).1) ∨
      (∀ claim ∈ q.claims, (World.exec x c w).2.Enters claim.1 claim.2) ∧
        ∀ capsuleId ∈ q.marks, (World.exec x c w).2.EntersCapsule capsuleId := by
  cases reply : (World.exec x c w).1 with
  | error e =>
    rw [next_error]
    exact .inl (.of_eq rfl rfl)
  | ok v =>
    cases c with
    | redis c =>
      cases c with
      | xreadgroupResults group count =>
        refine .inl ⟨fun claim mem => ?_, fun capsuleId mem => ?_⟩
        · rw [allowed.1] at mem
          cases mem
        · rw [allowed.2] at mem
          cases mem
      | hgetall key => exact .inl (carries_look v)
      | set key value nx ex => exact .inl (carries_attempt v)
      | get key => exact .inl (carries_win v)
      | pipeline ops =>
        refine .inr ⟨fun claim mem => ?_, fun capsuleId mem => ?_⟩
        · obtain ⟨payload, queued, named⟩ := allowed.claims claim mem
          obtain ⟨message, there, rfl⟩ := World.mem_accepted_of_pipeline reply queued
          exact ⟨message, there, named⟩
        · obtain ⟨payload, queued, named⟩ := allowed.marks capsuleId mem
          obtain ⟨message, there, rfl⟩ := World.mem_accepted_of_pipeline reply queued
          exact ⟨message, there, named⟩
      | _ => exact .inl (.of_eq rfl rfl)
    | pg c =>
      cases c with
      | setCandidateStatus capsuleId status =>
        left
        by_cases accepted : status = "accepted"
        · have marks : q.next policy (.pg (.setCandidateStatus capsuleId status)) (.ok v) =
              { q with marks := capsuleId :: q.marks } := if_pos accepted
          rw [marks]
          exact ⟨fun _ mem => mem, fun _ mem => List.mem_cons_of_mem _ mem⟩
        · have same : q.next policy (.pg (.setCandidateStatus capsuleId status)) (.ok v) = q :=
            if_neg accepted
          rw [same]
          exact .of_eq rfl rfl
      | _ => exact .inl (.of_eq rfl rfl)
    | _ => exact .inl (.of_eq rfl rfl)

omit [DecidableEq ι] in
/-- A reservation just made is owed, -/
theorem Promise.mem_claims_next (allowed : q.Allows c) {i : ι} {reply : Except PyError c.Reply}
    {treeId capsuleId : String}
    (reserves : reserved ⟨i, c, reply⟩ = some (treeAcceptedKey treeId, capsuleId)) :
    (treeId, capsuleId) ∈ (q.next policy c reply).claims := by
  cases c with
  | redis c =>
    cases c with
    | set key value nx ex =>
      cases reply with
      | error e => cases reserves
      | ok stored =>
        cases stored with
        | false => cases reserves
        | true =>
          obtain ⟨pack, node, treeId', looked, tree, rfl, rfl⟩ := allowed
          obtain ⟨keys, rfl⟩ := Prod.mk.inj (Option.some.inj reserves)
          obtain rfl := treeAcceptedKey_injective keys
          show _ ∈ (q.attempt true).claims
          simp only [Promise.attempt, looked, tree]
          exact List.mem_cons_self
    | _ => cases reply <;> cases reserves
  | _ => cases reply <;> cases reserves

omit [DecidableEq ι] in
/-- and so is a mark. -/
theorem Promise.mem_marks_next {i : ι} {reply : Except PyError c.Reply} {capsuleId : String}
    (marks : marked ⟨i, c, reply⟩ = some capsuleId) :
    capsuleId ∈ (q.next policy c reply).marks := by
  cases c with
  | pg c =>
    cases c with
    | setCandidateStatus capsuleId' status =>
      cases reply with
      | error e => cases marks
      | ok v =>
        have marks : (if status = "accepted" then some capsuleId' else none) = some capsuleId := marks
        split at marks
        · next accepted =>
          obtain rfl := Option.some.inj marks
          have added : q.next policy (.pg (.setCandidateStatus capsuleId' status)) (.ok v) =
              { q with marks := capsuleId' :: q.marks } := if_pos accepted
          rw [added]
          exact List.mem_cons_self
        · cases marks
    | _ => cases reply <;> cases marks
  | _ => cases reply <;> cases marks

variable {plant} {i j : ι} {x : Choice} {s : Snapshot ι Cmd Cmd.Reply PyError World}

/-- A command of the gate itself. -/
theorem Promised.own (promised : Promised policy i s)
    (allowed : (policy.promiseOf i s.history).Allows c)
    (keeps : ¬(((policy.promiseOf i s.history).next policy c (World.exec x c s.world).1).doomed =
        true ∧
      ((policy.promiseOf i s.history).next policy c (World.exec x c s.world).1).owes = true)) :
    Promised policy i (s.after World.exec i x c) := by
  have next : policy.promiseOf i (s.after World.exec i x c).history =
      (policy.promiseOf i s.history).next policy c (World.exec x c s.world).1 :=
    policy.promising.current_own {} ⟨i, c, (World.exec x c s.world).1⟩ rfl s.history
  constructor
  case claims =>
    intro e mem own treeId capsuleId reserves
    rw [next]
    rcases List.mem_cons.mp mem with rfl | before
    · exact .inl (Promise.mem_claims_next allowed reserves)
    · rcases promised.claims e before own treeId capsuleId reserves with owed | entered
      · rcases Promise.owed_next allowed x s.world with carries | ⟨paid, -⟩
        · exact .inl (carries.claims _ owed)
        · exact .inr (paid _ owed)
      · exact .inr (entered.exec x c)
  case marks =>
    intro e mem own capsuleId marks
    rw [next]
    rcases List.mem_cons.mp mem with rfl | before
    · exact .inl (Promise.mem_marks_next marks)
    · rcases promised.marks e before own capsuleId marks with owed | entered
      · rcases Promise.owed_next allowed x s.world with carries | ⟨-, paid⟩
        · exact .inl (carries.marks _ owed)
        · exact .inr (paid _ owed)
      · exact .inr (entered.exec x c)
  case kept =>
    rw [next]
    exact keeps

/-- A command of another thread. -/
theorem Promised.other (promised : Promised policy i s) (other : j ≠ i) :
    Promised policy i (s.after World.exec j x c) := by
  have same : policy.promiseOf i (s.after World.exec j x c).history =
      policy.promiseOf i s.history :=
    policy.promising.current_other {} ⟨j, c, (World.exec x c s.world).1⟩ other s.history
  constructor
  case claims =>
    intro e mem own treeId capsuleId reserves
    rw [same]
    rcases List.mem_cons.mp mem with rfl | before
    · exact absurd own other
    · exact (promised.claims e before own treeId capsuleId reserves).imp_right fun entered =>
        entered.exec x c
  case marks =>
    intro e mem own capsuleId marks
    rw [same]
    rcases List.mem_cons.mp mem with rfl | before
    · exact absurd own other
    · exact (promised.marks e before own capsuleId marks).imp_right fun entered =>
        entered.exec x c
  case kept =>
    rw [same]
    exact promised.kept

theorem Siege.accepted {w w' : World} (around : Siege w w') :
    w'.redis.accepted = w.redis.accepted := by
  cases around with
  | weather around => cases around <;> rfl
  | result pack => rfl

/-- What others write to the results stream pays for nothing and takes no entry away. -/
theorem Promised.siege (promised : Promised policy i s) {w : World} (around : Siege s.world w) :
    Promised policy i ⟨w, s.history⟩ := by
  have accepted := around.accepted
  constructor
  case claims =>
    intro e mem own treeId capsuleId reserves
    rw [World.Enters, accepted]
    exact promised.claims e mem own treeId capsuleId reserves
  case marks =>
    intro e mem own capsuleId marks
    rw [World.EntersCapsule, accepted]
    exact promised.marks e mem own capsuleId marks
  case kept => exact promised.kept

end Invariant

/-! ## The law -/

section Law

variable {ι S : Type} [DecidableEq ι] [LinearOrder S] (plant : Plant ι S)

/-- The runs under siege in which no pass is about to end in an exception while the gate owes
something. -/
abbrev Plant.promising : System ι Cmd Cmd.Reply PyError Choice World :=
  plant.besiegedOf fun s i x c => KeepsPromises plant s i x c

variable {plant} {s : State ι Cmd Cmd.Reply PyError World} {i : ι} {policy : PolicyGate}

/-- A gate is somewhere in its turn. -/
theorem Plant.promises (reached : plant.promising.Reachable s) (gate : plant.roles i = .gate policy) :
    (s.threads i).Keeps policy.promising (fun _ q => q = {}) Promise.Dooms
      (policy.promiseOf i s.history) := by
  have turns : ∀ p q, plant.promising.calls i p → q = {} →
      p.Keeps policy.promising (fun _ q => q = {}) Promise.Dooms q := by
    intro p q called rests
    have called : plant.Call (plant.roles i) p := called
    rw [gate] at called
    cases called
    subst rests
    exact PolicyGate.gate_owes
  exact @System.Reachable.keepsAtOf _ _ _ _ _ _ _ _ plant.promising policy.promising i {}
    (fun q => q = {}) Promise.Dooms rfl turns s reached

/-- Every reachable state, by induction over the run. -/
theorem Plant.promised (reached : plant.promising.Reachable s) (gate : plant.roles i = .gate policy) :
    Promised policy i s.toSnapshot := by
  refine System.Reachable.invariant (I := Promised policy i) ?_ ?_ ?_ reached
  · rintro w -
    refine ⟨List.forall_mem_nil _, List.forall_mem_nil _, ?_⟩
    rintro ⟨doomed, -⟩
    cases doomed
  · intro s j x c k reached promised issues keeps
    by_cases same : j = i
    · subst same
      have allowed := Plant.promises reached gate
      rw [issues] at allowed
      refine promised.own allowed.1 (keeps policy ?_)
      rw [gate]
      rfl
    · exact promised.other same
  · intro s w _ promised around
    exact promised.siege around

/-- When a pass has ended, normally or in an exception, every reservation and every mark of the
gate has its entry. -/
theorem reservations_enter (reached : plant.promising.Reachable s)
    (gate : plant.roles i = .gate policy) (ended : (s.threads i).head = none) :
    (∀ e ∈ s.history, e.thread = i → ∀ treeId capsuleId,
      reserved e = some (treeAcceptedKey treeId, capsuleId) → s.world.Enters treeId capsuleId) ∧
    ∀ e ∈ s.history, e.thread = i → ∀ capsuleId, marked e = some capsuleId →
      s.world.EntersCapsule capsuleId := by
  have promised := Plant.promised reached gate
  have keeps := Plant.promises reached gate
  have nothing : (policy.promiseOf i s.history).claims = [] ∧
      (policy.promiseOf i s.history).marks = [] := by
    cases thread : s.threads i with
    | ret u =>
      rw [thread] at keeps
      have fresh : policy.promiseOf i s.history = {} := keeps
      rw [fresh]
      exact ⟨rfl, rfl⟩
    | cmd c k =>
      rw [thread] at ended
      cases ended
    | raise e =>
      rw [thread] at keeps
      have doomed : (policy.promiseOf i s.history).doomed = true := keeps
      have free : ¬(policy.promiseOf i s.history).owes = true := fun owes =>
        promised.kept ⟨doomed, owes⟩
      simpa [Promise.owes] using free
  constructor
  · intro e mem own treeId capsuleId reserves
    rcases promised.claims e mem own treeId capsuleId reserves with owed | entered
    · rw [nothing.1] at owed
      cases owed
    · exact entered
  · intro e mem own capsuleId marks
    rcases promised.marks e mem own capsuleId marks with owed | entered
    · rw [nothing.2] at owed
      cases owed
    · exact entered

end Law

/-! ## A batch with an entry that is no pack -/

namespace SmallPlant

/-- The first candidate passes its tests. -/
def passes : List Beat :=
  starts 0 22 { fresh := "0" } ++ starts 2 10 ++ starts 3 5 passing

/-- An entry that is no JSON comes after the result. -/
def garbled : State (Fin 7) Cmd Cmd.Reply PyError World :=
  { after passes with world := (after passes).world.addResult (.error (.valueError "JSON")) }

/-- The gate reads its batch. -/
def gates : List Beat := starts 5 10

/-- Where the beats lead from the garbled entry. -/
def afterGarbled (beats : List Beat) : State (Fin 7) Cmd Cmd.Reply PyError World :=
  plant.system.schedule garbled (beats.map Beat.move)

/-- The runs after a garbled entry. -/
theorem reachable_afterGarbled
    {may : Snapshot (Fin 7) Cmd Cmd.Reply PyError World → Fin 7 → Choice → Cmd → Prop}
    (permitted : (plant.systemOf may).PermitsAll still (passes.map Beat.move)) {beats : List Beat}
    (permitted' : (plant.systemOf may).PermitsAll garbled (beats.map Beat.move)) :
    (plant.besiegedOf may).Reachable (afterGarbled beats) := by
  have here : (plant.besiegedOf may).Reachable garbled :=
    (besieged_after permitted).step (.env _ (.result _ _))
  exact reachable_schedule here permitted'

end SmallPlant

set_option maxRecDepth 20000 in
open SmallPlant in
/-- The candidate passes its tests, and the gate's pass ends with its pipeline. -/
theorem reservations_enter_gates :
    (after (passes ++ gates)).world.Enters "task_00000001" SmallSearch.idA ∧
      (after (passes ++ gates)).world.EntersCapsule SmallSearch.idA := by
  have run : (plant.systemOf fun s i x c => KeepsPromises plant s i x c).PermitsAll still
        ((passes ++ gates).map Beat.move) ∧
      ((after (passes ++ gates)).threads 5).head.isNone = true ∧
      (∃ e ∈ (after (passes ++ gates)).history, e.thread = 5 ∧
        reserved e = some (treeAcceptedKey "task_00000001", SmallSearch.idA)) ∧
      ∃ e ∈ (after (passes ++ gates)).history, e.thread = 5 ∧ marked e = some SmallSearch.idA := by
    decide
  obtain ⟨permitted, ended, ⟨e, mem, own, reserves⟩, ⟨e', mem', own', marks⟩⟩ := run
  have gate : plant.roles 5 = .gate SmallPlant.gate := rfl
  have entered := reservations_enter (besieged_after permitted) gate
    (Option.isNone_iff_eq_none.mp ended)
  exact ⟨entered.1 e mem own _ _ reserves, entered.2 e' mem' own' _ marks⟩

set_option maxRecDepth 20000 in
open SmallPlant in
/-- The tree is reserved for good, and no entry was written. -/
theorem not_reservations_enter :
    ¬ ∀ s, plant.besieged.Reachable s → ∀ i policy, plant.roles i = .gate policy →
      (s.threads i).head = none → ∀ e ∈ s.history, e.thread = i → ∀ treeId capsuleId,
        reserved e = some (treeAcceptedKey treeId, capsuleId) → s.world.Enters treeId capsuleId := by
  intro enters
  have run : plant.system.PermitsAll still (passes.map Beat.move) ∧
      plant.system.PermitsAll garbled (gates.map Beat.move) ∧
      ((afterGarbled gates).threads 5).head.isNone = true ∧ (afterGarbled gates).world.redis.accepted = [] ∧
      ∃ e ∈ (afterGarbled gates).history, e.thread = 5 ∧
        reserved e = some (treeAcceptedKey "task_00000001", SmallSearch.idA) := by
    decide
  obtain ⟨permitted, permitted', ended, none, e, mem, own, reserves⟩ := run
  obtain ⟨message, there, -⟩ := enters _ (reachable_afterGarbled permitted permitted') 5
    SmallPlant.gate rfl (Option.isNone_iff_eq_none.mp ended) e mem own _ _ reserves
  rw [none] at there
  cases there

end KernelOmega
