import KernelOmega.Concurrent.Typestate
import KernelOmega.Merger

/-!
# A merger's batch

`Claiming` is how far a merger is with the message at hand: whether the tree's key was free,
contested or the capsule's, and whether the patch was applied. A message is done when it was
skipped, merged or given up, and only the messages that are done are acknowledged.
-/

namespace KernelOmega

open Concurrent

/-- How far a merger is; `left` are the messages after the one at hand, `done` those before. -/
inductive Claiming where
  | idle (left done : List AcceptedMessage)
  /-- No capsule had the tree. -/
  | trying (message : AcceptedMessage) (left done : List AcceptedMessage)
  /-- Another one was quicker to take it. -/
  | contested (message : AcceptedMessage) (left done : List AcceptedMessage)
  /-- The tree is this capsule's. -/
  | claimed (message : AcceptedMessage) (left done : List AcceptedMessage)
  | applied (message : AcceptedMessage) (left done : List AcceptedMessage)
  /-- The patch or a record of it has failed. -/
  | releasing (message : AcceptedMessage) (left done : List AcceptedMessage)
  /-- The turn has ended in an exception. -/
  | aborted
  deriving DecidableEq

namespace Claiming

/-- The tree is the capsule's when the reply names it. -/
def claim (winner : Option String) (message : AcceptedMessage) (left done : List AcceptedMessage) :
    Claiming :=
  if winner = some message.payload.capsuleId then .claimed message left done
  else .idle left (message :: done)

/-- Where a command that has succeeded leads. -/
def advance (q : Claiming) : (c : Cmd) → c.Reply → Claiming
  | .redis (.xreadgroupAccepted _ _) => fun messages => .idle messages []
  | .redis (.get _) => fun winner =>
    match q with
    | .idle (message :: left) done =>
      if Merger.truthy winner then claim winner message left done else .trying message left done
    | .contested message left done => claim winner message left done
    | _ => q
  | .redis (.set _ _ _ _) => fun stored =>
    match q with
    | .trying message left done =>
      if stored then .claimed message left done else .contested message left done
    | _ => q
  | .applyPatch _ => fun _ =>
    match q with
    | .claimed message left done => .applied message left done
    | _ => q
  | .pg (.mergeCandidateMetadata _) => fun _ =>
    match q with
    | .applied message left done => .idle left (message :: done)
    | .releasing message left done => .idle left (message :: done)
    | _ => q
  | .redis (.pipeline _) => fun _ => .idle [] []
  | _ => fun _ => q

/-- Where a command that has failed leads. -/
def fail : Claiming → Claiming
  | .claimed message left done => .releasing message left done
  | .applied message left done => .releasing message left done
  | _ => .aborted

def next (q : Claiming) (c : Cmd) : Except PyError c.Reply → Claiming
  | .ok v => q.advance c v
  | .error _ => q.fail

/-- The merger is between the patch and the end of the message, one way or the other. -/
def Records : Claiming → Prop
  | .applied _ _ _ => True
  | .releasing _ _ _ => True
  | _ => False

/-- The commands of a merger. -/
def Allows (q : Claiming) : Cmd → Prop
  | .redis (.xreadgroupAccepted group _) => group = "merger_group" ∧ (q = .idle [] [] ∨ q = .aborted)
  | .redis (.get key) =>
    (∃ message left done, q = .idle (message :: left) done ∧
      key = treeAcceptedKey message.payload.treeId) ∨
    ∃ message left done, q = .contested message left done ∧
      key = treeAcceptedKey message.payload.treeId
  | .redis (.set key value nx ex) => nx = true ∧ ex = none ∧ ∃ message left done,
      q = .trying message left done ∧ key = treeAcceptedKey message.payload.treeId ∧
        value = message.payload.capsuleId
  | .redis (.delete key) => ∃ message left done,
      q = .releasing message left done ∧ key = treeAcceptedKey message.payload.treeId
  | .redis (.pipeline ops) => ∃ done, q = .idle [] done ∧
      ∀ op ∈ ops, ∃ message ∈ done, op = .xack "merger_group" message.id
  | .applyPatch payload => ∃ message left done,
      q = .claimed message left done ∧ payload = message.payload
  | .pg (.fetchCandidateStatus _) => q.Records
  | .pg (.setCandidateStatus _ _) => q.Records
  | .pg (.fetchTaskStatus _) => q.Records
  | .pg (.setTaskStatus _ _) => q.Records
  | .pg (.mergeCandidateMetadata _) => q.Records
  | _ => False

end Claiming

/-- A merger's way with a tree, command by command. -/
def claimProtocol : Typestate Cmd Cmd.Reply PyError Claiming where
  next := Claiming.next
  allows := Claiming.Allows

/-! ## The code follows it -/

namespace Merger

variable {message : AcceptedMessage} {left done : List AcceptedMessage}

/-- Recording a status leaves the merger with its message, or fails with it, -/
theorem updateCandidateStatus_claims {q : Claiming} (records : q.Records) (candidateId status : String) :
    (Daemon.updateCandidateStatus candidateId status).Keeps claimProtocol (fun _ q' => q' = q)
      (fun _ q' => q' = q.fail) q := by
  refine Prog.Keeps.call_bind records (fun current => ?_) fun _ => rfl
  split
  · exact Prog.Keeps.call_bind records (fun _ => rfl) fun _ => rfl
  · exact rfl

/-- for tasks as for candidates. -/
theorem updateTaskStatus_claims {q : Claiming} (records : q.Records) (taskId status : String) :
    (Daemon.updateTaskStatus taskId status).Keeps claimProtocol (fun _ q' => q' = q)
      (fun _ q' => q' = q.fail) q := by
  refine Prog.Keeps.call_bind records (fun current => ?_) fun _ => rfl
  split
  · exact Prog.Keeps.call_bind records (fun _ => rfl) fun _ => rfl
  · exact rfl

/-- A merge ends with its message done, or with the tree to be given up. -/
theorem mergeCapsule_claims :
    (mergeCapsule message.payload).Keeps claimProtocol
      (fun _ q => q = .idle left (message :: done)) (fun _ q => q = .releasing message left done)
      (.claimed message left done) := by
  have records : (Claiming.applied message left done).Records := trivial
  refine Prog.Keeps.call_bind ⟨message, left, done, rfl, rfl⟩ (fun _ => ?_) fun _ => rfl
  refine Prog.Keeps.bind (updateCandidateStatus_claims records _ _) fun _ q here => ?_
  subst here
  refine Prog.Keeps.bind (updateTaskStatus_claims records _ _) fun _ q here => ?_
  subst here
  exact Prog.Keeps.call records (fun _ => rfl) fun _ => rfl

/-- Giving up ends with the message done as well. -/
theorem releaseTree_claims :
    (releaseTree message.payload).Keeps claimProtocol
      (fun _ q => q = .idle left (message :: done)) (fun _ q => q = .aborted)
      (.releasing message left done) := by
  have records : (Claiming.releasing message left done).Records := trivial
  refine Prog.Keeps.call_bind ⟨message, left, done, rfl, rfl⟩ (fun _ => ?_) fun _ => rfl
  refine Prog.Keeps.bind (updateCandidateStatus_claims records _ _) fun _ q here => ?_
  subst here
  exact Prog.Keeps.call records (fun _ => rfl) fun _ => rfl

/-- The claim of a tree: either it is the capsule's, or the message is done. -/
theorem claimTree_claims :
    (claimTree message.payload.treeId message.payload.capsuleId).Keeps claimProtocol
      (fun mine q => q = if mine then .claimed message left done else .idle left (message :: done))
      (fun _ q => q = .aborted) (.idle (message :: left) done) := by
  have decides : ∀ winner, Claiming.claim winner message left done =
      if decide (winner = some message.payload.capsuleId) then .claimed message left done
      else .idle left (message :: done) := by
    intro winner
    simp only [Claiming.claim, decide_eq_true_eq]
  refine Prog.Keeps.call_bind (.inl ⟨message, left, done, rfl, rfl⟩) (fun winner => ?_) fun _ => rfl
  split
  · next taken =>
    refine Eq.trans ?_ (decides winner)
    exact if_pos taken
  · next free =>
    have tries : (Claiming.idle (message :: left) done).advance
        (.redis (.get (treeAcceptedKey message.payload.treeId))) winner =
          .trying message left done := if_neg free
    show Prog.Keeps _ _ _ _ ((Claiming.idle (message :: left) done).advance _ winner)
    rw [tries]
    refine Prog.Keeps.call_bind ⟨rfl, rfl, message, left, done, rfl, rfl, rfl⟩ (fun stored => ?_)
      fun _ => rfl
    cases stored with
    | true => exact rfl
    | false =>
      refine Prog.Keeps.call_bind (.inr ⟨message, left, done, rfl, rfl⟩) (fun winner => ?_)
        fun _ => rfl
      exact decides winner

/-- One message, from its key to its end. -/
theorem mergeMessage_claims :
    (mergeMessage message.payload).Keeps claimProtocol (fun _ q => q = .idle left (message :: done))
      (fun _ q => q = .aborted) (.idle (message :: left) done) := by
  refine claimTree_claims.bind fun mine q here => ?_
  subst here
  cases mine with
  | true =>
    refine Prog.Keeps.tryCatch mergeCapsule_claims fun _ q here => ?_
    subst here
    exact releaseTree_claims
  | false => exact rfl

/-- The batch: the messages that are done are those to be acknowledged. -/
theorem mergeBatch_claims {pipe : List RedisOp}
    (queued : ∀ op ∈ pipe, ∃ message ∈ done, op = .xack "merger_group" message.id) :
    (mergeBatch left pipe).Keeps claimProtocol (fun _ q => q = .idle [] [])
      (fun _ q => q = .aborted) (.idle left done) := by
  induction left generalizing done pipe with
  | nil => exact Prog.Keeps.call ⟨done, rfl, queued⟩ (fun _ => rfl) fun _ => rfl
  | cons message left ih =>
    refine mergeMessage_claims.bind fun _ q here => ?_
    subst here
    refine ih fun op mem => ?_
    rcases List.mem_append.mp mem with before | here
    · obtain ⟨earlier, known, rfl⟩ := queued op before
      exact ⟨earlier, List.mem_cons_of_mem _ known, rfl⟩
    · exact ⟨message, List.mem_cons_self, List.mem_singleton.mp here⟩

/-- A turn of the merger; the next one starts afresh, whatever it came to. -/
theorem merge_claims {q : Claiming} (rests : q = .idle [] [] ∨ q = .aborted) :
    (merge.tryCatch fun _ => return ()).Keeps claimProtocol
      (fun _ q => q = .idle [] [] ∨ q = .aborted) (fun _ _ => True) q := by
  have turn : merge.Keeps claimProtocol (fun _ q => q = .idle [] []) (fun _ q => q = .aborted) q := by
    have failed : q.fail = .aborted := by
      rcases rests with rfl | rfl <;> rfl
    refine Prog.Keeps.call_bind ⟨rfl, rests⟩ (fun messages => ?_) fun _ => failed
    split
    · next none =>
      rw [List.isEmpty_iff] at none
      subst none
      exact rfl
    · exact mergeBatch_claims fun _ mem => by cases mem
  refine Prog.Keeps.tryCatch (turn.mono (fun _ _ => .inl) fun _ _ here => here) fun _ q here => ?_
  exact .inr here

end Merger

end KernelOmega
