import KernelOmega.Plant.Guards
import KernelOmega.Plant.Small
import KernelOmega.Store.Effects

/-!
# The ledger and git

After `apply_patch` has returned, the merger sets the candidate and the task to `merged`, each
through the guard, and does not look at whether the guard let it. `Merging` is how far it is
with that, and `Merging.Agrees` what the ledger says meanwhile. The records agree with git
when the candidate is `accepted` (or merged already) at the moment the patch is applied:
nobody but the merger takes an accepted candidate elsewhere.
-/

namespace KernelOmega

open Concurrent

/-- How far the merger is with recording a patch. -/
inductive Merging where
  | idle
  | applied (payload : AcceptedPayload)
  | read (payload : AcceptedPayload) (current : Option String)
  /-- The guard has refused the candidate's status. -/
  | refused (payload : AcceptedPayload)
  | candidateSet (payload : AcceptedPayload)
  | taskRead (payload : AcceptedPayload) (current : Option String)
  | recorded (payload : AcceptedPayload)
  /-- A command has failed; the failure is recorded, or the turn is over. -/
  | aborted
  deriving DecidableEq

namespace Merging

/-- The payload whose patch is applied and whose message is not finished. -/
def holding : Merging → Option AcceptedPayload
  | .applied payload => some payload
  | .read payload _ => some payload
  | .refused payload => some payload
  | .candidateSet payload => some payload
  | .taskRead payload _ => some payload
  | .recorded payload => some payload
  | _ => none

/-- Where a command that has succeeded leads. -/
def advance (q : Merging) : (c : Cmd) → c.Reply → Merging
  | .applyPatch payload => fun _ => .applied payload
  | .pg (.fetchCandidateStatus _) => fun current =>
    match q with
    | .applied payload => .read payload current
    | _ => q
  | .pg (.setCandidateStatus _ _) => fun _ =>
    match q with
    | .read payload _ => .candidateSet payload
    | _ => q
  | .pg (.fetchTaskStatus _) => fun current =>
    match q with
    | .candidateSet payload => .taskRead payload current
    | .read payload _ => .refused payload
    | _ => q
  | .pg (.setTaskStatus _ _) => fun _ =>
    match q with
    | .taskRead payload _ => .recorded payload
    | _ => q
  | .pg (.mergeCandidateMetadata _) => fun _ => .idle
  | .redis (.xreadgroupAccepted _ _) => fun _ => .idle
  | _ => fun _ => q

def next (q : Merging) (c : Cmd) : Except PyError c.Reply → Merging
  | .ok v => q.advance c v
  | .error _ => .aborted

/-- The ledger statements of the merger. -/
def AllowsPg (q : Merging) : PgCmd → Prop
  | .fetchCandidateStatus id =>
    (∃ payload, q = .applied payload ∧ id = payload.capsuleId) ∨ q = .aborted
  | .setCandidateStatus id status =>
    (∃ payload current, q = .read payload current ∧ id = payload.capsuleId ∧ status = "merged") ∨
      q = .aborted
  | .fetchTaskStatus id =>
    (∃ payload, q = .candidateSet payload ∧ id = payload.treeId) ∨
      ∃ payload current, q = .read payload current ∧
        canTransitionCandidateStatus current "merged" = false
  | .setTaskStatus id status =>
    (∃ payload current, q = .taskRead payload current ∧ id = payload.treeId ∧ status = "merged") ∨
      ∃ payload, q = .refused payload
  | .mergeCandidateMetadata _ =>
    (∃ payload, q = .recorded payload) ∨ (∃ payload, q = .refused payload) ∨ q = .aborted
  | _ => False

/-- What a merger does to the ledger and to its keys, at each stage of a merge. -/
def Allows (q : Merging) : Cmd → Prop
  | .applyPatch _ => q = .idle
  | .pg c => q.AllowsPg c
  | .redis (.get _) => q = .idle
  | .redis (.set _ _ _ _) => q = .idle
  | .redis (.pipeline _) => q = .idle
  | .redis (.xreadgroupAccepted _ _) => q = .idle ∨ q = .aborted
  | .redis (.delete _) => q = .aborted
  | _ => False

end Merging

/-- The merge of a capsule, command by command. -/
def mergeProtocol : Typestate Cmd Cmd.Reply PyError Merging where
  next := Merging.next
  allows := Merging.Allows

/-- Where thread `i` is with recording a patch. -/
def mergingOf {ι : Type} [DecidableEq ι] (i : ι) (history : List (Event ι Cmd Cmd.Reply PyError)) :
    Merging :=
  mergeProtocol.current .idle i history

/-! ## The code follows it -/

namespace Merger

theorem canTransitionTaskStatus_merged (current : Option String) :
    canTransitionTaskStatus current "merged" = true := by
  cases current with
  | none => rfl
  | some current =>
    simp only [canTransitionTaskStatus]
    split
    · rfl
    · split <;> simp only [decide_true]

/-- The merge of a capsule follows the protocol: after an exception the merger starts anew. -/
theorem mergeCapsule_keeps (payload : AcceptedPayload) :
    (mergeCapsule payload).Keeps mergeProtocol (fun _ q => q = .idle) (fun _ q => q = .aborted)
      .idle := by
  have candidate : (Daemon.updateCandidateStatus payload.capsuleId "merged").Keeps mergeProtocol
      (fun _ q => q = .candidateSet payload ∨ ∃ current, q = .read payload current ∧
        canTransitionCandidateStatus current "merged" = false)
      (fun _ q => q = .aborted) (.applied payload) := by
    refine Prog.Keeps.call_bind (.inl ⟨payload, rfl, rfl⟩) (fun current => ?_) fun _ => rfl
    split
    · refine Prog.Keeps.call_bind (.inl ⟨payload, current, rfl, rfl, rfl⟩) (fun _ => ?_) fun _ => rfl
      exact .inl rfl
    · next refused => exact .inr ⟨current, rfl, Bool.eq_false_of_not_eq_true refused⟩
  have task : ∀ q, (q = .candidateSet payload ∨ ∃ current, q = .read payload current ∧
        canTransitionCandidateStatus current "merged" = false) →
      (Daemon.updateTaskStatus payload.treeId "merged").Keeps mergeProtocol
        (fun _ q => q = .recorded payload ∨ q = .refused payload) (fun _ q => q = .aborted) q := by
    rintro q (rfl | ⟨current, rfl, refused⟩)
    · refine Prog.Keeps.call_bind (.inl ⟨payload, rfl, rfl⟩) (fun current => ?_) fun _ => rfl
      rw [canTransitionTaskStatus_merged, if_pos rfl]
      refine Prog.Keeps.call_bind (.inl ⟨payload, current, rfl, rfl, rfl⟩) (fun _ => ?_) fun _ => rfl
      exact .inl rfl
    · refine Prog.Keeps.call_bind (.inr ⟨payload, current, rfl, refused⟩) (fun _ => ?_) fun _ => rfl
      rw [canTransitionTaskStatus_merged, if_pos rfl]
      refine Prog.Keeps.call_bind (.inr ⟨payload, rfl⟩) (fun _ => ?_) fun _ => rfl
      exact .inr rfl
  refine Prog.Keeps.call_bind rfl (fun _ => candidate.bind fun _ q here => ?_) fun _ => rfl
  refine (task q here).bind fun _ q here => ?_
  refine Prog.Keeps.call ?_ (fun _ => rfl) fun _ => rfl
  rcases here with rfl | rfl
  · exact .inl ⟨payload, rfl⟩
  · exact .inr (.inl ⟨payload, rfl⟩)

/-- Giving up a tree ends the merge. -/
theorem releaseTree_keeps (payload : AcceptedPayload) :
    (releaseTree payload).Keeps mergeProtocol (fun _ q => q = .idle) (fun _ q => q = .aborted)
      .aborted := by
  have status : (Daemon.updateCandidateStatus payload.capsuleId "merge_failed").Keeps mergeProtocol
      (fun _ q => q = .aborted) (fun _ q => q = .aborted) .aborted := by
    refine Prog.Keeps.call_bind (.inr rfl) (fun current => ?_) fun _ => rfl
    split
    · exact Prog.Keeps.call_bind (.inr rfl) (fun _ => rfl) fun _ => rfl
    · exact rfl
  refine Prog.Keeps.call_bind rfl (fun _ => status.bind fun _ q here => ?_) fun _ => rfl
  subst here
  exact Prog.Keeps.call (.inr (.inr rfl)) (fun _ => rfl) fun _ => rfl

/-- One message, followed to the end of its merge. -/
theorem mergeMessage_keeps (payload : AcceptedPayload) :
    (mergeMessage payload).Keeps mergeProtocol (fun _ q => q = .idle) (fun _ q => q = .aborted)
      .idle := by
  have claim : (claimTree payload.treeId payload.capsuleId).Keeps mergeProtocol
      (fun _ q => q = .idle) (fun _ q => q = .aborted) .idle := by
    refine Prog.Keeps.call_bind rfl (fun winner => ?_) fun _ => rfl
    split
    · exact rfl
    · refine Prog.Keeps.call_bind rfl (fun reserved => ?_) fun _ => rfl
      split
      · exact rfl
      · exact Prog.Keeps.call_bind rfl (fun _ => rfl) fun _ => rfl
  refine claim.bind fun mine q here => ?_
  subst here
  split
  · refine Prog.Keeps.tryCatch (mergeCapsule_keeps payload) fun _ q here => ?_
    subst here
    exact releaseTree_keeps payload
  · exact rfl

/-- A turn starts afresh, whatever the turn before came to. -/
theorem merge_keeps {q : Merging} (rests : q = .idle ∨ q = .aborted) :
    (merge.tryCatch fun _ => return ()).Keeps mergeProtocol (fun _ q => q = .idle ∨ q = .aborted)
      (fun _ _ => True) q := by
  have batch : ∀ messages pipe, (mergeBatch messages pipe).Keeps mergeProtocol
      (fun _ q => q = .idle) (fun _ q => q = .aborted) .idle := by
    intro messages
    induction messages with
    | nil => exact fun pipe => Prog.Keeps.call rfl (fun _ => rfl) fun _ => rfl
    | cons message rest ih =>
      intro pipe
      refine (mergeMessage_keeps message.payload).bind fun _ q here => ?_
      subst here
      exact ih _
  have turn : merge.Keeps mergeProtocol (fun _ q => q = .idle) (fun _ q => q = .aborted) q := by
    refine Prog.Keeps.call_bind rests (fun messages => ?_) fun _ => rfl
    split
    · exact rfl
    · exact batch messages []
  refine Prog.Keeps.tryCatch (turn.mono (fun _ _ => .inl) fun _ _ here => here) fun _ q here => ?_
  exact .inr here

end Merger

/-! ## What the ledger says meanwhile -/

/-- The candidate is accepted or merged, and the task is recorded. -/
def Mergeable (p : Postgres) (payload : AcceptedPayload) : Prop :=
  (p.candidateStatus payload.capsuleId = some "accepted" ∨
    p.candidateStatus payload.capsuleId = some "merged") ∧ (p.taskStatus payload.treeId).isSome

instance (p : Postgres) (payload : AcceptedPayload) : Decidable (Mergeable p payload) :=
  inferInstanceAs (Decidable (_ ∧ _))

/-- The candidate and the task of a payload are recorded as merged. -/
def Merged (p : Postgres) (payload : AcceptedPayload) : Prop :=
  p.candidateStatus payload.capsuleId = some "merged" ∧
    p.taskStatus payload.treeId = some "merged"

/-- What the ledger says while a merge is under way. The candidate is recorded before the task, so
in between the two rows disagree and the stage says how. -/
def Merging.Agrees (p : Postgres) : Merging → Prop
  | .applied payload => Mergeable p payload
  | .read payload current =>
    Mergeable p payload ∧ (current = some "accepted" ∨ current = some "merged")
  | .refused _ => False
  | .candidateSet payload =>
    p.candidateStatus payload.capsuleId = some "merged" ∧ (p.taskStatus payload.treeId).isSome
  | .taskRead payload _ =>
    p.candidateStatus payload.capsuleId = some "merged" ∧ (p.taskStatus payload.treeId).isSome
  | .recorded payload => Merged p payload
  | _ => True

/-- A ledger in which nothing the merger relies on has gone. -/
structure Honours (p p' : Postgres) : Prop where
  order : StatusOrder p p'
  accepted : ∀ id, p.candidateStatus id = some "accepted" →
    p'.candidateStatus id = some "accepted" ∨ p'.candidateStatus id = some "merged"

namespace Honours

variable {p p' : Postgres} (honours : Honours p p')

include honours

theorem candidate {id : String} (merged : p.candidateStatus id = some "merged") :
    p'.candidateStatus id = some "merged" :=
  honours.order.final (by decide) merged

theorem task {id : String} (row : (p.taskStatus id).isSome) : (p'.taskStatus id).isSome := by
  obtain ⟨old, found⟩ := Option.isSome_iff_exists.mp row
  obtain ⟨new, found', -⟩ := honours.order.tasks id old found
  rw [found', Option.isSome_some]

theorem mergeable {payload : AcceptedPayload} (mergeable : Mergeable p payload) :
    Mergeable p' payload := by
  refine ⟨?_, honours.task mergeable.2⟩
  rcases mergeable.1 with accepted | merged
  · exact honours.accepted _ accepted
  · exact .inr (honours.candidate merged)

theorem agrees {q : Merging} (agrees : q.Agrees p) : q.Agrees p' := by
  cases q with
  | applied _ => exact honours.mergeable agrees
  | read _ _ => exact ⟨honours.mergeable agrees.1, agrees.2⟩
  | refused _ => exact agrees
  | candidateSet _ => exact ⟨honours.candidate agrees.1, honours.task agrees.2⟩
  | taskRead _ _ => exact ⟨honours.candidate agrees.1, honours.task agrees.2⟩
  | recorded _ => exact ⟨honours.candidate agrees.1, honours.order.merged agrees.2⟩
  | _ => trivial

end Honours

/-- The order alone keeps what is merged. -/
theorem StatusOrder.keepsMerged {p p' : Postgres} (order : StatusOrder p p') {payload : AcceptedPayload}
    (merged : Merged p payload) : Merged p' payload :=
  ⟨order.final (by decide) merged.1, order.merged merged.2⟩

/-- What a command has to meet for the ledger to agree with git. -/
structure MergeSettled {ι : Type} [DecidableEq ι] (roles : ι → Role)
    (s : Snapshot ι Cmd Cmd.Reply PyError World) (i : ι) (x : Choice) (c : Cmd) : Prop where
  /-- An update is atomic. -/
  unraced : Unraced s i c
  /-- No record statement takes a row back. -/
  records : c.RecordsRespect s.world.pg
  /-- When a patch is applied, its candidate is accepted. -/
  applies : ∀ payload ∈ c.patches (World.exec x c s.world).1, Mergeable s.world.pg payload
  /-- The merger's commands after it succeed. -/
  finishes : (roles i).isMerger = true → (mergingOf i s.history).holding.isSome → x.fail = false

instance {ι : Type} [DecidableEq ι] (roles : ι → Role) (s : Snapshot ι Cmd Cmd.Reply PyError World)
    (i : ι) (x : Choice) (c : Cmd) : Decidable (MergeSettled roles s i x c) :=
  decidable_of_iff
    (Unraced s i c ∧ c.RecordsRespect s.world.pg ∧
      (∀ payload ∈ c.patches (World.exec x c s.world).1, Mergeable s.world.pg payload) ∧
      ((roles i).isMerger = true → (mergingOf i s.history).holding.isSome → x.fail = false))
    ⟨fun ⟨unraced, records, applies, finishes⟩ => ⟨unraced, records, applies, finishes⟩,
      fun ⟨unraced, records, applies, finishes⟩ => ⟨unraced, records, applies, finishes⟩⟩

section MergingOf

variable {ι : Type} [DecidableEq ι]

theorem mergingOf_own (i : ι) (c : Cmd) (reply : Except PyError c.Reply)
    (history : List (Event ι Cmd Cmd.Reply PyError)) :
    mergingOf i (⟨i, c, reply⟩ :: history) = (mergingOf i history).next c reply :=
  mergeProtocol.current_own .idle ⟨i, c, reply⟩ rfl history

theorem mergingOf_other {i j : ι} (other : i ≠ j) (c : Cmd) (reply : Except PyError c.Reply)
    (history : List (Event ι Cmd Cmd.Reply PyError)) :
    mergingOf j (⟨i, c, reply⟩ :: history) = mergingOf j history :=
  mergeProtocol.current_other .idle ⟨i, c, reply⟩ other history

end MergingOf

/-- A merger with no payload in hand has none after a Redis command either. -/
theorem Merging.next_redis {q : Merging} (rests : q = .idle ∨ q = .aborted) (c : RedisCmd)
    (reply : Except PyError c.Reply) :
    q.next (.redis c) reply = .idle ∨ q.next (.redis c) reply = .aborted := by
  cases reply with
  | error e => exact .inr rfl
  | ok v => cases c <;> first | exact rests | exact .inl rfl

theorem Merging.agrees_of_rests {q : Merging} (rests : q = .idle ∨ q = .aborted) (p : Postgres) :
    q.Agrees p := by
  rcases rests with rfl | rfl <;> trivial

theorem Merging.holding_of_rests {q : Merging} (rests : q = .idle ∨ q = .aborted) :
    q.holding = none := by
  rcases rests with rfl | rfl <;> rfl

/-- The merger's own statements, with a payload in hand: the merger stays in agreement, and keeps
the payload until the records are made. -/
theorem Merging.Agrees.record {q : Merging} {c : PgCmd} {w : World} (agrees : q.Agrees w.pg)
    (allowed : q.AllowsPg c) {payload : AcceptedPayload} (holds : q.holding = some payload)
    (order : StatusOrder w.pg (w.pg.exec c).2) {v : c.Reply} (replies : (w.pg.exec c).1 = .ok v) :
    (q.advance (.pg c) v).Agrees (w.pg.exec c).2 ∧
      ((q.advance (.pg c) v).holding = some payload ∨ Merged (w.pg.exec c).2 payload) := by
  cases c with
  | fetchCandidateStatus id =>
    rcases allowed with ⟨p, rfl, rfl⟩ | rfl
    · obtain rfl := Except.ok.inj replies
      exact ⟨⟨agrees, agrees.1⟩, .inl holds⟩
    · cases holds
  | setCandidateStatus id status =>
    rcases allowed with ⟨p, current, rfl, rfl, rfl⟩ | rfl
    · refine ⟨⟨?_, ?_⟩, .inl holds⟩
      · rcases agrees.1.1 with row | row
        · rw [Postgres.exec_candidateStatus row, PgCmd.candidateStatusOver, if_pos rfl]
        · rw [Postgres.exec_candidateStatus row, PgCmd.candidateStatusOver, if_pos rfl]
      · obtain ⟨old, row⟩ := Option.isSome_iff_exists.mp agrees.1.2
        rw [Postgres.exec_taskStatus row, Option.isSome_some]
    · cases holds
  | fetchTaskStatus id =>
    rcases allowed with ⟨p, rfl, rfl⟩ | ⟨p, current, rfl, refused⟩
    · exact ⟨agrees, .inl holds⟩
    · rcases agrees.2 with rfl | rfl
      · exact absurd refused (by decide)
      · exact absurd refused (by decide)
  | setTaskStatus id status =>
    rcases allowed with ⟨p, current, rfl, rfl, rfl⟩ | ⟨p, rfl⟩
    · refine ⟨⟨order.final (by decide) agrees.1, ?_⟩, .inl holds⟩
      obtain ⟨old, row⟩ := Option.isSome_iff_exists.mp agrees.2
      rw [Postgres.exec_taskStatus row, PgCmd.taskStatusOver, if_pos rfl]
    · exact agrees.elim
  | mergeCandidateMetadata id =>
    rcases allowed with ⟨p, rfl⟩ | ⟨p, rfl⟩ | rfl
    · obtain rfl := Option.some.inj holds
      exact ⟨trivial, .inr (order.keepsMerged agrees)⟩
    · exact agrees.elim
    · cases holds
  | _ => exact allowed.elim

/-- Every step of the merger. -/
theorem Merging.Agrees.next {q : Merging} {c : Cmd} {w : World} (agrees : q.Agrees w.pg)
    (allowed : q.Allows c) {x : Choice} (order : StatusOrder w.pg (World.exec x c w).2.pg)
    (applies : ∀ payload ∈ c.patches (World.exec x c w).1, Mergeable w.pg payload)
    (finishes : q.holding.isSome → x.fail = false) :
    (q.next c (World.exec x c w).1).Agrees (World.exec x c w).2.pg ∧
      (∀ payload, q.holding = some payload →
        (q.next c (World.exec x c w).1).holding = some payload ∨
          Merged (World.exec x c w).2.pg payload) ∧
      ∀ payload ∈ c.patches (World.exec x c w).1,
        (q.next c (World.exec x c w).1).holding = some payload := by
  have idle : ∀ {r : Merging}, (q = .idle ∨ q = .aborted) → (r = .idle ∨ r = .aborted) →
      r.Agrees (World.exec x c w).2.pg ∧ ∀ payload, q.holding = some payload →
        r.holding = some payload ∨ Merged (World.exec x c w).2.pg payload := by
    intro r rests rests'
    refine ⟨agrees_of_rests rests' _, fun payload holds => ?_⟩
    rw [holding_of_rests rests] at holds
    cases holds
  cases c with
  | redis c =>
    have rests : q = .idle ∨ q = .aborted := by
      cases c with
      | get _ | set _ _ _ _ | pipeline _ => exact .inl allowed
      | xreadgroupAccepted _ _ => exact allowed
      | delete _ => exact .inr allowed
      | _ => exact allowed.elim
    obtain ⟨agrees', keeps⟩ := idle rests (next_redis rests c (World.exec x (.redis c) w).1)
    exact ⟨agrees', keeps, fun _ mem => by cases mem⟩
  | applyPatch payload =>
    obtain rfl : q = .idle := allowed
    cases reply : (World.exec x (.applyPatch payload) w).1 with
    | error e =>
      obtain ⟨agrees', keeps⟩ := idle (r := .aborted) (.inl rfl) (.inr rfl)
      exact ⟨agrees', keeps, fun _ mem => by cases mem⟩
    | ok v =>
      rw [reply] at applies
      have mergeable := applies payload (List.mem_singleton.mpr rfl)
      have same : (World.exec x (.applyPatch payload) w).2.pg = w.pg := by
        simp only [World.exec]
        split <;> rfl
      rw [same]
      refine ⟨mergeable, ?_, ?_⟩
      · exact fun _ holds => by cases holds
      · intro p mem
        obtain rfl := List.mem_singleton.mp mem
        rfl
  | pg c =>
    have nothing : ∀ payload ∈ (Cmd.pg c).patches (World.exec x (.pg c) w).1,
        (q.next (.pg c) (World.exec x (.pg c) w).1).holding = some payload :=
      fun _ mem => by cases mem
    cases holds : q.holding with
    | some payload =>
      have works := World.exec_pg_ok (finishes (by rw [holds, Option.isSome_some])) c w
      rw [works] at order nothing ⊢
      obtain ⟨v, replies⟩ : ∃ v, (w.pg.exec c).1 = .ok v := by
        cases c with
        | setTaskStatus id status => exact ⟨(), Postgres.exec_setTaskStatus_reply w.pg id status⟩
        | setCandidateStatus id status =>
          exact ⟨(), Postgres.exec_setCandidateStatus_reply w.pg id status⟩
        | fetchTaskStatus _ | fetchCandidateStatus _ | mergeCandidateMetadata _ => exact ⟨_, rfl⟩
        | _ => exact allowed.elim
      obtain ⟨agrees', kept⟩ := agrees.record allowed holds order replies
      dsimp only at nothing ⊢
      rw [replies] at nothing ⊢
      refine ⟨agrees', fun p same => ?_, nothing⟩
      obtain rfl := Option.some.inj same
      exact kept
    | none =>
      have rests : q = .idle ∨ q = .aborted := by
        cases q with
        | idle => exact .inl rfl
        | aborted => exact .inr rfl
        | _ => cases holds
      have rests' : q.next (.pg c) (World.exec x (.pg c) w).1 = .idle ∨
          q.next (.pg c) (World.exec x (.pg c) w).1 = .aborted := by
        cases (World.exec x (.pg c) w).1 with
        | error e => exact .inr rfl
        | ok v =>
          rcases rests with rfl | rfl
          · cases c <;> exact .inl rfl
          · cases c <;> first | exact .inr rfl | exact .inl rfl
      obtain ⟨agrees', keeps⟩ := idle rests rests'
      rw [holds] at keeps
      exact ⟨agrees', keeps, nothing⟩
  | _ => exact allowed.elim

/-- Nobody but the merger takes an accepted candidate anywhere else than to a merge. -/
theorem Vocabulary.honours {words : Vocabulary} (plain : "merge_failed" ∉ words.candidates)
    {c : Cmd} (covered : words.Covers c) {w : World} {x : Choice}
    (order : StatusOrder w.pg (World.exec x c w).2.pg)
    (records : c.RecordsRespect w.pg) : Honours w.pg (World.exec x c w).2.pg := by
  refine ⟨order, fun id accepted => ?_⟩
  obtain ⟨new, row, allowed⟩ := order.candidates id _ accepted
  rcases World.exec_pg x c w with same | ⟨statement, rfl, after⟩
  · rw [same]
    exact .inl accepted
  · rw [after] at row ⊢
    rcases Postgres.exec_candidateStatus_cases w.pg statement id with
      same | ⟨status, rfl, written⟩ | ⟨recorded, rfl, -⟩
    · rw [same]
      exact .inl accepted
    · obtain rfl : new = status := Option.some.inj (row.symm.trans written)
      have word : new ≠ "merge_failed" := fun same => plain (same ▸ covered)
      have goal : new = "accepted" ∨ new = "merged" := by
        by_contra neither
        simp only [not_or] at neither
        simp [canTransitionCandidateStatus, neither.1, neither.2, Ne.symm neither.1, word] at allowed
      rw [written]
      exact goal.imp (congrArg some) (congrArg some)
    · have back := records _ accepted
      rw [covered.2] at back
      exact absurd back (by decide)

/-- What holds of the mergers, the ledger and the applied patches at every moment. -/
structure Agreement {ι : Type} [DecidableEq ι] (roles : ι → Role)
    (s : Snapshot ι Cmd Cmd.Reply PyError World) : Prop where
  merging : ∀ i, (roles i).isMerger = true → (mergingOf i s.history).Agrees s.world.pg
  patched : ∀ payload ∈ s.world.patched,
    (∃ i, (roles i).isMerger = true ∧ (mergingOf i s.history).holding = some payload) ∨
      Merged s.world.pg payload

/-- Only a merger reports a failed merge and applies patches. -/
theorem Role.plain_of_not_merger {role : Role} (other : role.isMerger = false) :
    "merge_failed" ∉ role.vocabulary.candidates ∧ role.vocabulary.merges = false := by
  cases role with
  | worker _ _ => exact ⟨show "merge_failed" ∉ Vocabulary.worker.candidates by decide, rfl⟩
  | dispatcher _ => exact ⟨show "merge_failed" ∉ Vocabulary.dispatcher.candidates by decide, rfl⟩
  | memory => exact ⟨by decide, rfl⟩
  | gate _ => exact ⟨show "merge_failed" ∉ Vocabulary.gate.candidates by decide, rfl⟩
  | executor _ _ | hypervisor _ _ _ => exact ⟨List.not_mem_nil, rfl⟩
  | merger => cases other

section Steps

variable {ι : Type} [DecidableEq ι] {roles : ι → Role} {s : Snapshot ι Cmd Cmd.Reply PyError World}
  {i : ι} {c : Cmd} {x : Choice}

/-- A step of a daemon that is not the merger. -/
theorem Agreement.other (agreement : Agreement roles s) (other : (roles i).isMerger = false)
    (covered : (roles i).vocabulary.Covers c)
    (order : StatusOrder s.world.pg (World.exec x c s.world).2.pg)
    (records : c.RecordsRespect s.world.pg) :
    Agreement roles (s.after World.exec i x c) := by
  obtain ⟨plain, quiet⟩ := Role.plain_of_not_merger other
  have honours := Vocabulary.honours plain covered order records
  have apart : ∀ j, (roles j).isMerger = true → i ≠ j := by
    rintro j merges rfl
    rw [other] at merges
    cases merges
  refine ⟨fun j merges => ?_, fun payload mem => ?_⟩
  · rw [Snapshot.after_history, mergingOf_other (apart j merges)]
    exact honours.agrees (agreement.merging j merges)
  · have none : c.patches (World.exec x c s.world).1 = [] := by
      cases c with
      | applyPatch _ =>
        have merges : (roles i).vocabulary.merges = true := covered
        rw [quiet] at merges
        cases merges
      | _ => rfl
    rw [Snapshot.after_world, World.exec_patched, none, List.append_nil] at mem
    refine (agreement.patched payload mem).imp ?_ order.keepsMerged
    rintro ⟨j, merges, holds⟩
    exact ⟨j, merges, by rw [Snapshot.after_history, mergingOf_other (apart j merges), holds]⟩

/-- A step of the one merger. -/
theorem Agreement.own (agreement : Agreement roles s) (merges : (roles i).isMerger = true)
    (one : ∀ j, (roles j).isMerger = true → j = i)
    (allowed : (mergingOf i s.history).Allows c)
    (order : StatusOrder s.world.pg (World.exec x c s.world).2.pg)
    (may : MergeSettled roles s i x c) :
    Agreement roles (s.after World.exec i x c) := by
  obtain ⟨agrees, keeps, takes⟩ := (agreement.merging i merges).next allowed order may.applies
    (may.finishes merges)
  refine ⟨fun j merges' => ?_, fun payload mem => ?_⟩
  · obtain rfl := one j merges'
    rw [Snapshot.after_history, mergingOf_own]
    exact agrees
  · rw [Snapshot.after_world, World.exec_patched, List.mem_append] at mem
    rcases mem with old | new
    · rcases agreement.patched payload old with ⟨j, merges', holds⟩ | merged
      · obtain rfl := one j merges'
        refine (keeps payload holds).imp_left fun still => ⟨j, merges, ?_⟩
        rw [Snapshot.after_history, mergingOf_own, still]
      · exact .inr (order.keepsMerged merged)
    · refine .inl ⟨i, merges, ?_⟩
      rw [Snapshot.after_history, mergingOf_own, takes payload new]

end Steps

section Runs

variable {ι S : Type} [LinearOrder S] (plant : Plant ι S)

/-- Every merger follows the protocol of a merge. -/
theorem Plant.merger_follows [DecidableEq ι]
    {may : Snapshot ι Cmd Cmd.Reply PyError World → ι → Choice → Cmd → Prop} {i : ι}
    (merges : (plant.roles i).isMerger = true) :
    (plant.systemOf may).FollowsAt i mergeProtocol .idle fun q => q = .idle ∨ q = .aborted where
  start := .inl rfl
  calls := by
    intro p q called rests
    have called : plant.Call (plant.roles i) p := called
    generalize plant.roles i = role at merges called
    cases called with
    | merge => exact Merger.merge_keeps rests
    | _ => cases merges

/-- The runs in which the merges are settled. -/
abbrev Plant.settled [DecidableEq ι] : System ι Cmd Cmd.Reply PyError Choice World :=
  plant.systemOf fun s i x c => MergeSettled plant.roles s i x c

variable {plant} [DecidableEq ι] {s : State ι Cmd Cmd.Reply PyError World}

/-- In every reachable state, the ledger and the accepted keys agree with what has been merged. -/
theorem Plant.agreement (one : ∀ i j, (plant.roles i).isMerger = true →
      (plant.roles j).isMerger = true → i = j) (reached : plant.settled.Reachable s) :
    Agreement plant.roles s.toSnapshot := by
  refine System.Reachable.invariant (I := Agreement plant.roles) ?_ ?_ ?_ reached
  · rintro w rfl
    refine ⟨fun _ _ => trivial, fun payload mem => ?_⟩
    rw [(pristine_seedAll plant.tasks).patched] at mem
    cases mem
  · intro s i x c k reached agreement issues may
    obtain ⟨allowed, covered⟩ := Plant.guarded_thread reached issues
    have order := order_of_unraced allowed may.unraced may.records x
    cases merges : (plant.roles i).isMerger with
    | true =>
      exact agreement.own merges (fun j merges' => one j i merges' merges)
        (reached.allowsAt (plant.merger_follows merges) issues) order may
    | false => exact agreement.other merges covered order may.records
  · intro s w _ agreement around
    have same : w.pg = s.world.pg ∧ w.patched = s.world.patched := by
      cases around <;> exact ⟨rfl, rfl⟩
    refine ⟨fun i merges => ?_, fun payload mem => ?_⟩
    · rw [same.1]
      exact agreement.merging i merges
    · rw [same.2] at mem
      rw [same.1]
      exact agreement.patched payload mem

/-- Whenever a patch is applied and the merger is done with its message, the candidate and the
task are recorded as merged. -/
theorem ledger_agrees (one : ∀ i j, (plant.roles i).isMerger = true →
      (plant.roles j).isMerger = true → i = j) (reached : plant.settled.Reachable s)
    {payload : AcceptedPayload} (applied : payload ∈ s.world.patched)
    (finished : ∀ i, (plant.roles i).isMerger = true →
      (mergingOf i s.history).holding ≠ some payload) :
    s.world.pg.candidateStatus payload.capsuleId = some "merged" ∧
      s.world.pg.taskStatus payload.treeId = some "merged" := by
  rcases (Plant.agreement one reached).patched payload applied with ⟨i, merges, holds⟩ | merged
  · exact absurd holds (finished i merges)
  · exact merged

end Runs

/-! ## A merged candidate, and one that was taken for lost -/

namespace SmallPlant

/-- The first candidate goes all the way to the merger. -/
def merged : List Beat :=
  starts 0 38 { fresh := "0" } ++ starts 2 18 ++ starts 3 5 passing ++ starts 4 14 ++ starts 5 9 ++
    starts 6 9

/-- The socket fails after the candidate's capsule was delivered: the dispatcher reports a failed
dispatch, and the executor runs the capsule all the same. -/
def mergedUnheard : List Beat :=
  starts 0 22 { fresh := "0" } ++ starts 2 4 ++ goesOn 2 1 { fail := true, delivered := true } ++
    goesOn 2 6 ++ starts 3 5 passing ++ starts 5 12 ++ starts 6 8

/-- What the gate passes on to the merger. -/
def payloadA : AcceptedPayload where
  capsuleId := SmallSearch.idA
  code := SmallSearch.codeA
  sourceRelpath := "app.py"
  repoPath := "/repo"
  treeId := "task_00000001"
  artifactUri := some ""

theorem one_merger : ∀ i j, (plant.roles i).isMerger = true → (plant.roles j).isMerger = true →
    i = j := by
  decide

end SmallPlant

open SmallPlant in
/-- The first candidate is merged, and both rows say so. -/
theorem ledger_agrees_merged :
    payloadA ∈ (after merged).world.patched ∧
      (after merged).world.pg.candidateStatus payloadA.capsuleId = some "merged" ∧
      (after merged).world.pg.taskStatus payloadA.treeId = some "merged" := by
  have run : plant.settled.PermitsAll still (merged.map Beat.move) ∧
      payloadA ∈ (after merged).world.patched ∧ ∀ i, (plant.roles i).isMerger = true →
        (mergingOf i (after merged).history).holding ≠ some payloadA := by
    decide +kernel
  obtain ⟨permitted, applied, finished⟩ := run
  exact ⟨applied, ledger_agrees one_merger (reachable_after permitted) applied finished⟩

open SmallPlant in
/-- The candidate's row says `dispatch_failed` when its merge is to be recorded: the guarded update
is refused, and the merger goes on without asking. -/
theorem not_ledger_agrees :
    ¬ ∀ s : State (Fin 7) Cmd Cmd.Reply PyError World, atomic.Reachable s →
      ∀ payload ∈ s.world.patched,
        (∀ i, (plant.roles i).isMerger = true → (mergingOf i s.history).holding ≠ some payload) →
          s.world.pg.candidateStatus payload.capsuleId = some "merged" ∧
            s.world.pg.taskStatus payload.treeId = some "merged" := by
  intro agrees
  have run : atomic.PermitsAll still (mergedUnheard.map Beat.move) ∧
      payloadA ∈ (after mergedUnheard).world.patched ∧
      (∀ i, (plant.roles i).isMerger = true →
        (mergingOf i (after mergedUnheard).history).holding ≠ some payloadA) ∧
      (after mergedUnheard).world.pg.candidateStatus payloadA.capsuleId ≠ some "merged" := by
    decide +kernel
  obtain ⟨permitted, applied, finished, lost⟩ := run
  exact lost (agrees _ (reachable_after permitted) payloadA applied finished).1

end KernelOmega
