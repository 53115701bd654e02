import KernelOmega.Plant.System

/-!
# Every daemon is guarded

The daemons, one after the other: none writes a status column except through the update
methods. The proofs follow the programs; `guarded_thread` puts them together for the
threads of a plant.
-/

namespace KernelOmega

open Concurrent

/-! ## The worker -/

namespace ForestWorker

open Daemon.Guarded

variable (self : ForestWorker) (sha256 : Sha256)

/-- A reservation, -/
theorem reserveCandidateBudget_guarded (taskId : String) (plan : TaskPlan) :
    (reserveCandidateBudget taskId plan).Guarded .worker := by
  refine call_bind trivial fun generated => ?_
  split
  · refine call_bind trivial fun _ => call_bind trivial fun _ => call_bind trivial fun _ => ?_
    exact (updateTaskStatus (by decide) _).bind fun _ => ret _
  · exact call_bind trivial fun _ => ret _

/-- One candidate, -/
theorem dispatchCandidate_guarded (taskId nodeId : String) (node root : NodeHash)
    (targetLines : List Int) (candidate : String) :
    (self.dispatchCandidate sha256 taskId nodeId node root targetLines candidate).Guarded .worker := by
  refine (ofExcept _).bind fun child => ?_
  refine call_bind trivial fun _ => call_bind trivial fun hex => ?_
  refine Daemon.Guarded.bind (call_of fun _ => ⟨trivial, rfl, rfl⟩) fun _ => ?_
  refine (updateTaskStatus (by decide) _).bind fun _ => ?_
  refine Daemon.Guarded.bind (Daemon.Guarded.ofExcept _) fun core => ?_
  refine call_bind trivial fun createdAt => call_bind trivial fun _ => ?_
  exact (updateCandidateStatus (by decide) _).bind fun _ => call trivial

/-- The loop over the candidates, -/
theorem dispatchCandidates_guarded (taskId nodeId code : String) (node root : NodeHash)
    (plan : TaskPlan) (targetLines : List Int) (candidates : List String) (generated : Nat) :
    (self.dispatchCandidates sha256 taskId nodeId code node root plan targetLines candidates
      generated).Guarded .worker := by
  induction candidates generalizing generated with
  | nil => exact ret _
  | cons candidate rest ih =>
    refine (ofExcept _).bind fun equivalent => ?_
    split
    · exact ih generated
    · refine (reserveCandidateBudget_guarded taskId plan).bind fun reserved => ?_
      split
      · refine (self.dispatchCandidate_guarded sha256 taskId nodeId node root targetLines
          candidate).bind fun _ => ?_
        exact ih (generated + 1)
      · exact ret _

/-- What `expand` writes to the ledger is within a worker's words. -/
theorem expand_guarded (taskId nodeId : String) : (self.expand sha256 taskId nodeId).Guarded .worker := by
  refine call_bind trivial fun found => ?_
  cases found with
  | none => exact ret _
  | some node =>
    dsimp only
    split
    · refine call_bind trivial fun rootData => ?_
      dsimp only
      split
      · exact call trivial
      · refine call_bind trivial fun counter => ?_
        split
        · refine call_bind trivial fun _ => call_bind trivial fun _ => ?_
          exact (updateTaskStatus (by decide) _).bind fun _ => call trivial
        · refine call_bind trivial fun _ => (ofExcept _).bind fun code => ?_
          refine (ofExcept _).bind fun candidates => ?_
          refine (self.dispatchCandidates_guarded sha256 taskId nodeId code node _ _ _ candidates
            0).bind fun generated => ?_
          refine call_bind trivial fun _ => ?_
          split
          · exact call trivial
          · exact call trivial
    · exact ret _

/-- a visit to a task, -/
theorem visitTask_guarded {S : Type} [LinearOrder S] (ucb : UcbScore S) (fuel : Nat)
    (taskId : String) : (self.visitTask sha256 ucb fuel taskId).Guarded .worker := by
  refine call_bind trivial fun done => ?_
  split
  · exact ret _
  · refine call_bind trivial fun exhausted => ?_
    split
    · exact ret _
    · refine Daemon.Guarded.bind (p := self.distributedSelect ucb fuel taskId) ?_ fun nodeId => ?_
      · exact .of_uses (self.distributedSelect_uses ucb (fun _ => trivial) (fun _ => trivial) fuel
          taskId)
      · refine call_bind trivial fun locked => ?_
        split
        · refine (self.expand_guarded sha256 taskId nodeId).tryFinally ?_
          refine call_bind trivial fun holder => ?_
          split
          · exact call trivial
          · exact ret _
        · exact ret _

theorem turn_guarded {S : Type} [LinearOrder S] (ucb : UcbScore S) (own : Option String)
    (fuel : Nat) : (self.turn sha256 ucb own fuel).Guarded .worker := by
  have visits : ∀ ids, (self.visitTasks sha256 ucb fuel ids).Guarded .worker := by
    intro ids
    induction ids with
    | nil => exact ret _
    | cons taskId rest ih => exact (self.visitTask_guarded sha256 ucb fuel taskId).bind fun _ => ih
  refine Daemon.Guarded.bind (p := taskIds own) ?_ visits
  cases own with
  | some taskId => exact ret _
  | none => exact call_bind trivial fun _ => ret _

end ForestWorker

/-! ## The dispatcher and the executors -/

namespace Dispatcher

open Daemon.Guarded

variable (self : Dispatcher)

/-- a dispatch, -/
theorem dispatch_guarded (request : ExecutionRequest) : (self.dispatch request).Guarded .dispatcher := by
  refine call_bind trivial fun _ => ?_
  refine Daemon.Guarded.bind (p := sendCatching request) ?_ fun failure => ?_
  · refine tryCatch ?_ fun e => ?_
    · refine Daemon.Guarded.bind (p := send request) ?_ fun _ => ret _
      exact call_bind trivial fun _ => call_bind trivial fun _ => call trivial
    · cases e with
      | osError message => exact ret _
      | _ => exact fun _ => trivial
  · cases failure with
    | some message =>
      refine call_bind trivial fun _ => (updateCandidateStatus (by decide) _).bind fun _ => ?_
      exact call_bind trivial fun _ => call trivial
    | none =>
      refine call_bind trivial fun _ => call_bind trivial fun _ => ?_
      exact (updateCandidateStatus (by decide) _).bind fun _ => ret _

theorem turn_guarded : self.turn.Guarded .dispatcher := by
  have batch : ∀ messages pipe, (self.dispatchBatch messages pipe).Guarded .dispatcher := by
    intro messages
    induction messages with
    | nil => exact fun pipe => call trivial
    | cons message rest ih =>
      exact fun pipe => (self.dispatch_guarded message.request).bind fun _ => ih _
  refine call_bind trivial fun messages => ?_
  split
  · exact ret _
  · exact batch messages []

end Dispatcher

namespace Executor

open Daemon.Guarded

variable (self : Executor)

/-- a handler of the simulator, -/
theorem handle_guarded (core : Nat) : (self.handle core).Guarded {} := by
  refine call_bind trivial fun received => ?_
  cases received with
  | none => exact ret _
  | some capsule =>
    refine call_bind trivial fun outcome => call_bind trivial fun artifactUri => ?_
    exact call_bind trivial fun _ => call_bind trivial fun _ => ret _

/-- the task of a core, which has no words at all, -/
theorem coreTask_guarded (reads : TaskCapsule → Bool) (core : Nat) :
    (self.coreTask reads core).Guarded {} := by
  refine call_bind trivial fun received => ?_
  cases received with
  | none => exact ret _
  | some capsule =>
    dsimp only
    split
    · refine Daemon.Guarded.bind (tryCatch ?_ fun _ => ret _) fun outcome => ?_
      · exact call trivial
      · refine Daemon.Guarded.bind (tryCatch ?_ fun _ => ret _) fun artifactUri => ?_
        · exact call_bind trivial fun _ => ret _
        · refine tryCatch ?_ fun _ => ret _
          exact call_bind trivial fun _ => call_bind trivial fun _ => ret _
    · exact ret _

end Executor

/-! ## The memory, the gate and the merger -/

namespace GlobalMemory

open Daemon.Guarded

/-- the loop up the parents, -/
theorem backpropagate_guarded (pack : VerificationPack) (reward : Rat) (fuel : Nat)
    (current : String) : (backpropagate pack reward fuel current).Guarded .memory := by
  induction fuel generalizing current with
  | zero =>
    unfold backpropagate
    split
    · exact ret _
    · exact fun _ => trivial
  | succ fuel ih =>
    unfold backpropagate
    split
    · exact ret _
    · exact call_bind trivial fun _ => (ih _).bind fun _ => ret _

/-- So is what the memory writes within its own. -/
theorem rememberResult_guarded (fuel now : Nat) (pack : VerificationPack) :
    (rememberResult fuel now pack).Guarded .memory := by
  refine call_bind trivial fun _ => call_bind trivial fun found => ?_
  cases found with
  | none => exact ret _
  | some node =>
    refine Daemon.Guarded.bind (p := parentData node) ?_ fun parent => ?_
    · unfold parentData
      dsimp only
      split
      · exact ret _
      · exact call trivial
    · refine (ofExcept _).bind fun taskId => (backpropagate_guarded _ _ _ _).bind fun path => ?_
      refine Daemon.Guarded.bind (p := summaryOps (rootNodeId taskId) _ _) ?_ fun summary => ?_
      · exact call_bind trivial fun _ => call_bind trivial fun _ => ret _
      · refine Daemon.Guarded.bind (p := settle taskId pack) ?_ fun closing => ret _
        unfold settle
        split
        · exact (updateCandidateStatus (by decide) _).bind fun _ => (updateTaskStatus (by decide) _).bind fun _ => ret _
        · exact (updateCandidateStatus (by decide) _).bind fun _ => ret _

/-- A turn of the memory, -/
theorem remember_guarded (fuel : Nat) : (remember fuel).Guarded .memory := by
  have batch : ∀ now messages pipe, (rememberBatch fuel now messages pipe).Guarded .memory := by
    intro now messages
    induction messages with
    | nil => exact fun pipe => call trivial
    | cons message rest ih =>
      intro pipe
      exact (ofExcept _).bind fun pack => (rememberResult_guarded fuel now pack).bind fun _ => ih _
  refine call_bind trivial fun messages => ?_
  split
  · exact ret _
  · exact call_bind trivial fun now => batch now messages []

end GlobalMemory

namespace PolicyGate

open Daemon.Guarded

variable (self : PolicyGate)

theorem reject_guarded (pack : VerificationPack) : (reject pack).Guarded .gate :=
  (updateCandidateStatus (by decide) _).bind fun _ => ret _

theorem recordDecision_guarded (capsuleId : String) (reason : Option String) :
    (recordDecision capsuleId reason).Guarded .gate :=
  call_bind trivial fun _ => call trivial

/-- a pack that met the checks, -/
theorem contend_guarded (pack : VerificationPack) (node : NodeHash) : (contend pack node).Guarded .gate := by
  refine (ofExcept _).bind fun treeId => Daemon.Guarded.bind (p := reserve treeId _) ?_ fun won => ?_
  · exact call_bind trivial fun _ => call_bind trivial fun _ => ret _
  · split
    · refine Daemon.Guarded.bind (p := accept pack node) ?_ fun _ => ?_
      · exact (ofExcept _).bind fun _ => (updateCandidateStatus (by decide) _).bind fun _ => ret _
      · exact (recordDecision_guarded _ _).bind fun _ => ret _
    · refine (reject_guarded pack).bind fun _ => ?_
      exact (recordDecision_guarded _ _).bind fun _ => ret _

/-- and a result at the gate. -/
theorem gateResult_guarded (pack : VerificationPack) : (self.gateResult pack).Guarded .gate := by
  refine call_bind trivial fun found => (ofExcept _).bind fun reason => ?_
  match reason, found with
  | none, some node => exact contend_guarded pack node
  | none, none => exact ret _
  | some _, none => exact reject_guarded pack
  | some _, some _ =>
    exact (reject_guarded pack).bind fun _ => (recordDecision_guarded _ _).bind fun _ => ret _

/-- a turn of a gate, -/
theorem gate_guarded : self.gate.Guarded .gate := by
  have batch : ∀ messages pipe, (self.gateBatch messages pipe).Guarded .gate := by
    intro messages
    induction messages with
    | nil => exact fun pipe => call trivial
    | cons message rest ih =>
      intro pipe
      exact (ofExcept _).bind fun pack => (self.gateResult_guarded pack).bind fun _ => ih _
  refine call_bind trivial fun messages => ?_
  split
  · exact ret _
  · exact batch messages []

end PolicyGate

namespace Merger

open Daemon.Guarded

/-- and a merge keep to their words. -/
theorem mergeMessage_guarded (payload : AcceptedPayload) : (mergeMessage payload).Guarded .merger := by
  refine Daemon.Guarded.bind (p := claimTree _ _) ?_ fun mine => ?_
  · refine call_bind trivial fun winningCapsule => ?_
    split
    · exact ret _
    · refine call_bind trivial fun reserved => ?_
      split
      · exact ret _
      · exact call_bind trivial fun _ => ret _
  · split
    · refine tryCatch (p := mergeCapsule payload) ?_ fun _ => ?_
      · refine Daemon.Guarded.bind (call_of fun _ => ⟨trivial, rfl⟩) fun _ => ?_
        refine (updateCandidateStatus (by decide) _).bind fun _ => ?_
        exact (updateTaskStatus (by decide) _).bind fun _ => call trivial
      · exact call_bind trivial fun _ => (updateCandidateStatus (by decide) _).bind fun _ => call trivial
    · exact ret _

/-- and a turn of the merger. -/
theorem merge_guarded : merge.Guarded .merger := by
  have batch : ∀ messages pipe, (mergeBatch messages pipe).Guarded .merger := by
    intro messages
    induction messages with
    | nil => exact fun pipe => call trivial
    | cons message rest ih =>
      exact fun pipe => (mergeMessage_guarded message.payload).bind fun _ => ih _
  refine call_bind trivial fun messages => ?_
  split
  · exact ret _
  · exact batch messages []

end Merger

/-! ## The threads of a plant -/

/-- Every call of a role keeps to the role's words. -/
theorem Plant.Call.guarded {ι S : Type} [LinearOrder S] {plant : Plant ι S} {role : Role}
    {p : Daemon Unit} (called : plant.Call role p) : p.Guarded role.vocabulary := by
  cases called with
  | work self own fuel => exact self.turn_guarded plant.sha256 plant.ucb own fuel
  | dispatch self => exact self.turn_guarded
  | handle self core => exact self.handle_guarded core
  | coreTask self reads core => exact self.coreTask_guarded reads core
  | remember fuel => exact GlobalMemory.remember_guarded fuel
  | gate self => exact self.gate_guarded
  | merge => exact Merger.merge_guarded.tryCatch fun _ => .ret _

/-- The guard reads what the history says, whatever the words are. -/
theorem guardedBy_current {ι : Type} [DecidableEq ι] (words : Vocabulary) (i : ι)
    (history : List (Event ι Cmd Cmd.Reply PyError)) :
    (guardedBy words).current .nothing i history = reading i history := by
  induction history with
  | nil => rfl
  | cons e earlier ih =>
    unfold reading at ih ⊢
    by_cases same : e.thread = i
    · rw [Typestate.current_own _ _ e same, Typestate.current_own _ _ e same]
      rfl
    · rw [Typestate.current_other _ _ e same, Typestate.current_other _ _ e same, ih]

/-- A status a thread of the plant writes is one of its vocabulary, written over a status it
has read and the guard has let pass. -/
theorem Plant.guarded_thread {ι S : Type} [DecidableEq ι] [LinearOrder S] {plant : Plant ι S}
    {may : Snapshot ι Cmd Cmd.Reply PyError World → ι → Choice → Cmd → Prop}
    {s : State ι Cmd Cmd.Reply PyError World} (reached : (plant.systemOf may).Reachable s) {i : ι}
    {c : Cmd} {k : Except PyError c.Reply → Daemon Unit} (issues : s.threads i = .cmd c k) :
    guarded.allows (reading i s.history) c ∧ (plant.roles i).vocabulary.Covers c := by
  have follows : (plant.systemOf may).FollowsAt i (guardedBy (plant.roles i).vocabulary) .nothing
      fun _ => True :=
    ⟨trivial, fun p q called _ => Plant.Call.guarded called q⟩
  rw [← guardedBy_current (plant.roles i).vocabulary]
  exact reached.allowsAt follows issues

end KernelOmega
