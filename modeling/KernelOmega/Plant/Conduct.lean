import KernelOmega.Plant.Lineage
import KernelOmega.Signing.Binding

/-!
# What the daemons publish and write

Two things that a role settles for each of its commands. The packs on the results stream are an
executor's, which are signed, or a dispatcher's, which have no attestation. And only a worker
writes the fields that place a node in its tree; what it writes is the subject of its lineage.
-/

namespace KernelOmega

open Concurrent

/-- An executor, with the bytes it hashes before it signs. -/
inductive Role.Signs : Role → Executor → (VerificationPack → ByteArray) → Prop
  | simulator (self : Executor) (core : Nat) :
      Signs (.executor self core) self canonicalSignatureBytes
  | hypervisor (self : Executor) (reads : TaskCapsule → Bool) (core : Nat) :
      Signs (.hypervisor self reads core) self Hypervisor.encoded

theorem Role.Signs.signing {role : Role} {self : Executor} {bytes : VerificationPack → ByteArray}
    (signs : role.Signs self bytes) : SigningBytes bytes := by
  cases signs with
  | simulator core => exact .inl rfl
  | hypervisor reads core => exact .inr rfl

/-- The packs a daemon publishes: an executor's are signed, and a dispatcher's have no
attestation. -/
def Role.Publishes (role : Role) (pack : VerificationPack) : Prop :=
  pack.attestation = none ∨ ∃ self bytes capsule outcome artifactUri, role.Signs self bytes ∧
    pack = self.pack capsule outcome artifactUri

/-- How a daemon goes about the results and the trees; only a worker's writes place a node. -/
structure Role.Conducts (sha256 : Sha256) (role : Role) (c : Cmd) : Prop where
  publishes : ∀ pack, c = .redis (.xaddResult pack) → role.Publishes pack
  plants : role.isWorker = false → c.Plants sha256

/-- A command that publishes nothing and writes no node. -/
def Cmd.Plain : Cmd → Prop
  | .redis (.xaddResult _) => False
  | .redis (.hset _ _) => False
  | .redis (.sadd _ _) => False
  | .redis (.pipeline ops) => ∀ op ∈ ops, ∃ group id, op = .xack group id
  | _ => True

section Conduct

variable {sha256 : Sha256} {role : Role} {c : Cmd}

/-- Plain commands are every role's. -/
theorem Cmd.Plain.conducts (plain : c.Plain) : role.Conducts sha256 c := by
  refine ⟨?_, fun _ => ?_⟩
  · rintro pack rfl
    exact plain.elim
  · cases c with
    | redis c =>
      cases c with
      | hset _ _ | sadd _ _ => exact plain.elim
      | pipeline ops =>
        intro op mem
        obtain ⟨group, id, rfl⟩ := plain op mem
        trivial
      | _ => trivial
    | _ => trivial

theorem Role.Publishes.conducts {pack : VerificationPack} (publishes : role.Publishes pack) :
    role.Conducts sha256 (.redis (.xaddResult pack)) := by
  refine ⟨?_, fun _ => trivial⟩
  rintro pack' same
  cases same
  exact publishes

/-- What a worker may do at a stage is what its role does. -/
theorem Stage.Allows.conducts {stage : Stage} (works : role.isWorker = true)
    (allowed : stage.Allows sha256 c) : role.Conducts sha256 c := by
  refine ⟨?_, fun other => ?_⟩
  · rintro pack rfl
    exact allowed.elim
  · rw [works] at other
    cases other

/-- What a memory may do is what its role does. -/
theorem Remembering.Allows.conducts {q : Remembering} (allowed : q.Allows c) :
    role.Conducts sha256 c := by
  refine ⟨?_, fun _ => ?_⟩
  · rintro pack rfl
    exact allowed.elim
  · cases c with
    | redis c =>
      cases c with
      | hset _ _ | sadd _ _ => exact allowed.elim
      | pipeline ops =>
        intro op mem
        have justifies := allowed op mem
        cases op with
        | hset key mapping =>
          obtain ⟨_, _, _, _, _, _, -, rfl⟩ := justifies
          exact .inl ⟨rfl, rfl, rfl, rfl, rfl⟩
        | sadd key member => exact justifies.elim
        | _ => trivial
      | _ => trivial
    | _ => trivial

/-- What a gate may do is what its role does. -/
theorem PolicyGate.Allows.conducts {policy : PolicyGate} {q : Gating} (allowed : policy.Allows q c) :
    role.Conducts sha256 c := by
  refine ⟨?_, fun _ => ?_⟩
  · rintro pack rfl
    exact allowed.elim
  · cases c with
    | redis c =>
      cases c with
      | hset _ _ | sadd _ _ => exact allowed.elim
      | pipeline ops =>
        intro op mem
        have queued := allowed.2.queued op mem
        cases op with
        | hset _ _ | sadd _ _ => exact queued.elim
        | _ => trivial
      | _ => trivial
    | _ => trivial

/-- A merger's commands are plain. -/
theorem Claiming.Allows.plain {q : Claiming} (allowed : q.Allows c) : c.Plain := by
  cases c with
  | redis c =>
    cases c with
    | pipeline ops =>
      intro op mem
      obtain ⟨done, -, acks⟩ := allowed
      obtain ⟨message, -, rfl⟩ := acks op mem
      exact ⟨_, _, rfl⟩
    | xaddResult _ | hset _ _ | sadd _ _ => exact allowed.elim
    | _ => trivial
  | _ => trivial

end Conduct

section Daemons

variable {sha256 : Sha256} {role : Role}

/-- A plain command in front of a continuation. -/
theorem Role.Conducts.plain_bind {c : Cmd} {β : Type} {f : c.Reply → Daemon β} (plain : c.Plain)
    (rest : ∀ v, (f v).Uses (role.Conducts sha256)) :
    (Prog.call c >>= f).Uses (role.Conducts sha256) :=
  (Prog.uses_call plain.conducts).bind rest

theorem updateCandidateStatus_conducts (candidateId status : String) :
    (Daemon.updateCandidateStatus candidateId status).Uses (role.Conducts sha256) := by
  refine Role.Conducts.plain_bind trivial fun current => ?_
  split
  · exact Role.Conducts.plain_bind trivial fun _ => trivial
  · trivial

/-- The commands of a dispatch, -/
theorem Dispatcher.dispatch_conducts (self : Dispatcher) (request : ExecutionRequest) :
    (self.dispatch request).Uses (role.Conducts sha256) := by
  refine Role.Conducts.plain_bind trivial fun _ => ?_
  have sends : (sendCatching request).Uses (role.Conducts sha256) := by
    refine Prog.Uses.tryCatch ?_ fun e => ?_
    · refine Prog.Uses.bind (p := send request) ?_ fun _ => trivial
      refine Role.Conducts.plain_bind trivial fun _ => ?_
      refine Role.Conducts.plain_bind trivial fun _ => ?_
      exact Prog.uses_call (Cmd.Plain.conducts trivial)
    · cases e <;> trivial
  refine sends.bind fun failure => ?_
  cases failure with
  | some message =>
    refine Role.Conducts.plain_bind trivial fun _ => ?_
    refine (updateCandidateStatus_conducts _ _).bind fun _ => ?_
    refine Role.Conducts.plain_bind trivial fun _ => ?_
    have unattested : role.Publishes (self.failedPack request message) := .inl rfl
    exact Prog.uses_call unattested.conducts
  | none =>
    refine Role.Conducts.plain_bind trivial fun _ => ?_
    refine Role.Conducts.plain_bind trivial fun _ => ?_
    exact (updateCandidateStatus_conducts _ _).bind fun _ => trivial

/-- The commands of a turn, -/
theorem Dispatcher.turn_conducts (self : Dispatcher) :
    self.turn.Uses (role.Conducts sha256) := by
  have batch : ∀ messages pipe, (∀ op ∈ pipe, ∃ group id, op = RedisOp.xack group id) →
      (self.dispatchBatch messages pipe).Uses (role.Conducts sha256) := by
    intro messages
    induction messages with
    | nil => exact fun pipe acks => Prog.uses_call (Cmd.Plain.conducts acks)
    | cons message rest ih =>
      intro pipe acks
      refine (self.dispatch_conducts message.request).bind fun _ => ih _ fun op mem => ?_
      rcases List.mem_append.mp mem with mem | mem
      · exact acks op mem
      · exact ⟨_, _, List.mem_singleton.mp mem⟩
  refine Role.Conducts.plain_bind trivial fun messages => ?_
  split
  · trivial
  · exact batch messages [] fun _ mem => by cases mem

/-- and those of the simulator's handler. -/
theorem Executor.handle_conducts (self : Executor) (core : Nat) :
    (self.handle core).Uses (Role.Conducts sha256 (.executor self core)) := by
  refine Role.Conducts.plain_bind trivial fun received => ?_
  cases received with
  | none => trivial
  | some capsule =>
    refine Role.Conducts.plain_bind trivial fun outcome => ?_
    refine Role.Conducts.plain_bind trivial fun artifactUri => ?_
    have signed : Role.Publishes (.executor self core)
        (self.pack capsule outcome (some artifactUri)) :=
      .inr ⟨self, _, capsule, outcome, some artifactUri, .simulator self core, rfl⟩
    refine (Prog.uses_call signed.conducts).bind fun _ => ?_
    exact Role.Conducts.plain_bind trivial fun _ => trivial

/-- and those of a hypervisor's core. -/
theorem Executor.coreTask_conducts (self : Executor) (reads : TaskCapsule → Bool) (core : Nat) :
    (self.coreTask reads core).Uses (Role.Conducts sha256 (.hypervisor self reads core)) := by
  refine Role.Conducts.plain_bind trivial fun received => ?_
  cases received with
  | none => trivial
  | some capsule =>
    dsimp only
    split
    · have runs : (Daemon.host (.runTests capsule)).Uses
          (Role.Conducts sha256 (.hypervisor self reads core)) :=
        Prog.uses_call (Cmd.Plain.conducts trivial)
      refine Prog.Uses.bind (runs.tryCatch ?_) fun outcome => ?_
      · exact fun _ => trivial
      have keeps : (do
          let kept ← Daemon.host (.putArtifact capsule outcome)
          return some kept : Daemon (Option String)).Uses
            (Role.Conducts sha256 (.hypervisor self reads core)) :=
        Role.Conducts.plain_bind trivial fun _ => trivial
      refine Prog.Uses.bind (keeps.tryCatch ?_) fun artifactUri => ?_
      · exact fun _ => trivial
      have signed : Role.Publishes (.hypervisor self reads core)
          (self.pack capsule outcome artifactUri) :=
        .inr ⟨self, _, capsule, outcome, artifactUri, .hypervisor self reads core, rfl⟩
      refine Prog.Uses.tryCatch ?_ fun _ => trivial
      refine (Prog.uses_call signed.conducts).bind fun _ => ?_
      exact Role.Conducts.plain_bind trivial fun _ => trivial
    · trivial

/-- Every daemon conducts itself as its role. -/
theorem Plant.Call.conducts {ι S : Type} [LinearOrder S] {plant : Plant ι S} {p : Daemon Unit}
    (called : plant.Call role p) : p.Uses (role.Conducts plant.sha256) := by
  cases called with
  | work self own fuel =>
    exact (self.turn_keeps plant.ucb own fuel).uses fun _ _ => Stage.Allows.conducts rfl
  | dispatch self => exact self.turn_conducts
  | handle self core => exact self.handle_conducts core
  | coreTask self reads core => exact self.coreTask_conducts reads core
  | remember fuel =>
    exact (GlobalMemory.remember_keeps fuel {}).uses fun _ _ => Remembering.Allows.conducts
  | gate self => exact self.gate_keeps.uses fun _ _ => PolicyGate.Allows.conducts
  | merge =>
    exact (Merger.merge_claims (.inl rfl)).uses fun _ _ allowed =>
      Cmd.Plain.conducts (Claiming.Allows.plain allowed)

end Daemons

end KernelOmega
