import KernelOmega.Dispatcher
import KernelOmega.ForestWorker

/-!
# Ports

A worker picks the core of a candidate among the configured ones, records the port of that core,
and the dispatcher connects to it. The hypervisor of `omega_hypervisor/src/main.rs` has a listener
for each of its cores, and these are no more than the processor runs in parallel: a candidate whose
core is beyond them has no listener.
-/

namespace KernelOmega

open Concurrent

namespace Hypervisor

/-- The digits of a number: a plus sign may stand before them. -/
def afterSign : List Char → List Char
  | '+' :: digits => digits
  | digits => digits

/-- `str::parse` for an unsigned type of `limit` values. -/
def parseUnsigned (limit : Nat) (text : String) : Option Nat :=
  let digits := afterSign text.toList
  let value := Nat.ofDigitChars 10 digits 0
  if digits ≠ [] ∧ digits.all Char.isDigit ∧ value < limit then some value else none

/-- What `run` reads of its host. -/
structure Host where
  /-- `OMEGA_EXECUTOR_BASE_PORT` -/
  omegaExecutorBasePort : Option String
  /-- `OMEGA_EXECUTOR_CORES` -/
  omegaExecutorCores : Option String
  /-- `std::thread::available_parallelism()`, which may fail. -/
  availableParallelism : Option Nat

namespace Host

variable (self : Host)

/-- `OMEGA_EXECUTOR_BASE_PORT`, or 18000 where it is missing or no `u16`. -/
def executorBasePort : UInt16 :=
  UInt16.ofNat ((self.omegaExecutorBasePort.bind (parseUnsigned (2 ^ 16))).getD 18000)

/-- `OMEGA_EXECUTOR_CORES`, or four. -/
def requestedCores : Nat := (self.omegaExecutorCores.bind (parseUnsigned (2 ^ 64))).getD 4

/-- `available_parallelism`, or one where it cannot be found out. -/
def parallelism : Nat := self.availableParallelism.getD 1

/-- The listeners that are started. -/
def numCores : Nat := min self.parallelism self.requestedCores

/-- The port of `run_core_event_loop`, a sum of sixteen bits. -/
def bindPort (coreId : Nat) : UInt16 := self.executorBasePort + UInt16.ofNat coreId

/-- The ports that `run` binds. -/
def boundPorts : List UInt16 := (List.range self.numCores).map self.bindPort

end Host

/-! ## The environment -/

/-- A text of digits has no sign. -/
theorem afterSign_of_isDigit {digits : List Char} (all : digits.all Char.isDigit) :
    afterSign digits = digits := by
  cases digits with
  | nil => rfl
  | cons c digits =>
    by_cases plus : c = '+'
    · subst plus
      exact absurd (List.all_eq_true.mp all '+' List.mem_cons_self) (by decide)
    · exact afterSign.eq_2 _ fun rest same => plus (List.cons.inj same).1

/-- A number that was written out is read. -/
theorem parseUnsigned_toString {limit n : Nat} (fits : n < limit) :
    parseUnsigned limit (toString n) = some n := by
  have text : (toString n).toList = Nat.toDigits 10 n := Nat.toList_repr
  have all : (Nat.toDigits 10 n).all Char.isDigit :=
    List.all_eq_true.mpr fun c mem => Nat.isDigit_of_mem_toDigits (by decide) (by decide) mem
  rw [parseUnsigned, text, afterSign_of_isDigit all, Nat.ofDigitChars_ten_toDigits]
  exact if_pos ⟨Nat.toDigits_ne_nil, all, fits⟩

namespace Host

variable {self : Host}

theorem executorBasePort_of_env {n : Nat} (env : self.omegaExecutorBasePort = some (toString n))
    (fits : n < 2 ^ 16) : self.executorBasePort.toNat = n := by
  rw [executorBasePort, env, Option.bind_some, parseUnsigned_toString fits, Option.getD_some]
  exact UInt16.toNat_ofNat_of_lt fits

theorem requestedCores_of_env {n : Nat} (env : self.omegaExecutorCores = some (toString n))
    (fits : n < 2 ^ 64) : self.requestedCores = n := by
  rw [requestedCores, env, Option.bind_some, parseUnsigned_toString fits, Option.getD_some]

/-! ## The listeners -/

/-- Sixteen bits are enough for the port of a core that is below 65536. -/
theorem bindPort_toNat {coreId : Nat} (fits : self.executorBasePort.toNat + coreId < 65536) :
    (self.bindPort coreId).toNat = self.executorBasePort.toNat + coreId := by
  rw [bindPort, UInt16.toNat_add, UInt16.toNat_ofNat']
  omega

/-- The ports from the base port on, one for each core. -/
theorem mem_boundPorts_iff
    (fits : ∀ coreId < self.numCores, self.executorBasePort.toNat + coreId < 65536) (core : Nat) :
    self.executorBasePort.toNat + core ∈ self.boundPorts.map UInt16.toNat ↔
      core < self.numCores := by
  have ports : self.boundPorts.map UInt16.toNat =
      (List.range self.numCores).map (self.executorBasePort.toNat + ·) := by
    rw [boundPorts, List.map_map]
    apply List.map_congr_left
    intro coreId mem
    exact bindPort_toNat (fits coreId (List.mem_range.mp mem))
  rw [ports]
  simp

end Host

end Hypervisor

/-! ## The control plane -/

/-- The port of `_dispatch`. -/
def Dispatcher.port (executorBasePort : Nat) (request : ExecutionRequest) : Nat :=
  executorBasePort + request.executorCore

namespace ForestWorker

variable (self : ForestWorker)

/-- The port of the core a candidate gets. -/
def chosenPort (candidateId : String) : Except PyError Nat := do
  let core ← self.selectExecutorCore candidateId
  return self.executorBasePort + core

/-- The row of an execution records the port, and the dispatcher connects to it. -/
def NamesPort (executorBasePort port : Nat) : Cmd → Prop
  | .pg (.insertExecution _ row) => row.executorPort = port
  | .redis (.xaddDispatch request) => Dispatcher.port executorBasePort request = port
  | _ => True

/-- The report of a status names no port. -/
theorem updateCandidateStatus_namesPort (executorBasePort port : Nat)
    (candidateId status : String) :
    (Daemon.updateCandidateStatus candidateId status).Uses (NamesPort executorBasePort port) := by
  unfold Daemon.updateCandidateStatus
  apply Prog.Uses.bind
  · apply Prog.uses_call
    trivial
  · intro current
    split
    · apply Prog.Uses.bind
      · apply Prog.uses_call
        trivial
      · exact fun _ => trivial
    · trivial

variable {self : ForestWorker}

/-- The row of an execution names the port of the request's core. -/
theorem queueExecution_namesPort (request : ExecutionRequest) :
    (self.queueExecution request).Uses
      (NamesPort self.executorBasePort (self.executorBasePort + request.executorCore)) := by
  unfold queueExecution
  apply Prog.Uses.bind
  · apply Prog.uses_call
    rfl
  · intro _
    apply Prog.Uses.bind (updateCandidateStatus_namesPort _ _ _ _)
    intro _
    apply Prog.uses_call
    rfl

/-- The row of the execution names the port that was chosen for the capsule. -/
theorem dispatchCapsule_namesPort {capsule : TaskCapsule} {port : Nat}
    (chosen : self.chosenPort capsule.id = .ok port) :
    (self.dispatchCapsule capsule).Uses (NamesPort self.executorBasePort port) := by
  unfold chosenPort at chosen
  unfold dispatchCapsule
  cases selected : self.selectExecutorCore capsule.id with
  | error raised =>
    rw [selected] at chosen
    exact nomatch chosen
  | ok core =>
    rw [selected] at chosen
    obtain rfl : self.executorBasePort + core = port := Except.ok.inj chosen
    rw [Prog.ofExcept_ok, Prog.ret_bind]
    apply Prog.Uses.bind
    · apply Prog.uses_call
      trivial
    · intro createdAt
      apply queueExecution_namesPort

theorem chosenPort_eq (cores : 1 ≤ self.executorCores) (candidateId : String) :
    self.chosenPort candidateId =
      .ok (self.executorBasePort + self.md5Head candidateId % self.executorCores) := by
  have some : self.executorCores ≠ 0 := Nat.one_le_iff_ne_zero.mp cores
  rw [chosenPort, selectExecutorCore, if_neg some]
  rfl

end ForestWorker

/-- The control plane and a hypervisor are given the same cores and the same base port, and every
port the hypervisor binds is a port. -/
structure Deployed (worker : ForestWorker) (host : Hypervisor.Host) : Prop where
  cores : 1 ≤ worker.executorCores
  sameCores : host.requestedCores = worker.executorCores
  samePort : host.executorBasePort.toNat = worker.executorBasePort
  parallelism : 1 ≤ host.parallelism
  fits : ∀ coreId < host.numCores, worker.executorBasePort + coreId < 65536

/-- The hypervisor listens on the port of a candidate. -/
def HasListener (worker : ForestWorker) (host : Hypervisor.Host) (candidateId : String) : Prop :=
  ∃ port, worker.chosenPort candidateId = .ok port ∧ port ∈ host.boundPorts.map UInt16.toNat

section Deployed

variable {worker : ForestWorker} {host : Hypervisor.Host}

/-- The port of a candidate has a listener exactly when its core is below the number of processors:
the worker goes by the configured cores, and the hypervisor by the least of both numbers. -/
theorem hasListener_iff (deployed : Deployed worker host) (candidateId : String) :
    HasListener worker host candidateId ↔
      worker.md5Head candidateId % worker.executorCores < host.parallelism := by
  have fits : ∀ coreId < host.numCores, host.executorBasePort.toNat + coreId < 65536 := by
    rw [deployed.samePort]
    exact deployed.fits
  have below : worker.md5Head candidateId % worker.executorCores < worker.executorCores :=
    Nat.mod_lt _ deployed.cores
  simp only [HasListener, worker.chosenPort_eq deployed.cores, Except.ok.injEq, exists_eq_left',
    ← deployed.samePort, Hypervisor.Host.mem_boundPorts_iff fits, Hypervisor.Host.numCores,
    deployed.sameCores, lt_min_iff]
  exact and_iff_left below

/-- The port that is recorded and connected to has a listener exactly when the hash of the id picks
a core that the processor has, so always when the processor has all the configured ones. -/
theorem chosen_port_has_listener_iff (deployed : Deployed worker host) :
    (∀ capsule port, worker.chosenPort capsule.id = .ok port →
      (worker.dispatchCapsule capsule).Uses
        (ForestWorker.NamesPort worker.executorBasePort port)) ∧
    (∀ candidateId, HasListener worker host candidateId ↔
      worker.md5Head candidateId % worker.executorCores < host.parallelism) ∧
    (worker.executorCores ≤ host.parallelism →
      ∀ candidateId, HasListener worker host candidateId) := by
  refine ⟨fun capsule port => ForestWorker.dispatchCapsule_namesPort, hasListener_iff deployed, ?_⟩
  intro enough candidateId
  rw [hasListener_iff deployed]
  exact (Nat.mod_lt _ deployed.cores).trans_le enough

end Deployed

/-! ## Two processors for four cores -/

namespace Ports

def candidateId : String :=
  "omega:tree:task_00000001:844ecc08164e2eab27634a9adee1afa6599e589570e719784e080ce747fc0e45"

def idlePatcher : Patcher where
  generateTargetedPatches _ _ _ := .ok []
  comparisonLines _ := .ok []
  nodup _ _ _ _ made := Except.ok.inj made ▸ List.nodup_nil

/-- The worker of the default configuration. -/
def worker : ForestWorker where
  workerId := "worker_1"
  budgets :=
    { maxCapsules := 3, maxDiffLines := 40, maxTouchedFiles := 1, maxDepth := 2,
      maxChildren := 2, suspiciousLineCount := 3 }
  executorHost := "127.0.0.1"
  executorBasePort := 18000
  executorCores := 4
  md5Head := fun id => if id = candidateId then 437091387 else 0
  patcher := idlePatcher
  isSemanticallyEquivalent _ _ := .ok false

/-- A machine with so many processors and the environment of the default configuration. -/
def host (processors : Nat) : Hypervisor.Host where
  omegaExecutorBasePort := some (toString 18000)
  omegaExecutorCores := some (toString 4)
  availableParallelism := some processors

/-- The worker and the host are configured with the same cores and the same base port. -/
theorem deployed {processors : Nat} (some : 1 ≤ processors) : Deployed worker (host processors) where
  cores := by decide
  sameCores := Hypervisor.Host.requestedCores_of_env rfl (by decide)
  samePort := Hypervisor.Host.executorBasePort_of_env rfl (by decide)
  parallelism := some
  fits coreId below := by
    have cores : (host processors).requestedCores = 4 :=
      Hypervisor.Host.requestedCores_of_env rfl (by decide)
    rw [Hypervisor.Host.numCores, cores] at below
    show 18000 + coreId < 65536
    omega

/-- A host with four processors listens on the port of every core. -/
theorem chosen_port_has_listener_four : HasListener worker (host 4) candidateId :=
  (chosen_port_has_listener_iff (deployed (by decide))).2.2 (by decide) candidateId

/-- The candidate is for the fourth core, and there are two. -/
theorem not_all_have_listener :
    ¬ ∀ (worker : ForestWorker) (host : Hypervisor.Host), Deployed worker host →
      ∀ candidateId, HasListener worker host candidateId := by
  intro all
  have listens := all worker (host 2) (deployed (by decide)) candidateId
  rw [hasListener_iff (deployed (by decide))] at listens
  exact absurd listens (by decide)

end Ports

end KernelOmega
