import KernelOmega.Sha256
import KernelOmega.Store.World

/-!
# The dispatcher and the executors

`control_plane/dispatcher.py` sends queued requests to the executors, and counts a request
in flight from before it is sent. The executor that runs the capsule counts it out after it
has published the result; a dispatcher whose socket failed counts it out itself and
publishes a failing result in the executor's place.

The executors are `control_plane/simulator_executor.py` and `omega_hypervisor/src/main.rs`.
A connection is handled by a thread or a task of its own, so a call handles one capsule.
What the tests report, and how long they took, comes in with the scheduler's choice.
-/

namespace KernelOmega

open Concurrent

/-- A dispatcher keeps no state between its turns; what it needs is the digest for the capsules it
answers for itself. -/
structure Dispatcher where
  sha256 : Sha256

namespace Dispatcher

open Daemon

variable (self : Dispatcher)

/-- The socket operations of `_dispatch`. The socket is closed when they are over, also by an
exception. -/
def send (request : ExecutionRequest) : Daemon Unit := do
  host (.connect request.executorCore)
  host (.sendall request.executorCore request.capsule)
  host (.shutdown request.executorCore request.capsule)

/-- The pack published for a request that could not be sent. -/
def failedPack (request : ExecutionRequest) (message : String) : VerificationPack where
  capsuleId := request.candidateId
  runId := request.runId
  success := false
  runtime := 0
  nodeId := "dispatcher"
  hardwareIsolated := false
  inputsDigest := self.sha256.text request.capsule.code
  testsPassed := 0
  testsFailed := 999
  errorSignature := some ("DispatchError: " ++ message)

/-- The failure path of `_dispatch`. -/
def dispatchFailed (request : ExecutionRequest) (message : String) : Daemon Unit := do
  let _ ← redis (.decr statsInflight)
  let _ ← updateCandidateStatus request.candidateId "dispatch_failed"
  pg (.completeExecution (self.failedPack request message))
  redis (.xaddResult (self.failedPack request message))

/-- The rest of `_dispatch` after the capsule was sent. -/
def dispatched (request : ExecutionRequest) : Daemon Unit := do
  pg (.markExecutionStarted request.runId)
  pg (.mergeExecutionMeta request.runId)
  let _ ← updateCandidateStatus request.candidateId "running"
  return ()

/-- The message of the `OSError` that ended the sending, if one did. -/
def sendCatching (request : ExecutionRequest) : Daemon (Option String) :=
  (do send request; return none).tryCatch fun
    | .osError message => return some message
    | e => .raise e

/-- `_dispatch` -/
def dispatch (request : ExecutionRequest) : Daemon Unit := do
  let _ ← redis (.incr statsInflight)
  let failure ← sendCatching request
  match failure with
  | some message => self.dispatchFailed request message
  | none => dispatched request

/-- The batch loop; `pipe` is what the messages before have queued. -/
def dispatchBatch : List DispatchMessage → (pipe : List RedisOp) → Daemon Unit
  | [], pipe => redis (.pipeline pipe)
  | message :: rest, pipe => do
    self.dispatch message.request
    dispatchBatch rest (pipe ++ [.xack "dispatch_group" message.id])

/-- One turn of `run`. -/
def turn : Daemon Unit := do
  let messages ← redis (.xreadgroupDispatch "dispatch_group" 50)
  if messages.isEmpty then
    return ()
  else
    self.dispatchBatch messages []

end Dispatcher

/-! ## The executors -/

/-- What one executor process is configured with. Both executors, the simulator and the guest behind
the hypervisor, build their packs from these. -/
structure Executor where
  nodeId : String
  hardwareIsolated : Bool
  sha256 : Sha256
  /-- `sign_pack`: the attestation of a pack that has none. -/
  sign : VerificationPack → String

namespace Executor

open Daemon

variable (self : Executor)

/-- The signed pack of a run. -/
def pack (capsule : TaskCapsule) (outcome : TestOutcome) (artifactUri : Option String) :
    VerificationPack :=
  let unsigned : VerificationPack :=
    { capsuleId := capsule.id
      runId := capsule.runId
      success := outcome.success
      runtime := outcome.runtime
      nodeId := self.nodeId
      hardwareIsolated := self.hardwareIsolated
      inputsDigest := self.sha256.text capsule.code
      testsPassed := outcome.testsPassed
      testsFailed := outcome.testsFailed
      errorSignature := outcome.error
      artifactUri := artifactUri }
  { unsigned with attestation := some (self.sign unsigned) }

/-- `ThreadedExecutorServer.execute_capsule`. What the tests raise is part of their outcome; a
failure to keep the artifact or to publish ends the thread. -/
def executeCapsule (capsule : TaskCapsule) : Daemon Unit := do
  let outcome ← host (.runTests capsule)
  let artifactUri ← host (.putArtifact capsule outcome)
  redis (.xaddResult (self.pack capsule outcome (some artifactUri)))
  let _ ← redis (.decr statsInflight)
  return ()

/-- `ExecutorHandler.handle` for a connection that carried a whole capsule. -/
def handle (core : Nat) : Daemon Unit := do
  let received ← host (.accept core)
  match received with
  | some capsule => self.executeCapsule capsule
  | none => return ()

/-- `publish_result`: an error ends the closure and is dropped. -/
def publishResult (pack : VerificationPack) : Daemon Unit :=
  (do
    redis (.xaddResult pack)
    let _ ← redis (.decr statsInflight)
    return ()).tryCatch fun _ => return ()

/-- The task of `run_core_event_loop` for a connection: a capsule that serde cannot read ends it
early, and a failure to keep the artifact leaves the pack without one. -/
def coreTask (reads : TaskCapsule → Bool) (core : Nat) : Daemon Unit := do
  let received ← host (.accept core)
  match received with
  | none => return ()
  | some capsule =>
    if reads capsule then do
      let outcome ← (host (.runTests capsule)).tryCatch fun _ =>
        return { testsFailed := 1, error := some "VMFailure" }
      let artifactUri ← (do
        let kept ← host (.putArtifact capsule outcome)
        return some kept).tryCatch fun _ => return none
      publishResult (self.pack capsule outcome artifactUri)
    else
      return ()

end Executor

end KernelOmega
