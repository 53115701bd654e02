import KernelOmega.Sha256
import KernelOmega.Store.World

/-!
# The policy gate

`control_plane/policy_gate.py`: the daemon that decides which verified candidates go to
the merger. The decision on a pack and the node it names is a chain of checks; a pack
that passes them still has to win its tree's accepted key. The key and the candidate's
status are written at once, while the accepted entry and the acknowledgement are queued
and sent with one pipeline after the batch. An exception leaves `run` with the queue
unsent.

The signature check and the semantic policy are parameters, since they rest on PyNaCl
and on Python's `ast`; both may raise.
-/

namespace KernelOmega

open Concurrent

/-- `Path(path).name`: the last component, where `.` and empty components do not count. -/
def pathName (path : String) : String :=
  (((path.splitOn "/").filter fun part => part ≠ "" ∧ part ≠ ".").getLast?).getD ""

/-- The gate with its configuration. The signature check and the semantic policy rest on PyNaCl and
on Python's `ast`; both may raise. -/
structure PolicyGate where
  requireHardwareIsolation : Bool
  sha256 : Sha256
  /-- `verify_pack` with the trusted public key. -/
  verifyPack : VerificationPack → Except PyError Bool
  enforceSemanticPolicy : String → Except PyError Bool

namespace PolicyGate

open Daemon

variable (self : PolicyGate)

/-- `inputs_digest_matches`: the digest of the code alone, without the tests. -/
def inputsDigestMatches (pack : VerificationPack) (code : String) : Bool :=
  self.sha256.text code = pack.inputsDigest

/-- The checks on the node's code, made when the pack is attested. -/
def judgeCode (pack : VerificationPack) (code : String) : Except PyError (Option String) :=
  if self.inputsDigestMatches pack code then do
    let permitted ← self.enforceSemanticPolicy code
    return if permitted then none else some "semantic_policy_rejected"
  else
    return some "inputs_digest_mismatch"

/-- The checks that come before the reservation: the reason of a rejection, if there is one. -/
def judge (pack : VerificationPack) (found : Option NodeHash) : Except PyError (Option String) :=
  match found with
  | none => return some "missing_candidate"
  | some node =>
    if self.requireHardwareIsolation && !pack.hardwareIsolated then
      return some "hardware_isolation_required"
    else if !pack.passed then
      return some "verification_failed"
    else do
      let attested ← self.verifyPack pack
      if attested then self.judgeCode pack (node.code.getD "")
      else return some "bad_attestation"

/-- The reservation of a tree for a capsule. -/
def reserve (treeId capsuleId : String) : Daemon Bool := do
  let reserved ← redis (.set (treeAcceptedKey treeId) capsuleId true)
  let currentWinner ← redis (.get (treeAcceptedKey treeId))
  return reserved || decide (currentWinner = some capsuleId)

/-- The payload of an accepted entry; its default for the relative path is computed whether or
not it is used. -/
def acceptedPayload (pack : VerificationPack) (node : NodeHash) : Except PyError AcceptedPayload := do
  let sourcePath ← subscript "source_path" node.sourcePath
  let repoPath ← subscript "repo_path" node.repoPath
  let treeId ← subscript "tree_id" node.treeId
  return {
    capsuleId := pack.capsuleId
    code := node.code.getD ""
    sourceRelpath := node.sourceRelpath.getD (pathName sourcePath)
    repoPath := repoPath
    treeId := treeId
    artifactUri := pack.artifactUri }

/-- A candidate goes to the merger. -/
def accept (pack : VerificationPack) (node : NodeHash) : Daemon (List RedisOp) := do
  let payload ← Prog.ofExcept (acceptedPayload pack node)
  let _ ← updateCandidateStatus pack.capsuleId "accepted"
  return [.xaddAccepted payload]

/-- A candidate is turned down. -/
def reject (pack : VerificationPack) : Daemon (List RedisOp) := do
  let _ ← updateCandidateStatus pack.capsuleId "rejected_policy"
  return []

/-- The decision as the ledger keeps it. -/
def decisionRow (reason : Option String) : PolicyDecisionRow where
  accepted := reason.isNone
  confidence := if reason.isNone then 1 else 0
  riskScore := if reason.isNone then 0 else 1
  reasons := [reason.getD "accepted"]
  requiresHumanReview := reason.isSome

/-- The record of a decision, made for a candidate that is there. -/
def recordDecision (capsuleId : String) (reason : Option String) : Daemon Unit := do
  pg (.mergeCandidateMetadata capsuleId)
  pg (.recordPolicyDecision capsuleId (decisionRow reason))

/-- The decision on an attested pack of a node: it still has to win its tree. -/
def contend (pack : VerificationPack) (node : NodeHash) : Daemon (List RedisOp) := do
  let treeId ← Prog.ofExcept (subscript "tree_id" node.treeId)
  let won ← reserve treeId pack.capsuleId
  if won then do
    let ops ← accept pack node
    recordDecision pack.capsuleId none
    return ops
  else do
    let ops ← reject pack
    recordDecision pack.capsuleId (some "tree_already_accepted")
    return ops

/-- One message of the batch: the operations it queues. -/
def gateResult (pack : VerificationPack) : Daemon (List RedisOp) := do
  let found ← redis (.hgetall pack.capsuleId)
  let reason ← Prog.ofExcept (self.judge pack found)
  match reason, found with
  | none, some node => contend pack node
  | none, none => return []
  | some _, none => reject pack
  | some reason, some _ => do
    let ops ← reject pack
    recordDecision pack.capsuleId (some reason)
    return ops

/-- The batch loop; `pipe` is what the messages before have queued. -/
def gateBatch : List ResultMessage → (pipe : List RedisOp) → Daemon Unit
  | [], pipe => redis (.pipeline pipe)
  | message :: rest, pipe => do
    let pack ← Prog.ofExcept message.pack
    let ops ← self.gateResult pack
    gateBatch rest (pipe ++ (ops ++ [.xack "policy_group" message.id]))

/-- One turn of `run`. -/
def gate : Daemon Unit := do
  let messages ← redis (.xreadgroupResults "policy_group" 50)
  if messages.isEmpty then
    return ()
  else
    self.gateBatch messages []

/-! ## The checks -/

/-- A pack that gets as far as the reservation is of a node that is there, passed its tests, is
isolated where that is required, is attested, and is of the node's code, which the policy
permits. -/
theorem judge_eq_ok_none {pack : VerificationPack} {found : Option NodeHash}
    (judged : self.judge pack found = .ok none) :
    ∃ node, found = some node ∧ (self.requireHardwareIsolation = true → pack.hardwareIsolated = true) ∧
      pack.passed = true ∧ self.verifyPack pack = .ok true ∧
      self.sha256.text (node.code.getD "") = pack.inputsDigest ∧
      self.enforceSemanticPolicy (node.code.getD "") = .ok true := by
  cases found with
  | none => cases judged
  | some node =>
    refine ⟨node, rfl, ?_⟩
    unfold judge at judged
    dsimp only at judged
    split at judged
    · cases judged
    · next isolated =>
      split at judged
      · cases judged
      · next passed =>
        cases verified : self.verifyPack pack with
        | error e =>
          rw [verified] at judged
          cases judged
        | ok attested =>
          rw [verified] at judged
          cases attested with
          | false => cases judged
          | true =>
            have code : self.judgeCode pack (node.code.getD "") = .ok none := judged
            unfold judgeCode at code
            split at code
            · next digest =>
              cases permitted : self.enforceSemanticPolicy (node.code.getD "") with
              | error e =>
                rw [permitted] at code
                cases code
              | ok permission =>
                rw [permitted] at code
                cases permission with
                | false => cases code
                | true =>
                  refine ⟨?_, ?_, rfl, ?_, rfl⟩
                  · intro required
                    simpa only [required, Bool.true_and, Bool.not_eq_true', Bool.not_eq_false]
                      using isolated
                  · simpa only [Bool.not_eq_true', Bool.not_eq_false] using passed
                  · simpa only [inputsDigestMatches, decide_eq_true_eq] using digest
            · cases code

end PolicyGate

end KernelOmega
