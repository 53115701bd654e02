import KernelOmega.PolicyGate
import KernelOmega.Signing.Canonical

/-!
# What an attestation binds

The executors put the digest of a capsule's code into the pack they sign. Of the rest of the
capsule only the id and the run reach a signed field: the tests, the relative paths and the
snapshot do not. A pack the gate lets through therefore comes from a run of the node's code that
passed, against tests and files the signature says nothing about.

Whoever fills the dispatch stream decides which capsules are executed, so `Executed` is any
relation between capsules and outcomes. The digest is a parameter, ideal where a result asks for it
by name: no two texts have the same one.
-/

namespace KernelOmega

/-- The bytes an executor hashes: the simulator's or the hypervisor's. -/
def SigningBytes (bytes : VerificationPack → ByteArray) : Prop :=
  bytes = canonicalSignatureBytes ∨ bytes = Hypervisor.encoded

theorem SigningBytes.eq_iff {bytes : VerificationPack → ByteArray} (signing : SigningBytes bytes)
    {pack pack' : VerificationPack} : bytes pack = bytes pack' ↔ SameSigned pack pack' := by
  rcases signing with rfl | rfl
  · rw [canonicalSignatureBytes_eq_iff, signedFields_eq_iff]
  · rw [Hypervisor.encoded_eq_iff, signedFields_eq_iff]

/-- Whichever executor hashed these bytes, the gate rebuilds them from the fields it signed only. -/
theorem SigningBytes.sameSigned {bytes : VerificationPack → ByteArray}
    (signing : SigningBytes bytes) {pack signed : VerificationPack}
    (same : canonicalSignatureBytes pack = bytes signed) : SameSigned pack signed := by
  rcases signing with rfl | rfl
  · exact signedFields_eq_iff.mp (canonicalSignatureBytes_eq_iff.mp same)
  · exact signedFields_eq_iff.mp
      (Json.eq_of_object_ascii_eq_minimal (signedFields_keys signed) (encoded_inj same))

namespace Executor

variable (self : Executor)

/-- The packs of two runs with one outcome are signed alike when the capsules share id, run and
the digest of their code. -/
theorem sameSigned_pack_iff {capsule capsule' : TaskCapsule} {outcome : TestOutcome}
    (artifactUri artifactUri' : Option String) (sameId : capsule.id = capsule'.id)
    (sameRun : capsule.runId = capsule'.runId) :
    SameSigned (self.pack capsule outcome artifactUri) (self.pack capsule' outcome artifactUri') ↔
      self.sha256.text capsule.code = self.sha256.text capsule'.code := by
  refine ⟨fun same => same.inputsDigest, fun digests => ?_⟩
  exact {
    capsuleId := sameId
    errorSignature := rfl
    hardwareIsolated := rfl
    inputsDigest := digests
    runId := sameRun
    success := rfl
    testsFailed := rfl
    testsPassed := rfl }

/-- Two runs of one capsule's name sign the same bytes exactly when they ran the same code. -/
theorem signs_alike_iff (collisionFree : self.sha256.CollisionFree)
    {bytes : VerificationPack → ByteArray} (signing : SigningBytes bytes)
    {capsule capsule' : TaskCapsule} {outcome : TestOutcome}
    (artifactUri artifactUri' : Option String) (sameId : capsule.id = capsule'.id)
    (sameRun : capsule.runId = capsule'.runId) :
    bytes (self.pack capsule outcome artifactUri) =
        bytes (self.pack capsule' outcome artifactUri') ↔ capsule.code = capsule'.code := by
  rw [signing.eq_iff, self.sameSigned_pack_iff artifactUri artifactUri' sameId sameRun]
  exact collisionFree.eq_iff

end Executor

namespace Signing

/-- Two capsules differ in something that decides what their tests say. -/
def DiffersInTested (capsule capsule' : TaskCapsule) : Prop :=
  capsule.code ≠ capsule'.code ∨ capsule.testCode ≠ capsule'.testCode ∨
    capsule.sourceRelpath ≠ capsule'.sourceRelpath ∨
    capsule.testRelpath ≠ capsule'.testRelpath ∨ capsule.repoSnapshot ≠ capsule'.repoSnapshot

/-- A trusted signature comes from one of the executions: the gate takes it only for a digest
the executor signed. -/
def OnlyExecuted (gate : PolicyGate) (executor : Executor) (digest : ByteArray → ByteArray)
    (bytes : VerificationPack → ByteArray) (Executed : TaskCapsule → TestOutcome → Prop) : Prop :=
  ∀ pack, gate.verifyPack pack = .ok true →
    ∃ capsule outcome artifactUri, Executed capsule outcome ∧
      digest (canonicalSignatureBytes pack) =
        digest (bytes (executor.pack capsule outcome artifactUri))

/-- The outcome of a run that passed. -/
def Passed (outcome : TestOutcome) : Prop := outcome.success = true ∧ outcome.testsFailed = 0

theorem passed_pack (executor : Executor) (capsule : TaskCapsule) (outcome : TestOutcome)
    (artifactUri : Option String) :
    (executor.pack capsule outcome artifactUri).passed = true ↔ Passed outcome := by
  show (outcome.success && decide (outcome.testsFailed = 0)) = true ↔ Passed outcome
  rw [Bool.and_eq_true, decide_eq_true_eq, Passed]

/-- A pack the gate lets through was signed for a run of the node's code, and that run passed. -/
theorem executed_of_judge {gate : PolicyGate} {executor : Executor}
    {digest : ByteArray → ByteArray} {bytes : VerificationPack → ByteArray}
    {Executed : TaskCapsule → TestOutcome → Prop} (signing : SigningBytes bytes)
    (sameDigest : executor.sha256 = gate.sha256) (collisionFree : gate.sha256.CollisionFree)
    (digestInjective : Function.Injective digest)
    (only : OnlyExecuted gate executor digest bytes Executed) {pack : VerificationPack}
    {node : NodeHash} (judged : gate.judge pack (some node) = .ok none) :
    ∃ capsule outcome, Executed capsule outcome ∧ capsule.id = pack.capsuleId ∧
      capsule.runId = pack.runId ∧ capsule.code = node.code.getD "" ∧ Passed outcome := by
  obtain ⟨node', found, -, passed, verified, digests, -⟩ := gate.judge_eq_ok_none judged
  obtain rfl := Option.some.inj found
  obtain ⟨capsule, outcome, artifactUri, executed, same⟩ := only pack verified
  have agree := signing.sameSigned (digestInjective same)
  refine ⟨capsule, outcome, executed, agree.capsuleId.symm, agree.runId.symm, ?_, ?_⟩
  · apply collisionFree
    have signed : pack.inputsDigest = executor.sha256.text capsule.code := agree.inputsDigest
    rw [digests, signed, sameDigest]
  · rw [← passed_pack executor capsule outcome artifactUri, ← agree.passed]
    exact passed

/-- The signed bytes of two runs with one id, run and outcome differ exactly when the code does,
and what the gate lets through was signed for a passing run of the node's code. -/
theorem attestation_binds_code (executor : Executor) (collisionFree : executor.sha256.CollisionFree)
    {bytes : VerificationPack → ByteArray} (signing : SigningBytes bytes) :
    (∀ (capsule capsule' : TaskCapsule) (outcome : TestOutcome)
      (artifactUri artifactUri' : Option String), capsule.id = capsule'.id →
        capsule.runId = capsule'.runId →
        (bytes (executor.pack capsule outcome artifactUri) ≠
          bytes (executor.pack capsule' outcome artifactUri') ↔ capsule.code ≠ capsule'.code)) ∧
    ∀ (gate : PolicyGate) (digest : ByteArray → ByteArray)
      (Executed : TaskCapsule → TestOutcome → Prop), executor.sha256 = gate.sha256 →
        Function.Injective digest → OnlyExecuted gate executor digest bytes Executed →
        ∀ pack node, gate.judge pack (some node) = .ok none →
          ∃ capsule outcome, Executed capsule outcome ∧ capsule.id = pack.capsuleId ∧
            capsule.runId = pack.runId ∧ capsule.code = node.code.getD "" ∧ Passed outcome := by
  constructor
  · intro capsule capsule' outcome artifactUri artifactUri' sameId sameRun
    exact (executor.signs_alike_iff collisionFree signing artifactUri artifactUri' sameId
      sameRun).not
  · intro gate digest Executed sameDigest digestInjective only pack node judged
    exact executed_of_judge signing sameDigest (sameDigest ▸ collisionFree) digestInjective only
      judged

/-! ## A trivial test in place of the node's own -/

/-- An executor that is not isolated, with the digest that spells texts out. -/
def plainExecutor : Executor where
  nodeId := "sim-core-0"
  hardwareIsolated := false
  sha256 := Sha256.ofTable [] Sha256.hex_nil
  sign := fun _ => "signed"

theorem plainExecutor_collisionFree : plainExecutor.sha256.CollisionFree :=
  Sha256.ofTable_collisionFree (List.forall_mem_nil _) List.nodup_nil (List.forall_mem_nil _)

/-- A capsule whose test reads the source file by its name. -/
def ownCapsule : TaskCapsule where
  id := "omega:tree:t:1"
  treeId := "t"
  sourcePath := "/repo/app.py"
  testPath := "/repo/test_app.py"
  code := "x = 0\n"
  testCode := "from app import x\n\ndef test_x():\n    assert x == 1\n"
  runId := "run_1"

/-- The capsule with a test that passes on every code. -/
def trivialCapsule : TaskCapsule := { ownCapsule with testCode := "def test_x():\n    pass\n" }

def passing : TestOutcome := { success := true, testsPassed := 1, testsFailed := 0 }

/-- A gate that takes the one pack signed for the own capsule. -/
def ownGate : PolicyGate where
  requireHardwareIsolation := false
  sha256 := plainExecutor.sha256
  verifyPack := fun pack => .ok (decide (pack = plainExecutor.pack ownCapsule passing none))
  enforceSemanticPolicy := fun _ => .ok true

theorem ownGate_only : OnlyExecuted ownGate plainExecutor id canonicalSignatureBytes
    fun capsule outcome => capsule = ownCapsule ∧ outcome = passing := by
  intro pack verified
  obtain rfl := of_decide_eq_true (Except.ok.inj verified)
  exact ⟨ownCapsule, passing, none, ⟨rfl, rfl⟩, rfl⟩

/-- The gate takes the pack of the capsule's own code. -/
theorem ownGate_judge : ownGate.judge (plainExecutor.pack ownCapsule passing none)
    (some { code := some "x = 0\n" }) = .ok none := by
  have digest : ownGate.inputsDigestMatches (plainExecutor.pack ownCapsule passing none)
      "x = 0\n" = true := decide_eq_true rfl
  have verified : ownGate.verifyPack (plainExecutor.pack ownCapsule passing none) = .ok true :=
    congrArg Except.ok (decide_eq_true rfl)
  have passed : (plainExecutor.pack ownCapsule passing none).passed = true :=
    (passed_pack plainExecutor ownCapsule passing none).mpr ⟨rfl, rfl⟩
  simp only [PolicyGate.judge, passed, verified, PolicyGate.judgeCode, Option.getD_some, digest]
  rfl

/-- The attestation of a run of `x = 0` is none for `x = 1`, and the gate's acceptance of it leads
back to that run. -/
theorem attestation_binds_code_own :
    canonicalSignatureBytes (plainExecutor.pack ownCapsule passing none) ≠
      canonicalSignatureBytes (plainExecutor.pack { ownCapsule with code := "x = 1\n" } passing
        none) ∧
    ∃ capsule outcome, (capsule = ownCapsule ∧ outcome = passing) ∧
      capsule.id = "omega:tree:t:1" ∧ capsule.runId = "run_1" ∧ capsule.code = "x = 0\n" ∧
      Passed outcome := by
  have signing : SigningBytes canonicalSignatureBytes := .inl rfl
  have binds := attestation_binds_code plainExecutor plainExecutor_collisionFree signing
  constructor
  · apply (binds.1 ownCapsule { ownCapsule with code := "x = 1\n" } passing none none rfl rfl).mpr
    decide
  · exact binds.2 ownGate id _ rfl Function.injective_id ownGate_only _ _ ownGate_judge

/-- The pack of the trivial test is signed like the pack of the node's own. -/
theorem not_attestation_binds_tested :
    ¬ ∀ (executor : Executor), executor.sha256.CollisionFree →
      ∀ (capsule capsule' : TaskCapsule) (outcome : TestOutcome)
        (artifactUri artifactUri' : Option String), capsule.id = capsule'.id →
        capsule.runId = capsule'.runId → DiffersInTested capsule capsule' →
        canonicalSignatureBytes (executor.pack capsule outcome artifactUri) ≠
            canonicalSignatureBytes (executor.pack capsule' outcome artifactUri') ∧
          Hypervisor.encoded (executor.pack capsule outcome artifactUri) ≠
            Hypervisor.encoded (executor.pack capsule' outcome artifactUri') := by
  intro all
  have tests : ownCapsule.testCode ≠ trivialCapsule.testCode := by decide
  have differ := (all plainExecutor plainExecutor_collisionFree ownCapsule trivialCapsule passing
    none none rfl rfl (.inr (.inl tests))).1
  apply differ
  exact canonicalSignatureBytes_eq_iff.mpr (signedFields_eq_iff.mpr
    ((plainExecutor.sameSigned_pack_iff none none rfl rfl).mpr rfl))

end Signing

end KernelOmega
