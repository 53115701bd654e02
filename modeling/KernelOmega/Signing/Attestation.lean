import KernelOmega.PolicyGate
import KernelOmega.Python.Base64
import KernelOmega.Signing.Canonical

/-!
# Verifying an attestation

`verify_pack` catches the exception of a signature that does not verify. The other exceptions of
its `try` block leave it: `b64decode` raises for text that is not base64, and PyNaCl for a
signature that does not have 64 bytes. The gate asks for the signature of a pack that passed its
earlier checks, and such an exception ends the daemon there, with the acknowledgements and the
accepted entries of the batch still in the queue.

The digest and what Ed25519 says of a digest and a signature are parameters.
-/

namespace KernelOmega

/-- `VerifyKey(bytes.fromhex(public_key_hex))`: the signatures the key takes for a digest, or
what a text that is no key raises. -/
structure Ed25519 where
  verifyKey : String → Except PyError (ByteArray → List UInt8 → Bool)

/-- What `VerifyKey.verify` raises. -/
inductive NaclError where
  | badSignature
  | valueError (message : String)
  deriving DecidableEq

/-- `VerifyKey.verify(digest, signature)` -/
def Ed25519.verify (valid : ByteArray → List UInt8 → Bool) (digest : ByteArray)
    (signature : List UInt8) : Except NaclError Unit :=
  if signature.length ≠ 64 then
    .error (.valueError "The signature must be exactly 64 bytes long")
  else if valid digest signature then
    .ok ()
  else
    .error .badSignature

/-- `verify_pack` -/
def verifyPack (ed25519 : Ed25519) (sha256 : ByteArray → ByteArray) (pack : VerificationPack)
    (publicKeyHex : String) : Except PyError Bool :=
  match pack.attestation with
  | none => return false
  | some attestation =>
    if attestation = "" then
      return false
    else do
      let digest := sha256 (canonicalSignatureBytes pack)
      let verifier ← ed25519.verifyKey publicKeyHex
      -- The `try` block.
      match Python.b64decode attestation with
      | .error raised => .error (.valueError raised.message)
      | .ok signature =>
        match Ed25519.verify verifier digest signature with
        | .error .badSignature => return false
        | .error (.valueError message) => .error (.valueError message)
        | .ok () => return true

/-- The gate with a trusted key. -/
def PolicyGate.trusting (self : PolicyGate) (ed25519 : Ed25519) (sha256 : ByteArray → ByteArray)
    (trustedPubkey : String) : PolicyGate :=
  { self with verifyPack := fun pack => KernelOmega.verifyPack ed25519 sha256 pack trustedPubkey }

/-! ## The outcomes of a verification -/

/-- The attestation is the base64 text of a signature of the pack's digest. -/
def ValidSignature (sha256 : ByteArray → ByteArray) (valid : ByteArray → List UInt8 → Bool)
    (pack : VerificationPack) : Prop :=
  ∃ attestation signature, pack.attestation = some attestation ∧
    Python.b64decode attestation = .ok signature ∧ signature.length = 64 ∧
    valid (sha256 (canonicalSignatureBytes pack)) signature = true

/-- There is no attestation, or it decodes to the 64 bytes of a signature. -/
def Attestable (pack : VerificationPack) : Prop :=
  ∀ attestation, pack.attestation = some attestation → attestation ≠ "" →
    ∃ signature, Python.b64decode attestation = .ok signature ∧ signature.length = 64

section Verification

variable {ed25519 : Ed25519} {sha256 : ByteArray → ByteArray} {publicKeyHex : String}
  {valid : ByteArray → List UInt8 → Bool} {pack : VerificationPack}

theorem verifyPack_of_none (none : pack.attestation = none) :
    verifyPack ed25519 sha256 pack publicKeyHex = .ok false := by
  rw [verifyPack, none]
  rfl

theorem verifyPack_of_empty (empty : pack.attestation = some "") :
    verifyPack ed25519 sha256 pack publicKeyHex = .ok false := by
  rw [verifyPack, empty]
  rfl

/-- A signature of the right length is checked against the digest of the pack. -/
theorem verifyPack_of_decodes (trusted : ed25519.verifyKey publicKeyHex = .ok valid)
    {attestation : String} (there : pack.attestation = some attestation)
    (nonempty : attestation ≠ "") {signature : List UInt8}
    (decodes : Python.b64decode attestation = .ok signature) (length : signature.length = 64) :
    verifyPack ed25519 sha256 pack publicKeyHex =
      .ok (valid (sha256 (canonicalSignatureBytes pack)) signature) := by
  rw [verifyPack, there]
  simp only [nonempty, if_false, trusted, Except.bind, bind, decodes, Ed25519.verify, length,
    ne_eq, not_true_eq_false]
  cases valid (sha256 (canonicalSignatureBytes pack)) signature <;> rfl

/-- What is no base64 text of 64 bytes raises a `ValueError` nobody catches. -/
theorem verifyPack_of_not_attestable (trusted : ed25519.verifyKey publicKeyHex = .ok valid)
    (malformed : ¬ Attestable pack) :
    ∃ message, verifyPack ed25519 sha256 pack publicKeyHex = .error (.valueError message) := by
  simp only [Attestable, not_forall, not_exists, not_and] at malformed
  obtain ⟨attestation, there, nonempty, malformed⟩ := malformed
  rw [verifyPack, there]
  simp only [nonempty, if_false, trusted, Except.bind, bind]
  cases decodes : Python.b64decode attestation with
  | error raised => exact ⟨raised.message, rfl⟩
  | ok signature =>
    have length : signature.length ≠ 64 := malformed signature decodes
    simp only [Ed25519.verify, if_pos length]
    exact ⟨_, rfl⟩

/-- A well-formed attestation is judged, and only a valid signature is taken. -/
theorem verifyPack_of_attestable (trusted : ed25519.verifyKey publicKeyHex = .ok valid)
    (attestable : Attestable pack) :
    ∃ attested, verifyPack ed25519 sha256 pack publicKeyHex = .ok attested ∧
      (attested = true ↔ ValidSignature sha256 valid pack) := by
  cases there : pack.attestation with
  | none =>
    refine ⟨false, verifyPack_of_none there, ⟨nofun, ?_⟩⟩
    rintro ⟨attestation, signature, there', -⟩
    rw [there] at there'
    cases there'
  | some attestation =>
    by_cases empty : attestation = ""
    · subst empty
      refine ⟨false, verifyPack_of_empty there, ⟨nofun, ?_⟩⟩
      rintro ⟨attestation, signature, there', decodes, length, -⟩
      obtain rfl := Option.some.inj (there.symm.trans there')
      obtain rfl := Except.ok.inj decodes
      cases length
    · obtain ⟨signature, decodes, length⟩ := attestable attestation there empty
      refine ⟨_, verifyPack_of_decodes trusted there empty decodes length, ?_⟩
      constructor
      · exact fun verified => ⟨attestation, signature, there, decodes, length, verified⟩
      · rintro ⟨attestation', signature', there', decodes', -, verified⟩
        obtain rfl := Option.some.inj (there.symm.trans there')
        obtain rfl := Except.ok.inj (decodes.symm.trans decodes')
        exact verified

end Verification

/-! ## The gate -/

namespace PolicyGate

open Concurrent Daemon

variable (self : PolicyGate)

/-- The pack has passed the checks that come before its attestation. -/
def Asks (pack : VerificationPack) : Prop :=
  (self.requireHardwareIsolation = true → pack.hardwareIsolated = true) ∧ pack.passed = true

/-- A message when its node has been looked up. -/
def settle (pack : VerificationPack) (found : Option NodeHash) : Daemon (List RedisOp) := do
  let reason ← Prog.ofExcept (self.judge pack found)
  match reason, found with
  | none, some node => contend pack node
  | none, none => return []
  | some _, none => reject pack
  | some reason, some _ => do
    let ops ← reject pack
    recordDecision pack.capsuleId (some reason)
    return ops

theorem gateResult_eq (pack : VerificationPack) :
    self.gateResult pack = redis (.hgetall pack.capsuleId) >>= self.settle pack := by
  unfold gateResult
  refine congrArg (redis (.hgetall pack.capsuleId) >>= ·) (funext fun found => ?_)
  refine congrArg (Prog.ofExcept (self.judge pack found) >>= ·) (funext fun reason => ?_)
  cases reason <;> cases found <;> rfl

/-- The rest of a pass when the node of a message has been looked up. -/
def afterLookup (messageId : Nat) (pack : VerificationPack) (rest : List ResultMessage)
    (pipe : List RedisOp) (found : Option NodeHash) : Daemon Unit := do
  let ops ← self.settle pack found
  self.gateBatch rest (pipe ++ (ops ++ [.xack "policy_group" messageId]))

theorem gateBatch_cons (messageId : Nat) (pack : VerificationPack) (rest : List ResultMessage)
    (pipe : List RedisOp) :
    self.gateBatch ({ id := messageId, pack := .ok pack } :: rest) pipe =
      redis (.hgetall pack.capsuleId) >>= self.afterLookup messageId pack rest pipe := by
  rw [gateBatch, Prog.ofExcept_ok, Prog.ret_bind, gateResult_eq, bind_assoc]
  rfl

/-- A candidate that is there is turned down: its status and the decision are recorded, its
message is acknowledged, and the pass goes on. -/
theorem afterLookup_of_judge {pack : VerificationPack} {node : NodeHash} {reason : String}
    (judged : self.judge pack (some node) = .ok (some reason)) (messageId : Nat)
    (rest : List ResultMessage) (pipe : List RedisOp) :
    self.afterLookup messageId pack rest pipe (some node) = (do
      let _ ← updateCandidateStatus pack.capsuleId "rejected_policy"
      recordDecision pack.capsuleId (some reason)
      self.gateBatch rest (pipe ++ [.xack "policy_group" messageId])) := by
  simp only [afterLookup, settle, judged, reject, Prog.ofExcept_ok, Prog.ret_bind, bind_assoc,
    pure_bind, List.nil_append]

theorem afterLookup_of_error {pack : VerificationPack} {node : NodeHash} {raised : PyError}
    (judged : self.judge pack (some node) = .error raised) (messageId : Nat)
    (rest : List ResultMessage) (pipe : List RedisOp) :
    self.afterLookup messageId pack rest pipe (some node) = .raise raised := by
  simp only [afterLookup, settle, judged, Prog.ofExcept_error, Prog.raise_bind]

/-- The judgement of a pack of a node whose signature is not valid. -/
theorem judge_of_not_verified {pack : VerificationPack} (node : NodeHash)
    (verified : self.verifyPack pack = .ok false) :
    ∃ reason, self.judge pack (some node) = .ok (some reason) ∧
      (self.Asks pack → reason = "bad_attestation") := by
  unfold judge Asks
  dsimp only
  split
  · next isolation =>
    refine ⟨_, rfl, ?_⟩
    rintro ⟨isolated, -⟩
    rw [Bool.and_eq_true, Bool.not_eq_true'] at isolation
    rw [isolated isolation.1] at isolation
    cases isolation.2
  · split
    · next failed =>
      refine ⟨_, rfl, ?_⟩
      rintro ⟨-, passed⟩
      rw [passed] at failed
      cases failed
    · rw [verified]
      exact ⟨_, rfl, fun _ => rfl⟩

/-- The exception of a verification the gate asks for leaves the checks. -/
theorem judge_of_raises {pack : VerificationPack} (node : NodeHash) (asks : self.Asks pack)
    {raised : PyError} (raises : self.verifyPack pack = .error raised) :
    self.judge pack (some node) = .error raised := by
  obtain ⟨isolated, passed⟩ := asks
  unfold judge
  dsimp only
  split
  · next isolation =>
    rw [Bool.and_eq_true, Bool.not_eq_true'] at isolation
    rw [isolated isolation.1] at isolation
    cases isolation.2
  · rw [passed, raises]
    rfl

/-- A pack with no valid signature is turned down and the pass goes on: for its attestation if
the gate asked for it, and else for the check it failed before. -/
def TurnsDown (pack : VerificationPack) (node : NodeHash) : Prop :=
  ∃ reason, (self.Asks pack → reason = "bad_attestation") ∧
    ∀ (messageId : Nat) (rest : List ResultMessage) (pipe : List RedisOp),
      self.gateBatch ({ id := messageId, pack := .ok pack } :: rest) pipe =
          redis (.hgetall pack.capsuleId) >>= self.afterLookup messageId pack rest pipe ∧
        self.afterLookup messageId pack rest pipe (some node) = (do
          let _ ← updateCandidateStatus pack.capsuleId "rejected_policy"
          recordDecision pack.capsuleId (some reason)
          self.gateBatch rest (pipe ++ [.xack "policy_group" messageId]))

theorem turnsDown_of_not_verified {pack : VerificationPack} (node : NodeHash)
    (verified : self.verifyPack pack = .ok false) : self.TurnsDown pack node := by
  obtain ⟨reason, judged, asked⟩ := self.judge_of_not_verified node verified
  refine ⟨reason, asked, fun messageId rest pipe => ⟨?_, ?_⟩⟩
  · exact self.gateBatch_cons messageId pack rest pipe
  · exact self.afterLookup_of_judge judged messageId rest pipe

/-- The verification of a pack says whether its signature is valid, and without one the pack is
turned down. -/
def RejectsUnauthenticated (sha256 : ByteArray → ByteArray)
    (valid : ByteArray → List UInt8 → Bool) (pack : VerificationPack) (node : NodeHash) : Prop :=
  (∃ attested, self.verifyPack pack = .ok attested ∧
    (attested = true → ValidSignature sha256 valid pack)) ∧
  (¬ ValidSignature sha256 valid pack → self.TurnsDown pack node)

section Trusting

variable {ed25519 : Ed25519} {sha256 : ByteArray → ByteArray} {trustedPubkey : String}
  {valid : ByteArray → List UInt8 → Bool}

/-- A malformed attestation the gate asks for ends the daemon, whatever is queued. -/
theorem gateBatch_fatal (trusted : ed25519.verifyKey trustedPubkey = .ok valid)
    {pack : VerificationPack} (malformed : ¬ Attestable pack)
    (asks : (self.trusting ed25519 sha256 trustedPubkey).Asks pack) (node : NodeHash)
    (messageId : Nat) (rest : List ResultMessage) (pipe : List RedisOp) :
    ∃ message, (self.trusting ed25519 sha256 trustedPubkey).afterLookup messageId pack rest pipe
      (some node) = .raise (.valueError message) := by
  have raises := @verifyPack_of_not_attestable ed25519 sha256 trustedPubkey valid pack trusted
    malformed
  obtain ⟨message, raises⟩ := raises
  exact ⟨message, afterLookup_of_error _ (judge_of_raises _ node asks raises) messageId rest pipe⟩

/-- Unauthenticated packs are rejected and never fatal exactly when there is no attestation or
it is base64 for 64 bytes. -/
theorem rejectsUnauthenticated_iff (trusted : ed25519.verifyKey trustedPubkey = .ok valid)
    (pack : VerificationPack) (node : NodeHash) :
    (self.trusting ed25519 sha256 trustedPubkey).RejectsUnauthenticated sha256 valid pack node ↔
      Attestable pack := by
  constructor
  · rintro ⟨⟨attested, verified, -⟩, -⟩
    by_contra malformed
    obtain ⟨message, raises⟩ := @verifyPack_of_not_attestable ed25519 sha256 trustedPubkey valid
      pack trusted malformed
    cases verified.symm.trans raises
  · intro attestable
    obtain ⟨attested, verified, exact_⟩ := @verifyPack_of_attestable ed25519 sha256 trustedPubkey
      valid pack trusted attestable
    refine ⟨⟨attested, verified, exact_.mp⟩, fun invalid => ?_⟩
    apply turnsDown_of_not_verified
    rw [← Bool.eq_false_iff.mpr (mt exact_.mp invalid)]
    exact verified

end Trusting

end PolicyGate

/-! ## A forged attestation -/

namespace Signing

/-- A key that takes no signature. -/
def silentKey : Ed25519 where
  verifyKey := fun _ => .ok fun _ _ => false

def anyGate : PolicyGate where
  requireHardwareIsolation := true
  sha256 := Sha256.ofTable [] Sha256.hex_nil
  verifyPack := fun _ => .ok false
  enforceSemanticPolicy := fun _ => .ok true

/-- A pack that passed, with this attestation. -/
def claiming (attestation : String) : VerificationPack where
  capsuleId := "omega:tree:t:1"
  runId := "run_1"
  success := true
  runtime := 1
  nodeId := "core_0"
  hardwareIsolated := true
  inputsDigest := "ab"
  testsPassed := 1
  testsFailed := 0
  attestation := some attestation

/-- Sixty-four zero bytes are no signature of anything, and the gate says so. -/
theorem rejectsUnauthenticated_zeros :
    (anyGate.trusting silentKey id "").RejectsUnauthenticated id (fun _ _ => false)
      (claiming (Python.b64encode (List.replicate 64 0))) {} := by
  apply (anyGate.rejectsUnauthenticated_iff rfl _ _).mpr
  intro attestation there _
  obtain rfl := Option.some.inj there
  exact ⟨_, Python.b64decode_b64encode _, List.length_replicate⟩

/-- The six characters of `forged` end inside a group of four. -/
theorem forged_not_attestable : ¬ Attestable (claiming "forged") := by
  intro attestable
  obtain ⟨signature, decodes, -⟩ := attestable "forged" rfl (by decide)
  have raised : Python.b64decode "forged" = .error .incorrectPadding := by decide
  rw [raised] at decodes
  cases decodes

/-- The attestation `forged` is no base64: the check raises where the gate was to reject. -/
theorem not_rejectsUnauthenticated :
    ¬ ∀ (gate : PolicyGate) (ed25519 : Ed25519) (sha256 : ByteArray → ByteArray)
      (trustedPubkey : String) (valid : ByteArray → List UInt8 → Bool),
      ed25519.verifyKey trustedPubkey = .ok valid → ∀ (pack : VerificationPack) (node : NodeHash),
        (gate.trusting ed25519 sha256 trustedPubkey).RejectsUnauthenticated sha256 valid pack
          node := by
  intro all
  obtain ⟨⟨attested, verified, -⟩, -⟩ :=
    all anyGate silentKey id "" _ rfl (claiming "forged") {}
  have key : silentKey.verifyKey "" = .ok fun _ _ => false := rfl
  obtain ⟨message, raises⟩ := @verifyPack_of_not_attestable silentKey id "" _ (claiming "forged")
    key forged_not_attestable
  cases verified.symm.trans raises

end Signing

end KernelOmega
