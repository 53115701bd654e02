import KernelOmega.Signing.Attestation

/-!
# Changing a signed pack

`sign_pack` signs the digest of eight fields. A pack that keeps its attestation is verified after a
change exactly when these eight are what they were: the rest of the pack may change, and no other
text of the eight gives the same bytes.

The signing key and the digest are parameters. A key is ideal when it takes a signature for the
digest it was made for and for no other.
-/

namespace KernelOmega

/-- `nacl.signing.SigningKey`: its verify key in hexadecimal, and the signatures it makes. -/
structure SigningKey where
  publicKeyHex : String
  sign : ByteArray → List UInt8
  length_sign : ∀ digest, digest.size = 32 → (sign digest).length = 64

/-- The signature of a digest is valid for that digest only. -/
def Ed25519.Ideal (ed25519 : Ed25519) (signingKey : SigningKey) : Prop :=
  ∃ valid, ed25519.verifyKey signingKey.publicKeyHex = .ok valid ∧
    ∀ digest digest' : ByteArray, digest.size = 32 → digest'.size = 32 →
      (valid digest (signingKey.sign digest') = true ↔ digest' = digest)

/-- The two texts have one digest only when they are one text. -/
def NoCollision (sha256 : ByteArray → ByteArray) (bytes bytes' : ByteArray) : Prop :=
  sha256 bytes = sha256 bytes' → bytes = bytes'

/-- `sign_pack` -/
def signPack (signingKey : SigningKey) (sha256 : ByteArray → ByteArray) (pack : VerificationPack) :
    VerificationPack :=
  let digest := sha256 (canonicalSignatureBytes pack)
  let signature := signingKey.sign digest
  { pack with attestation := some (Python.b64encode signature) }

/-- The bytes under the signature say what the eight fields are, and nothing else. -/
theorem canonicalSignatureBytes_eq_iff_sameSigned {pack pack' : VerificationPack} :
    canonicalSignatureBytes pack = canonicalSignatureBytes pack' ↔ SameSigned pack pack' := by
  rw [canonicalSignatureBytes_eq_iff, signedFields_eq_iff]

/-- What carries the attestation of a signed pack is judged by its own digest. -/
theorem verifyPack_carried {ed25519 : Ed25519} {sha256 : ByteArray → ByteArray}
    {signingKey : SigningKey} {valid : ByteArray → List UInt8 → Bool}
    (trusted : ed25519.verifyKey signingKey.publicKeyHex = .ok valid)
    {pack changed : VerificationPack}
    (size : (sha256 (canonicalSignatureBytes pack)).size = 32)
    (carried : changed.attestation = (signPack signingKey sha256 pack).attestation) :
    verifyPack ed25519 sha256 changed signingKey.publicKeyHex =
      .ok (valid (sha256 (canonicalSignatureBytes changed))
        (signingKey.sign (sha256 (canonicalSignatureBytes pack)))) := by
  have length := signingKey.length_sign _ size
  apply verifyPack_of_decodes trusted carried _ (Python.b64decode_b64encode _) length
  exact Python.b64encode_ne_empty (List.ne_nil_of_length_eq_add_one length)

/-- The signed bytes are equal exactly when the eight fields are, and a signed pack that was
changed is verified exactly when they still are. -/
theorem signature_covers_eight_fields :
    (∀ pack pack' : VerificationPack,
      canonicalSignatureBytes pack = canonicalSignatureBytes pack' ↔ SameSigned pack pack') ∧
    ∀ (ed25519 : Ed25519) (sha256 : ByteArray → ByteArray) (signingKey : SigningKey),
      ed25519.Ideal signingKey → (∀ bytes, (sha256 bytes).size = 32) →
      ∀ pack changed : VerificationPack,
        NoCollision sha256 (canonicalSignatureBytes pack) (canonicalSignatureBytes changed) →
        changed.attestation = (signPack signingKey sha256 pack).attestation →
        ∃ verified, verifyPack ed25519 sha256 changed signingKey.publicKeyHex = .ok verified ∧
          (verified = true ↔ SameSigned pack changed) := by
  constructor
  · intro pack pack'
    exact canonicalSignatureBytes_eq_iff_sameSigned
  · intro ed25519 sha256 signingKey ⟨valid, trusted, ideal⟩ size pack changed noCollision carried
    refine ⟨_, verifyPack_carried trusted (size _) carried, ?_⟩
    rw [ideal _ _ (size _) (size _), ← canonicalSignatureBytes_eq_iff_sameSigned]
    exact ⟨noCollision, congrArg sha256⟩

namespace Signing

/-- A key that signs a digest by writing it twice. -/
def twice : SigningKey where
  publicKeyHex := "00"
  sign digest := digest.data.toList ++ digest.data.toList
  length_sign digest size := by
    have length : digest.data.toList.length = 32 := size
    rw [List.length_append, length]

def twiceVerifier : Ed25519 where
  verifyKey _ := .ok fun digest signature => decide (signature = twice.sign digest)

/-- A scheme that signs a digest by the digest twice is ideal: only its own signatures verify. -/
theorem twice_ideal : twiceVerifier.Ideal twice := by
  refine ⟨_, rfl, fun digest digest' size size' => ?_⟩
  rw [decide_eq_true_eq]
  constructor
  · intro same
    have length : digest'.data.toList.length = digest.data.toList.length := size'.trans size.symm
    apply ByteArray.ext
    apply Array.toList_inj.mp
    exact (List.append_inj same length).1
  · rintro rfl
    rfl

def honest : VerificationPack where
  capsuleId := "omega:tree:t:1"
  runId := "run_1"
  success := true
  runtime := 1
  nodeId := "core_0"
  hardwareIsolated := true
  inputsDigest := "ab"
  testsPassed := 3
  testsFailed := 0

/-- A digest of 32 bytes that tells one text from the others. -/
def flagged (text bytes : ByteArray) : ByteArray :=
  ⟨Array.replicate 32 (if bytes.data = text.data then 1 else 0)⟩

theorem flagged_noCollision (bytes text : ByteArray) :
    NoCollision (flagged text) bytes text := by
  intro same
  by_contra differ
  rw [flagged, flagged, if_neg (fun data => differ (ByteArray.ext data)), if_pos rfl] at same
  exact absurd same (by decide)

/-- The honest pack with a failed test. -/
def failing : VerificationPack := { honest with testsFailed := 1 }

/-- A test that failed after the signing is noticed. -/
theorem signature_covers_eight_fields_failing :
    ∃ verified,
      verifyPack twiceVerifier (flagged (canonicalSignatureBytes failing))
        { signPack twice (flagged (canonicalSignatureBytes failing)) honest with testsFailed := 1 }
        "00" = .ok verified ∧
      (verified = true ↔ SameSigned honest
        { signPack twice (flagged (canonicalSignatureBytes failing)) honest with testsFailed := 1 })
    := by
  refine signature_covers_eight_fields.2 twiceVerifier _ twice twice_ideal ?_ honest _ ?_ rfl
  · exact fun bytes => Array.size_replicate
  · exact flagged_noCollision _ _

end Signing

end KernelOmega
