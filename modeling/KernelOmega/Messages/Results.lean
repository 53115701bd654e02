import KernelOmega.Messages.Contracts
import KernelOmega.Signing.Attestation
import KernelOmega.Signing.Binding

/-!
# From the executor to the gate

A result is published as the text of a signed pack: the simulator and the dispatcher write it with
`to_json`, the hypervisor with serde, its fields in the order they are declared in. The daemons read
either text with `from_json`. The gate then rebuilds the signed bytes from what it has read, so a
pack keeps its attestation on the way: one the simulator signed verifies, and one the hypervisor
signed exactly when no signed string has DEL or a character above it.
-/

namespace KernelOmega

open Json Python

variable {F : Type} (doubles : Doubles F)

/-! ## The signed text -/

/-- Fields that are in order stay so. -/
theorem sortKeys_documentOf {fields : List (String × Value)}
    (sorted : (fields.map Prod.fst).Pairwise (· < ·)) :
    (Document.object (documentOf fields) : Document F).sortKeys = .object (documentOf fields) := by
  have plain : ∀ v : Value, (v.document : Document F).sortKeys = v.document := by
    intro v
    cases v <;> rfl
  have inside : (documentOf fields).map (fun member => (member.1, member.2.sortKeys)) =
      (documentOf fields : List (String × Document F)) := by
    rw [documentOf, List.map_map]
    exact List.map_congr_left fun field _ => congrArg (Prod.mk field.1) (plain field.2)
  rw [Document.sortKeys_object, inside, sortMembers_eq]
  exact List.pairwise_map.mpr ((List.pairwise_map.mp sorted).imp le_of_lt)

/-- `canonical_signature_bytes` is `json.dumps` of the fields, with the keys sorted and no blanks. -/
theorem canonicalSignatureBytes_eq_dumpsCompact (pack : VerificationPack) :
    canonicalSignatureBytes pack =
      encodeUtf8 (dumpsCompact doubles (.object (documentOf (signedFields pack)))) := by
  rw [dumpsCompact, sortKeys_documentOf (signedFields_sorted pack), write_document]
  rfl

/-- The hypervisor encodes what `serde_json::to_string` makes of the fields. -/
theorem Hypervisor.encoded_eq_toSerde (pack : VerificationPack) :
    Hypervisor.encoded pack =
      encodeUtf8 (toSerde doubles (.object (documentOf (signedFields pack)))) := by
  rw [toSerde, write_document]
  rfl

/-! ## Typed attributes -/

/-- An attribute that has its type. -/
def typed {α : Type} (read : Document F → Option α) (name : String) (attributes : Attributes F) :
    Option α :=
  (lastValue name attributes).bind read

/-- A number of either kind. -/
def asNumber : Document F → Option Rat
  | .int n => some n
  | .float x => some (doubles.toRat x)
  | _ => none

theorem typed_of_getElem? {α : Type} {attributes : Attributes F}
    (distinct : (attributes.map Prod.fst).Nodup) (read : Document F → Option α) (i : Nat)
    {name : String} {value : Document F} (here : attributes[i]? = some (name, value)) :
    typed read name attributes = read value := by
  rw [typed, lastValue_of_mem distinct (List.mem_of_getElem? here), Option.bind_some]

namespace VerificationPack

/-- The pack with these attributes, when each has its type; of `meta` the text is kept that
`complete_execution` writes. -/
def ofAttributes (attributes : Attributes F) : Option VerificationPack := do
  let capsuleId ← typed Document.asString "capsule_id" attributes
  let runId ← typed Document.asString "run_id" attributes
  let success ← typed Document.asBool "success" attributes
  let runtime ← typed (asNumber doubles) "runtime" attributes
  let nodeId ← typed Document.asString "node_id" attributes
  let hardwareIsolated ← typed Document.asBool "hardware_isolated" attributes
  let inputsDigest ← typed Document.asString "inputs_digest" attributes
  let testsPassed ← typed Document.asInt "tests_passed" attributes
  let testsFailed ← typed Document.asInt "tests_failed" attributes
  let errorSignature ← typed (Document.orNull Document.asString) "error_signature" attributes
  let attestation ← typed (Document.orNull Document.asString) "attestation" attributes
  let artifactUri ← typed (Document.orNull Document.asString) "artifact_uri" attributes
  let info ← lastValue "meta" attributes
  return {
    capsuleId, runId, success, runtime, nodeId, hardwareIsolated, inputsDigest, testsPassed
    testsFailed, errorSignature, attestation, artifactUri
    metaJson := dumpsSorted doubles info }

/-- `from_json`, when the payload is a pack. -/
def ofPayload (text : String) : Option VerificationPack :=
  match fromJson doubles text with
  | .ok attributes => ofAttributes doubles attributes
  | .error _ => none

/-- The pack as it is read: its run time is the number next to it. -/
def received (pack : VerificationPack) (info : Document F) : VerificationPack :=
  { pack with
    runtime := doubles.toRat (doubles.ofRat pack.runtime)
    metaJson := dumpsSorted doubles info }

/-- A pack is read back from its attributes, with the metadata as a text. -/
theorem ofAttributes_attributes (pack : VerificationPack) (info : Document F) :
    ofAttributes doubles (pack.attributes doubles info) = some (pack.received doubles info) := by
  have distinct : ((pack.attributes doubles info).map Prod.fst).Nodup := names_distinct (F := F)
  have get : ∀ {α : Type} (read : Document F → Option α) (i : Nat) {name : String}
      {value : Document F}, (pack.attributes doubles info)[i]? = some (name, value) →
        typed read name (pack.attributes doubles info) = read value :=
    fun read i _ _ here => typed_of_getElem? distinct read i here
  have last : lastValue "meta" (pack.attributes doubles info) = some info :=
    lastValue_of_mem distinct (List.mem_of_getElem? (i := 12) rfl)
  rw [ofAttributes, get Document.asString 0 rfl, get Document.asString 1 rfl, get Document.asBool 2 rfl,
    get (asNumber doubles) 3 rfl, get Document.asString 4 rfl, get Document.asBool 5 rfl,
    get Document.asString 6 rfl, get Document.asInt 7 rfl, get Document.asInt 8 rfl,
    get (Document.orNull Document.asString) 9 rfl, get (Document.orNull Document.asString) 10 rfl,
    get (Document.orNull Document.asString) 11 rfl, last]
  simp only [orNull_optionalText]
  rfl

theorem ofPayload_toJson (pack : VerificationPack) (info : Document F) :
    ofPayload doubles (pack.toJson doubles info) = some (pack.received doubles info) := by
  have sorted : pack.received doubles info.sortKeys = pack.received doubles info := by
    rw [received, received, dumpsSorted, dumpsSorted, Document.sortKeys_again]
  rw [ofPayload, fromJson_toJson]
  exact (ofAttributes_attributes doubles pack info.sortKeys).trans (congrArg some sorted)

theorem ofPayload_toSerde (pack : VerificationPack) (info : Document F) :
    ofPayload doubles (pack.toSerde doubles info) = some (pack.received doubles info) := by
  rw [ofPayload, fromJson_toSerde]
  exact ofAttributes_attributes doubles pack info

end VerificationPack

/-! ## The accepted entry -/

namespace AcceptedPayload

/-- The payload of an accepted entry. -/
def attributes (payload : AcceptedPayload) : Attributes F :=
  [("capsule_id", .string payload.capsuleId), ("code", .string payload.code),
    ("source_relpath", .string payload.sourceRelpath), ("repo_path", .string payload.repoPath),
    ("tree_id", .string payload.treeId), ("artifact_uri", optionalText payload.artifactUri)]

def toJson (payload : AcceptedPayload) : String := dumpsSorted doubles (.object payload.attributes)

/-- What the merger's subscripts find in a payload. -/
def ofAttributes (attributes : Attributes F) : Option AcceptedPayload := do
  let capsuleId ← typed Document.asString "capsule_id" attributes
  let code ← typed Document.asString "code" attributes
  let sourceRelpath ← typed Document.asString "source_relpath" attributes
  let repoPath ← typed Document.asString "repo_path" attributes
  let treeId ← typed Document.asString "tree_id" attributes
  let artifactUri ← typed (Document.orNull Document.asString) "artifact_uri" attributes
  return { capsuleId, code, sourceRelpath, repoPath, treeId, artifactUri }

def ofPayload (text : String) : Option AcceptedPayload :=
  match (loads doubles text).bind keywords with
  | .ok attributes => ofAttributes attributes
  | .error _ => none

/-- The payload of the accepted stream is read back whole. -/
theorem ofPayload_toJson (payload : AcceptedPayload) :
    ofPayload doubles (payload.toJson doubles) = some payload := by
  have names : (payload.attributes.map (@Prod.fst String (Document F))).Nodup := by
    simp [attributes]
  have inside : sortInside payload.attributes = (payload.attributes : Attributes F) := by
    simp only [sortInside, attributes, List.map_cons, List.map_nil, sortKeys_optionalText]
    rfl
  have perm := sortMembers_perm (payload.attributes : Attributes F)
  have distinct : ((sortMembers (payload.attributes : Attributes F)).map Prod.fst).Nodup :=
    (perm.map Prod.fst).nodup_iff.mpr names
  have get : ∀ {α : Type} (read : Document F → Option α) (i : Nat) {name : String}
      {value : Document F}, (payload.attributes : Attributes F)[i]? = some (name, value) →
        typed read name (sortMembers payload.attributes) = read value := by
    intro α read i name value here
    rw [typed, lastValue_of_mem distinct (perm.mem_iff.mpr (List.mem_of_getElem? here)),
      Option.bind_some]
  have read : (loads doubles (payload.toJson doubles)).bind keywords =
      .ok (sortMembers payload.attributes) := by
    rw [toJson, loads_dumpsSorted, Document.sortKeys_object, ← sortInside, inside]
    rfl
  rw [ofPayload, read]
  dsimp only
  rw [ofAttributes, get Document.asString 0 rfl, get Document.asString 1 rfl,
    get Document.asString 2 rfl, get Document.asString 3 rfl, get Document.asString 4 rfl,
    get (Document.orNull Document.asString) 5 rfl, orNull_optionalText]
  rfl

end AcceptedPayload

/-! ## Attestations on the way -/

/-- `sign_pack`: the base64 text of a signature of the digest of these bytes. -/
def signed (sha256 : ByteArray → ByteArray) (sign : ByteArray → List UInt8)
    (bytes : VerificationPack → ByteArray) (pack : VerificationPack) : VerificationPack :=
  { pack with attestation := some (Python.b64encode (sign (sha256 (bytes pack)))) }

section Attestation

variable {ed25519 : Ed25519} {sha256 : ByteArray → ByteArray} {trustedPubkey : String}
  {valid : ByteArray → List UInt8 → Bool} {sign : ByteArray → List UInt8}

/-- The run time and `meta` have no part in what the gate does with a result. -/
theorem gateResult_received (gate : PolicyGate) (pack : VerificationPack) (info : Document F) :
    (gate.trusting ed25519 sha256 trustedPubkey).gateResult (pack.received doubles info) =
      (gate.trusting ed25519 sha256 trustedPubkey).gateResult pack := by
  have verified : verifyPack ed25519 sha256 (pack.received doubles info) trustedPubkey =
      verifyPack ed25519 sha256 pack trustedPubkey := by
    rw [verifyPack, verifyPack]
    rfl
  have judged : ∀ found, (gate.trusting ed25519 sha256 trustedPubkey).judge
      (pack.received doubles info) found =
        (gate.trusting ed25519 sha256 trustedPubkey).judge pack found := by
    intro found
    cases found with
    | none => rfl
    | some node =>
      rw [PolicyGate.judge, PolicyGate.judge, PolicyGate.trusting]
      dsimp only
      rw [verified]
      rfl
  rw [PolicyGate.gateResult_eq, PolicyGate.gateResult_eq]
  refine congrArg (Daemon.redis (.hgetall pack.capsuleId) >>= ·) (funext fun found => ?_)
  rw [PolicyGate.settle, PolicyGate.settle, judged]
  rfl

/-- A pack that was signed over some bytes verifies exactly when the gate rebuilds them. -/
theorem verifyPack_signed_iff (trusted : ed25519.verifyKey trustedPubkey = .ok valid)
    (length : ∀ digest, (sign digest).length = 64)
    (verifies : ∀ digest digest', digest.size = 32 → digest'.size = 32 →
      (valid digest (sign digest') = true ↔ digest = digest'))
    (digests : ∀ bytes, (sha256 bytes).size = 32) {bytes : VerificationPack → ByteArray}
    {pack : VerificationPack} (collisionFree : sha256 (bytes pack) =
      sha256 (canonicalSignatureBytes pack) → bytes pack = canonicalSignatureBytes pack) :
    verifyPack ed25519 sha256 (signed sha256 sign bytes pack) trustedPubkey = .ok true ↔
      bytes pack = canonicalSignatureBytes pack := by
  have nonempty : Python.b64encode (sign (sha256 (bytes pack))) ≠ "" :=
    Python.b64encode_ne_empty (List.ne_nil_of_length_eq_add_one (length _))
  have judged : verifyPack ed25519 sha256 (signed sha256 sign bytes pack) trustedPubkey =
      .ok (valid (sha256 (canonicalSignatureBytes pack)) (sign (sha256 (bytes pack)))) :=
    verifyPack_of_decodes trusted rfl nonempty (Python.b64decode_b64encode _) (length _)
  rw [judged, Except.ok.injEq, verifies _ _ (digests _) (digests _)]
  exact ⟨fun same => collisionFree same.symm, fun same => congrArg sha256 same.symm⟩

/-- Whatever pack is published, the gate reads one pack from Python's text and from serde's, and
does with it what it would do with the published one. What the simulator signed verifies then, and
what the hypervisor signed exactly when no signed string has DEL or a character above it. -/
theorem published_pack_is_gated (trusted : ed25519.verifyKey trustedPubkey = .ok valid)
    (length : ∀ digest, (sign digest).length = 64)
    (verifies : ∀ digest digest', digest.size = 32 → digest'.size = 32 →
      (valid digest (sign digest') = true ↔ digest = digest'))
    (digests : ∀ bytes, (sha256 bytes).size = 32) (gate : PolicyGate) (pack : VerificationPack)
    (collisionFree : sha256 (Hypervisor.encoded pack) = sha256 (canonicalSignatureBytes pack) →
      Hypervisor.encoded pack = canonicalSignatureBytes pack) (info : Document F) :
    (∃ read, VerificationPack.ofPayload doubles (pack.toJson doubles info) = some read ∧
      VerificationPack.ofPayload doubles (pack.toSerde doubles info) = some read ∧
      (gate.trusting ed25519 sha256 trustedPubkey).gateResult read =
        (gate.trusting ed25519 sha256 trustedPubkey).gateResult pack) ∧
    (∃ read, VerificationPack.ofPayload doubles
        ((signed sha256 sign canonicalSignatureBytes pack).toJson doubles info) = some read ∧
      verifyPack ed25519 sha256 read trustedPubkey = .ok true) ∧
    ∃ read, VerificationPack.ofPayload doubles
        ((signed sha256 sign Hypervisor.encoded pack).toSerde doubles info) = some read ∧
      (verifyPack ed25519 sha256 read trustedPubkey = .ok true ↔
        BelowDel pack.capsuleId ∧ (∀ text, pack.errorSignature = some text → BelowDel text) ∧
          BelowDel pack.inputsDigest ∧ BelowDel pack.runId) := by
  refine ⟨⟨pack.received doubles info, pack.ofPayload_toJson doubles info,
    pack.ofPayload_toSerde doubles info, gateResult_received doubles gate pack info⟩, ?_, ?_⟩
  · refine ⟨_, VerificationPack.ofPayload_toJson doubles _ info, ?_⟩
    exact (verifyPack_signed_iff trusted length verifies digests fun _ => rfl).mpr rfl
  · refine ⟨_, VerificationPack.ofPayload_toSerde doubles _ info, ?_⟩
    rw [← hypervisor_encoded_eq_canonical_iff]
    exact verifyPack_signed_iff trusted length verifies digests collisionFree

end Attestation

section Accented

/-- Signs a digest with its bytes, filled up with zeros. -/
def padded (digest : ByteArray) : List UInt8 :=
  (digest.data.toList ++ List.replicate 64 0).take 64

/-- The key that takes these signatures. -/
def paddedKey : Ed25519 where
  verifyKey _ := .ok fun digest signature => decide (padded digest = signature)

theorem length_padded (digest : ByteArray) : (padded digest).length = 64 := by
  rw [padded, List.length_take, List.length_append, List.length_replicate]
  omega

/-- Digests of thirty-two bytes are told apart with their padding, too. -/
theorem padded_inj {digest digest' : ByteArray} (size : digest.size = 32)
    (size' : digest'.size = 32) : padded digest = padded digest' ↔ digest = digest' := by
  refine ⟨fun same => ?_, fun same => congrArg padded same⟩
  have front := congrArg (List.take 32) same
  have length : digest.data.toList.length = 32 := size
  have length' : digest'.data.toList.length = 32 := size'
  rw [padded, padded, List.take_take, List.take_take, Nat.min_eq_left (by decide),
    List.take_left' length, List.take_left' length'] at front
  exact ByteArray.ext (Array.toList_inj.mp front)

/-- A digest that tells one text from all others. -/
def marking (bytes : ByteArray) : ByteArray :=
  ⟨Array.replicate 32 (if bytes.data = (canonicalSignatureBytes accentedPack).data then 1 else 0)⟩

theorem size_marking (bytes : ByteArray) : (marking bytes).size = 32 := Array.size_replicate

/-- Both publishers of one pack with an accent in a signed text: the simulator's signature verifies,
and the hypervisor's does not. -/
theorem published_pack_is_gated_accented :
    (∃ read, VerificationPack.ofPayload twoDoubles
        ((signed marking padded canonicalSignatureBytes accentedPack).toJson twoDoubles
          (.object [])) = some read ∧
      verifyPack paddedKey marking read "" = .ok true) ∧
    ∃ read, VerificationPack.ofPayload twoDoubles
        ((signed marking padded Hypervisor.encoded accentedPack).toSerde twoDoubles
          (.object [])) = some read ∧
      verifyPack paddedKey marking read "" ≠ .ok true := by
  have verifies : ∀ digest digest' : ByteArray, digest.size = 32 → digest'.size = 32 →
      (decide (padded digest = padded digest') = true ↔ digest = digest') := by
    intro digest digest' size size'
    rw [decide_eq_true_eq, padded_inj size size']
  have apart : marking (Hypervisor.encoded accentedPack) =
      marking (canonicalSignatureBytes accentedPack) →
        Hypervisor.encoded accentedPack = canonicalSignatureBytes accentedPack := by
    intro same
    by_contra other
    rw [marking, marking, if_neg (fun data => other (ByteArray.ext data)), if_pos rfl] at same
    cases congrArg (fun bytes : ByteArray => bytes.data[0]?) same
  have trusted : paddedKey.verifyKey "" =
      .ok fun digest signature => decide (padded digest = signature) := rfl
  obtain ⟨-, simulated, read, reads, iff⟩ := published_pack_is_gated twoDoubles trusted
    length_padded verifies size_marking Signing.ownGate accentedPack apart (.object [])
  refine ⟨simulated, read, reads, fun verified => ?_⟩
  have error := (iff.mp verified).2.1 "expected é" rfl
  exact absurd (error 'é' (by decide)) (by decide)

end Accented

end KernelOmega
