import KernelOmega.Dispatcher
import KernelOmega.Json.Value
import KernelOmega.Python.TextFile

/-!
# The signed bytes of a pack

`control_plane/signatures.py` and `sign_pack` of the hypervisor write eight fields of a pack as a
compact JSON object, in the order of their keys, and sign the digest of its UTF-8 bytes. Python's
`json.dumps` writes ASCII and escapes the rest; serde's compact formatter escapes what it has to.

Either text has the eight fields in it. The two texts are one exactly for the packs whose strings
stay below DEL.
-/

namespace KernelOmega

-- A list is gone through before all of `Char` is.
attribute [local instance (high)] List.decidableBAll

/-- An optional string, `None` and `Value::Null` when there is none. -/
def optionalString : Option String → Json.Value
  | some value => .string value
  | none => .null

/-- The fields under the signature, in the order of their keys. -/
def signedFields (pack : VerificationPack) : List (String × Json.Value) :=
  [("capsule_id", .string pack.capsuleId),
   ("error_signature", optionalString pack.errorSignature),
   ("hardware_isolated", .bool pack.hardwareIsolated),
   ("inputs_digest", .string pack.inputsDigest),
   ("run_id", .string pack.runId),
   ("success", .bool pack.success),
   ("tests_failed", .int pack.testsFailed),
   ("tests_passed", .int pack.testsPassed)]

/-- `sort_keys` and the `BTreeMap` have nothing to move. -/
theorem signedFields_sorted (pack : VerificationPack) :
    ((signedFields pack).map Prod.fst).Pairwise (· < ·) := by
  show ["capsule_id", "error_signature", "hardware_isolated", "inputs_digest", "run_id", "success",
    "tests_failed", "tests_passed"].Pairwise (· < ·)
  decide

/-- `canonical_signature_bytes`. -/
def canonicalSignatureBytes (pack : VerificationPack) : ByteArray :=
  Python.encodeUtf8 (String.ofList (Json.object Json.ascii (signedFields pack)))

/-- What `sign_pack` of the hypervisor encodes before it hashes. -/
def Hypervisor.encoded (pack : VerificationPack) : ByteArray :=
  Python.encodeUtf8 (String.ofList (Json.object Json.minimal (signedFields pack)))

/-! ## What the bytes say -/

theorem encoded_inj {text text' : List Char}
    (same : Python.encodeUtf8 (String.ofList text) = Python.encodeUtf8 (String.ofList text')) :
    text = text' :=
  String.ofList_injective (Python.encodeUtf8_injective same)

theorem canonicalSignatureBytes_eq_iff {pack pack' : VerificationPack} :
    canonicalSignatureBytes pack = canonicalSignatureBytes pack' ↔
      signedFields pack = signedFields pack' := by
  refine ⟨fun same => Json.object_injective (encoded_inj same), fun same => ?_⟩
  rw [canonicalSignatureBytes, canonicalSignatureBytes, same]

theorem Hypervisor.encoded_eq_iff {pack pack' : VerificationPack} :
    Hypervisor.encoded pack = Hypervisor.encoded pack' ↔ signedFields pack = signedFields pack' := by
  refine ⟨fun same => Json.object_injective (encoded_inj same), fun same => ?_⟩
  rw [Hypervisor.encoded, Hypervisor.encoded, same]

theorem optionalString_injective : Function.Injective optionalString := by
  intro value value' same
  cases value with
  | none =>
    cases value' with
    | none => rfl
    | some text' => cases same
  | some text =>
    cases value' with
    | none => cases same
    | some text' => rw [Json.Value.string.inj same]

/-- Two packs agree on what is signed. -/
structure SameSigned (pack pack' : VerificationPack) : Prop where
  capsuleId : pack.capsuleId = pack'.capsuleId
  errorSignature : pack.errorSignature = pack'.errorSignature
  hardwareIsolated : pack.hardwareIsolated = pack'.hardwareIsolated
  inputsDigest : pack.inputsDigest = pack'.inputsDigest
  runId : pack.runId = pack'.runId
  success : pack.success = pack'.success
  testsFailed : pack.testsFailed = pack'.testsFailed
  testsPassed : pack.testsPassed = pack'.testsPassed

/-- Two packs have the same signed fields if they agree on every field that is signed. -/
theorem signedFields_eq_iff {pack pack' : VerificationPack} :
    signedFields pack = signedFields pack' ↔ SameSigned pack pack' := by
  constructor
  · intro same
    simp only [signedFields, List.cons.injEq, Prod.mk.injEq, true_and, and_true,
      Json.Value.string.injEq, Json.Value.bool.injEq, Json.Value.int.injEq] at same
    obtain ⟨capsuleId, errorSignature, hardwareIsolated, inputsDigest, runId, success, testsFailed,
      testsPassed⟩ := same
    exact {
      capsuleId := capsuleId
      errorSignature := optionalString_injective errorSignature
      hardwareIsolated := hardwareIsolated
      inputsDigest := inputsDigest
      runId := runId
      success := success
      testsFailed := testsFailed
      testsPassed := testsPassed }
  · intro same
    rw [signedFields, signedFields, same.capsuleId, same.errorSignature, same.hardwareIsolated,
      same.inputsDigest, same.runId, same.success, same.testsFailed, same.testsPassed]

/-- A pack that passed is signed for what another pack says: so that one passed. -/
theorem SameSigned.passed {pack pack' : VerificationPack} (same : SameSigned pack pack') :
    pack.passed = pack'.passed := by
  rw [VerificationPack.passed, VerificationPack.passed, same.success, same.testsFailed]

/-! ## The two executors -/

/-- DEL and the characters above it do not occur in the text. -/
def BelowDel (text : String) : Prop := ∀ c ∈ text.toList, c.toNat < 0x7f

theorem low_optionalString (value : Option String) :
    (optionalString value).Low ↔ ∀ text, value = some text → BelowDel text := by
  cases value with
  | none =>
    refine ⟨fun _ text there => ?_, fun _ => trivial⟩
    cases there
  | some text =>
    refine ⟨fun low text' there => ?_, fun low => low text rfl⟩
    obtain rfl := Option.some.inj there
    exact low

theorem signedFields_keys (pack : VerificationPack) :
    ∀ field ∈ signedFields pack, ∀ c ∈ field.1.toList, c.toNat < 0x7f := by
  intro field mem
  have key : field.1 ∈ (signedFields pack).map Prod.fst := List.mem_map_of_mem mem
  have keys : ∀ key ∈ ["capsule_id", "error_signature", "hardware_isolated", "inputs_digest",
      "run_id", "success", "tests_failed", "tests_passed"],
      ∀ c ∈ key.toList, c.toNat < 0x7f := by
    decide
  exact keys field.1 key

/-- The texts that can hold a character above ASCII are those four. -/
theorem signedFields_low_iff (pack : VerificationPack) :
    (∀ field ∈ signedFields pack, field.2.Low) ↔
      BelowDel pack.capsuleId ∧ (∀ text, pack.errorSignature = some text → BelowDel text) ∧
        BelowDel pack.inputsDigest ∧ BelowDel pack.runId := by
  rw [← low_optionalString]
  simp only [signedFields, List.forall_mem_cons]
  constructor
  · rintro ⟨capsuleId, errorSignature, -, inputsDigest, runId, -⟩
    exact ⟨capsuleId, errorSignature, inputsDigest, runId⟩
  · rintro ⟨capsuleId, errorSignature, inputsDigest, runId⟩
    refine ⟨capsuleId, errorSignature, trivial, inputsDigest, runId, trivial, trivial, trivial, ?_⟩
    exact List.forall_mem_nil _

/-- Both encoders write the same bytes exactly when no signed field has a character of `DEL` or
above. -/
theorem encoded_eq_canonical_iff_low (pack : VerificationPack) :
    Hypervisor.encoded pack = canonicalSignatureBytes pack ↔
      ∀ field ∈ signedFields pack, field.2.Low := by
  rw [← Json.object_ascii_eq_minimal_iff (signedFields_keys pack)]
  constructor
  · exact fun same => encoded_inj same.symm
  · intro same
    rw [Hypervisor.encoded, canonicalSignatureBytes, same]

/-- The hypervisor and the gate hash the same bytes exactly when no string of the pack has DEL
or a character above it. -/
theorem hypervisor_encoded_eq_canonical_iff (pack : VerificationPack) :
    Hypervisor.encoded pack = canonicalSignatureBytes pack ↔
      BelowDel pack.capsuleId ∧ (∀ text, pack.errorSignature = some text → BelowDel text) ∧
        BelowDel pack.inputsDigest ∧ BelowDel pack.runId := by
  rw [encoded_eq_canonical_iff_low, signedFields_low_iff]

/-- A failed assertion with an accented letter in its message. -/
def accentedPack : VerificationPack where
  capsuleId := "omega:tree:t:1"
  runId := "run_1"
  success := false
  runtime := 1
  nodeId := "core_0"
  hardwareIsolated := true
  inputsDigest := "ab"
  testsPassed := 0
  testsFailed := 1
  errorSignature := some "expected é"

/-- The gate hashes other bytes for such a pack than the hypervisor signed. -/
theorem hypervisor_encoded_ne_canonical :
    ¬ ∀ pack, Hypervisor.encoded pack = canonicalSignatureBytes pack := by
  intro all
  have low := (encoded_eq_canonical_iff_low accentedPack).mp (all accentedPack)
  have error := ((signedFields_low_iff accentedPack).mp low).2.1 "expected é" rfl
  exact absurd (error 'é' (by decide)) (by decide)

end KernelOmega
