import KernelOmega.Executors.Overlay
import KernelOmega.Funnel.Verdict
import KernelOmega.Messages.Dispatch

/-!
# Between the hypervisor and the guest

The hypervisor sends the guest a part of the capsule as a JSON object and reads its answer into a
`GuestResponse`: the line the funnel printed, or the record of a payload that could not be
executed. The counts of an answer are `u32`s, and a number with a fraction is read as serde reads
it, so the times may come out different from what the funnel measured.
-/

namespace KernelOmega

open Json Python

variable {F : Type} (doubles : Doubles F)

/-! ## The payload -/

/-- `Payload` of the guest. -/
structure GuestPayload where
  code : String
  testCode : String
  sourceRelpath : String
  testRelpath : String
  repoSnapshot : List (String × String)
  deriving DecidableEq

namespace GuestPayload

/-- What of a capsule is sent to the guest. -/
def ofCapsule (capsule : TaskCapsule) : GuestPayload :=
  let sent := Hypervisor.payload capsule
  { code := sent.code
    testCode := sent.testCode
    sourceRelpath := sent.sourceRelpath
    testRelpath := sent.testRelpath
    repoSnapshot := sent.repoSnapshot }

/-- The `json!` object, its keys in order. -/
def attributes (payload : GuestPayload) : Attributes F :=
  [("code", .string payload.code), ("repo_snapshot", texts payload.repoSnapshot),
    ("source_relpath", .string payload.sourceRelpath), ("test_code", .string payload.testCode),
    ("test_relpath", .string payload.testRelpath)]

/-- What serde derives for `Payload`. -/
def read (document : Document F) : Option GuestPayload := do
  let members ← Serde.members ["code", "test_code", "source_relpath", "test_relpath",
    "repo_snapshot"] document
  let code ← Serde.required Document.asString "code" members
  let testCode ← Serde.required Document.asString "test_code" members
  let sourceRelpath ← Serde.orDefault "" Document.asString "source_relpath" members
  let testRelpath ← Serde.orDefault "" Document.asString "test_relpath" members
  let repoSnapshot ← Serde.orDefault [] Serde.texts "repo_snapshot" members
  return { code, testCode, sourceRelpath, testRelpath, repoSnapshot }

/-- The bytes of the payload. -/
def bytes (payload : GuestPayload) : ByteArray :=
  encodeUtf8 (toSerde doubles (.object payload.attributes))

/-- The snapshot is a `BTreeMap`. -/
def Sorted (payload : GuestPayload) : Prop :=
  (payload.repoSnapshot.map Prod.fst).Pairwise (· < ·)

/-- The guest reads its payload back, as its snapshot is sorted by the hypervisor already. -/
theorem read_attributes {payload : GuestPayload} (sorted : payload.Sorted) :
    read (.object (payload.attributes : Attributes F)) = some payload := by
  have distinct : (payload.repoSnapshot.map Prod.fst).Nodup :=
    sorted.imp fun less => ne_of_lt less
  have kept : sortMembers payload.repoSnapshot = payload.repoSnapshot :=
    sortMembers_eq ((List.pairwise_map.mp sorted).imp fun less => le_of_lt less)
  have unique : ((payload.attributes : Attributes F).map Prod.fst).Nodup := by
    simp [attributes]
  have text := fun i {name value} here => @Serde.required_at (Document F) _ _ _ name
    (.string value) unique (.refl _) i here Document.asString
  have textOr := fun i {name value} here => @Serde.orDefault_at (Document F) _ _ _ name
    (.string value) unique (.refl _) i here "" Document.asString
  have snapshot : Serde.orDefault [] Serde.texts "repo_snapshot" (payload.attributes : Attributes F) =
      some payload.repoSnapshot :=
    (Serde.orDefault_at unique (.refl _) 1 rfl [] Serde.texts).trans
      ((Serde.texts_of_distinct distinct).trans (congrArg some kept))
  rw [read, Serde.members, Option.bind_eq_bind, Option.bind_some, text 0 rfl, text 3 rfl,
    textOr 2 rfl, textOr 4 rfl, snapshot]
  rfl

/-- The guest reads the bytes of a payload as the payload. -/
theorem fromSlice_bytes (parse : List Char → F) {payload : GuestPayload} (sorted : payload.Sorted) :
    fromSlice parse read (payload.bytes doubles) = some payload := by
  have same : Layout.reread doubles.ryu parse (.object payload.attributes) =
      .object payload.attributes := by
    rw [Layout.reread, Document.map_object]
    simp only [attributes, List.map_cons, List.map_nil, texts, Document.map_object, List.map_map]
    rfl
  rw [bytes, toSerde, fromSlice_text, same]
  exact read_attributes sorted

end GuestPayload

/-! ## The answer -/

/-- The times of a run of the funnel, of which each stage that ran has one. -/
structure FunnelTimes (F : Type) where
  runtime : F
  stages : List (String × F)

namespace Funnel.Record

/-- The dictionary `execute_funnel` returns. -/
def attributes (record : Record) (times : FunnelTimes F) : Attributes F :=
  [("success", .bool record.success), ("tests_passed", .int record.testsPassed),
    ("tests_failed", .int record.testsFailed),
    ("error", optionalText (record.error.map String.ofList)), ("runtime", .float times.runtime),
    ("meta", .object [
      ("stages", .object (times.stages.map fun stage => (stage.1, .float stage.2))),
      ("failed_stage", optionalText record.failedStage),
      ("full_suite_attempted", .bool record.fullSuiteAttempted)])]

/-- What `main` of the funnel prints. -/
def stdout (record : Record) (times : FunnelTimes F) : ByteArray :=
  encodeUtf8 (dumps doubles (.object (record.attributes times)) ++ "\n")

end Funnel.Record

/-- `FailureResult` of the guest, with the message of the error. -/
def GuestAgent.failureAttributes (message : String) : Attributes F :=
  [("success", .bool false), ("tests_passed", .int 0), ("tests_failed", .int 1),
    ("error", .string message), ("runtime", .float (doubles.ofRat 0)), ("meta", .object [])]

/-- The guest's answer as the hypervisor reads it. Counts are unsigned, so a record with a negative
one is no response. -/
structure GuestResponse (F : Type) where
  success : Bool
  testsPassed : Nat
  testsFailed : Nat
  error : Option String
  runtime : F
  /-- `meta` -/
  info : Document F

namespace GuestResponse

/-- What serde derives for `GuestResponse`. -/
def read (document : Document F) : Option (GuestResponse F) := do
  let members ← Serde.members ["success", "tests_passed", "tests_failed", "error", "runtime",
    "meta"] document
  let success ← Serde.required Document.asBool "success" members
  let testsPassed ← Serde.required (Serde.unsigned 32) "tests_passed" members
  let testsFailed ← Serde.required (Serde.unsigned 32) "tests_failed" members
  let error ← Serde.orDefault none (Document.orNull Document.asString) "error" members
  let runtime ← Serde.required (Serde.float fun n => doubles.ofRat n) "runtime" members
  let info ← Serde.orDefault .null (fun document => some (Serde.value document)) "meta" members
  return { success, testsPassed, testsFailed, error, runtime, info }

/-- What of an answer reaches the pack; the run time of the pack is what the hypervisor measured. -/
def outcome (elapsed : Rat) (response : GuestResponse F) : TestOutcome where
  success := response.success
  testsPassed := response.testsPassed
  testsFailed := response.testsFailed
  error := response.error
  runtime := elapsed

/-- The members of an answer. -/
def members (success : Bool) (testsPassed testsFailed : Int) (error : Option String) (runtime : F)
    (info : Document F) : Attributes F :=
  [("success", .bool success), ("tests_passed", .int testsPassed),
    ("tests_failed", .int testsFailed), ("error", optionalText error), ("runtime", .float runtime),
    ("meta", info)]

variable {success : Bool} {testsPassed testsFailed : Int} {error : Option String} {runtime : F}
  {info : Document F}

/-- An answer is read exactly when its counts are `u32`s. -/
theorem read_members :
    read doubles (.object (members success testsPassed testsFailed error runtime info)) =
      if (0 ≤ testsPassed ∧ testsPassed < 2 ^ 32) ∧ 0 ≤ testsFailed ∧ testsFailed < 2 ^ 32 then
        some {
          success, error, runtime
          testsPassed := testsPassed.toNat
          testsFailed := testsFailed.toNat
          info := Serde.value info }
      else none := by
  have unique : ((members success testsPassed testsFailed error runtime info).map
      Prod.fst).Nodup := by
    simp [members]
  have count := fun i {name n} here => @Serde.required_at (Document F) _ _ _ name (.int n) unique
    (.refl _) i here (Serde.unsigned 32)
  have named : Serde.orDefault none (Document.orNull Document.asString) "error"
      (members success testsPassed testsFailed error runtime info) = some error :=
    (Serde.orDefault_at unique (.refl _) 3 rfl none _).trans (orNull_optionalText error)
  rw [read, Serde.members, Option.bind_eq_bind, Option.bind_some,
    Serde.required_at unique (.refl _) 0 rfl, count 1 rfl, count 2 rfl, named,
    Serde.required_at unique (.refl _) 4 rfl, Serde.orDefault_at unique (.refl _) 5 rfl]
  simp only [Document.asBool, Serde.unsigned, Serde.float]
  by_cases passed : 0 ≤ testsPassed ∧ testsPassed < 2 ^ 32
  · by_cases failed : 0 ≤ testsFailed ∧ testsFailed < 2 ^ 32
    · rw [if_pos passed, if_pos failed, if_pos ⟨passed, failed⟩]
      rfl
    · have neither : ¬((0 ≤ testsPassed ∧ testsPassed < 2 ^ 32) ∧
          0 ≤ testsFailed ∧ testsFailed < 2 ^ 32) := fun both => failed both.2
      rw [if_pos passed, if_neg failed, if_neg neither]
      rfl
  · have neither : ¬((0 ≤ testsPassed ∧ testsPassed < 2 ^ 32) ∧
        0 ≤ testsFailed ∧ testsFailed < 2 ^ 32) := fun both => passed both.1
    rw [if_neg passed, if_neg neither]
    rfl

/-- Read again, the answer has its runtime in the reader's numbers. -/
theorem reread_members {G : Type} (floats : Floats F) (parse : List Char → G) :
    Layout.reread floats parse
        (.object (members success testsPassed testsFailed error runtime info)) =
      .object (members success testsPassed testsFailed error (parse (floats.repr runtime))
        (Layout.reread floats parse info)) := by
  have text : (optionalText error).map (fun x => parse (floats.repr x)) = optionalText error := by
    cases error <;> rfl
  rw [Layout.reread, Document.map_object]
  simp only [members, List.map_cons, List.map_nil, text]
  rfl

end GuestResponse

end KernelOmega
