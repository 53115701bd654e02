import KernelOmega.Contracts
import KernelOmega.Messages.Payloads
import KernelOmega.Planning

/-!
# The contracts as payloads

The dataclasses of `control_plane/contracts.py` and `TaskPlan` of `control_plane/planning.py`:
their fields with the defaults, the attributes of an instance as `asdict` lists them, and what
`from_json` makes of what `to_json` wrote. It comes to the same attributes, but for the order
inside `repo_snapshot` and `meta`, which is that of the keys.
-/

namespace KernelOmega

open Json Python

section Documents

variable {F : Type}

/-- An optional string, `null` when there is none. -/
def optionalText : Option String → Document F
  | some text => .string text
  | none => .null

def integers (items : List Int) : Document F := .array (items.map Document.int)

/-- A `dict[str, str]`. -/
def texts (entries : List (String × String)) : Document F :=
  .object (entries.map fun entry => (entry.1, .string entry.2))

theorem sortKeys_optionalText (value : Option String) :
    (optionalText value : Document F).sortKeys = optionalText value := by
  cases value <;> rfl

theorem orNull_optionalText (value : Option String) :
    (optionalText value : Document F).orNull Document.asString = some value := by
  cases value <;> rfl

theorem sortKeys_integers (items : List Int) :
    (integers items : Document F).sortKeys = integers items := by
  rw [integers, Document.sortKeys_array, List.map_map]
  rfl

/-- Sorting a map of texts. -/
theorem sortKeys_texts (entries : List (String × String)) :
    (texts entries : Document F).sortKeys = texts (sortMembers entries) := by
  have inside : (entries.map fun entry => (entry.1, (Document.string entry.2 : Document F))).map
      (fun member => (member.1, member.2.sortKeys)) =
        entries.map fun entry => (entry.1, .string entry.2) := by
    rw [List.map_map]
    rfl
  have sorted := sortMembers_map entries fun text => (Document.string text : Document F)
  rw [texts, Document.sortKeys_object, inside, texts, sorted]

end Documents

variable {F : Type} (doubles : Doubles F)

/-! ## Task capsules -/

namespace TaskCapsule

/-- The fields of `TaskCapsule`, with their defaults. -/
def fields : List (Python.Field (Document F)) :=
  [⟨"id", none⟩, ⟨"tree_id", none⟩, ⟨"source_path", none⟩, ⟨"test_path", none⟩, ⟨"code", none⟩,
    ⟨"test_code", none⟩, ⟨"run_id", some (.string "")⟩, ⟨"source_relpath", some (.string "")⟩,
    ⟨"test_relpath", some (.string "")⟩, ⟨"repo_snapshot", some (.object [])⟩,
    ⟨"repo_snapshot_digest", some (.string "")⟩, ⟨"repo_snapshot_bytes", some (.int 0)⟩,
    ⟨"repo_snapshot_files", some (.int 0)⟩]

/-- `asdict` -/
def attributes (capsule : TaskCapsule) : Attributes F :=
  [("id", .string capsule.id), ("tree_id", .string capsule.treeId),
    ("source_path", .string capsule.sourcePath), ("test_path", .string capsule.testPath),
    ("code", .string capsule.code), ("test_code", .string capsule.testCode),
    ("run_id", .string capsule.runId), ("source_relpath", .string capsule.sourceRelpath),
    ("test_relpath", .string capsule.testRelpath), ("repo_snapshot", texts capsule.repoSnapshot),
    ("repo_snapshot_digest", .string capsule.repoSnapshotDigest),
    ("repo_snapshot_bytes", .int capsule.repoSnapshotBytes),
    ("repo_snapshot_files", .int capsule.repoSnapshotFiles)]

def toJson (capsule : TaskCapsule) : String := dumpsSorted doubles (.object capsule.attributes)

def fromJson (text : String) : Except PayloadError (Attributes F) :=
  KernelOmega.fromJson doubles fields text

/-- The capsule with its snapshot in the order of the paths. -/
def sorted (capsule : TaskCapsule) : TaskCapsule :=
  { capsule with repoSnapshot := sortMembers capsule.repoSnapshot }

theorem names_distinct : ((fields : List (Python.Field (Document F))).map Field.name).Nodup := by
  simp [fields]

theorem sortInside_attributes (capsule : TaskCapsule) :
    sortInside (capsule.attributes : Attributes F) = capsule.sorted.attributes := by
  simp only [sortInside, attributes, List.map_cons, List.map_nil, sortKeys_texts]
  rfl

theorem sorted_sorted (capsule : TaskCapsule) : capsule.sorted.sorted = capsule.sorted := by
  rw [sorted, sorted, sortMembers_again]

theorem sorted_distinct {capsule : TaskCapsule}
    (distinct : (capsule.repoSnapshot.map Prod.fst).Nodup) :
    (capsule.sorted.repoSnapshot.map Prod.fst).Nodup :=
  ((sortMembers_perm capsule.repoSnapshot).map Prod.fst).nodup_iff.mpr distinct

theorem fromJson_toJson (capsule : TaskCapsule) :
    fromJson doubles (capsule.toJson doubles) = .ok capsule.sorted.attributes := by
  rw [fromJson, toJson, fromJson_dumpsSorted rfl names_distinct, sortInside_attributes]

end TaskCapsule

/-! ## Execution requests -/

namespace ExecutionRequest

/-- The fields of `ExecutionRequest`. -/
def fields : List (Python.Field (Document F)) :=
  [⟨"run_id", none⟩, ⟨"candidate_id", none⟩, ⟨"task_id", none⟩, ⟨"executor_core", none⟩,
    ⟨"capsule", none⟩, ⟨"created_at", none⟩, ⟨"preferred_executor_core", some .null⟩]

def optionalCore : Option Nat → Document F
  | some core => .int core
  | none => .null

/-- `asdict`, which goes into the capsule. -/
def attributes (request : ExecutionRequest) : Attributes F :=
  [("run_id", .string request.runId), ("candidate_id", .string request.candidateId),
    ("task_id", .string request.taskId), ("executor_core", .int request.executorCore),
    ("capsule", .object request.capsule.attributes),
    ("created_at", .float (doubles.ofRat request.createdAt)),
    ("preferred_executor_core", optionalCore request.preferredExecutorCore)]

def toJson (request : ExecutionRequest) : String :=
  dumpsSorted doubles (.object (request.attributes doubles))

/-- `payload[key]` -/
def item (key : String) (members : Attributes F) : Except PayloadError (Document F) :=
  match lastValue key members with
  | some value => .ok value
  | none => .error (.keyError key)

/-- In an object with its keys in order a key has what it had. -/
theorem item_sortMembers {members : Attributes F} (distinct : (members.map Prod.fst).Nodup)
    {key : String} {value : Document F} (mem : (key, value) ∈ members) :
    item key (sortMembers (sortInside members)) = .ok value.sortKeys := by
  have perm := sortMembers_perm (sortInside members)
  have unique : ((sortMembers (sortInside members)).map Prod.fst).Nodup := by
    rw [(perm.map Prod.fst).nodup_iff, sortInside_names]
    exact distinct
  have there : (key, value.sortKeys) ∈ sortMembers (sortInside members) :=
    perm.mem_iff.mpr (List.mem_map.mpr ⟨(key, value), mem, rfl⟩)
  rw [item, lastValue_of_mem unique there]

/-- `payload[key] = value` for a key that is there. -/
def setItem (key : String) (value : Document F) (members : Attributes F) : Attributes F :=
  members.map fun member => if member.1 = key then (key, value) else member

/-- An instance inside another one is the object of its attributes. -/
def fromJson (text : String) : Except PayloadError (Attributes F) := do
  let members ← keywords (← loads doubles text)
  let capsule ← callClass TaskCapsule.fields (← item "capsule" members)
  callClass fields (.object (setItem "capsule" (.object capsule) members))

/-- The request with the snapshot of its capsule in the order of the paths. -/
def sorted (request : ExecutionRequest) : ExecutionRequest :=
  { request with capsule := request.capsule.sorted }

theorem names_distinct : ((fields : List (Python.Field (Document F))).map Field.name).Nodup := by
  simp [fields]

end ExecutionRequest

/-! ## Verification packs -/

namespace VerificationPack

/-- The fields of `VerificationPack`. -/
def fields : List (Python.Field (Document F)) :=
  [⟨"capsule_id", none⟩, ⟨"run_id", none⟩, ⟨"success", none⟩, ⟨"runtime", none⟩,
    ⟨"node_id", none⟩, ⟨"hardware_isolated", none⟩, ⟨"inputs_digest", none⟩,
    ⟨"tests_passed", none⟩, ⟨"tests_failed", none⟩, ⟨"error_signature", some .null⟩,
    ⟨"attestation", some .null⟩, ⟨"artifact_uri", some .null⟩, ⟨"meta", some (.object [])⟩]

/-- `asdict` of a pack with the free-form `meta` beside it. Serde writes the fields in this order
too. -/
def attributes (pack : VerificationPack) (info : Document F) : Attributes F :=
  [("capsule_id", .string pack.capsuleId), ("run_id", .string pack.runId),
    ("success", .bool pack.success), ("runtime", .float (doubles.ofRat pack.runtime)),
    ("node_id", .string pack.nodeId), ("hardware_isolated", .bool pack.hardwareIsolated),
    ("inputs_digest", .string pack.inputsDigest), ("tests_passed", .int pack.testsPassed),
    ("tests_failed", .int pack.testsFailed),
    ("error_signature", optionalText pack.errorSignature),
    ("attestation", optionalText pack.attestation),
    ("artifact_uri", optionalText pack.artifactUri), ("meta", info)]

def toJson (pack : VerificationPack) (info : Document F) : String :=
  dumpsSorted doubles (.object (pack.attributes doubles info))

/-- `serde_json::to_string(pack)` of the hypervisor. -/
def toSerde (pack : VerificationPack) (info : Document F) : String :=
  KernelOmega.toSerde doubles (.object (pack.attributes doubles info))

def fromJson (text : String) : Except PayloadError (Attributes F) :=
  KernelOmega.fromJson doubles fields text

theorem names_distinct : ((fields : List (Python.Field (Document F))).map Field.name).Nodup := by
  simp [fields]

theorem sortInside_attributes (pack : VerificationPack) (info : Document F) :
    sortInside (pack.attributes doubles info) = pack.attributes doubles info.sortKeys := by
  simp only [sortInside, attributes, List.map_cons, List.map_nil, sortKeys_optionalText]
  rfl

theorem fromJson_toJson (pack : VerificationPack) (info : Document F) :
    fromJson doubles (pack.toJson doubles info) = .ok (pack.attributes doubles info.sortKeys) := by
  rw [fromJson, toJson, fromJson_dumpsSorted rfl names_distinct, sortInside_attributes]

theorem fromJson_toSerde (pack : VerificationPack) (info : Document F) :
    fromJson doubles (pack.toSerde doubles info) = .ok (pack.attributes doubles info) :=
  KernelOmega.fromJson_toSerde rfl names_distinct

end VerificationPack

/-! ## Task plans -/

namespace TaskPlan

/-- The fields of `TaskPlan`, of which none has a default. -/
def fields : List (Python.Field (Document F)) :=
  [⟨"strategy", none⟩, ⟨"summary", none⟩, ⟨"focus_lines", none⟩, ⟨"fallback_lines", none⟩,
    ⟨"ucb_exploration", none⟩, ⟨"max_children", none⟩, ⟨"max_capsules", none⟩,
    ⟨"max_depth", none⟩]

/-- `asdict` -/
def attributes (plan : TaskPlan) : Attributes F :=
  [("strategy", .string plan.strategy), ("summary", .string plan.summary),
    ("focus_lines", integers plan.focusLines), ("fallback_lines", integers plan.fallbackLines),
    ("ucb_exploration", .float (doubles.ofRat plan.ucbExploration)),
    ("max_children", .int plan.maxChildren), ("max_capsules", .int plan.maxCapsules),
    ("max_depth", .int plan.maxDepth)]

def toJson (plan : TaskPlan) : String := dumpsSorted doubles (.object (plan.attributes doubles))

def fromJson (text : String) : Except PayloadError (Attributes F) :=
  KernelOmega.fromJson doubles fields text

theorem names_distinct : ((fields : List (Python.Field (Document F))).map Field.name).Nodup := by
  simp [fields]

theorem sortInside_attributes (plan : TaskPlan) :
    sortInside (plan.attributes doubles) = plan.attributes doubles := by
  simp only [sortInside, attributes, List.map_cons, List.map_nil, sortKeys_integers]
  rfl

theorem fromJson_toJson (plan : TaskPlan) :
    fromJson doubles (plan.toJson doubles) = .ok (plan.attributes doubles) := by
  rw [fromJson, toJson, fromJson_dumpsSorted rfl names_distinct, sortInside_attributes]

end TaskPlan

end KernelOmega
