import KernelOmega.Messages.Contracts
import KernelOmega.Serde.Structs

/-!
# From the worker to the executor

A worker queues a request on the dispatch stream, the dispatcher reads it and sends its capsule
over a socket, and an executor reads the bytes: the simulator with `from_json`, the hypervisor
with what serde derives for its own `TaskCapsule`. Every reader comes to what was queued, the
snapshot in the order of its paths; the hypervisor exactly when the two sizes fit into a `usize`.
-/

namespace KernelOmega

open Json Python

variable {F : Type} (doubles : Doubles F)

/-! ## The dispatcher -/

namespace ExecutionRequest

variable (request : ExecutionRequest)

/-- The capsule of a request is built back from its own object. -/
theorem callClass_capsule :
    callClass TaskCapsule.fields
        (Document.object request.capsule.attributes : Document F).sortKeys =
      .ok request.sorted.capsule.attributes := by
  have inside := request.capsule.sortInside_attributes (F := F)
  rw [sortInside] at inside
  rw [Document.sortKeys_object, inside]
  exact callClass_of_perm rfl TaskCapsule.names_distinct (sortMembers_perm _)

/-- With the instance of the capsule in the place of its object, the members are the attributes. -/
theorem setItem_attributes :
    setItem "capsule" (.object request.sorted.capsule.attributes)
        (sortInside (request.attributes doubles)) = request.sorted.attributes doubles := by
  have core : (optionalCore request.preferredExecutorCore : Document F).sortKeys =
      optionalCore request.preferredExecutorCore := by
    cases request.preferredExecutorCore <;> rfl
  simp only [sortInside, attributes, setItem, List.map_cons, List.map_nil, core]
  rfl

/-- What the dispatcher reads off the stream. -/
theorem fromJson_toJson :
    fromJson doubles (request.toJson doubles) = .ok (request.sorted.attributes doubles) := by
  have distinct : ((request.attributes doubles).map Prod.fst).Nodup := names_distinct (F := F)
  have capsule : ("capsule", Document.object request.capsule.attributes) ∈
      request.attributes doubles := by
    simp [attributes]
  have found := item_sortMembers distinct capsule
  have called : callClass fields (.object (setItem "capsule"
      (.object request.sorted.capsule.attributes)
        (sortMembers (sortInside (request.attributes doubles))))) =
      .ok (request.sorted.attributes doubles) := by
    refine callClass_of_perm rfl names_distinct ?_
    rw [← setItem_attributes]
    exact (sortMembers_perm _).map _
  rw [fromJson, toJson, loads_dumpsSorted, Document.sortKeys_object]
  change ((item "capsule" _).bind fun value => _) = _
  rw [← sortInside, found, Except.bind]
  change ((callClass TaskCapsule.fields _).bind fun value => _) = _
  rw [callClass_capsule, Except.bind]
  exact called

end ExecutionRequest

/-! ## The hypervisor -/

/-- `serde_json::from_slice` into a type; `parse` is how serde reads the other numbers. -/
def fromSlice {α : Type} (parse : List Char → F) (read : Document F → Option α)
    (bytes : ByteArray) : Option α :=
  (decodeUtf8 bytes).bind fun text => (Json.loads parse text.toList).bind read

/-- A text is read as its document, with blanks behind it or without. -/
theorem fromSlice_write {α : Type} (parse : List Char → F) (read : Document F → Option α)
    (layout : Layout) (floats : Floats F) (document : Document F) {behind : List Char}
    (blank : ∀ c ∈ behind, Json.isBlank c = true) :
    fromSlice parse read (encodeUtf8 (String.ofList (layout.write floats 0 document ++ behind))) =
      read (Layout.reread floats parse document) := by
  have found : Json.loads parse ([] ++ (layout.write floats 0 document ++ behind)) =
      some (Layout.reread floats parse document) :=
    Layout.loads_write 0 document (List.forall_mem_nil _) blank
  rw [List.nil_append] at found
  rw [fromSlice, decodeUtf8_encodeUtf8, Option.bind_some, String.toList_ofList, found,
    Option.bind_some]

/-- A text without anything behind it is read as its document. -/
theorem fromSlice_text {α : Type} (parse : List Char → F) (read : Document F → Option α)
    (layout : Layout) (floats : Floats F) (document : Document F) :
    fromSlice parse read (encodeUtf8 (String.ofList (layout.write floats 0 document))) =
      read (Layout.reread floats parse document) := by
  have found := fromSlice_write parse read layout floats document (List.forall_mem_nil _)
  rwa [List.append_nil] at found

namespace Hypervisor

/-- What serde derives for `TaskCapsule`. -/
def readCapsule (document : Document F) : Option TaskCapsule := do
  let members ← Serde.members ["id", "tree_id", "source_path", "test_path", "code", "test_code",
    "run_id", "source_relpath", "test_relpath", "repo_snapshot", "repo_snapshot_digest",
    "repo_snapshot_bytes", "repo_snapshot_files"] document
  let id ← Serde.required Document.asString "id" members
  let treeId ← Serde.required Document.asString "tree_id" members
  let sourcePath ← Serde.required Document.asString "source_path" members
  let testPath ← Serde.required Document.asString "test_path" members
  let code ← Serde.required Document.asString "code" members
  let testCode ← Serde.required Document.asString "test_code" members
  let runId ← Serde.orDefault "" Document.asString "run_id" members
  let sourceRelpath ← Serde.orDefault "" Document.asString "source_relpath" members
  let testRelpath ← Serde.orDefault "" Document.asString "test_relpath" members
  let repoSnapshot ← Serde.orDefault [] Serde.texts "repo_snapshot" members
  let repoSnapshotDigest ← Serde.orDefault "" Document.asString "repo_snapshot_digest" members
  let repoSnapshotBytes ← Serde.orDefault 0 (Serde.unsigned 64) "repo_snapshot_bytes" members
  let repoSnapshotFiles ← Serde.orDefault 0 (Serde.unsigned 64) "repo_snapshot_files" members
  return {
    id, treeId, sourcePath, testPath, code, testCode, runId, sourceRelpath, testRelpath
    repoSnapshot, repoSnapshotDigest
    repoSnapshotBytes := repoSnapshotBytes
    repoSnapshotFiles := repoSnapshotFiles }

/-- Both sizes fit into a `usize`. -/
def Fits (capsule : TaskCapsule) : Prop :=
  (0 ≤ capsule.repoSnapshotBytes ∧ capsule.repoSnapshotBytes < 2 ^ 64) ∧
    0 ≤ capsule.repoSnapshotFiles ∧ capsule.repoSnapshotFiles < 2 ^ 64

instance (capsule : TaskCapsule) : Decidable (Fits capsule) :=
  inferInstanceAs (Decidable (_ ∧ _))

variable {capsule : TaskCapsule} {members : Attributes F}

/-- A capsule is read from its attributes in any order, exactly when its sizes fit. -/
theorem readCapsule_of_perm (distinct : (capsule.repoSnapshot.map Prod.fst).Nodup)
    (perm : members.Perm capsule.attributes) :
    readCapsule (.object members) = if Fits capsule then some capsule.sorted else none := by
  have unique : ((capsule.attributes : Attributes F).map Prod.fst).Nodup :=
    TaskCapsule.names_distinct (F := F)
  have text := fun i {name value} here =>
    @Serde.required_at (Document F) _ _ _ name (.string value) unique perm i here Document.asString
  have textOr := fun i {name value} here => @Serde.orDefault_at (Document F) _ _ _ name
    (.string value) unique perm i here "" Document.asString
  have size := fun i {name n} here => @Serde.orDefault_at (Document F) _ _ _ name (.int n) unique
    perm i here 0 (Serde.unsigned 64)
  have snapshot : Serde.orDefault [] Serde.texts "repo_snapshot" members =
      some (sortMembers capsule.repoSnapshot) :=
    (Serde.orDefault_at unique perm 9 rfl [] Serde.texts).trans (Serde.texts_of_distinct distinct)
  rw [readCapsule, Serde.members, Option.bind_eq_bind, Option.bind_some, text 0 rfl, text 1 rfl,
    text 2 rfl, text 3 rfl, text 4 rfl, text 5 rfl, textOr 6 rfl, textOr 7 rfl, textOr 8 rfl,
    snapshot, textOr 10 rfl, size 11 rfl, size 12 rfl]
  simp only [Document.asString, Serde.unsigned]
  simp only [Option.bind_eq_bind, Option.bind_some]
  by_cases bytes : 0 ≤ capsule.repoSnapshotBytes ∧ capsule.repoSnapshotBytes < 2 ^ 64
  · by_cases files : 0 ≤ capsule.repoSnapshotFiles ∧ capsule.repoSnapshotFiles < 2 ^ 64
    · have fits : Fits capsule := ⟨bytes, files⟩
      simp only [if_pos bytes, if_pos files, if_pos fits, Option.bind_some,
        Int.toNat_of_nonneg bytes.1, Int.toNat_of_nonneg files.1]
      rfl
    · have fits : ¬Fits capsule := fun fits => files fits.2
      simp only [if_pos bytes, if_neg files, if_neg fits, Option.bind_some, Option.bind_none]
  · have fits : ¬Fits capsule := fun fits => bytes fits.1
    simp only [if_neg bytes, if_neg fits, Option.bind_none]

/-- The snapshot of a capsule that was read is a `BTreeMap`. -/
theorem readCapsule_sorted {document : Document F} (read : readCapsule document = some capsule) :
    (capsule.repoSnapshot.map Prod.fst).Pairwise (· < ·) := by
  rw [readCapsule] at read
  obtain ⟨members, -, read⟩ := Option.bind_eq_some_iff.mp read
  iterate 9 obtain ⟨_, -, read⟩ := Option.bind_eq_some_iff.mp read
  obtain ⟨repoSnapshot, snapshot, read⟩ := Option.bind_eq_some_iff.mp read
  iterate 3 obtain ⟨_, -, read⟩ := Option.bind_eq_some_iff.mp read
  obtain rfl := Option.some.inj read
  exact Serde.orDefault_texts_sorted snapshot

/-- The numbers of a capsule are integers. -/
theorem reread_attributes {G : Type} (floats : Floats F) (parse : List Char → G)
    (capsule : TaskCapsule) :
    Layout.reread floats parse (.object capsule.attributes) = .object capsule.attributes := by
  rw [Layout.reread, Document.map_object]
  simp only [TaskCapsule.attributes, List.map_cons, List.map_nil, texts, Document.map_object,
    List.map_map]
  rfl

/-- The hypervisor reads a capsule that Python wrote, exactly when its sizes fit. -/
theorem fromSlice_toJson (parse : List Char → F)
    (distinct : (capsule.repoSnapshot.map Prod.fst).Nodup) :
    fromSlice parse readCapsule (encodeUtf8 (capsule.toJson doubles)) =
      if Fits capsule then some capsule.sorted else none := by
  have same : Layout.reread doubles.repr parse (Document.object capsule.attributes).sortKeys =
      .object (sortMembers (sortInside capsule.attributes)) := by
    rw [Layout.reread, Document.sortKeys_map, ← Layout.reread, reread_attributes,
      Document.sortKeys_object]
    rfl
  have distinct' := TaskCapsule.sorted_distinct distinct
  rw [TaskCapsule.toJson, dumpsSorted, dumps, fromSlice_text, same,
    TaskCapsule.sortInside_attributes, readCapsule_of_perm distinct' (sortMembers_perm _),
    capsule.sorted_sorted]
  rfl

end Hypervisor

/-! ## The whole way -/

/-- What the dispatcher sends for a payload of its stream: the bytes of the capsule inside it. -/
def Dispatcher.sentFor (payload : String) : Except PayloadError ByteArray := do
  let request ← ExecutionRequest.fromJson doubles payload
  let capsule ← ExecutionRequest.item "capsule" request
  return encodeUtf8 (dumpsSorted doubles capsule)

/-- Whatever a worker queues is sent on, and either executor reads the capsule that was queued with
its snapshot in order: the simulator always, the hypervisor exactly when both sizes fit into a
`usize`. -/
theorem queued_capsule_arrives (parse : List Char → F) (request : ExecutionRequest)
    (distinct : (request.capsule.repoSnapshot.map Prod.fst).Nodup) :
    ExecutionRequest.fromJson doubles (request.toJson doubles) =
        .ok (request.sorted.attributes doubles) ∧
      ∃ bytes, Dispatcher.sentFor doubles (request.toJson doubles) = .ok bytes ∧
        fromBytes doubles TaskCapsule.fields bytes = .ok request.capsule.sorted.attributes ∧
        fromSlice parse Hypervisor.readCapsule bytes =
          if Hypervisor.Fits request.capsule then some request.capsule.sorted else none := by
  have distinct' := TaskCapsule.sorted_distinct distinct
  have arrives := Hypervisor.fromSlice_toJson doubles parse distinct'
  have reads := TaskCapsule.fromJson_toJson doubles request.capsule.sorted
  rw [TaskCapsule.sorted_sorted] at arrives reads
  refine ⟨ExecutionRequest.fromJson_toJson doubles request,
    encodeUtf8 (request.capsule.sorted.toJson doubles), ?_, ?_, arrives⟩
  · rw [Dispatcher.sentFor, ExecutionRequest.fromJson_toJson]
    rfl
  · rw [fromBytes_encodeUtf8]
    exact reads

section TwoFiles

def twoFiles : TaskCapsule where
  id := "omega:tree:task_1:c"
  treeId := "task_1"
  sourcePath := "/repo/src/algo.py"
  testPath := "/repo/tests/test_algo.py"
  code := "print(1 <= 2)\n"
  testCode := "assert True\n"
  runId := "run_1"
  repoSnapshot := [("tests/test_algo.py", "assert True\n"), ("src/algo.py", "print(1 < 2)\n")]
  repoSnapshotBytes := 25
  repoSnapshotFiles := 2

def twoFilesRequest : ExecutionRequest where
  runId := "run_1"
  candidateId := "omega:tree:task_1:c"
  taskId := "task_1"
  executorCore := 3
  capsule := twoFiles
  createdAt := 0
  preferredExecutorCore := some 3

theorem queued_capsule_arrives_two_files :
    ∃ bytes, Dispatcher.sentFor twoDoubles (twoFilesRequest.toJson twoDoubles) = .ok bytes ∧
      fromSlice twoDoubles.parse Hypervisor.readCapsule bytes = some twoFiles.sorted := by
  obtain ⟨_, bytes, sent, -, reads⟩ :=
    queued_capsule_arrives twoDoubles twoDoubles.parse twoFilesRequest (by decide)
  exact ⟨bytes, sent, reads.trans (if_pos (by decide))⟩

end TwoFiles

end KernelOmega
