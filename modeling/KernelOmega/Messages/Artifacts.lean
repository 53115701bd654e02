import KernelOmega.Messages.Contracts
import KernelOmega.Sha256
import KernelOmega.Store.Addressed

/-!
# The artifact store

`control_plane/cas_client.py`: a bundle is stored under the digest of its text, in a bucket if the
object store takes it and else in a file. The calls to the object store may raise at every point,
also after they have had their effect, and a write of a file may break off. Since a name goes with
one text, what a location has once held it goes on holding, but for a later write of the same
bundle that breaks off. So the bundle of an execution is there to tell what was executed.
-/

namespace KernelOmega

open Json Python Addressed

/-- What `put_bundle` returns: a location in a bucket or the path of a file. -/
inductive ArtifactUri (Dir : Type) where
  | object (bucket key : String)
  | file (parent : Dir) (name : String)
  deriving DecidableEq

/-- What `put_bundle` raises. -/
inductive ArtifactError where
  | client
  | mkdir
  | writeBytes

/-- How the calls of one `put_bundle` end. -/
structure ArtifactCalls where
  /-- `boto3.client` returns. -/
  client : Bool := true
  /-- The names `list_buckets` returns, unless it raises. -/
  listBuckets : Option (List String) := none
  createBucket : Bool := true
  putObject : Bool := true
  /-- A `put_object` that raises has stored the object. -/
  storedAnyway : Bool := false
  mkdir : Bool := true
  /-- How much is written before `write_bytes` raises, if it does. -/
  writeBytes : Option Nat := none

/-- The store with its configuration. `boto3` is tried first, and the local directory is the
fallback. -/
structure ArtifactStore (Dir : Type) where
  sha256 : Sha256
  casBucket : String
  /-- `boto3` could be imported. -/
  boto3 : Bool
  /-- The directory of a namespace, under `local_root`. -/
  localDir : String → Dir

namespace ArtifactStore

variable {Dir F : Type} (store : ArtifactStore Dir) (doubles : Doubles F)

/-- Whether the `try` block comes to its `return`, and what it has written. -/
def upload (calls : ArtifactCalls) (objectName : String) (encoded : List UInt8) :
    Bool × List (Write (ArtifactUri Dir) UInt8) :=
  match calls.listBuckets with
  | none => (false, [])
  | some existing =>
    if store.boto3 = false ∨ store.casBucket ∉ existing ∧ calls.createBucket = false then
      (false, [])
    else
      let write := ⟨.object store.casBucket objectName, encoded, encoded.length⟩
      if calls.putObject then (true, [write])
      else (false, if calls.storedAnyway then [write] else [])

/-- The text of a bundle, its bytes and the name they get. -/
def text (payload : Document F) : String := dumpsIndented doubles payload

/-- What is stored: the text in UTF-8. -/
def encoded (payload : Document F) : List UInt8 := listOf (encodeUtf8 (text doubles payload))

/-- The file is named by the digest of its text, -/
def fileName (payload : Document F) : String :=
  store.sha256.text (text doubles payload) ++ ".json"

/-- and the object by its namespace as well. -/
def objectName (nameSpace : String) (payload : Document F) : String :=
  nameSpace ++ "/" ++ store.fileName doubles payload

/-- The part of `put_bundle` behind the `try` block. -/
def putLocally (calls : ArtifactCalls) (nameSpace : String) (payload : Document F) :
    Except ArtifactError (ArtifactUri Dir) × List (Write (ArtifactUri Dir) UInt8) :=
  let place := .file (store.localDir nameSpace) (store.fileName doubles payload)
  let content := encoded doubles payload
  if calls.mkdir = false then (.error .mkdir, [])
  else
    match calls.writeBytes with
    | none => (.ok place, [⟨place, content, content.length⟩])
    | some count => (.error .writeBytes, [⟨place, content, count⟩])

/-- What `put_bundle` returns, and what it has written. -/
def putBundle (calls : ArtifactCalls) (nameSpace : String) (payload : Document F) :
    Except ArtifactError (ArtifactUri Dir) × List (Write (ArtifactUri Dir) UInt8) :=
  let key := store.objectName doubles nameSpace payload
  if store.boto3 = true ∧ calls.client = false then (.error .client, [])
  else
    let attempt := store.upload calls key (encoded doubles payload)
    if attempt.1 then (.ok (.object store.casBucket key), attempt.2)
    else
      let rest := store.putLocally doubles calls nameSpace payload
      (rest.1, attempt.2 ++ rest.2)

/-! ## The name of a bundle -/

/-- The last component of a location. -/
def Named (name : String) : ArtifactUri Dir → Prop
  | .object _ key => ∃ front, key = front ++ "/" ++ name
  | .file _ name' => name' = name

/-- A text behind the last slash. -/
theorem append_slash_inj {front front' back back' : String} (plain : '/' ∉ back.toList)
    (plain' : '/' ∉ back'.toList) (same : front ++ "/" ++ back = front' ++ "/" ++ back') :
    back = back' := by
  have chars := congrArg String.toList same
  have slash : "/".toList = ['/'] := rfl
  simp only [String.toList_append, List.append_assoc, slash, List.singleton_append] at chars
  rcases List.append_eq_append_iff.mp chars with ⟨between, -, rest⟩ | ⟨between, -, rest⟩
  · cases between with
    | nil => exact String.toList_inj.mp (List.cons.inj rest).2
    | cons c between =>
      refine absurd ?_ plain
      rw [(List.cons.inj rest).2]
      exact List.mem_append_right _ List.mem_cons_self
  · cases between with
    | nil => exact (String.toList_inj.mp (List.cons.inj rest).2).symm
    | cons c between =>
      refine absurd ?_ plain'
      rw [(List.cons.inj rest).2]
      exact List.mem_append_right _ List.mem_cons_self

theorem fileName_plain (payload : Document F) : '/' ∉ (store.fileName doubles payload).toList := by
  have digest := store.sha256.not_mem_text (text doubles payload) (c := '/') (by decide)
  have ending : '/' ∉ ".json".toList := by decide
  rw [fileName, String.toList_append, List.mem_append]
  exact not_or.mpr ⟨digest, ending⟩

variable {store doubles}

/-- Two bundles at one location have one name. -/
theorem Named.unique {name name' : String} {uri : ArtifactUri Dir} (named : Named name uri)
    (named' : Named name' uri) (plain : '/' ∉ name.toList) (plain' : '/' ∉ name'.toList) :
    name = name' := by
  cases uri with
  | object bucket key =>
    obtain ⟨front, rfl⟩ := named
    obtain ⟨front', same⟩ := named'
    exact append_slash_inj plain plain' same
  | file parent name => exact named.symm.trans named'

/-- Bundles of one name have one text. -/
theorem text_of_fileName (collisionFree : store.sha256.CollisionFree) {payload payload' : Document F}
    (same : store.fileName doubles payload = store.fileName doubles payload') :
    text doubles payload = text doubles payload' := by
  have digests : store.sha256.text (text doubles payload) =
      store.sha256.text (text doubles payload') := by
    have chars := congrArg String.toList same
    rw [fileName, fileName, String.toList_append, String.toList_append,
      List.append_cancel_right_eq] at chars
    exact String.toList_inj.mp chars
  exact collisionFree digests

/-- Bundles of one text are the same but for the order of their members. -/
theorem sortKeys_of_text {payload payload' : Document F}
    (same : text doubles payload = text doubles payload') : payload.sortKeys = payload'.sortKeys := by
  have read := loads_dumpsIndented doubles payload
  rw [show dumpsIndented doubles payload = dumpsIndented doubles payload' from same,
    loads_dumpsIndented] at read
  exact (Except.ok.inj read).symm

/-! ## One call -/

variable {calls : ArtifactCalls} {nameSpace : String} {payload : Document F}

/-- What is written for a bundle: its bytes, under its name. -/
structure IsWriteOf (store : ArtifactStore Dir) (doubles : Doubles F) (calls : ArtifactCalls)
    (payload : Document F) (write : Write (ArtifactUri Dir) UInt8) : Prop where
  named : Named (store.fileName doubles payload) write.place
  content : write.content = encoded doubles payload
  whole : calls.writeBytes = none → write.Whole

/-- The write of the whole bundle to a location. -/
def wholeWrite (doubles : Doubles F) (payload : Document F) (uri : ArtifactUri Dir) :
    Write (ArtifactUri Dir) UInt8 :=
  ⟨uri, encoded doubles payload, (encoded doubles payload).length⟩

theorem isWriteOf_whole {uri : ArtifactUri Dir}
    (named : Named (store.fileName doubles payload) uri) :
    IsWriteOf store doubles calls payload (wholeWrite doubles payload uri) :=
  ⟨named, rfl, fun _ => Nat.le_refl _⟩

/-- The object store gets the whole bundle or nothing, and the whole bundle before the `return`. -/
theorem upload_eq (store : ArtifactStore Dir) (doubles : Doubles F) (calls : ArtifactCalls)
    (nameSpace : String) (payload : Document F) :
    store.upload calls (store.objectName doubles nameSpace payload) (encoded doubles payload) =
        (true, [wholeWrite doubles payload
          (.object store.casBucket (store.objectName doubles nameSpace payload))]) ∨
      ∃ writes, store.upload calls (store.objectName doubles nameSpace payload)
          (encoded doubles payload) = (false, writes) ∧
        ∀ write ∈ writes, IsWriteOf store doubles calls payload write := by
  have none : ∀ write ∈ ([] : List (Write (ArtifactUri Dir) UInt8)),
      IsWriteOf store doubles calls payload write := List.forall_mem_nil _
  rw [upload]
  cases calls.listBuckets with
  | none => exact .inr ⟨[], rfl, none⟩
  | some existing =>
    dsimp only
    split
    · exact .inr ⟨[], rfl, none⟩
    · split
      · exact .inl rfl
      · refine .inr ⟨_, rfl, ?_⟩
        split
        · exact List.forall_mem_singleton.mpr (isWriteOf_whole ⟨nameSpace, rfl⟩)
        · exact none

/-- The file gets the whole bundle when its path is returned. -/
theorem putLocally_eq (store : ArtifactStore Dir) (doubles : Doubles F) (calls : ArtifactCalls)
    (nameSpace : String) (payload : Document F) :
    (∃ uri, store.putLocally doubles calls nameSpace payload =
        (.ok uri, [wholeWrite doubles payload uri]) ∧
      Named (store.fileName doubles payload) uri) ∨
    ∃ e writes, store.putLocally doubles calls nameSpace payload = (.error e, writes) ∧
      ∀ write ∈ writes, IsWriteOf store doubles calls payload write := by
  rw [putLocally]
  split
  · exact .inr ⟨_, [], rfl, List.forall_mem_nil _⟩
  · cases broken : calls.writeBytes with
    | none => exact .inl ⟨_, rfl, rfl⟩
    | some count =>
      refine .inr ⟨_, _, rfl, List.forall_mem_singleton.mpr ⟨rfl, rfl, fun all => ?_⟩⟩
      rw [broken] at all
      cases all

/-- A call writes its bundle only, and returns the location of what it has written last. -/
theorem putBundle_eq (store : ArtifactStore Dir) (doubles : Doubles F) (calls : ArtifactCalls)
    (nameSpace : String) (payload : Document F) :
    (∀ write ∈ (store.putBundle doubles calls nameSpace payload).2,
      IsWriteOf store doubles calls payload write) ∧
    ∀ uri, (store.putBundle doubles calls nameSpace payload).1 = .ok uri →
      Named (store.fileName doubles payload) uri ∧
      ∃ writes, (store.putBundle doubles calls nameSpace payload).2 =
        writes ++ [wholeWrite doubles payload uri] := by
  rw [putBundle]
  dsimp only
  split
  · exact ⟨List.forall_mem_nil _, fun _ stored => by cases stored⟩
  · rcases upload_eq store doubles calls nameSpace payload with
      done | ⟨tried, failed, ofBundle⟩
    · have named : Named (store.fileName doubles payload)
          (.object store.casBucket (store.objectName doubles nameSpace payload) :
            ArtifactUri Dir) := ⟨nameSpace, rfl⟩
      rw [done, if_pos rfl]
      refine ⟨List.forall_mem_singleton.mpr (isWriteOf_whole named), ?_⟩
      rintro uri stored
      obtain rfl := Except.ok.inj stored
      exact ⟨named, [], rfl⟩
    · rw [failed, if_neg Bool.false_ne_true]
      rcases putLocally_eq store doubles calls nameSpace payload with
        ⟨uri, written, named⟩ | ⟨e, rest, raised, ofBundle'⟩
      · rw [written]
        refine ⟨List.forall_mem_append.mpr
          ⟨ofBundle, List.forall_mem_singleton.mpr (isWriteOf_whole named)⟩, ?_⟩
        rintro uri' stored
        obtain rfl := Except.ok.inj stored
        exact ⟨named, tried, rfl⟩
      · rw [raised]
        exact ⟨List.forall_mem_append.mpr ⟨ofBundle, ofBundle'⟩, fun _ stored => by cases stored⟩

/-! ## Any calls -/

/-- One call of `put_bundle`. -/
structure Put (F : Type) where
  calls : ArtifactCalls
  nameSpace : String
  payload : Document F

/-- What some calls write, one after another. -/
def writesOf (store : ArtifactStore Dir) (doubles : Doubles F) (puts : List (Put F)) :
    List (Write (ArtifactUri Dir) UInt8) :=
  puts.flatMap fun put => (store.putBundle doubles put.calls put.nameSpace put.payload).2

/-- `json.loads` of the bytes at a location -/
def readBundle (doubles : Doubles F) (bytes : List UInt8) : Except PayloadError (Document F) :=
  match decodeUtf8 (arrayOf bytes) with
  | some text => loads doubles text
  | none => .error .notUtf8

theorem readBundle_encoded (doubles : Doubles F) (payload : Document F) :
    readBundle doubles (encoded doubles payload) = .ok payload.sortKeys := by
  rw [readBundle, encoded, arrayOf_listOf, decodeUtf8_encodeUtf8]
  exact loads_dumpsIndented doubles payload

/-- What is written to the location of a bundle has its text. -/
theorem text_of_place (collisionFree : store.sha256.CollisionFree) {uri : ArtifactUri Dir}
    (named : Named (store.fileName doubles payload) uri) {calls' : ArtifactCalls}
    {payload' : Document F} {write : Write (ArtifactUri Dir) UInt8}
    (ofBundle : IsWriteOf store doubles calls' payload' write) (here : write.place = uri) :
    text doubles payload' = text doubles payload := by
  subst here
  exact text_of_fileName collisionFree
    (ofBundle.named.unique named (fileName_plain store doubles _) (fileName_plain store doubles _))

end ArtifactStore

open ArtifactStore

variable {Dir F : Type} [DecidableEq Dir] {store : ArtifactStore Dir} {doubles : Doubles F}

/-- However the calls to the object store and the disk end, a bundle whose location was returned
stays there: a beginning of it in any case, and all of it, to be read back, unless a later write of
the same bundle breaks off. No other bundle ever gets its location. -/
theorem bundles_stay (collisionFree : store.sha256.CollisionFree)
    (held : ArtifactUri Dir → Option (List UInt8)) (before after : List (Put F)) (put : Put F)
    {uri : ArtifactUri Dir}
    (stored : (store.putBundle doubles put.calls put.nameSpace put.payload).1 = .ok uri) :
    (∃ bytes, run held (writesOf store doubles (before ++ put :: after)) uri = some bytes ∧
      bytes <+: encoded doubles put.payload) ∧
    ((∀ later ∈ after, later.payload.sortKeys = put.payload.sortKeys →
        later.calls.writeBytes = none) →
      ∃ bytes, run held (writesOf store doubles (before ++ put :: after)) uri = some bytes ∧
        readBundle doubles bytes = .ok put.payload.sortKeys) ∧
    ∀ other : Put F,
      (store.putBundle doubles other.calls other.nameSpace other.payload).1 = .ok uri →
        other.payload.sortKeys = put.payload.sortKeys := by
  obtain ⟨-, named, writes, wrote⟩ := (putBundle_eq store doubles put.calls put.nameSpace
    put.payload).imp_right fun all => all uri stored
  -- The state right after the call holds the bundle, and what follows is written by name.
  have splits : writesOf store doubles (before ++ put :: after) =
      (writesOf store doubles before ++ writes) ++ [wholeWrite doubles put.payload uri] ++
        writesOf store doubles after := by
    simp only [writesOf, List.flatMap_append, List.flatMap_cons, wrote, List.append_assoc]
  have whole : (wholeWrite doubles put.payload uri).Whole := Nat.le_refl _
  have then_ := run_last held (writesOf store doubles before ++ writes) whole
  have written : ∀ write ∈ writesOf store doubles after, write.place = uri →
      ∃ later ∈ after, IsWriteOf store doubles later.calls later.payload write ∧
        text doubles later.payload = text doubles put.payload := by
    intro write mem here
    obtain ⟨later, among, mem⟩ := List.mem_flatMap.mp mem
    have ofBundle := (putBundle_eq store doubles later.calls later.nameSpace
      later.payload).1 write mem
    exact ⟨later, among, ofBundle, text_of_place collisionFree named ofBundle here⟩
  have only : Only uri (encoded doubles put.payload) (writesOf store doubles after) := by
    intro write mem here
    obtain ⟨later, -, ofBundle, same⟩ := written write mem here
    rw [ofBundle.content, encoded, encoded, same]
  rw [splits, run_append]
  refine ⟨run_isPrefix only ⟨_, then_, List.prefix_rfl⟩, fun unbroken => ?_, fun other placed => ?_⟩
  · refine ⟨_, run_whole only ?_ then_, readBundle_encoded doubles put.payload⟩
    intro write mem here
    obtain ⟨later, among, ofBundle, same⟩ := written write mem here
    exact ofBundle.whole (unbroken later among (sortKeys_of_text same))
  · obtain ⟨ofBundle, returned⟩ := putBundle_eq store doubles other.calls other.nameSpace
      other.payload
    obtain ⟨named', -⟩ := returned uri placed
    exact sortKeys_of_text (text_of_fileName collisionFree (named'.unique named
      (fileName_plain store doubles _) (fileName_plain store doubles _)))

/-! ## The bundle of an execution -/

/-- The members of the bundle that `execute_capsule` stores, where `document` is the capsule. -/
def bundleMembers (nodeId : String) (capsule : TaskCapsule) (document funnelResult : Document F) :
    Attributes F :=
  [("run_id", .string capsule.runId), ("capsule", document), ("funnel_result", funnelResult),
    ("executor", .string nodeId)]

/-- What `execute_capsule` stores of an execution. -/
def executionBundle (doubles : Doubles F) (nodeId : String) (capsule : TaskCapsule)
    (funnelResult : Document F) : Except PayloadError (Document F) := do
  let document ← loads doubles (capsule.toJson doubles)
  return .object (bundleMembers nodeId capsule document funnelResult)

/-- What is found in a bundle: the run, the capsule that was executed, by whom, and what came of
it. -/
structure Records (document : Document F) (nodeId : String) (capsule : TaskCapsule)
    (funnelResult : Document F) (members : Attributes F) : Prop where
  isObject : document = .object members
  runId : ExecutionRequest.item "run_id" members = .ok (.string capsule.runId)
  executor : ExecutionRequest.item "executor" members = .ok (.string nodeId)
  result : ExecutionRequest.item "funnel_result" members = .ok funnelResult.sortKeys
  capsule : (ExecutionRequest.item "capsule" members).bind (callClass TaskCapsule.fields) =
    .ok capsule.sorted.attributes

/-- The text of a capsule can be read, so there is a bundle to store. -/
theorem executionBundle_eq (doubles : Doubles F) (nodeId : String) (capsule : TaskCapsule)
    (funnelResult : Document F) :
    executionBundle doubles nodeId capsule funnelResult =
      .ok (.object (bundleMembers nodeId capsule (Document.object capsule.attributes).sortKeys
        funnelResult)) := by
  rw [executionBundle, TaskCapsule.toJson, loads_dumpsSorted]
  rfl

/-- A bundle that is read back records its execution. -/
theorem records_executionBundle {nodeId : String} {capsule : TaskCapsule}
    {funnelResult payload : Document F}
    (bundled : executionBundle doubles nodeId capsule funnelResult = .ok payload) :
    ∃ members, Records payload.sortKeys nodeId capsule funnelResult members := by
  have called := TaskCapsule.fromJson_toJson doubles capsule
  rw [TaskCapsule.fromJson, KernelOmega.fromJson, TaskCapsule.toJson, loads_dumpsSorted] at called
  rw [executionBundle_eq] at bundled
  obtain rfl := Except.ok.inj bundled
  have unique : ((bundleMembers nodeId capsule (Document.object capsule.attributes).sortKeys
      funnelResult).map Prod.fst).Nodup := by
    simp [bundleMembers]
  refine ⟨_, Document.sortKeys_object _, ?_, ?_, ?_, ?_⟩
  · exact ExecutionRequest.item_sortMembers unique (.head _)
  · exact ExecutionRequest.item_sortMembers unique (.tail _ (.tail _ (.tail _ (.head _))))
  · exact ExecutionRequest.item_sortMembers unique (.tail _ (.tail _ (.head _)))
  · have found := ExecutionRequest.item_sortMembers unique (.tail _ (.head _))
    rw [Document.sortKeys_again] at found
    exact (congrArg (·.bind (callClass TaskCapsule.fields)) found).trans called

/-- Bundles of executions on two nodes are told apart by their executor. -/
theorem executionBundle_ne {nodeId nodeId' : String} {capsule capsule' : TaskCapsule}
    {funnelResult funnelResult' payload payload' : Document F}
    (bundled : executionBundle doubles nodeId capsule funnelResult = .ok payload)
    (bundled' : executionBundle doubles nodeId' capsule' funnelResult' = .ok payload')
    (other : nodeId ≠ nodeId') : payload.sortKeys ≠ payload'.sortKeys := by
  intro same
  obtain ⟨members, records⟩ := records_executionBundle bundled
  obtain ⟨members', records'⟩ := records_executionBundle bundled'
  obtain rfl : members = members' := by
    simpa only [records.isObject, records'.isObject, Document.object.injEq] using same
  have named := records.executor.symm.trans records'.executor
  exact other (Document.string.inj (Except.ok.inj named))

/-- Whatever else is stored, the record of an execution is found where its bundle was put, unless a
later write of the same bundle breaks off. -/
theorem executions_recorded (collisionFree : store.sha256.CollisionFree)
    (held : ArtifactUri Dir → Option (List UInt8)) (before after : List (Put F)) (put : Put F)
    {nodeId : String} {capsule : TaskCapsule} {funnelResult : Document F}
    (bundled : executionBundle doubles nodeId capsule funnelResult = .ok put.payload)
    {uri : ArtifactUri Dir}
    (stored : (store.putBundle doubles put.calls put.nameSpace put.payload).1 = .ok uri)
    (unbroken : ∀ later ∈ after, later.payload.sortKeys = put.payload.sortKeys →
      later.calls.writeBytes = none) :
    ∃ bytes document members,
      run held (writesOf store doubles (before ++ put :: after)) uri = some bytes ∧
      readBundle doubles bytes = .ok document ∧
      Records document nodeId capsule funnelResult members := by
  obtain ⟨-, whole, -⟩ := bundles_stay collisionFree held before after put stored
  obtain ⟨bytes, there, read⟩ := whole unbroken
  obtain ⟨members, records⟩ := records_executionBundle bundled
  exact ⟨bytes, _, members, there, read, records⟩

section TwoNodes

def printed : TaskCapsule where
  id := "omega:tree:task_1:c"
  treeId := "task_1"
  sourcePath := "/repo/src/algo.py"
  testPath := "/repo/tests/test_algo.py"
  code := "print(1 <= 2)\n"
  testCode := "assert True\n"
  runId := "run_1"
  sourceRelpath := "src/algo.py"
  testRelpath := "tests/test_algo.py"
  repoSnapshot := [("tests/test_algo.py", "assert True\n"), ("src/algo.py", "print(1 < 2)\n")]
  repoSnapshotBytes := 25
  repoSnapshotFiles := 2

/-- What the simulator makes of a funnel that printed nothing. -/
def noOutput : Document Bool :=
  .object [("success", .bool false), ("tests_passed", .int 0), ("tests_failed", .int 1),
    ("error", .string "NoOutput"), ("runtime", .float false), ("meta", .object [])]

def printedBy (nodeId : String) : Document Bool :=
  .object (bundleMembers nodeId printed (Document.object printed.attributes).sortKeys noOutput)

/-- The digests are the real ones of these texts. -/
def bundleDigests : List (String × String) :=
  [(text twoDoubles (printedBy "sim-core-0"),
      "2a984b80615b80c8e0841a6ea17dd3fb31650731e94b5806d3c5cc56b291b3f8"),
    (text twoDoubles (printedBy "sim-core-1"),
      "461be9d480aeb795fb90c7c0a28c9e43c56c35aa3c7cdc8f660e19858034bb06")]

theorem bundleDigests_hex : ∀ e ∈ bundleDigests, ∀ c ∈ e.2.toList, c ∈ Hex.digits :=
  Sha256.hex_of_all (by decide)

def simulatorStore : ArtifactStore String where
  sha256 := .ofTable bundleDigests bundleDigests_hex
  casBucket := "omega-cas"
  boto3 := true
  localDir := fun nameSpace => ".omega-cas/" ++ nameSpace

theorem simulatorStore_collisionFree : simulatorStore.sha256.CollisionFree :=
  Sha256.ofTable_collisionFree bundleDigests_hex (by decide) (by decide)

/-- The bucket cannot be reached, and the bundle goes to a file. -/
def filed : Put Bool := ⟨{}, "executions", printedBy "sim-core-0"⟩

/-- The disk is full when another node stores the same run. -/
def brokenOff : Put Bool := ⟨{ writeBytes := some 3 }, "executions", printedBy "sim-core-1"⟩

/-- Two nodes run the same capsule, and the second breaks off while it writes: the first one's
bundle is there and whole. -/
theorem executions_recorded_twoNodes : ∃ bytes document members,
    run (fun _ => none) (writesOf simulatorStore twoDoubles ([] ++ filed :: [brokenOff]))
        (.file ".omega-cas/executions"
          (simulatorStore.fileName twoDoubles (printedBy "sim-core-0"))) = some bytes ∧
      readBundle twoDoubles bytes = .ok document ∧
      Records document "sim-core-0" printed noOutput members := by
  have bundled := executionBundle_eq twoDoubles "sim-core-0" printed noOutput
  have bundled' := executionBundle_eq twoDoubles "sim-core-1" printed noOutput
  have other := executionBundle_ne bundled' bundled (by decide)
  exact executions_recorded simulatorStore_collisionFree _ [] [brokenOff] filed bundled rfl
    (List.forall_mem_singleton.mpr fun same => absurd same other)

end TwoNodes

end KernelOmega
