import KernelOmega.Python.Hex
import KernelOmega.RedisKeys

/-!
# The key space

A key is made of words with a colon between each two of them. The words of the arguments have no
colon, so the words can be read back from the key, and they say which function made the key and
of what. `Key` are the calls of the key functions.
-/

namespace KernelOmega

/-- `RECENT_RUNS` -/
def recentRuns : String := "omega:recent_runs"

/-- `STATS_EVAL_TIMES` -/
def statsEvalTimes : String := "omega:stats:eval_times"

/-- `WORKER_HEARTBEATS` -/
def workerHeartbeats : String := "omega:workers"

/-- A task id that is not empty and has no colon. -/
@[ext] structure TaskId where
  text : String
  nonempty : text ≠ ""
  plain : ':' ∉ text.toList

/-- A SHA-256 digest in lower-case hexadecimal. -/
@[ext] structure HexDigest where
  text : String
  length : text.toList.length = 64
  hex : ∀ c ∈ text.toList, c ∈ Hex.digits

/-- The calls of `root_node_id` and `tree_node_id`. -/
inductive NodeId where
  | root (taskId : TaskId)
  | tree (taskId : TaskId) (digest : HexDigest)

def NodeId.key : NodeId → String
  | .root taskId => rootNodeId taskId.text
  | .tree taskId digest => treeNodeId taskId.text digest.text

/-- The keys that are no function's. -/
inductive GlobalKey where
  | streamDispatch
  | streamResults
  | streamAccepted
  | treeIndex
  | recentRuns
  | statsTotalEvals
  | statsInflight
  | statsEvalTimes
  | workerHeartbeats
  deriving DecidableEq

/-- The text of a global key, as `redis_keys.py` has it. -/
def GlobalKey.key : GlobalKey → String
  | .streamDispatch => KernelOmega.streamDispatch
  | .streamResults => KernelOmega.streamResults
  | .streamAccepted => KernelOmega.streamAccepted
  | .treeIndex => KernelOmega.treeIndex
  | .recentRuns => KernelOmega.recentRuns
  | .statsTotalEvals => KernelOmega.statsTotalEvals
  | .statsInflight => KernelOmega.statsInflight
  | .statsEvalTimes => KernelOmega.statsEvalTimes
  | .workerHeartbeats => KernelOmega.workerHeartbeats

/-- The calls of the key functions, and the global keys. -/
inductive Key where
  | node (id : NodeId)
  | nodeChildren (id : NodeId)
  | nodeLock (id : NodeId)
  | treeDone (taskId : TaskId)
  | treeAccepted (taskId : TaskId)
  | taskBudget (taskId : TaskId)
  | treeBudgetExhausted (taskId : TaskId)
  | global (key : GlobalKey)

/-- The text of a key, made by the function of its kind. -/
def Key.key : Key → String
  | .node id => id.key
  | .nodeChildren id => nodeChildrenKey id.key
  | .nodeLock id => nodeLockKey id.key
  | .treeDone taskId => treeDoneKey taskId.text
  | .treeAccepted taskId => treeAcceptedKey taskId.text
  | .taskBudget taskId => taskBudgetKey taskId.text
  | .treeBudgetExhausted taskId => treeBudgetExhaustedKey taskId.text
  | .global key => key.key

/-! ## The words of a key -/

/-- What stands after the task id in a node's id. -/
def NodeId.last : NodeId → String
  | .root _ => "root"
  | .tree _ digest => digest.text

def NodeId.taskId : NodeId → TaskId
  | .root taskId => taskId
  | .tree taskId _ => taskId

/-- The words of a tree's key. -/
def treeWords (taskId : TaskId) (last : String) : List String :=
  ["omega", "tree", taskId.text, last]

/-- The words between the colons of a global key, -/
def GlobalKey.words : GlobalKey → List String
  | .streamDispatch => ["omega", "stream", "dispatch"]
  | .streamResults => ["omega", "stream", "results"]
  | .streamAccepted => ["omega", "stream", "accepted"]
  | .treeIndex => ["omega", "trees"]
  | .recentRuns => ["omega", "recent_runs"]
  | .statsTotalEvals => ["omega", "stats", "total_evals"]
  | .statsInflight => ["omega", "stats", "inflight"]
  | .statsEvalTimes => ["omega", "stats", "eval_times"]
  | .workerHeartbeats => ["omega", "workers"]

/-- and of any key. Ids have no colon, so a key is read back word by word. -/
def Key.words : Key → List String
  | .node id => treeWords id.taskId id.last
  | .nodeChildren id => treeWords id.taskId id.last ++ ["children"]
  | .nodeLock id => ["omega", "lock"] ++ treeWords id.taskId id.last
  | .treeDone taskId => treeWords taskId "done"
  | .treeAccepted taskId => treeWords taskId "accepted"
  | .taskBudget taskId => treeWords taskId "generated_capsules"
  | .treeBudgetExhausted taskId => treeWords taskId "budget_exhausted"
  | .global key => key.words

/-- The key of a list of words. -/
def joined (words : List String) : List Char := [':'].intercalate (words.map String.toList)

/-- The words can be read back. -/
theorem joined_injective {words words' : List String} (some : words ≠ []) (some' : words' ≠ [])
    (plain : ∀ word ∈ words, ':' ∉ word.toList) (plain' : ∀ word ∈ words', ':' ∉ word.toList)
    (same : joined words = joined words') : words = words' := by
  have read : ∀ ws : List String, ws ≠ [] → (∀ word ∈ ws, ':' ∉ word.toList) →
      (joined ws).splitOn ':' = ws.map String.toList := by
    intro ws nonempty plain
    refine List.splitOn_intercalate ':' ?_ ?_
    · intro l mem
      obtain ⟨word, there, rfl⟩ := List.mem_map.mp mem
      exact plain word there
    · simpa only [ne_eq, List.map_eq_nil_iff] using nonempty
  have lists : words.map String.toList = words'.map String.toList := by
    rw [← read words some plain, ← read words' some' plain', same]
  exact List.map_injective_iff.mpr (fun _ _ => String.toList_inj.mp) lists

theorem NodeId.key_eq (id : NodeId) : id.key.toList = joined (treeWords id.taskId id.last) := by
  cases id <;> simp [NodeId.key, rootNodeId, treeNodeId, NodeId.taskId, NodeId.last, treeWords,
    joined, List.intercalate]

/-- A key is its words with colons between them. -/
theorem Key.key_eq (k : Key) : k.key.toList = joined k.words := by
  cases k with
  | node id => exact id.key_eq
  | nodeChildren id =>
    simp only [Key.key, nodeChildrenKey, String.toList_append, id.key_eq]
    simp [Key.words, treeWords, joined, List.intercalate]
  | nodeLock id =>
    simp only [Key.key, nodeLockKey, String.toList_append, id.key_eq]
    simp [Key.words, treeWords, joined, List.intercalate]
  | treeDone taskId =>
    simp [Key.key, treeDoneKey, Key.words, treeWords, joined, List.intercalate]
  | treeAccepted taskId =>
    simp [Key.key, treeAcceptedKey, Key.words, treeWords, joined, List.intercalate]
  | taskBudget taskId =>
    simp [Key.key, taskBudgetKey, Key.words, treeWords, joined, List.intercalate]
  | treeBudgetExhausted taskId =>
    simp [Key.key, treeBudgetExhaustedKey, Key.words, treeWords, joined, List.intercalate]
  | global key => cases key <;> rfl

/-! ## The words say which call it was -/

theorem HexDigest.plain (digest : HexDigest) : ':' ∉ digest.text.toList :=
  fun mem => absurd (digest.hex ':' mem) (by decide)

theorem NodeId.last_plain (id : NodeId) : ':' ∉ id.last.toList := by
  cases id with
  | root taskId =>
    show ':' ∉ "root".toList
    decide
  | tree taskId digest => exact digest.plain

theorem treeWords_plain (taskId : TaskId) {last : String} (plain : ':' ∉ last.toList) :
    ∀ word ∈ treeWords taskId last, ':' ∉ word.toList := by
  simp only [treeWords, List.forall_mem_cons, List.not_mem_nil, false_implies, implies_true,
    and_true]
  exact ⟨by decide, by decide, taskId.plain, plain⟩

/-- No word of a key has a colon in it. -/
theorem Key.words_plain (k : Key) : ∀ word ∈ k.words, ':' ∉ word.toList := by
  cases k with
  | node id => exact treeWords_plain id.taskId id.last_plain
  | nodeChildren id =>
    refine List.forall_mem_append.mpr ⟨treeWords_plain id.taskId id.last_plain, ?_⟩
    simp
  | nodeLock id =>
    refine List.forall_mem_append.mpr ⟨?_, treeWords_plain id.taskId id.last_plain⟩
    simp
  | global key => cases key <;> decide
  | _ => exact treeWords_plain _ (by decide)

theorem Key.words_ne_nil (k : Key) : k.words ≠ [] := by
  cases k with
  | global key => cases key <;> exact List.cons_ne_nil _ _
  | _ => exact List.cons_ne_nil _ _

theorem treeWords_inj {taskId taskId' : TaskId} {last last' : String}
    (same : treeWords taskId last = treeWords taskId' last') : taskId = taskId' ∧ last = last' := by
  simp only [treeWords, List.cons.injEq, true_and, and_true] at same
  exact ⟨TaskId.ext same.1, same.2⟩

/-- A word that ends no node's id: it is neither `root` nor as long as a digest. -/
theorem NodeId.last_ne (id : NodeId) {word : String} (other : word ≠ "root")
    (length : word.toList.length ≠ 64) : id.last ≠ word := by
  cases id with
  | root taskId => exact other.symm
  | tree taskId digest =>
    intro same
    exact length (same ▸ digest.length)

/-- A digest is longer than the word `root`. -/
theorem HexDigest.ne_root (digest : HexDigest) : digest.text ≠ "root" := by
  intro same
  have length := digest.length
  rw [same] at length
  exact absurd length (by decide)

/-- A node is named by its task and its last word. -/
theorem NodeId.ext_last {id id' : NodeId} (taskId : id.taskId = id'.taskId)
    (last : id.last = id'.last) : id = id' := by
  cases id with
  | root t =>
    cases id' with
    | root t' => exact congrArg NodeId.root taskId
    | tree t' digest => exact absurd last.symm digest.ne_root
  | tree t digest =>
    cases id' with
    | root t' => exact absurd last digest.ne_root
    | tree t' digest' =>
      obtain rfl : digest = digest' := HexDigest.ext last
      obtain rfl : t = t' := taskId
      rfl

theorem NodeId.ext_words {id id' : NodeId}
    (same : treeWords id.taskId id.last = treeWords id'.taskId id'.last) : id = id' :=
  NodeId.ext_last (treeWords_inj same).1 (treeWords_inj same).2

/-- The functions of the keys. -/
inductive Key.Kind where
  | node
  | nodeChildren
  | nodeLock
  | treeDone
  | treeAccepted
  | taskBudget
  | treeBudgetExhausted
  | global

/-- The kind of a key is the function that makes it. -/
def Key.kind : Key → Key.Kind
  | .node _ => .node
  | .nodeChildren _ => .nodeChildren
  | .nodeLock _ => .nodeLock
  | .treeDone _ => .treeDone
  | .treeAccepted _ => .treeAccepted
  | .taskBudget _ => .taskBudget
  | .treeBudgetExhausted _ => .treeBudgetExhausted
  | .global _ => .global

/-- The function of a tree's key, from its last word. -/
def kindOfLast (last : String) : Key.Kind :=
  if last = "done" then .treeDone
  else if last = "accepted" then .treeAccepted
  else if last = "generated_capsules" then .taskBudget
  else if last = "budget_exhausted" then .treeBudgetExhausted
  else .node

/-- The function of a key, from its words: only a tree's keys have four of them. -/
def kindOfWords : List String → Key.Kind
  | [_, _, _, last] => kindOfLast last
  | [_, _, _, _, _] => .nodeChildren
  | [_, _, _, _, _, _] => .nodeLock
  | _ => .global

theorem NodeId.kindOfLast_last (id : NodeId) : kindOfLast id.last = .node := by
  rw [kindOfLast, if_neg (id.last_ne (by decide) (by decide)),
    if_neg (id.last_ne (by decide) (by decide)), if_neg (id.last_ne (by decide) (by decide)),
    if_neg (id.last_ne (by decide) (by decide))]

theorem Key.kindOfWords_words (k : Key) : kindOfWords k.words = k.kind := by
  cases k with
  | node id => exact id.kindOfLast_last
  | global key => cases key <;> rfl
  | _ => rfl

theorem GlobalKey.words_injective : Function.Injective GlobalKey.words := by
  intro key key' same
  cases key <;> cases key' <;> first | rfl | exact absurd same (by decide)

/-- The words of a key give back the key. -/
theorem Key.words_injective : Function.Injective Key.words := by
  intro k k' same
  have kinds : k.kind = k'.kind := by rw [← k.kindOfWords_words, same, k'.kindOfWords_words]
  cases k with
  | node id =>
    cases k' with
    | node id' => exact congrArg Key.node (NodeId.ext_words same)
    | _ => exact nomatch kinds
  | nodeChildren id =>
    cases k' with
    | nodeChildren id' =>
      exact congrArg Key.nodeChildren (NodeId.ext_words (List.append_cancel_right same))
    | _ => exact nomatch kinds
  | nodeLock id =>
    cases k' with
    | nodeLock id' => exact congrArg Key.nodeLock (NodeId.ext_words (List.append_cancel_left same))
    | _ => exact nomatch kinds
  | treeDone taskId =>
    cases k' with
    | treeDone taskId' => exact congrArg Key.treeDone (treeWords_inj same).1
    | _ => exact nomatch kinds
  | treeAccepted taskId =>
    cases k' with
    | treeAccepted taskId' => exact congrArg Key.treeAccepted (treeWords_inj same).1
    | _ => exact nomatch kinds
  | taskBudget taskId =>
    cases k' with
    | taskBudget taskId' => exact congrArg Key.taskBudget (treeWords_inj same).1
    | _ => exact nomatch kinds
  | treeBudgetExhausted taskId =>
    cases k' with
    | treeBudgetExhausted taskId' => exact congrArg Key.treeBudgetExhausted (treeWords_inj same).1
    | _ => exact nomatch kinds
  | global key =>
    cases k' with
    | global key' => exact congrArg Key.global (GlobalKey.words_injective same)
    | _ => exact nomatch kinds

/-- Two keys are the same only when they are one function's, of the same arguments. -/
theorem Key.key_injective : Function.Injective Key.key := by
  intro k k' same
  apply Key.words_injective
  apply joined_injective k.words_ne_nil k'.words_ne_nil k.words_plain k'.words_plain
  rw [← k.key_eq, ← k'.key_eq, same]

end KernelOmega
