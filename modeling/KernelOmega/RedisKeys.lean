import Mathlib.Data.List.Basic
import Mathlib.Data.String.Basic

/-!
# Redis keys

`control_plane/redis_keys.py`: the fixed keys and the key functions. Node ids are
the keys of node hashes, so the search tree is named by these strings.
-/

namespace KernelOmega

/-- `STREAM_DISPATCH` -/
def streamDispatch : String := "omega:stream:dispatch"

/-- `STREAM_RESULTS` -/
def streamResults : String := "omega:stream:results"

/-- `STREAM_ACCEPTED` -/
def streamAccepted : String := "omega:stream:accepted"

/-- `TREE_INDEX` -/
def treeIndex : String := "omega:trees"

/-- `STATS_TOTAL_EVALS` -/
def statsTotalEvals : String := "omega:stats:total_evals"

/-- `STATS_INFLIGHT` -/
def statsInflight : String := "omega:stats:inflight"

/-- `root_node_id` -/
def rootNodeId (taskId : String) : String := "omega:tree:" ++ taskId ++ ":root"

/-- `tree_node_id` -/
def treeNodeId (taskId digest : String) : String := "omega:tree:" ++ taskId ++ ":" ++ digest

/-- `node_children_key` -/
def nodeChildrenKey (nodeId : String) : String := nodeId ++ ":children"

/-- `node_lock_key` -/
def nodeLockKey (nodeId : String) : String := "omega:lock:" ++ nodeId

/-- `tree_done_key` -/
def treeDoneKey (taskId : String) : String := "omega:tree:" ++ taskId ++ ":done"

/-- `tree_accepted_key` -/
def treeAcceptedKey (taskId : String) : String := "omega:tree:" ++ taskId ++ ":accepted"

/-- `task_budget_key` -/
def taskBudgetKey (taskId : String) : String := "omega:tree:" ++ taskId ++ ":generated_capsules"

/-- `tree_budget_exhausted_key` -/
def treeBudgetExhaustedKey (taskId : String) : String :=
  "omega:tree:" ++ taskId ++ ":budget_exhausted"

/-! ## Keys that differ

Two keys built by different functions differ in their first or their last character
that is not an argument's. -/

attribute [local simp] treeIndex statsTotalEvals rootNodeId treeNodeId nodeChildrenKey nodeLockKey
  treeDoneKey treeAcceptedKey taskBudgetKey treeBudgetExhaustedKey

/-- What is between two fixed texts can be read back. -/
theorem eq_of_between {before after s t : String} (same : before ++ s ++ after = before ++ t ++ after) :
    s = t :=
  (String.append_right_inj before).mp ((String.append_left_inj after).mp same)

/-- Keys that begin differently, up to what is an argument's, differ. -/
theorem ne_of_starts {x y : String} (n : Nat) (hx : n ≤ x.toList.length) (hy : n ≤ y.toList.length)
    (differ : x.toList.take n ≠ y.toList.take n) (s t : String) : x ++ s ≠ y ++ t := by
  intro same
  have front := congrArg (fun text => text.toList.take n) same
  simp only [String.toList_append] at front
  rw [List.take_append_of_le_length hx, List.take_append_of_le_length hy] at front
  exact differ front

/-- Keys that end differently differ. -/
theorem ne_of_ends {x y : String} (n : Nat) (hx : n ≤ x.toList.length) (hy : n ≤ y.toList.length)
    (differ : x.toList.reverse.take n ≠ y.toList.reverse.take n) (s t : String) :
    s ++ x ≠ t ++ y := by
  intro same
  have back := congrArg (fun text => text.toList.reverse.take n) same
  simp only [String.toList_append, List.reverse_append] at back
  rw [List.take_append_of_le_length (by rwa [List.length_reverse]),
    List.take_append_of_le_length (by rwa [List.length_reverse])] at back
  exact differ back

theorem nodeChildrenKey_injective : Function.Injective nodeChildrenKey :=
  fun _ _ same => (String.append_left_inj _).mp same

theorem nodeLockKey_injective : Function.Injective nodeLockKey :=
  fun _ _ same => (String.append_right_inj _).mp same

theorem treeNodeId_injective (taskId : String) : Function.Injective (treeNodeId taskId) :=
  fun _ _ same => (String.append_right_inj _).mp same

theorem rootNodeId_injective : Function.Injective rootNodeId := fun _ _ => eq_of_between

theorem taskBudgetKey_injective : Function.Injective taskBudgetKey := fun _ _ => eq_of_between

theorem treeAcceptedKey_injective : Function.Injective treeAcceptedKey := fun _ _ => eq_of_between

theorem treeDoneKey_injective : Function.Injective treeDoneKey := fun _ _ => eq_of_between

/-- A node id ends in its digest, and no digest ends like the word `root`. -/
theorem treeNodeId_ne_rootNodeId {taskId digest : String} (hex : 't' ∉ digest.toList) :
    treeNodeId taskId digest ≠ rootNodeId taskId := by
  intro same
  have chars := congrArg String.toList same
  simp only [treeNodeId, rootNodeId, String.toList_append, List.append_assoc,
    List.append_cancel_left_eq] at chars
  have tail : digest.toList = ['r', 'o', 'o', 't'] := by simpa using chars
  exact hex (by simp [tail])

theorem nodeChildrenKey_ne_treeIndex (nodeId : String) : nodeChildrenKey nodeId ≠ treeIndex :=
  ne_of_ends 5 (y := treeIndex) (by decide) (by decide) (by decide) nodeId ""

theorem treeDoneKey_ne_treeBudgetExhaustedKey (taskId taskId' : String) :
    treeDoneKey taskId ≠ treeBudgetExhaustedKey taskId' :=
  ne_of_ends 5 (by decide) (by decide) (by decide) _ _

theorem treeAcceptedKey_ne_treeDoneKey (taskId taskId' : String) :
    treeAcceptedKey taskId ≠ treeDoneKey taskId' :=
  ne_of_ends 5 (by decide) (by decide) (by decide) _ _

theorem treeAcceptedKey_ne_treeBudgetExhaustedKey (taskId taskId' : String) :
    treeAcceptedKey taskId ≠ treeBudgetExhaustedKey taskId' :=
  ne_of_ends 5 (by decide) (by decide) (by decide) _ _

theorem statsTotalEvals_ne_taskBudgetKey (taskId : String) :
    statsTotalEvals ≠ taskBudgetKey taskId := by
  rw [taskBudgetKey, String.append_assoc]
  exact ne_of_starts 11 (x := statsTotalEvals) (by decide) (by decide) (by decide) "" _

/-- No lock is a key of a tree's. -/
theorem nodeLockKey_ne_treeKey (nodeId taskId after : String) :
    nodeLockKey nodeId ≠ "omega:tree:" ++ taskId ++ after := by
  rw [String.append_assoc]
  exact ne_of_starts 11 (by decide) (by decide) (by decide) _ _

theorem nodeLockKey_ne_treeBudgetExhaustedKey (nodeId taskId : String) :
    nodeLockKey nodeId ≠ treeBudgetExhaustedKey taskId := nodeLockKey_ne_treeKey nodeId taskId _

theorem nodeLockKey_ne_treeAcceptedKey (nodeId taskId : String) :
    nodeLockKey nodeId ≠ treeAcceptedKey taskId := nodeLockKey_ne_treeKey nodeId taskId _

theorem nodeLockKey_ne_treeDoneKey (nodeId taskId : String) :
    nodeLockKey nodeId ≠ treeDoneKey taskId := nodeLockKey_ne_treeKey nodeId taskId _

/-! ## The tree of a node -/

/-- A node id is of a tree: it is the tree's id with a digest, or the word `root`, after it. -/
def NamesTree (nodeId taskId : String) : Prop :=
  ∃ digest, ':' ∉ digest.toList ∧ nodeId = treeNodeId taskId digest

theorem namesTree_rootNodeId (taskId : String) : NamesTree (rootNodeId taskId) taskId := by
  refine ⟨"root", by decide, String.toList_inj.mp ?_⟩
  simp

/-- A node is of one tree. -/
theorem NamesTree.unique {nodeId taskId taskId' : String} (names : NamesTree nodeId taskId)
    (names' : NamesTree nodeId taskId') : taskId = taskId' := by
  obtain ⟨digest, plain, rfl⟩ := names
  obtain ⟨digest', plain', same⟩ := names'
  -- Read from the end, the tree's id begins after the first colon.
  have chars := congrArg (fun s => s.toList.reverse) same
  have colon : ":".toList = [':'] := rfl
  simp only [treeNodeId, String.toList_append, List.append_assoc, List.reverse_append, colon,
    List.singleton_append] at chars
  have parts : ∀ (d d' : List Char) {t t' : List Char}, ':' ∉ d → ':' ∉ d' → d ++ ':' :: t = d' ++ ':' :: t' →
      t = t' := by
    intro d
    induction d with
    | nil =>
      intro d' t t' _ plain' same
      cases d' with
      | nil => exact (List.cons.inj same).2
      | cons c d' => exact absurd (List.mem_cons.mpr (.inl (List.cons.inj same).1)) plain'
    | cons c d ih =>
      intro d' t t' plain plain' same
      cases d' with
      | nil => exact absurd (List.mem_cons.mpr (.inl (List.cons.inj same).1.symm)) plain
      | cons c' d' =>
        exact ih d' (fun mem => plain (List.mem_cons_of_mem _ mem))
          (fun mem => plain' (List.mem_cons_of_mem _ mem)) (List.cons.inj same).2
  have rests := parts digest.toList.reverse digest'.toList.reverse (by simpa using plain)
    (by simpa using plain') (by simpa using chars)
  simp only [List.append_cancel_right_eq, List.reverse_inj] at rests
  exact String.toList_inj.mp rests

end KernelOmega
