import KernelOmega.Batch.Turn

/-!
# Fields under a pipeline

A field of a hash that is written whole holds what the last operation wrote that sets it. The
links of the tree are fields the memory never sets.
-/

namespace KernelOmega

/-- A field of a node's hash that is written whole, by `HSET` alone. -/
structure HashField (α : Type) where
  get : NodeHash → Option α
  update : ∀ mapping old, get (mapping.update old) = (get mapping <|> get old)
  addVisit : ∀ old, get old.addVisit = get old
  addValue : ∀ reward old, get (old.addValue reward) = get old
  empty : get {} = none

namespace HashField

def testsFailed : HashField Int := ⟨(·.testsFailed), fun _ _ => rfl, fun _ => rfl, fun _ _ => rfl, rfl⟩

def testsPassed : HashField Int := ⟨(·.testsPassed), fun _ _ => rfl, fun _ => rfl, fun _ _ => rfl, rfl⟩

def bestReward : HashField Rat := ⟨(·.bestReward), fun _ _ => rfl, fun _ => rfl, fun _ _ => rfl, rfl⟩

def maxDepthSeen : HashField Nat :=
  ⟨(·.maxDepthSeen), fun _ _ => rfl, fun _ => rfl, fun _ _ => rfl, rfl⟩

def parent : HashField String := ⟨(·.parent), fun _ _ => rfl, fun _ => rfl, fun _ _ => rfl, rfl⟩

def treeId : HashField String := ⟨(·.treeId), fun _ _ => rfl, fun _ => rfl, fun _ _ => rfl, rfl⟩

def depth : HashField Nat := ⟨(·.depth), fun _ _ => rfl, fun _ => rfl, fun _ _ => rfl, rfl⟩

variable {α : Type} (field : HashField α)

/-- The field of a node. -/
def of (r : Redis) (id : String) : Option α := (r.hashes id).bind field.get

/-- What an operation sets the field of a node to. -/
def set (id : String) : RedisOp → Option α
  | .hset key mapping => if key = id then field.get mapping else none
  | _ => none

/-- A field after a change of one hash. -/
theorem of_modifyHash (r : Redis) (key id : String) (f : NodeHash → NodeHash) :
    field.of (r.modifyHash key f) id =
      if key = id then field.get (f ((r.hashes id).getD {})) else field.of r id := by
  rw [of, Redis.modifyHash_hashes]
  by_cases here : id = key
  · subst here
    rw [Function.update_self, if_pos rfl, Option.bind_some]
  · rw [Function.update_of_ne here, if_neg (Ne.symm here), of]

theorem get_getD (r : Redis) (id : String) : field.get ((r.hashes id).getD {}) = field.of r id := by
  unfold of
  cases r.hashes id with
  | none => exact field.empty
  | some h => rfl

/-- A field after an operation: what the operation sets, or else what was there. -/
theorem of_apply (r : Redis) (op : RedisOp) (id : String) :
    field.of (r.apply op) id = (field.set id op <|> field.of r id) := by
  cases op with
  | hset key mapping =>
    simp only [Redis.apply, set, of_modifyHash]
    split
    · rw [field.update, get_getD]
    · rfl
  | hincrbyVisits key =>
    simp only [Redis.apply, set, of_modifyHash]
    split
    · rw [field.addVisit, get_getD]
      rfl
    · rfl
  | hincrbyfloatValueSum key reward =>
    simp only [Redis.apply, set, of_modifyHash]
    split
    · rw [field.addValue, get_getD]
      rfl
    · rfl
  | _ => rfl

/-- After a pipeline the field holds what was set last. -/
theorem of_applyAll (r : Redis) (ops : List RedisOp) (id : String) :
    field.of (r.applyAll ops) id = ((ops.filterMap (field.set id)).getLast? <|> field.of r id) := by
  induction ops generalizing r with
  | nil => rfl
  | cons op rest ih =>
    have tail : field.of ((r.apply op).applyAll rest) id = _ := ih (r.apply op)
    rw [of_apply] at tail
    refine Eq.trans tail ?_
    cases sets : field.set id op with
    | none => rw [List.filterMap_cons_none sets]; rfl
    | some a =>
      rw [List.filterMap_cons_some sets, List.getLast?_cons]
      cases (rest.filterMap (field.set id)).getLast? <;> rfl

end HashField

/-! ## Links -/

/-- The links of the tree: which hashes there are, and the fields that place them in it. -/
structure SameLinks (r r' : Redis) : Prop where
  isSome : ∀ id, (r'.hashes id).isSome = (r.hashes id).isSome
  parent : ∀ id, HashField.parent.of r' id = HashField.parent.of r id
  treeId : ∀ id, HashField.treeId.of r' id = HashField.treeId.of r id
  depth : ∀ id, HashField.depth.of r' id = HashField.depth.of r id

theorem SameLinks.refl (r : Redis) : SameLinks r r :=
  ⟨fun _ => rfl, fun _ => rfl, fun _ => rfl, fun _ => rfl⟩

theorem SameLinks.trans {a b c : Redis} (first : SameLinks a b) (second : SameLinks b c) :
    SameLinks a c :=
  ⟨fun id => (second.isSome id).trans (first.isSome id),
    fun id => (second.parent id).trans (first.parent id),
    fun id => (second.treeId id).trans (first.treeId id),
    fun id => (second.depth id).trans (first.depth id)⟩

theorem SameLinks.of_hashes {r r' : Redis} (same : r'.hashes = r.hashes) : SameLinks r r' :=
  ⟨fun id => by rw [same], fun id => by rw [HashField.of, same, HashField.of],
    fun id => by rw [HashField.of, same, HashField.of],
    fun id => by rw [HashField.of, same, HashField.of]⟩

/-- An operation on an existing hash that sets none of the links. -/
def RedisOp.KeepsLinks (r : Redis) : RedisOp → Prop
  | .hset key mapping => (r.hashes key).isSome ∧ mapping.parent = none ∧ mapping.treeId = none ∧
      mapping.depth = none
  | .hincrbyVisits key => (r.hashes key).isSome
  | .hincrbyfloatValueSum key _ => (r.hashes key).isSome
  | _ => True

/-- Changing a hash that is there makes no other. -/
theorem modifyHash_isSome {r : Redis} {key : String} (there : (r.hashes key).isSome)
    (f : NodeHash → NodeHash) (id : String) :
    ((r.modifyHash key f).hashes id).isSome = (r.hashes id).isSome := by
  rw [Redis.modifyHash_hashes]
  by_cases here : id = key
  · subst here
    rw [Function.update_self, there]
    rfl
  · rw [Function.update_of_ne here]

/-- An operation that keeps the links leaves every node where it is in the tree. -/
theorem RedisOp.KeepsLinks.apply {r : Redis} {op : RedisOp} (keeps : op.KeepsLinks r) :
    SameLinks r (r.apply op) := by
  have unset : ∀ {α : Type} (field : HashField α), (∀ id, field.set id op = none) →
      ∀ id, field.of (r.apply op) id = field.of r id := by
    intro α field none id
    rw [field.of_apply, none]
    rfl
  cases op with
  | hset key mapping =>
    obtain ⟨there, noParent, noTree, noDepth⟩ := keeps
    refine ⟨modifyHash_isSome there _, unset _ fun id => ?_, unset _ fun id => ?_,
      unset _ fun id => ?_⟩
    · exact ite_eq_right_iff.mpr fun _ => noParent
    · exact ite_eq_right_iff.mpr fun _ => noTree
    · exact ite_eq_right_iff.mpr fun _ => noDepth
  | hincrbyVisits key =>
    exact ⟨modifyHash_isSome keeps _, unset _ fun _ => rfl, unset _ fun _ => rfl,
      unset _ fun _ => rfl⟩
  | hincrbyfloatValueSum key reward =>
    exact ⟨modifyHash_isSome keeps _, unset _ fun _ => rfl, unset _ fun _ => rfl,
      unset _ fun _ => rfl⟩
  | _ =>
    exact ⟨fun _ => rfl, unset _ fun _ => rfl, unset _ fun _ => rfl, unset _ fun _ => rfl⟩

/-- Whether an operation keeps the links is a matter of the links. -/
theorem RedisOp.KeepsLinks.congr {r r' : Redis} (same : SameLinks r r') {op : RedisOp}
    (keeps : op.KeepsLinks r) : op.KeepsLinks r' := by
  cases op with
  | hset key mapping => exact ⟨(same.isSome key).trans keeps.1, keeps.2⟩
  | hincrbyVisits key => exact (same.isSome key).trans keeps
  | hincrbyfloatValueSum key reward => exact (same.isSome key).trans keeps
  | _ => trivial

/-- A pipeline that keeps the links leaves every node where it is in the tree. -/
theorem sameLinks_applyAll {r : Redis} {ops : List RedisOp}
    (keep : ∀ op ∈ ops, op.KeepsLinks r) : SameLinks r (r.applyAll ops) := by
  induction ops generalizing r with
  | nil => exact .refl r
  | cons op rest ih =>
    have first := (keep op List.mem_cons_self).apply
    have later := ih fun op' mem => (keep op' (List.mem_cons_of_mem op mem)).congr first
    exact first.trans later

/-- Every parent is a node, and every node's tree has its root. -/
structure Linked (r : Redis) : Prop where
  parent : ∀ id p, HashField.parent.of r id = some p → p = "" ∨ (r.hashes p).isSome
  root : ∀ id taskId, HashField.treeId.of r id = some taskId →
    (r.hashes (rootNodeId taskId)).isSome

/-- Links depend on the links alone. -/
theorem Linked.congr {r r' : Redis} (linked : Linked r) (same : SameLinks r r') : Linked r' where
  parent := by
    intro id p link
    rw [same.parent] at link
    rw [same.isSome]
    exact linked.parent id p link
  root := by
    intro id taskId named
    rw [same.treeId] at named
    rw [same.isSome]
    exact linked.root id taskId named

end KernelOmega
