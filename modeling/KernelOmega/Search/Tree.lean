import KernelOmega.Rooted.Route
import KernelOmega.Search.Issued
import KernelOmega.Search.System

/-!
# The search tree

The node hashes and the children sets of a task form a tree: every node but the root
names its parent, stands in that parent's children set and in no other, and is one
level deeper. `IsTree` says so of a store, and `Grows` that the part of a node that
places it in the tree is never written again with another value.

Both rest on the ids. A child's id is the digest of the candidate text and the parent's
id, one after the other with nothing between. The split is still determined: a node id
is the task's prefix, a colon, and a word without colons, so the parent's word is what
follows the last colon, and the rest is the candidate.
-/

namespace KernelOmega

open Concurrent

/-! ## Node ids -/

/-- The ids the nodes of a task have. -/
inductive IsNodeId (sha256 : Sha256) (taskId : String) : String → Prop
  | root : IsNodeId sha256 taskId (rootNodeId taskId)
  | child (text : String) : IsNodeId sha256 taskId (treeNodeId taskId (sha256.text text))

/-- What precedes the last separator is determined. -/
theorem append_cons_inj_right {α : Type} {sep : α} {xs ys ss ts : List α} (inS : sep ∉ ss)
    (inT : sep ∉ ts) (same : xs ++ sep :: ss = ys ++ sep :: ts) : xs = ys ∧ ss = ts := by
  rcases List.append_eq_append_iff.mp same with ⟨cs, rfl, tail⟩ | ⟨cs, rfl, tail⟩
  · cases cs with
    | nil => exact ⟨(List.append_nil xs).symm, (List.cons.inj tail).2⟩
    | cons c cs =>
      obtain ⟨-, rfl⟩ := List.cons.inj tail
      exact absurd (List.mem_append_right cs List.mem_cons_self) inS
  · cases cs with
    | nil => exact ⟨List.append_nil ys, (List.cons.inj tail).2.symm⟩
    | cons c cs =>
      obtain ⟨-, rfl⟩ := List.cons.inj tail
      exact absurd (List.mem_append_right cs List.mem_cons_self) inT

namespace IsNodeId

variable {sha256 : Sha256} {taskId p q : String}

/-- A node id is the task's prefix and a word without colons. -/
theorem exists_word (isNode : IsNodeId sha256 taskId p) :
    ∃ word : List Char, ':' ∉ word ∧
      p.toList = ("omega:tree:" ++ taskId).toList ++ ':' :: word := by
  cases isNode with
  | root => exact ⟨"root".toList, by decide, by simp [rootNodeId]⟩
  | child text =>
    refine ⟨(sha256.text text).toList, sha256.not_mem_text text (by decide), ?_⟩
    simp [treeNodeId]

theorem ne_empty (isNode : IsNodeId sha256 taskId p) : p ≠ "" := by
  rintro rfl
  obtain ⟨word, -, chars⟩ := isNode.exists_word
  simp at chars

/-- The text that is hashed for a child determines the candidate and the parent. -/
theorem append_inj (hp : IsNodeId sha256 taskId p) (hq : IsNodeId sha256 taskId q) {a b : String}
    (same : a ++ p = b ++ q) : a = b ∧ p = q := by
  obtain ⟨word, noColon, chars⟩ := hp.exists_word
  obtain ⟨word', noColon', chars'⟩ := hq.exists_word
  have texts : a.toList ++ p.toList = b.toList ++ q.toList := by
    simpa only [String.toList_append] using congrArg String.toList same
  rw [chars, chars', ← List.append_assoc, ← List.append_assoc] at texts
  obtain ⟨heads, rfl⟩ := append_cons_inj_right noColon noColon' texts
  exact ⟨String.toList_inj.mp (List.append_cancel_right heads),
    String.toList_inj.mp (chars.trans chars'.symm)⟩

/-- Two children have the same id only when they are the same candidate of one node. -/
theorem childId_inj (collisionFree : sha256.CollisionFree) (hp : IsNodeId sha256 taskId p)
    (hq : IsNodeId sha256 taskId q) {a b : String}
    (same : ForestWorker.childId sha256 taskId p a = ForestWorker.childId sha256 taskId q b) :
    a = b ∧ p = q :=
  hp.append_inj hq (collisionFree (treeNodeId_injective taskId same))

theorem childId_ne_root (sha256 : Sha256) (taskId p a : String) :
    ForestWorker.childId sha256 taskId p a ≠ rootNodeId taskId :=
  treeNodeId_ne_rootNodeId (sha256.not_mem_text _ (by decide))

end IsNodeId

/-! ## The part of a node that places it -/

/-- Two hashes agree on the fields that place a node in the tree. -/
structure NodeHash.SamePlace (old new : NodeHash) : Prop where
  treeId : new.treeId = old.treeId
  code : new.code = old.code
  parent : new.parent = old.parent
  depth : new.depth = old.depth
  planJson : new.planJson = old.planJson

namespace NodeHash

theorem SamePlace.refl (h : NodeHash) : h.SamePlace h := ⟨rfl, rfl, rfl, rfl, rfl⟩

theorem SamePlace.trans {h h' h'' : NodeHash} (first : h.SamePlace h')
    (last : h'.SamePlace h'') : h.SamePlace h'' :=
  ⟨last.treeId.trans first.treeId, last.code.trans first.code, last.parent.trans first.parent,
    last.depth.trans first.depth, last.planJson.trans first.planJson⟩

/-- A mapping that writes none of the fields that place a node. -/
structure Placeless (mapping : NodeHash) : Prop where
  treeId : mapping.treeId = none
  code : mapping.code = none
  parent : mapping.parent = none
  depth : mapping.depth = none
  planJson : mapping.planJson = none

/-- A mapping without a place leaves a node where it is. -/
theorem Placeless.samePlace {mapping : NodeHash} (placeless : mapping.Placeless) (old : NodeHash) :
    old.SamePlace (mapping.update old) := by
  constructor
  · simp only [update, placeless.treeId, Option.none_or, Option.orElse_eq_orElse, Option.orElse_eq_or]
  · simp only [update, placeless.code, Option.none_or, Option.orElse_eq_orElse, Option.orElse_eq_or]
  · simp only [update, placeless.parent, Option.none_or, Option.orElse_eq_orElse, Option.orElse_eq_or]
  · simp only [update, placeless.depth, Option.none_or, Option.orElse_eq_orElse, Option.orElse_eq_or]
  · simp only [update, placeless.planJson, Option.none_or, Option.orElse_eq_orElse,
      Option.orElse_eq_or]

end NodeHash

/-- What no step of a search undoes: nodes keep their place, and children sets grow. -/
structure Grows (r r' : Redis) : Prop where
  hashes : ∀ id h, r.hashes id = some h → ∃ h', r'.hashes id = some h' ∧ h.SamePlace h'
  sets : ∀ key c, c ∈ r.sets key → c ∈ r'.sets key

namespace Grows

theorem refl (r : Redis) : Grows r r := ⟨fun _ h found => ⟨h, found, .refl h⟩, fun _ _ => id⟩

theorem trans {r r' r'' : Redis} (first : Grows r r') (last : Grows r' r'') : Grows r r'' := by
  refine ⟨fun id h found => ?_, fun key c mem => last.sets key c (first.sets key c mem)⟩
  obtain ⟨h', found', same⟩ := first.hashes id h found
  obtain ⟨h'', found'', same'⟩ := last.hashes id h' found'
  exact ⟨h'', found'', same.trans same'⟩

end Grows

/-- A change that adds no node and no child, and moves none. -/
structure SameTree (r r' : Redis) : Prop extends Grows r r' where
  old : ∀ id, (r'.hashes id).isSome → (r.hashes id).isSome
  sets_eq : r'.sets = r.sets

namespace SameTree

theorem refl (r : Redis) : SameTree r r := ⟨.refl r, fun _ => id, rfl⟩

theorem trans {r r' r'' : Redis} (first : SameTree r r') (last : SameTree r' r'') :
    SameTree r r'' :=
  ⟨first.toGrows.trans last.toGrows, fun id => first.old id ∘ last.old id,
    last.sets_eq.trans first.sets_eq⟩

/-- A store that differs elsewhere only. -/
theorem of_eq {r r' : Redis} (hashes : r'.hashes = r.hashes) (sets : r'.sets = r.sets) :
    SameTree r r' := by
  refine ⟨⟨fun id h found => ⟨h, ?_, .refl h⟩, fun key c => ?_⟩, fun id => ?_, sets⟩
  · rw [hashes, found]
  · rw [sets]
    exact id
  · rw [hashes]
    exact fun there => there

/-- A change of a hash that is there, keeping its place. -/
theorem modifyHash {r : Redis} {key : String} {f : NodeHash → NodeHash}
    (there : (r.hashes key).isSome) (same : ∀ h : NodeHash, h.SamePlace (f h)) :
    SameTree r (r.modifyHash key f) := by
  obtain ⟨old, found⟩ := Option.isSome_iff_exists.mp there
  refine ⟨⟨fun id h foundId => ?_, fun _ _ => id⟩, fun id exists_ => ?_, rfl⟩
  · by_cases here : id = key
    · subst here
      rw [found] at foundId
      obtain rfl := Option.some.inj foundId
      refine ⟨f old, ?_, same old⟩
      simp only [Redis.modifyHash, found, Function.update_self, Option.getD_some]
    · refine ⟨h, ?_, .refl h⟩
      simp only [Redis.modifyHash, Function.update_of_ne here, foundId]
  · by_cases here : id = key
    · exact here ▸ there
    · simpa only [Redis.modifyHash, Function.update_of_ne here] using exists_

end SameTree

/-! ## Commands that leave the tree alone -/

/-- An operation on a store that adds no node and no child, and moves none. -/
def RedisOp.Tame (r : Redis) : RedisOp → Prop
  | .hset key mapping => (r.hashes key).isSome ∧ mapping.Placeless
  | .hincrbyVisits key => (r.hashes key).isSome
  | .hincrbyfloatValueSum key _ => (r.hashes key).isSome
  | .sadd _ _ => False
  | _ => True

/-- A command that writes to nodes that are there and moves none. -/
def RedisCmd.Tame (r : Redis) : RedisCmd → Prop
  | .hset key mapping => (r.hashes key).isSome ∧ mapping.Placeless
  | .sadd _ _ => False
  | .pipeline ops => ∀ op ∈ ops, op.Tame r
  | _ => True

def Cmd.Tame (r : Redis) : Cmd → Prop
  | .redis c => c.Tame r
  | _ => True

theorem Grows.isSome {r r' : Redis} (grows : Grows r r') {id : String}
    (there : (r.hashes id).isSome) : (r'.hashes id).isSome := by
  obtain ⟨h, found⟩ := Option.isSome_iff_exists.mp there
  obtain ⟨h', found', -⟩ := grows.hashes id h found
  rw [found']
  rfl

/-- An operation that is tame stays so while the tree grows. -/
theorem RedisOp.Tame.grows {r r' : Redis} {op : RedisOp} (tame : op.Tame r)
    (grows : Grows r r') : op.Tame r' := by
  cases op with
  | hset key mapping => exact ⟨grows.isSome tame.1, tame.2⟩
  | hincrbyVisits key => exact grows.isSome tame
  | hincrbyfloatValueSum key reward => exact grows.isSome tame
  | sadd key member => exact tame.elim
  | _ => trivial

theorem Cmd.Tame.of_passive {c : Cmd} (passive : c.Passive) (r : Redis) : c.Tame r := by
  cases c with
  | redis c =>
    cases c with
    | hset key mapping => exact passive.elim
    | sadd key member => exact passive.elim
    | pipeline ops => exact passive.elim
    | _ => trivial
  | _ => trivial

namespace SameTree

theorem apply {r : Redis} {op : RedisOp} (tame : op.Tame r) : SameTree r (r.apply op) := by
  cases op with
  | hset key mapping => exact modifyHash tame.1 tame.2.samePlace
  | hincrbyVisits key =>
    exact modifyHash (f := NodeHash.addVisit) tame fun _ => ⟨rfl, rfl, rfl, rfl, rfl⟩
  | hincrbyfloatValueSum key reward =>
    exact modifyHash (f := NodeHash.addValue reward) tame fun _ => ⟨rfl, rfl, rfl, rfl, rfl⟩
  | sadd key member => exact tame.elim
  | _ => exact of_eq rfl rfl

theorem applyAll {ops : List RedisOp} {r : Redis} (tame : ∀ op ∈ ops, op.Tame r) :
    SameTree r (r.applyAll ops) := by
  induction ops generalizing r with
  | nil => exact refl r
  | cons op rest ih =>
    have first := apply (tame op List.mem_cons_self)
    refine first.trans (ih fun o mem => ?_)
    exact (tame o (List.mem_cons_of_mem op mem)).grows first.toGrows

theorem exec {c : RedisCmd} {r : Redis} (tame : c.Tame r) (now : Nat) :
    SameTree r (r.exec now c).2 := by
  cases c with
  | hset key mapping => exact modifyHash tame.1 tame.2.samePlace
  | sadd key member => exact tame.elim
  | set key value nx ex =>
    simp only [Redis.exec]
    split
    · exact refl r
    · exact of_eq rfl rfl
  | pipeline ops => exact applyAll tame
  | _ => exact of_eq rfl rfl

/-- A tame command leaves the tree the same. -/
theorem world {c : Cmd} {w : World} (tame : c.Tame w.redis) (x : Choice) :
    SameTree w.redis (World.exec x c w).2.redis := by
  rcases World.exec_redis_cases x c w with same | ⟨command, rfl, after⟩
  · rw [same]
    exact refl _
  · rw [after]
    exact exec tame w.clock

theorem around {w w' : World} (around : SearchSetup.Around w w') :
    SameTree w.redis w'.redis := by
  cases around with
  | expire key entry deadline found due past => exact of_eq rfl rfl
  | deliver m => exact of_eq rfl rfl
  | _ => exact refl _

end SameTree

/-! ## The tree -/

/-- `h` is the hash of the non-root node `id`, a child of `p`. -/
structure IsChild (sha256 : Sha256) (task : SeedTask) (r : Redis) (id : String) (h : NodeHash)
    (p : String) : Prop where
  parent : h.parent = some p
  isNode : IsNodeId sha256 task.taskId p
  code : ∃ code, h.code = some code ∧ id = ForestWorker.childId sha256 task.taskId p code
  tree : h.treeId = some task.taskId
  above : ∃ ph d, r.hashes p = some ph ∧ ph.depth = some d ∧ h.depth = some (d + 1) ∧
    (d + 1 : Int) ≤ task.plan.maxDepth
  listed : id ∈ r.sets (nodeChildrenKey p)

/-- `h` is the hash of the task's root: no parent, depth zero, and the plan that all nodes follow.
-/
structure IsRoot (task : SeedTask) (h : NodeHash) : Prop where
  parent : h.parent = some ""
  tree : h.treeId = some task.taskId
  depth : h.depth = some 0
  plan : h.planJson = some task.plan

/-- The nodes of a store are the nodes of one tree. -/
structure IsTree (sha256 : Sha256) (task : SeedTask) (r : Redis) : Prop where
  root : ∃ h, r.hashes (rootNodeId task.taskId) = some h ∧ IsRoot task h
  child : ∀ id h, r.hashes id = some h → id ≠ rootNodeId task.taskId →
    ∃ p, IsChild sha256 task r id h p
  member : ∀ p c, c ∈ r.sets (nodeChildrenKey p) → c ≠ rootNodeId task.taskId ∧
    ∃ h, r.hashes c = some h ∧ h.parent = some p
  distinct : ∀ key, (r.sets key).Nodup

/-- A child stays a child while the tree grows. -/
theorem IsChild.grows {sha256 : Sha256} {task : SeedTask} {r r' : Redis} {id p : String}
    {h h' : NodeHash} (isChild : IsChild sha256 task r id h p) (grows : Grows r r')
    (same : h.SamePlace h') : IsChild sha256 task r' id h' p := by
  obtain ⟨code, coded, named⟩ := isChild.code
  obtain ⟨ph, d, found, depth, depth', bound⟩ := isChild.above
  obtain ⟨ph', found', same'⟩ := grows.hashes p ph found
  exact ⟨same.parent.trans isChild.parent, isChild.isNode, ⟨code, same.code.trans coded, named⟩,
    same.treeId.trans isChild.tree,
    ⟨ph', d, found', same'.depth.trans depth, same.depth.trans depth', bound⟩,
    grows.sets _ id isChild.listed⟩

theorem IsRoot.same {task : SeedTask} {h h' : NodeHash} (isRoot : IsRoot task h)
    (same : h.SamePlace h') : IsRoot task h' :=
  ⟨same.parent.trans isRoot.parent, same.treeId.trans isRoot.tree, same.depth.trans isRoot.depth,
    same.planJson.trans isRoot.plan⟩

namespace IsTree

variable {sha256 : Sha256} {task : SeedTask} {r r' : Redis}

/-- A store with the same tree is a tree. -/
theorem sameTree (tree : IsTree sha256 task r) (same : SameTree r r') : IsTree sha256 task r' := by
  refine ⟨?_, fun id h' found' other => ?_, fun p c mem => ?_, fun key => ?_⟩
  · obtain ⟨h, found, isRoot⟩ := tree.root
    obtain ⟨h', found', samePlace⟩ := same.hashes _ h found
    exact ⟨h', found', isRoot.same samePlace⟩
  · obtain ⟨h, found⟩ := Option.isSome_iff_exists.mp (same.old id (by rw [found']; rfl))
    obtain ⟨h'', found'', samePlace⟩ := same.hashes id h found
    rw [found'] at found''
    obtain rfl := Option.some.inj found''
    obtain ⟨p, isChild⟩ := tree.child id h found other
    exact ⟨p, isChild.grows same.toGrows samePlace⟩
  · rw [same.sets_eq] at mem
    obtain ⟨other, h, found, parent⟩ := tree.member p c mem
    obtain ⟨h', found', samePlace⟩ := same.hashes c h found
    exact ⟨other, h', found', samePlace.parent.trans parent⟩
  · rw [same.sets_eq]
    exact tree.distinct key

theorem root_isSome (tree : IsTree sha256 task r) :
    (r.hashes (rootNodeId task.taskId)).isSome := by
  obtain ⟨h, found, -⟩ := tree.root
  rw [found]
  rfl

/-- Every hash of a tree has a node's id. -/
theorem isNode (tree : IsTree sha256 task r) {id : String} {h : NodeHash}
    (found : r.hashes id = some h) : IsNodeId sha256 task.taskId id := by
  by_cases isRoot : id = rootNodeId task.taskId
  · exact isRoot ▸ .root
  · obtain ⟨p, isChild⟩ := tree.child id h found isRoot
    obtain ⟨code, -, rfl⟩ := isChild.code
    exact .child _

theorem treeId (tree : IsTree sha256 task r) {id : String} {h : NodeHash}
    (found : r.hashes id = some h) : h.treeId = some task.taskId := by
  by_cases isRoot : id = rootNodeId task.taskId
  · obtain ⟨h', found', root⟩ := tree.root
    rw [isRoot, found'] at found
    obtain rfl := Option.some.inj found
    exact root.tree
  · obtain ⟨p, isChild⟩ := tree.child id h found isRoot
    exact isChild.tree

theorem depth (tree : IsTree sha256 task r) {id : String} {h : NodeHash}
    (found : r.hashes id = some h) : ∃ d, h.depth = some d := by
  by_cases isRoot : id = rootNodeId task.taskId
  · obtain ⟨h', found', root⟩ := tree.root
    rw [isRoot, found'] at found
    obtain rfl := Option.some.inj found
    exact ⟨0, root.depth⟩
  · obtain ⟨p, isChild⟩ := tree.child id h found isRoot
    obtain ⟨ph, d, -, -, depth, -⟩ := isChild.above
    exact ⟨d + 1, depth⟩

/-- A node named by its parent and its code. -/
theorem child_of_childId (tree : IsTree sha256 task r) (collisionFree : sha256.CollisionFree)
    {p code : String} (isNode : IsNodeId sha256 task.taskId p) {h : NodeHash}
    (found : r.hashes (ForestWorker.childId sha256 task.taskId p code) = some h) :
    h.code = some code ∧ IsChild sha256 task r
      (ForestWorker.childId sha256 task.taskId p code) h p := by
  obtain ⟨q, isChild⟩ := tree.child _ h found (IsNodeId.childId_ne_root _ _ _ _)
  obtain ⟨code', coded, named⟩ := isChild.code
  obtain ⟨rfl, rfl⟩ := isNode.childId_inj collisionFree isChild.isNode named
  exact ⟨coded, isChild⟩

end IsTree

/-! ## Adding a child -/

/-- The place a new child is written with. -/
structure ChildPlace (taskId p code : String) (d : Nat) (child : NodeHash) : Prop where
  treeId : child.treeId = some taskId
  code : child.code = some code
  parent : child.parent = some p
  depth : child.depth = some (d + 1)
  planJson : child.planJson = none

/-- A new child and its entry in the parent's children set. -/
def Redis.addChild (r : Redis) (p id : String) (child : NodeHash) : Redis :=
  r.applyAll [.hset id child, .sadd (nodeChildrenKey p) id]

namespace Redis

theorem addChild_hashes (r : Redis) (p id : String) (child : NodeHash) :
    (r.addChild p id child).hashes =
      Function.update r.hashes id (some (child.update ((r.hashes id).getD {}))) := rfl

/-- The lists after a child was added. -/
theorem mem_addChild_sets {r : Redis} {p id key c : String} {child : NodeHash} :
    c ∈ (r.addChild p id child).sets key ↔
      c ∈ r.sets key ∨ (key = nodeChildrenKey p ∧ c = id) := by
  simp only [addChild, applyAll, apply, List.foldl_cons, List.foldl_nil, addMember, modifyHash]
  by_cases here : key = nodeChildrenKey p
  · subst here
    rw [Function.update_self]
    split
    · next old => exact ⟨.inl, fun mem => mem.elim (fun h => h) fun new => new.2 ▸ old⟩
    · simp only [List.mem_append, List.mem_singleton, true_and]
  · simp only [Function.update_of_ne here, here, false_and, or_false]

/-- A child is listed once, also when it is written again. -/
theorem addChild_sets_nodup {r : Redis} (distinct : ∀ key, (r.sets key).Nodup) (p id : String)
    (child : NodeHash) (key : String) : ((r.addChild p id child).sets key).Nodup := by
  simp only [addChild, applyAll, apply, List.foldl_cons, List.foldl_nil, addMember, modifyHash]
  by_cases here : key = nodeChildrenKey p
  · subst here
    rw [Function.update_self]
    split
    · exact distinct _
    · next new =>
      exact List.Nodup.append (distinct _) (List.nodup_singleton id)
        (List.disjoint_singleton.mpr new)
  · rw [Function.update_of_ne here]
    exact distinct key

end Redis

/-- Writing a child again writes what its hash already says of its place. -/
theorem ChildPlace.samePlace {taskId p code : String} {d : Nat} {child old : NodeHash}
    (place : ChildPlace taskId p code d child) (treeId : old.treeId = some taskId)
    (coded : old.code = some code) (parent : old.parent = some p) (depth : old.depth = some (d + 1)) :
    old.SamePlace (child.update old) := by
  constructor
  · rw [treeId]
    simp only [NodeHash.update, place.treeId]
    rfl
  · rw [coded]
    simp only [NodeHash.update, place.code]
    rfl
  · rw [parent]
    simp only [NodeHash.update, place.parent]
    rfl
  · rw [depth]
    simp only [NodeHash.update, place.depth]
    rfl
  · simp only [NodeHash.update, place.planJson]
    rfl

/-- A child written below a node of the tree. Its id is a digest of its code and its parent, so the
node that has the id already, if there is one, is the same child. -/
theorem IsTree.addChild {sha256 : Sha256} {task : SeedTask} {r : Redis}
    (tree : IsTree sha256 task r) (collisionFree : sha256.CollisionFree) {p code : String} {d : Nat}
    {child ph : NodeHash} (found : r.hashes p = some ph) (depth : ph.depth = some d)
    (bound : (d + 1 : Int) ≤ task.plan.maxDepth)
    (place : ChildPlace task.taskId p code d child) :
    IsTree sha256 task
        (r.addChild p (ForestWorker.childId sha256 task.taskId p code) child) ∧
      Grows r (r.addChild p (ForestWorker.childId sha256 task.taskId p code) child) := by
  have isNode := tree.isNode found
  have other := IsNodeId.childId_ne_root sha256 task.taskId p code
  have grows : Grows r
      (r.addChild p (ForestWorker.childId sha256 task.taskId p code) child) := by
    refine ⟨fun id h foundId => ?_, fun key c mem => Redis.mem_addChild_sets.mpr (.inl mem)⟩
    rw [Redis.addChild_hashes]
    by_cases here : id = ForestWorker.childId sha256 task.taskId p code
    · subst here
      obtain ⟨coded, isChild⟩ := tree.child_of_childId collisionFree isNode foundId
      obtain ⟨ph', d', found', depth', childDepth, -⟩ := isChild.above
      rw [found] at found'
      obtain rfl := Option.some.inj found'
      rw [depth] at depth'
      obtain rfl := Option.some.inj depth'
      refine ⟨_, Function.update_self .., ?_⟩
      rw [foundId, Option.getD_some]
      exact place.samePlace isChild.tree coded isChild.parent childDepth
    · exact ⟨h, by rw [Function.update_of_ne here, foundId], .refl h⟩
  refine ⟨⟨?_, fun id h foundId notRoot => ?_, fun q c mem => ?_, ?_⟩, grows⟩
  · obtain ⟨h, foundRoot, isRoot⟩ := tree.root
    refine ⟨h, ?_, isRoot⟩
    rw [Redis.addChild_hashes, Function.update_of_ne (Ne.symm other), foundRoot]
  · rw [Redis.addChild_hashes] at foundId
    by_cases here : id = ForestWorker.childId sha256 task.taskId p code
    · subst here
      rw [Function.update_self] at foundId
      obtain rfl := Option.some.inj foundId
      obtain ⟨ph', found', same⟩ := grows.hashes p ph found
      refine ⟨p, ?_, isNode, ⟨code, ?_, rfl⟩, ?_, ⟨ph', d, found', same.depth.trans depth, ?_, bound⟩,
        Redis.mem_addChild_sets.mpr (.inr ⟨rfl, rfl⟩)⟩
      · simp only [NodeHash.update, place.parent]
        rfl
      · simp only [NodeHash.update, place.code]
        rfl
      · simp only [NodeHash.update, place.treeId]
        rfl
      · simp only [NodeHash.update, place.depth]
        rfl
    · rw [Function.update_of_ne here] at foundId
      obtain ⟨q, isChild⟩ := tree.child id h foundId notRoot
      exact ⟨q, isChild.grows grows (.refl h)⟩
  · rcases Redis.mem_addChild_sets.mp mem with mem | ⟨same, rfl⟩
    · obtain ⟨notRoot, h, foundC, parent⟩ := tree.member q c mem
      obtain ⟨h', found', samePlace⟩ := grows.hashes c h foundC
      exact ⟨notRoot, h', found', samePlace.parent.trans parent⟩
    · obtain rfl := nodeChildrenKey_injective same
      refine ⟨other, _, by rw [Redis.addChild_hashes, Function.update_self], ?_⟩
      simp only [NodeHash.update, place.parent]
      rfl
  · exact Redis.addChild_sets_nodup tree.distinct p _ child

/-! ## Parents and depths -/

/-- The parent a walk goes on to: an absent or empty `parent` field ends it. -/
def parentOf (r : Redis) (id : String) : Option String :=
  if ((r.hashes id).bind (·.parent)).getD "" = "" then none
  else some (((r.hashes id).bind (·.parent)).getD "")

/-- The depth of a node. -/
def depthOf (r : Redis) (id : String) : Nat := ((r.hashes id).bind (·.depth)).getD 0

/-- The field a walk reads where there is no parent. -/
theorem parent_getD_of_none {r : Redis} {id : String} (top : parentOf r id = none) :
    ((r.hashes id).bind (·.parent)).getD "" = "" := by
  unfold parentOf at top
  split at top
  · next empty => exact empty
  · cases top

theorem parent_getD_of_some {r : Redis} {id p : String} (link : parentOf r id = some p) :
    ((r.hashes id).bind (·.parent)).getD "" = p := by
  unfold parentOf at link
  split at link
  · cases link
  · exact Option.some.inj link

theorem Grows.parentOf_eq {r r' : Redis} (grows : Grows r r') {id : String}
    (there : (r.hashes id).isSome) : parentOf r' id = parentOf r id := by
  obtain ⟨h, found⟩ := Option.isSome_iff_exists.mp there
  obtain ⟨h', found', same⟩ := grows.hashes id h found
  simp only [parentOf, found, found', Option.bind_some, same.parent]

theorem IsChild.parentOf_eq {sha256 : Sha256} {task : SeedTask} {r : Redis} {id p : String}
    {h : NodeHash} (isChild : IsChild sha256 task r id h p) (found : r.hashes id = some h) :
    parentOf r id = some p := by
  simp only [parentOf, found, Option.bind_some, isChild.parent, Option.getD_some,
    isChild.isNode.ne_empty, ↓reduceIte]

namespace IsTree

variable {sha256 : Sha256} {task : SeedTask} {r : Redis}

theorem parentOf_root (tree : IsTree sha256 task r) : parentOf r (rootNodeId task.taskId) = none := by
  obtain ⟨h, found, isRoot⟩ := tree.root
  simp only [parentOf, found, Option.bind_some, isRoot.parent, Option.getD_some, ↓reduceIte]

/-- The parent link of a node leads to a node one level up, whose children set lists it. -/
theorem parentOf_spec (tree : IsTree sha256 task r) {id p : String}
    (there : (r.hashes id).isSome) (link : parentOf r id = some p) :
    (r.hashes p).isSome ∧ depthOf r id = depthOf r p + 1 ∧ id ∈ r.sets (nodeChildrenKey p) := by
  obtain ⟨h, found⟩ := Option.isSome_iff_exists.mp there
  by_cases isRoot : id = rootNodeId task.taskId
  · rw [isRoot, tree.parentOf_root] at link
    cases link
  · obtain ⟨q, isChild⟩ := tree.child id h found isRoot
    rw [isChild.parentOf_eq found] at link
    obtain rfl := Option.some.inj link
    obtain ⟨ph, d, foundP, depth, depth', -⟩ := isChild.above
    refine ⟨by rw [foundP]; rfl, ?_, isChild.listed⟩
    simp only [depthOf, found, foundP, Option.bind_some, depth, depth', Option.getD_some]

/-- Only the root has no parent. -/
theorem eq_root (tree : IsTree sha256 task r) {id : String} (there : (r.hashes id).isSome)
    (top : parentOf r id = none) : id = rootNodeId task.taskId := by
  obtain ⟨h, found⟩ := Option.isSome_iff_exists.mp there
  by_contra other
  obtain ⟨q, isChild⟩ := tree.child id h found other
  rw [isChild.parentOf_eq found] at top
  cases top

theorem depthOf_eq_zero (tree : IsTree sha256 task r) {id : String}
    (there : (r.hashes id).isSome) (top : parentOf r id = none) : depthOf r id = 0 := by
  obtain ⟨h, found, root⟩ := tree.root
  simp only [depthOf, tree.eq_root there top, found, Option.bind_some, root.depth, Option.getD_some]

/-- A node's children set lists the nodes whose parent link leads to it. -/
theorem mem_sets_iff (tree : IsTree sha256 task r) {m c : String} (there : (r.hashes c).isSome) :
    c ∈ r.sets (nodeChildrenKey m) ↔ parentOf r c = some m := by
  constructor
  · intro mem
    obtain ⟨notRoot, h, found, parent⟩ := tree.member m c mem
    obtain ⟨p, isChild⟩ := tree.child c h found notRoot
    rw [isChild.parent] at parent
    obtain rfl := Option.some.inj parent
    exact isChild.parentOf_eq found
  · exact fun link => (tree.parentOf_spec there link).2.2

theorem exists_route (tree : IsTree sha256 task r) {id : String} (there : (r.hashes id).isSome) :
    ∃ path, Rooted.Route (parentOf r) id path :=
  Rooted.Route.exists_of_depth (P := fun y => (r.hashes y).isSome)
    (fun _ _ there link => ⟨(tree.parentOf_spec there link).1, (tree.parentOf_spec there link).2.1⟩)
    there

variable {id : String} {path : List String}

/-- A route consists of nodes. -/
theorem route_there (tree : IsTree sha256 task r) (there : (r.hashes id).isSome)
    (route : Rooted.Route (parentOf r) id path) : ∀ y ∈ path, (r.hashes y).isSome :=
  route.forall_mem there fun _ _ there link => (tree.parentOf_spec there link).1

theorem route_up (tree : IsTree sha256 task r) (there : (r.hashes id).isSome)
    (route : Rooted.Route (parentOf r) id path) :
    ∀ y ∈ path, ∀ p, parentOf r y = some p → depthOf r y = depthOf r p + 1 :=
  fun y mem _ link => (tree.parentOf_spec (tree.route_there there route y mem) link).2.1

theorem route_nodup (tree : IsTree sha256 task r) (there : (r.hashes id).isSome)
    (route : Rooted.Route (parentOf r) id path) : path.Nodup :=
  route.nodup (tree.route_up there route)

theorem route_length (tree : IsTree sha256 task r) (there : (r.hashes id).isSome)
    (route : Rooted.Route (parentOf r) id path) : path.length = depthOf r id + 1 :=
  route.length (tree.route_up there route) fun y mem =>
    tree.depthOf_eq_zero (tree.route_there there route y mem)

end IsTree

/-- Routes stay what they are while the tree grows. -/
theorem Grows.route {sha256 : Sha256} {task : SeedTask} {r r' : Redis} (grows : Grows r r')
    (tree : IsTree sha256 task r) {id : String} {path : List String}
    (there : (r.hashes id).isSome) (route : Rooted.Route (parentOf r) id path) :
    Rooted.Route (parentOf r') id path :=
  route.congr fun y mem => grows.parentOf_eq (tree.route_there there route y mem)

end KernelOmega
