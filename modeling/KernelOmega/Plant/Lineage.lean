import KernelOmega.Plant.Desks
import KernelOmega.Plant.Posts
import KernelOmega.Search.Issued
import KernelOmega.Search.Tree

/-!
# What a node is stays what it is

A node's id is made of its tree, its parent and its code, so a node is never written a second
time with another code or into another tree. This needs that the parent is a node of the tree
itself, which a worker knows of the ids it has come down to: they are the root, or were read from
the children of such an id. `Lineage` is that knowledge.
-/

namespace KernelOmega

open Concurrent

variable {sha256 : Sha256}

theorem IsNodeId.namesTree {taskId p : String} (isNode : IsNodeId sha256 taskId p) :
    NamesTree p taskId := by
  cases isNode with
  | root => exact namesTree_rootNodeId taskId
  | child text => exact ⟨_, sha256.not_mem_text text (by decide), rfl⟩

/-! ## The stored nodes -/

/-- The hash of a node says nothing of a tree, or what its id says. -/
inductive NodeHash.Placed (sha256 : Sha256) (key : String) (node : NodeHash) : Prop
  | nowhere : node.treeId = none → Placed sha256 key node
  | root (taskId : String) : key = rootNodeId taskId → node.treeId = some taskId →
      node.code.isSome = true → Placed sha256 key node
  | child (taskId p code : String) : IsNodeId sha256 taskId p →
      key = ForestWorker.childId sha256 taskId p code → node.treeId = some taskId →
      node.code = some code → Placed sha256 key node

/-- A node that was not moved is still placed. -/
theorem NodeHash.Placed.same {key : String} {old new : NodeHash} (placed : old.Placed sha256 key)
    (same : old.SamePlace new) : new.Placed sha256 key := by
  cases placed with
  | nowhere none => exact .nowhere (same.treeId.trans none)
  | root taskId here tree code =>
    exact .root taskId here (same.treeId.trans tree) (same.code ▸ code)
  | child taskId p code above here tree coded =>
    exact .child taskId p code above here (same.treeId.trans tree) (same.code.trans coded)

/-- A placed node of a tree has a code. -/
theorem NodeHash.Placed.code {key taskId : String} {node : NodeHash}
    (placed : node.Placed sha256 key) (tree : node.treeId = some taskId) :
    node.code.isSome = true := by
  cases placed with
  | nowhere none => cases none.symm.trans tree
  | root taskId here tree code => exact code
  | child taskId p code above here tree coded => rw [coded, Option.isSome_some]

/-- A child is written where another node was: it is the same child. -/
theorem NodeHash.Placed.of_child (collisionFree : sha256.CollisionFree)
    {taskId taskId' p code : String} {node : NodeHash} (above : IsNodeId sha256 taskId p)
    (placed : node.Placed sha256 (ForestWorker.childId sha256 taskId p code))
    (tree : node.treeId = some taskId') : taskId' = taskId ∧ node.code = some code := by
  have isNode : IsNodeId sha256 taskId (ForestWorker.childId sha256 taskId p code) := .child _
  cases placed with
  | nowhere none => cases none.symm.trans tree
  | root taskId₁ here tree₁ coded =>
    have atRoot : IsNodeId sha256 taskId₁ (ForestWorker.childId sha256 taskId p code) :=
      here ▸ .root
    obtain rfl := isNode.namesTree.unique atRoot.namesTree
    exact absurd here (IsNodeId.childId_ne_root sha256 taskId p code)
  | child taskId₁ p₁ code₁ above₁ here tree₁ coded =>
    have child : IsNodeId sha256 taskId₁ (ForestWorker.childId sha256 taskId p code) :=
      here ▸ .child _
    obtain rfl := isNode.namesTree.unique child.namesTree
    obtain ⟨rfl, -⟩ := above.childId_inj collisionFree above₁ here
    exact ⟨Option.some.inj (tree.symm.trans tree₁), coded⟩

namespace Redis

/-- The children of a tree's node are nodes of the tree. -/
def Kin (sha256 : Sha256) (r : Redis) : Prop :=
  ∀ p c, c ∈ r.sets (nodeChildrenKey p) → ∀ taskId, IsNodeId sha256 taskId p →
    IsNodeId sha256 taskId c

/-- A child is listed with a node of its tree. -/
theorem Kin.addMember {r : Redis} (kin : r.Kin sha256) {taskId p candidate : String}
    (above : IsNodeId sha256 taskId p) :
    (r.addMember (nodeChildrenKey p) (ForestWorker.childId sha256 taskId p candidate)).Kin
      sha256 := by
  intro p' c mem taskId' isNode
  by_cases same : nodeChildrenKey p' = nodeChildrenKey p
  · obtain rfl := nodeChildrenKey_injective same
    obtain rfl := above.namesTree.unique isNode.namesTree
    simp only [Redis.addMember, Function.update_self] at mem
    split at mem
    · exact kin p' c mem taskId isNode
    · rcases List.mem_append.mp mem with before | here
      · exact kin p' c before taskId isNode
      · rw [List.mem_singleton.mp here]
        exact .child _
  · simp only [Redis.addMember, Function.update_of_ne same] at mem
    exact kin p' c mem taskId' isNode

/-- Every node is what its id says, and the children of a tree's node are nodes of the tree. -/
structure Planted (sha256 : Sha256) (r : Redis) : Prop where
  placed : ∀ key node, r.hashes key = some node → node.Placed sha256 key
  kin : r.Kin sha256

/-- The nodes that are in a tree stay there with their code. -/
def Stays (r r' : Redis) : Prop :=
  ∀ key node taskId, r.hashes key = some node → node.treeId = some taskId →
    ∃ node', r'.hashes key = some node' ∧ node'.treeId = some taskId ∧ node'.code = node.code

theorem Stays.of_eq {r r' : Redis} (same : r'.hashes = r.hashes) : r.Stays r' :=
  fun _ node _ found tree => ⟨node, by rw [same, found], tree, rfl⟩

theorem Stays.trans {r r' r'' : Redis} (first : r.Stays r') (last : r'.Stays r'') :
    r.Stays r'' := by
  intro key node taskId found tree
  obtain ⟨node', found', tree', code'⟩ := first key node taskId found tree
  obtain ⟨node'', found'', tree'', code''⟩ := last key node' taskId found' tree'
  exact ⟨node'', found'', tree'', code''.trans code'⟩

end Redis

/-- An operation writes no place, or a child where it belongs. -/
def RedisOp.Plants (sha256 : Sha256) : RedisOp → Prop
  | .hset key mapping => mapping.Placeless ∨ ∃ taskId p code, IsNodeId sha256 taskId p ∧
      key = ForestWorker.childId sha256 taskId p code ∧ mapping.treeId = some taskId ∧
      mapping.code = some code
  | .sadd key member => ∃ taskId p code, IsNodeId sha256 taskId p ∧ key = nodeChildrenKey p ∧
      member = ForestWorker.childId sha256 taskId p code
  | _ => True

/-- A command that plants: outside of a pipeline nothing is placed or listed. -/
def RedisCmd.Plants (sha256 : Sha256) : RedisCmd → Prop
  | .hset _ mapping => mapping.Placeless
  | .sadd _ _ => False
  | .pipeline ops => ∀ op ∈ ops, op.Plants sha256
  | _ => True

def Cmd.Plants (sha256 : Sha256) : Cmd → Prop
  | .redis c => c.Plants sha256
  | _ => True

namespace Redis.Planted

variable {r : Redis}

theorem getD (planted : r.Planted sha256) (key : String) :
    ((r.hashes key).getD {}).Placed sha256 key := by
  cases found : r.hashes key with
  | none => exact .nowhere rfl
  | some node => exact planted.placed key node found

theorem of_eq {r' : Redis} (planted : r.Planted sha256) (hashes : r'.hashes = r.hashes)
    (sets : r'.sets = r.sets) : r'.Planted sha256 :=
  ⟨fun key node found => planted.placed key node (hashes ▸ found),
    fun p c mem => planted.kin p c (sets ▸ mem)⟩

/-- A hash is changed, and the node is placed still. -/
theorem modifyHash (planted : r.Planted sha256) {key : String} {f : NodeHash → NodeHash}
    (placed : (f ((r.hashes key).getD {})).Placed sha256 key) :
    (r.modifyHash key f).Planted sha256 := by
  refine ⟨fun key' node found => ?_, planted.kin⟩
  rw [modifyHash_hashes] at found
  by_cases here : key' = key
  · subst here
    rw [Function.update_self, Option.some.injEq] at found
    exact found ▸ placed
  · rw [Function.update_of_ne here] at found
    exact planted.placed key' node found

/-- A hash is changed, and a node that was in a tree is where it was. -/
theorem modify (planted : r.Planted sha256) {key : String} {f : NodeHash → NodeHash}
    (placed : (f ((r.hashes key).getD {})).Placed sha256 key)
    (same : ∀ taskId, ((r.hashes key).getD {}).treeId = some taskId →
      (f ((r.hashes key).getD {})).treeId = some taskId ∧
        (f ((r.hashes key).getD {})).code = ((r.hashes key).getD {}).code) :
    (r.modifyHash key f).Planted sha256 ∧ r.Stays (r.modifyHash key f) := by
  refine ⟨planted.modifyHash placed, fun key' node taskId found tree => ?_⟩
  rw [modifyHash_hashes]
  by_cases here : key' = key
  · subst here
    rw [Function.update_self]
    rw [found, Option.getD_some] at same
    obtain ⟨tree', code⟩ := same taskId tree
    rw [found, Option.getD_some]
    exact ⟨_, rfl, tree', code⟩
  · rw [Function.update_of_ne here]
    exact ⟨node, found, tree, rfl⟩

theorem modify_same (planted : r.Planted sha256) (key : String) {f : NodeHash → NodeHash}
    (same : ∀ old : NodeHash, old.SamePlace (f old)) :
    (r.modifyHash key f).Planted sha256 ∧ r.Stays (r.modifyHash key f) := by
  refine planted.modify ((planted.getD key).same (same _)) fun taskId tree => ?_
  exact ⟨(same _).treeId.trans tree, (same _).code⟩

/-- An operation that plants keeps the forest planted, and no node that is there is moved. -/
theorem apply (collisionFree : sha256.CollisionFree) (planted : r.Planted sha256) {op : RedisOp}
    (plants : op.Plants sha256) : (r.apply op).Planted sha256 ∧ r.Stays (r.apply op) := by
  cases op with
  | hset key mapping =>
    rcases plants with placeless | ⟨taskId, p, code, above, rfl, tree, coded⟩
    · exact planted.modify_same key placeless.samePlace
    · -- The new fields win; a node that was there is this child.
      have tree' : ∀ old, (mapping.update old).treeId = some taskId := fun old => by
        simp only [NodeHash.update, tree, Option.orElse_eq_orElse, Option.orElse_eq_or,
          Option.some_or]
      have code' : ∀ old, (mapping.update old).code = some code := fun old => by
        simp only [NodeHash.update, coded, Option.orElse_eq_orElse, Option.orElse_eq_or,
          Option.some_or]
      refine planted.modify (.child taskId p code above rfl (tree' _) (code' _)) fun taskId' old => ?_
      obtain ⟨rfl, same⟩ := (planted.getD _).of_child collisionFree above old
      exact ⟨tree' _, (code' _).trans same.symm⟩
  | hincrbyVisits key => exact planted.modify_same key fun _ => ⟨rfl, rfl, rfl, rfl, rfl⟩
  | hincrbyfloatValueSum key reward =>
    exact planted.modify_same key fun _ => ⟨rfl, rfl, rfl, rfl, rfl⟩
  | sadd key member =>
    obtain ⟨taskId, p, code, above, rfl, rfl⟩ := plants
    exact ⟨⟨planted.placed, planted.kin.addMember above⟩, .of_eq rfl⟩
  | _ => exact ⟨planted.of_eq rfl rfl, .of_eq rfl⟩

/-- A pipeline that plants, -/
theorem applyAll (collisionFree : sha256.CollisionFree) (planted : r.Planted sha256)
    {ops : List RedisOp} (plants : ∀ op ∈ ops, op.Plants sha256) :
    (r.applyAll ops).Planted sha256 ∧ r.Stays (r.applyAll ops) := by
  refine applyAll_induction (P := fun r' => r'.Planted sha256 ∧ r.Stays r') ?_
    ⟨planted, .of_eq rfl⟩
  rintro op mem r' ⟨planted', stays⟩
  obtain ⟨planted'', stays'⟩ := planted'.apply collisionFree (plants op mem)
  exact ⟨planted'', stays.trans stays'⟩

/-- A command that plants keeps the forest planted. -/
theorem exec (collisionFree : sha256.CollisionFree) (planted : r.Planted sha256) {c : RedisCmd}
    (plants : c.Plants sha256) (now : Nat) :
    (r.exec now c).2.Planted sha256 ∧ r.Stays (r.exec now c).2 := by
  cases c with
  | hset key mapping => exact planted.modify_same key (NodeHash.Placeless.samePlace plants)
  | sadd key member => exact plants.elim
  | pipeline ops => exact planted.applyAll collisionFree plants
  | set key value nx ex =>
    simp only [Redis.exec]
    split <;> exact ⟨planted.of_eq rfl rfl, .of_eq rfl⟩
  | _ => exact ⟨planted.of_eq rfl rfl, .of_eq rfl⟩

/-- and any command that does, keep the forest planted and move no node. -/
theorem world (collisionFree : sha256.CollisionFree) {w : World}
    (planted : w.redis.Planted sha256) {c : Cmd} (plants : c.Plants sha256) (x : Choice) :
    (World.exec x c w).2.redis.Planted sha256 ∧ w.redis.Stays (World.exec x c w).2.redis := by
  rcases World.exec_redis_cases x c w with same | ⟨command, rfl, after⟩
  · rw [same]
    exact ⟨planted, .of_eq rfl⟩
  · rw [after]
    exact planted.exec collisionFree plants w.clock

end Redis.Planted

/-- Seeded stores hold roots only, with their codes. -/
theorem planted_seedAll (sha256 : Sha256) (tasks : List SeedTask) :
    (seedAll tasks).redis.Planted sha256 := by
  have kept : ∀ w : World, w.redis.Planted sha256 → (tasks.foldl
      (fun w task => (task.fixTests.run World.exec (fun _ => {}) w).2) w).redis.Planted sha256 := by
    induction tasks with
    | nil => exact fun _ planted => planted
    | cons task rest ih =>
      refine fun w planted => ih _ ?_
      dsimp only
      rw [task.run_fixTests w]
      have listed : (w.redis.addMember treeIndex task.taskId).Planted sha256 := by
        refine ⟨planted.placed, fun p c mem taskId isNode => planted.kin p c ?_ taskId isNode⟩
        simpa only [Redis.addMember, Function.update_of_ne (nodeChildrenKey_ne_treeIndex p)] using mem
      exact listed.modifyHash (.root task.taskId rfl rfl rfl)
  refine kept {} ⟨fun key node found => ?_, fun p c mem => ?_⟩
  · cases found
  · cases mem

/-! ## What a worker has read -/

/-- What a worker has come down to in a tree: the root, and the children it has read of such a
node. `reads` are the children sets it has read, with their members. -/
inductive Lineage (reads : List (String × List String)) (taskId : String) : String → Prop
  | root : Lineage reads taskId (rootNodeId taskId)
  | child {p c : String} {members : List String} : Lineage reads taskId p →
      (nodeChildrenKey p, members) ∈ reads → c ∈ members → Lineage reads taskId c

theorem Lineage.mono {reads reads' : List (String × List String)} {taskId p : String}
    (lineage : Lineage reads taskId p) (more : ∀ read ∈ reads, read ∈ reads') :
    Lineage reads' taskId p := by
  induction lineage with
  | root => exact .root
  | child _ read mem ih => exact .child ih (more _ read) mem

/-- What was read keeps to the trees: the children of a tree's node are nodes of the tree. -/
def KinRead (sha256 : Sha256) (reads : List (String × List String)) : Prop :=
  ∀ p members, (nodeChildrenKey p, members) ∈ reads → ∀ c ∈ members, ∀ taskId,
    IsNodeId sha256 taskId p → IsNodeId sha256 taskId c

theorem Lineage.isNodeId {reads : List (String × List String)} {taskId p : String}
    (kin : KinRead sha256 reads) (lineage : Lineage reads taskId p) :
    IsNodeId sha256 taskId p := by
  induction lineage with
  | root => exact .root
  | child _ read mem ih => exact kin _ _ read _ mem taskId ih

/-- A worker writes children only under the nodes it has come down to. -/
def kinship (sha256 : Sha256) :
    Typestate Cmd Cmd.Reply PyError (List (String × List String)) where
  next := fun reads => fun
    | .redis (.smembers key) => fun
      | .ok members => (key, members) :: reads
      | .error _ => reads
    | _ => fun _ => reads
  allows := fun reads => fun
    | .redis (.hset _ mapping) => mapping.Placeless
    | .redis (.sadd _ _) => False
    | .redis (.pipeline ops) =>
      (∃ taskId p, Lineage reads taskId p ∧ Stage.WritesChild sha256 p taskId ops) ∨
        Stage.ClosesNode ops
    | _ => True

/-- What a worker reads of a set keeps to the trees. -/
theorem KinRead.next {reads : List (String × List String)} {w : World} {c : Cmd} {x : Choice}
    (read : KinRead sha256 reads) (kin : w.redis.Kin sha256) :
    KinRead sha256 ((kinship sha256).next reads c (World.exec x c w).1) := by
  cases c with
  | redis c =>
    cases reply : (World.exec x (.redis c) w).1 with
    | error e => cases c <;> exact read
    | ok v =>
      obtain ⟨-, rfl⟩ := World.exec_redis_eq_ok reply
      cases c with
      | smembers key =>
        intro p members mem child inside taskId isNode
        rcases List.mem_cons.mp mem with here | earlier
        · obtain ⟨rfl, rfl⟩ := Prod.mk.inj here
          exact kin p child inside taskId isNode
        · exact read p members earlier child inside taskId isNode
      | _ => exact read
  | _ => exact read

/-- What a worker issues in a tree it has come down in writes a child where it belongs. -/
theorem kinship_plants {reads : List (String × List String)} (kin : KinRead sha256 reads) {c : Cmd}
    (allowed : (kinship sha256).allows reads c) : c.Plants sha256 := by
  cases c with
  | redis c =>
    cases c with
    | hset key mapping => exact allowed
    | sadd key member => exact allowed
    | pipeline ops =>
      intro op mem
      rcases allowed with ⟨taskId, p, lineage, candidate, child, tree, -, coded, rfl⟩ | closes
      · have above := lineage.isNodeId kin
        simp only [List.mem_cons, List.not_mem_nil, or_false] at mem
        rcases mem with rfl | rfl
        · exact .inr ⟨taskId, p, candidate, above, rfl, tree, coded⟩
        · exact ⟨taskId, p, candidate, above, rfl, rfl⟩
      · obtain ⟨nodeId, mapping, rfl, placeless⟩ := closes op mem
        exact .inl placeless
    | _ => trivial
  | _ => trivial

/-! ## The code keeps to it -/

/-- A command that a worker issues when it has read this much, and that tells it no more. -/
def Tends (sha256 : Sha256) (reads : List (String × List String)) (c : Cmd) : Prop :=
  (kinship sha256).allows reads c ∧ ∀ reply, (kinship sha256).next reads c reply = reads

section Kinship

variable {α β : Type} {reads : List (String × List String)}

theorem Tends.hset {key : String} {mapping : NodeHash} (placeless : mapping.Placeless) :
    Tends sha256 reads (.redis (.hset key mapping)) :=
  ⟨placeless, fun _ => rfl⟩

/-- A program of such commands in front of a continuation. -/
theorem Tends.bind {p : Daemon α} {f : α → Daemon β}
    {post : β → List (String × List String) → Prop} (uses : p.Uses (Tends sha256 reads))
    (rest : ∀ a, (f a).Keeps (kinship sha256) post (fun _ _ => True) reads) :
    (p >>= f).Keeps (kinship sha256) post (fun _ _ => True) reads := by
  have keeps : p.Keeps (kinship sha256) (fun _ q => q = reads) (fun _ q => q = reads) reads := by
    refine Prog.Keeps.of_uses (I := fun q => q = reads) (fun c tends q here => ?_) uses rfl
    subst here
    exact tends
  refine Prog.Keeps.bind (keeps.mono (fun _ _ same => same) fun _ _ _ => trivial) fun a q here => ?_
  subst here
  exact rest a

theorem Tends.keeps {p : Daemon α} {post : α → List (String × List String) → Prop}
    (uses : p.Uses (Tends sha256 reads)) (post' : ∀ a, post a reads) :
    p.Keeps (kinship sha256) post (fun _ _ => True) reads := by
  rw [← Prog.bind_ret p]
  exact Tends.bind uses post'

namespace ForestWorker

variable (self : ForestWorker) {taskId nodeId : String}

/-- An expansion of a node the worker has come down to writes its children under that node, and
tells the worker no more of any set. -/
theorem Expands.tends {self : ForestWorker} (lineage : Lineage reads taskId nodeId) {node : NodeHash}
    {c : Cmd} (expands : self.Expands sha256 taskId nodeId node c) : Tends sha256 reads c := by
  cases expands with
  | leaves issued =>
    cases issued with
    | refuse => exact .hset ⟨rfl, rfl, rfl, rfl, rfl⟩
    | leaf => exact .hset ⟨rfl, rfl, rfl, rfl, rfl⟩
    | _ => exact ⟨trivial, fun _ => rfl⟩
  | reserves issued =>
    cases issued with
    | refuse => exact .hset ⟨rfl, rfl, rfl, rfl, rfl⟩
    | grant generated => exact .hset ⟨rfl, rfl, rfl, rfl, rfl⟩
    | _ => exact ⟨trivial, fun _ => rfl⟩
  | dispatches coded mutates issued =>
    cases issued with
    | queues queued => cases queued <;> exact ⟨trivial, fun _ => rfl⟩
    | draw => exact ⟨trivial, fun _ => rfl⟩
    | child made =>
      obtain ⟨testCode, sourcePath, testPath, repoPath, rfl⟩ := childMapping_eq_ok made
      exact ⟨.inl ⟨taskId, nodeId, lineage, _, _, rfl, rfl, rfl, rfl⟩, fun _ => rfl⟩
  | closes issued =>
    cases issued with
    | ledger c => exact ⟨trivial, fun _ => rfl⟩
    | barren =>
      exact ⟨.inr (List.forall_mem_cons.mpr ⟨⟨nodeId, _, rfl, rfl, rfl, rfl, rfl, rfl⟩,
        List.forall_mem_singleton.mpr ⟨nodeId, _, rfl, rfl, rfl, rfl, rfl, rfl⟩⟩), fun _ => rfl⟩
    | done =>
      exact ⟨.inr (List.forall_mem_singleton.mpr ⟨nodeId, _, rfl, rfl, rfl, rfl, rfl, rfl⟩),
        fun _ => rfl⟩
  | _ => exact ⟨trivial, fun _ => rfl⟩

theorem expand_tends (lineage : Lineage reads taskId nodeId) :
    (self.expand sha256 taskId nodeId).Uses (Tends sha256 reads) :=
  self.expand_uses sha256 taskId nodeId ⟨trivial, fun _ => rfl⟩ fun _ _ expands => expands.tends lineage

/-! ## Coming down -/

section Descent

variable {S : Type} [LinearOrder S] (ucb : UcbScore S)

/-- The node a scan settles on. -/
def chosen : String ⊕ Option (String × S) → Option String
  | .inl childId => some childId
  | .inr best => best.map Prod.fst

/-- The child that is chosen is one of the children, or the best of before. -/
theorem bestChild_yields (plan : TaskPlan) (parentVisits : Int) (children : List String)
    (best : Option (String × S)) :
    (bestChild ucb plan parentVisits children best).Yields fun found =>
      ∀ c, chosen found = some c → c ∈ children ∨ best.map Prod.fst = some c := by
  induction children generalizing best with
  | nil => exact fun _ same => .inr same
  | cons childId rest ih =>
    -- The rest goes on with the child just scored, or with the best of before.
    have later : ∀ best' : Option (String × S),
        (best'.map Prod.fst = some childId ∨ best'.map Prod.fst = best.map Prod.fst) →
        (bestChild ucb plan parentVisits rest best').Yields fun found =>
          ∀ c, chosen found = some c → c ∈ childId :: rest ∨ best.map Prod.fst = some c := by
      intro best' known
      refine (ih best').mono fun found settled c same => ?_
      rcases settled c same with mem | before
      · exact .inl (List.mem_cons_of_mem childId mem)
      · rcases known with here | earlier
        · obtain rfl := Option.some.inj (here.symm.trans before)
          exact .inl List.mem_cons_self
        · exact .inr (earlier ▸ before)
    rw [bestChild_cons]
    refine (Prog.yields_true _).bind fun childData _ => ?_
    dsimp only
    split
    · intro c same
      obtain rfl := Option.some.inj same
      exact .inl List.mem_cons_self
    · cases best with
      | none => exact later _ (.inl rfl)
      | some running =>
        dsimp only
        split
        · exact later _ (.inl rfl)
        · exact later _ (.inr rfl)

/-- A scan tells a worker no more, and settles on a child if on any node. -/
theorem bestChild_kinship (plan : TaskPlan) (parentVisits : Int) (children : List String) :
    (bestChild ucb plan parentVisits children none).Keeps (kinship sha256)
      (fun found q => (∀ c, chosen found = some c → c ∈ children) ∧ q = reads)
      (fun _ _ => True) reads := by
  have keeps : (bestChild ucb plan parentVisits children none).Keeps (kinship sha256)
      (fun _ q => q = reads) (fun _ _ => True) reads :=
    Tends.keeps (bestChildChecked_uses ucb.checked (fun _ => ⟨trivial, fun _ => rfl⟩) plan
      parentVisits children none) fun _ => rfl
  refine (keeps.yields (bestChild_yields ucb plan parentVisits children none)).mono ?_
    fun _ _ _ => trivial
  rintro found q ⟨settled, same⟩
  exact ⟨fun c here => (settled c here).resolve_right nofun, same⟩

/-- The node selected is one the worker has come down to. -/
theorem descend_kinship (plan : TaskPlan) (fuel : Nat) {current : String}
    (lineage : Lineage reads taskId current) :
    (descend ucb plan fuel current).Keeps (kinship sha256)
      (fun nodeId q => Lineage q taskId nodeId) (fun _ _ => True) reads := by
  induction fuel generalizing current reads with
  | zero => trivial
  | succ fuel ih =>
    rw [descend_succ]
    refine Prog.Keeps.call_bind trivial (fun members => ?_) fun _ => trivial
    have here : Lineage ((nodeChildrenKey current, members) :: reads) taskId current :=
      lineage.mono fun _ => List.mem_cons_of_mem _
    have down : ∀ c ∈ members.insertionSort (· ≤ ·),
        Lineage ((nodeChildrenKey current, members) :: reads) taskId c :=
      fun c mem => .child here List.mem_cons_self ((List.mem_insertionSort _).mp mem)
    dsimp only
    split
    · exact here
    · refine Tends.bind (Prog.uses_call ⟨trivial, fun _ => rfl⟩) fun data => ?_
      refine (bestChild_kinship ucb plan _ _).bind fun found q ⟨settled, same⟩ => ?_
      subst same
      match found with
      | .inl childId => exact down childId (settled childId rfl)
      | .inr none => exact here
      | .inr (some (bestNode, _)) =>
        exact ih (down bestNode (settled bestNode rfl))

theorem distributedSelect_kinship (fuel : Nat) (taskId : String) :
    (self.distributedSelect ucb fuel taskId).Keeps (kinship sha256)
      (fun nodeId q => Lineage q taskId nodeId) (fun _ _ => True) reads :=
  Tends.bind (Prog.uses_call ⟨trivial, fun _ => rfl⟩) fun _ => descend_kinship ucb _ fuel .root

/-- A visit to a task places its candidates below the node it has read. -/
theorem visitTask_kinship (fuel : Nat) (taskId : String) :
    (self.visitTask sha256 ucb fuel taskId).Keeps (kinship sha256) (fun _ _ => True)
      (fun _ _ => True) reads := by
  have releases : ∀ nodeId q, (self.releaseLock (nodeLockKey nodeId)).Keeps (kinship sha256)
      (fun _ _ => True) (fun _ _ => True) q := fun nodeId q =>
    Tends.keeps (self.releaseLock_uses ⟨trivial, fun _ => rfl⟩ ⟨trivial, fun _ => rfl⟩)
      fun _ => trivial
  exact self.keeps_visitTask (fun _ => True) (fun nodeId q => Lineage q taskId nodeId)
    (fun _ _ _ => ⟨trivial, fun _ => trivial⟩)
    (fun _ _ => self.distributedSelect_kinship ucb fuel taskId)
    (fun _ _ lineage => ⟨trivial, fun _ => lineage⟩) (fun _ _ _ => trivial)
    (fun _ _ lineage => Tends.keeps (self.expand_tends lineage) fun _ => trivial)
    (fun nodeId q _ => releases nodeId q) releases trivial

theorem turn_kinship (own : Option String) (fuel : Nat) :
    (self.turn sha256 ucb own fuel).Keeps (kinship sha256) (fun _ _ => True)
      (fun _ _ => True) reads :=
  self.keeps_turn (fun _ _ => ⟨trivial, fun _ => trivial⟩)
    (fun taskId _ _ => self.visitTask_kinship ucb fuel taskId) own trivial

end Descent

end ForestWorker

end Kinship

end KernelOmega
