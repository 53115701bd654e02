import KernelOmega.Concurrent.Typestate
import KernelOmega.Python.Raising
import KernelOmega.Search.Issued
import KernelOmega.Search.Tree

/-!
# What a child is made of

A worker writes a child of a node it has read, with a root it has read: the child's code is a
patch of the node's code, its paths are the node's, and the node is above the depth the root's
plan allows. `budding` follows the hashes a worker has read, and what it writes of them.
-/

namespace KernelOmega

open Concurrent Python

/-- A mapping that writes none of the fields a payload is made of, and moves no node. -/
structure NodeHash.Homeless (mapping : NodeHash) : Prop extends NodeHash.Placeless mapping where
  sourceRelpath : mapping.sourceRelpath = none
  repoPath : mapping.repoPath = none

/-- What is written of a child: the fields of the node it is a child of, and its own. -/
structure NodeHash.ChildOf (child : NodeHash) (taskId p candidate : String) (node : NodeHash) :
    Prop where
  treeId : child.treeId = some taskId
  code : child.code = some candidate
  parent : child.parent = some p
  depth : child.depth = some (node.depth.getD 0 + 1)
  planJson : child.planJson = none
  sourceRelpath : child.sourceRelpath = some (node.sourceRelpath.getD "")
  repoPath : child.repoPath = node.repoPath

/-- The mapping made for a candidate is that of a child of the node read. -/
theorem ForestWorker.childMapping_childOf {taskId p candidate : String} {node child : NodeHash}
    {targetLines : List Int}
    (made : childMapping taskId p candidate node (node.depth.getD 0) targetLines = .ok child) :
    child.ChildOf taskId p candidate node := by
  obtain ⟨testCode, -, made⟩ := bind_eq_ok_iff.mp made
  obtain ⟨sourcePath, -, made⟩ := bind_eq_ok_iff.mp made
  obtain ⟨testPath, -, made⟩ := bind_eq_ok_iff.mp made
  obtain ⟨repoPath, repo, made⟩ := bind_eq_ok_iff.mp made
  obtain rfl := Except.ok.inj made
  exact ⟨rfl, rfl, rfl, rfl, rfl, rfl, (subscript_eq_ok repo).symm⟩

/-- A pipeline that writes a child of a node that was read, below a root that was read. -/
inductive Buds (self : ForestWorker) (sha256 : Sha256) (reads : List (String × NodeHash)) :
    List RedisOp → Prop
  | child {taskId p code candidate : String} {node root child : NodeHash} :
      (p, node) ∈ reads → (rootNodeId taskId, root) ∈ reads →
      (node.depth.getD 0 : Int) < (self.taskPlan root).maxDepth → node.code = some code →
      self.Mutates code candidate → child.ChildOf taskId p candidate node →
      Buds self sha256 reads
        [.hset (ForestWorker.childId sha256 taskId p candidate) child,
          .sadd (nodeChildrenKey p) (ForestWorker.childId sha256 taskId p candidate)]

/-- The hashes a worker has read, with their keys; a hash that is not there reads as empty. -/
def budding (self : ForestWorker) (sha256 : Sha256) :
    Typestate Cmd Cmd.Reply PyError (List (String × NodeHash)) where
  next := fun reads => fun
    | .redis (.hgetall key) => fun
      | .ok found => (key, found.getD {}) :: reads
      | .error _ => reads
    | _ => fun _ => reads
  allows := fun reads => fun
    | .redis (.hset _ mapping) => mapping.Homeless
    | .redis (.sadd _ _) => False
    | .redis (.pipeline ops) => Buds self sha256 reads ops ∨
        ∀ op ∈ ops, ∃ key mapping, op = .hset key mapping ∧ mapping.Homeless
    | _ => True

section Budding

variable {self : ForestWorker} {sha256 : Sha256} {α β : Type} {reads q : List (String × NodeHash)}

/-- What was read stays read. -/
theorem mem_budding_next (c : Cmd) (reply : Except PyError c.Reply) {read : String × NodeHash}
    (mem : read ∈ q) : read ∈ (budding self sha256).next q c reply := by
  cases c with
  | redis c =>
    cases c with
    | hgetall key =>
      cases reply with
      | ok found => exact List.mem_cons_of_mem _ mem
      | error e => exact mem
    | _ => exact mem
  | _ => exact mem

theorem Buds.mono {ops : List RedisOp} (buds : Buds self sha256 reads ops)
    (more : ∀ read ∈ reads, read ∈ q) : Buds self sha256 q ops := by
  cases buds with
  | child node root above code mutates child =>
    exact .child (more _ node) (more _ root) above code mutates child

/-- Who has read more may write no less. -/
theorem budding_allows_mono {c : Cmd} (allowed : (budding self sha256).allows reads c)
    (more : ∀ read ∈ reads, read ∈ q) : (budding self sha256).allows q c := by
  cases c with
  | redis c =>
    cases c with
    | pipeline ops => exact allowed.imp_left fun buds => buds.mono more
    | _ => exact allowed
  | _ => exact allowed

/-- What may be done by who has read this much is done, and he has read no less. -/
theorem budding_keeps {p : Daemon α} (uses : p.Uses ((budding self sha256).allows reads))
    (more : ∀ read ∈ reads, read ∈ q) :
    p.Keeps (budding self sha256) (fun _ q' => ∀ read ∈ reads, read ∈ q') (fun _ _ => True) q := by
  refine Prog.Keeps.mono (fun _ _ kept => kept) (fun _ _ _ => trivial) (Prog.Keeps.of_uses
    (I := fun q' => ∀ read ∈ reads, read ∈ q') ?_ uses more)
  intro c allowed q' more'
  exact ⟨budding_allows_mono allowed more',
    fun reply read mem => mem_budding_next c reply (more' read mem)⟩

theorem budding_of_uses {p : Daemon α} (uses : p.Uses ((budding self sha256).allows q)) :
    p.Keeps (budding self sha256) (fun _ _ => True) (fun _ _ => True) q :=
  (budding_keeps uses fun _ mem => mem).mono (fun _ _ _ => trivial) fun _ _ _ => trivial

namespace ForestWorker

variable {taskId nodeId : String} {node root : NodeHash}

/-- An expansion that ends early writes flags and notes. -/
theorem Leaves.buds {c : Cmd} (leaves : Leaves taskId nodeId c) :
    (budding self sha256).allows reads c := by
  cases leaves with
  | refuse => exact ⟨⟨rfl, rfl, rfl, rfl, rfl⟩, rfl, rfl⟩
  | leaf => exact ⟨⟨rfl, rfl, rfl, rfl, rfl⟩, rfl, rfl⟩
  | _ => trivial

/-- A worker that has read a node above the depth limit and its root expands the node: what it writes
is a child of the node's code, or carries nothing a payload is made of. -/
theorem Expands.buds (nodeRead : (nodeId, node) ∈ reads) (rootRead : (rootNodeId taskId, root) ∈ reads)
    (above : (node.depth.getD 0 : Int) < (self.taskPlan root).maxDepth) {c : Cmd}
    (expands : self.Expands sha256 taskId nodeId node c) : (budding self sha256).allows reads c := by
  cases expands with
  | leaves issued => exact issued.buds
  | reserves issued =>
    cases issued with
    | refuse => exact ⟨⟨rfl, rfl, rfl, rfl, rfl⟩, rfl, rfl⟩
    | grant generated => exact ⟨⟨rfl, rfl, rfl, rfl, rfl⟩, rfl, rfl⟩
    | _ => trivial
  | dispatches coded mutates issued =>
    cases issued with
    | queues queued => cases queued <;> trivial
    | draw => trivial
    | child made =>
      exact .inl (.child nodeRead rootRead above coded mutates (childMapping_childOf made))
  | closes issued =>
    cases issued with
    | ledger c => trivial
    | barren =>
      exact .inr (List.forall_mem_cons.mpr ⟨⟨_, _, rfl, ⟨rfl, rfl, rfl, rfl, rfl⟩, rfl, rfl⟩,
        List.forall_mem_singleton.mpr ⟨_, _, rfl, ⟨rfl, rfl, rfl, rfl, rfl⟩, rfl, rfl⟩⟩)
    | done =>
      exact .inr (List.forall_mem_singleton.mpr
        ⟨_, _, rfl, ⟨rfl, rfl, rfl, rfl, rfl⟩, rfl, rfl⟩)
  | _ => trivial

/-- A worker expands the node it has read, with the root it then reads. -/
theorem expandNode_buds {node : NodeHash} (read : (nodeId, node) ∈ q) :
    (self.expandNode sha256 taskId nodeId node).Keeps (budding self sha256) (fun _ _ => True)
      (fun _ _ => True) q := by
  refine Prog.Keeps.call_bind trivial (fun rootData => ?_) fun _ => trivial
  have nodeRead : (nodeId, node) ∈ (rootNodeId taskId, rootData.getD {}) :: q :=
    List.mem_cons_of_mem _ read
  dsimp only
  split
  · exact Prog.Keeps.call ⟨⟨rfl, rfl, rfl, rfl, rfl⟩, rfl, rfl⟩ (fun _ => trivial) fun _ => trivial
  · next above =>
    refine Prog.Keeps.call_bind trivial (fun counter => ?_) fun _ => trivial
    split
    · exact budding_of_uses ((spent_leaves taskId nodeId).mono fun _ => Leaves.buds)
    · exact budding_of_uses ((self.generate_expands sha256 taskId nodeId node _ _ _).mono
        fun _ expands => expands.buds nodeRead List.mem_cons_self (Int.not_le.mp above))

/-- A call of `expand`, whatever was read before, -/
theorem expand_buds :
    (self.expand sha256 taskId nodeId).Keeps (budding self sha256) (fun _ _ => True)
      (fun _ _ => True) q := by
  refine Prog.Keeps.call_bind trivial (fun found => ?_) fun _ => trivial
  cases found with
  | none => trivial
  | some node =>
    dsimp only
    split
    · exact expandNode_buds List.mem_cons_self
    · trivial

section Turn

variable {S : Type} [LinearOrder S] (ucb : UcbScore S)

/-- A passive command writes nothing. -/
theorem budding_allows_of_passive {c : Cmd} (passive : c.Passive) :
    (budding self sha256).allows reads c := by
  cases c with
  | redis c => cases c <;> trivial
  | _ => trivial

/-- and a visit to a task. -/
theorem visitTask_buds (fuel : Nat) (taskId : String) :
    (self.visitTask sha256 ucb fuel taskId).Keeps (budding self sha256) (fun _ _ => True)
      (fun _ _ => True) q := by
  have releases : ∀ nodeId q, (self.releaseLock (nodeLockKey nodeId)).Keeps (budding self sha256)
      (fun _ _ => True) (fun _ _ => True) q := fun nodeId q =>
    budding_of_uses (self.releaseLock_uses trivial trivial)
  have selects : ∀ q, (self.distributedSelect ucb fuel taskId).Uses ((budding self sha256).allows q) :=
    fun q => (self.distributedSelect_passive ucb fuel taskId).mono fun _ => budding_allows_of_passive
  exact self.keeps_visitTask (fun _ => True) (fun _ _ => True) (fun _ _ _ => ⟨trivial, fun _ => trivial⟩)
    (fun q _ => budding_of_uses (selects q)) (fun _ _ _ => ⟨trivial, fun _ => trivial⟩)
    (fun _ _ _ => trivial) (fun _ _ _ => expand_buds) (fun nodeId q _ => releases nodeId q) releases
    trivial

/-- A turn of a worker. -/
theorem turn_buds (own : Option String) (fuel : Nat) :
    (self.turn sha256 ucb own fuel).Keeps (budding self sha256) (fun _ _ => True)
      (fun _ _ => True) q :=
  self.keeps_turn (fun _ _ => ⟨trivial, fun _ => trivial⟩)
    (fun taskId _ _ => visitTask_buds ucb fuel taskId) own trivial

end Turn

end ForestWorker

end Budding

end KernelOmega
