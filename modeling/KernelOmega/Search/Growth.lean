import KernelOmega.Search.Walk

/-!
# The tree grows

Every reachable store of a search is a tree, and every step lets it only grow. The
discipline is the same for all processes: keep the store a tree, and rely on the others
to let it grow. A worker may therefore keep working from the hash it read first: the
place of the node it expands is still the one it read.
-/

namespace KernelOmega

open Concurrent

section Growth

variable {ι S : Type} [LinearOrder S] {setup : SearchSetup ι S} {i : ι}

theorem grows_self (s : Snap ι) : Grows s.world.redis s.world.redis := .refl _

theorem grows_onward (s t u : Snap ι) (first : Grows s.world.redis t.world.redis)
    (second : Grows t.world.redis u.world.redis) : Grows s.world.redis u.world.redis :=
  first.trans second

/-- The discipline of the tree: every step keeps it a tree and grows it. -/
def treeDiscipline (setup : SearchSetup ι S) : Discipline ι Cmd Cmd.Reply PyError World where
  known := fun _ => True
  inv := fun s => IsTree setup.sha256 setup.task s.world.redis
  rely := fun _ s t => Grows s.world.redis t.world.redis
  guar := fun _ s t => Grows s.world.redis t.world.redis
  idle := fun _ _ => True
  rely_refl := fun _ => grows_self
  rely_trans := fun _ => grows_onward

/-- A command that leaves every tree alone. -/
def Cmd.TreeQuiet (sha256 : Sha256) (task : SeedTask) (c : Cmd) : Prop :=
  ∀ r, IsTree sha256 task r → c.Tame r

theorem tree_quiet {c : Cmd} (quiet : c.TreeQuiet setup.sha256 setup.task) :
    Quiet setup.system (treeDiscipline setup) i c := by
  intro t x _ tree _ _
  have same := SameTree.world (quiet _ tree) x
  exact ⟨tree.sameTree same, same.toGrows, same.toGrows⟩

/-- The rule for a command that is tame where it is issued. -/
theorem tame_call {c : Cmd} {s : Snap ι}
    (tame : ∀ t : Snap ι, Grows s.world.redis t.world.redis → c.Tame t.world.redis) :
    Safe setup.system (treeDiscipline setup) i
      (fun _ t => Grows s.world.redis t.world.redis) (fun _ _ => True) (Prog.call c) s := by
  refine Safe.call fun t grows _ tree x _ _ => ?_
  have same := SameTree.world (tame t grows) x
  exact ⟨tree.sameTree same, same.toGrows, fun _ _ => grows.trans same.toGrows, fun _ _ => trivial⟩

theorem treeAware : TreeAware setup.sha256 setup.task setup.system (treeDiscipline setup) where
  exec := rfl
  tree := fun _ _ tree => tree
  grows := fun _ _ _ grows => grows
  passive := fun _ _ passive => tree_quiet fun r _ => .of_passive passive r

/-- A program of quiet commands only lets the tree grow. -/
theorem grows_of_uses {α : Type} {p : Daemon α}
    (uses : p.Uses (Cmd.TreeQuiet setup.sha256 setup.task)) (s : Snap ι) :
    Safe setup.system (treeDiscipline setup) i
      (fun _ t => Grows s.world.redis t.world.redis) (fun _ _ => True) p s :=
  Safe.of_uses (fun _ => tree_quiet) uses fun _ _ _ => trivial

/-! ## The workers -/

section Quiet

variable {sha256 : Sha256} {task : SeedTask}

theorem treeQuiet_of_passive {c : Cmd} (passive : c.Passive) : c.TreeQuiet sha256 task :=
  fun r _ => .of_passive passive r

theorem treeQuiet_hset_root {mapping : NodeHash} (placeless : mapping.Placeless) :
    (Cmd.redis (.hset (rootNodeId task.taskId) mapping)).TreeQuiet sha256 task :=
  fun _ tree => ⟨tree.root_isSome, placeless⟩

theorem ForestWorker.Reserves.treeQuiet {c : Cmd} (reserves : ForestWorker.Reserves task.taskId c) :
    c.TreeQuiet sha256 task := by
  cases reserves with
  | refuse => exact treeQuiet_hset_root ⟨rfl, rfl, rfl, rfl, rfl⟩
  | grant generated => exact treeQuiet_hset_root ⟨rfl, rfl, rfl, rfl, rfl⟩
  | _ => exact fun _ _ => trivial

theorem ForestWorker.Queues.treeQuiet {c : Cmd} (queues : ForestWorker.Queues c) : c.TreeQuiet sha256 task := by
  cases queues <;> exact fun _ _ => trivial

end Quiet

/-- The node a worker expands is there, at a depth that leaves room for children. -/
structure Room (task : SeedTask) (nodeId : String) (d : Nat) (r : Redis) : Prop where
  node : ∃ h, r.hashes nodeId = some h ∧ h.depth = some d
  bound : (d + 1 : Int) ≤ task.plan.maxDepth

theorem Room.grows {task : SeedTask} {nodeId : String} {d : Nat} {r r' : Redis}
    (room : Room task nodeId d r) (grows : Grows r r') : Room task nodeId d r' := by
  obtain ⟨h, found, depth⟩ := room.node
  obtain ⟨h', found', same⟩ := grows.hashes nodeId h found
  exact ⟨⟨h', found', same.depth.trans depth⟩, room.bound⟩

theorem childMapping_place {taskId nodeId candidate : String} {node child : NodeHash} {d : Nat}
    {targetLines : List Int}
    (made : ForestWorker.childMapping taskId nodeId candidate node d targetLines = .ok child) :
    ChildPlace taskId nodeId candidate d child := by
  obtain ⟨testCode, sourcePath, testPath, repoPath, rfl⟩ := ForestWorker.childMapping_eq_ok made
  exact ⟨rfl, rfl, rfl, rfl, rfl⟩

/-- Writing a child and listing it. -/
theorem addChild_safe (collisionFree : setup.sha256.CollisionFree) {nodeId candidate : String}
    {child : NodeHash} {d : Nat} {s : Snap ι} (room : Room setup.task nodeId d s.world.redis)
    (place : ChildPlace setup.taskId nodeId candidate d child) :
    Safe setup.system (treeDiscipline setup) i
      (fun _ t => Grows s.world.redis t.world.redis) (fun _ _ => True)
      (Daemon.redis (.pipeline [.hset (setup.childId nodeId candidate) child,
        .sadd (nodeChildrenKey nodeId) (setup.childId nodeId candidate)])) s := by
  refine Safe.call fun t grows _ tree x _ _ => ?_
  obtain ⟨⟨ph, found, depth⟩, bound⟩ := room.grows grows
  obtain ⟨tree', grows'⟩ := tree.addChild collisionFree found depth bound place
  cases fails : x.fail with
  | true =>
    simp only [SearchSetup.system, Snapshot.after, World.exec_redis_fail fails]
    exact ⟨tree, .refl _, fun _ _ => grows, fun _ _ => trivial⟩
  | false =>
    simp only [SearchSetup.system, Snapshot.after, World.exec_redis_ok fails]
    exact ⟨tree', grows', fun _ _ => grows.trans grows', fun _ _ => trivial⟩

/-- One candidate grows the tree by one node at most, -/
theorem dispatchCandidate_tree (collisionFree : setup.sha256.CollisionFree) (self : ForestWorker)
    {nodeId : String} {node : NodeHash} (root : NodeHash) (targetLines : List Int)
    (candidate : String) {s : Snap ι}
    (room : Room setup.task nodeId (node.depth.getD 0) s.world.redis) :
    Safe setup.system (treeDiscipline setup) i
      (fun _ t => Grows s.world.redis t.world.redis) (fun _ _ => True)
      (self.dispatchCandidate setup.sha256 setup.taskId nodeId node root targetLines candidate)
      s := by
  refine Safe.ofExcept_bind (fun child made => ?_) fun _ _ => trivial
  refine Safe.bind (addChild_safe collisionFree room (childMapping_place made)) fun _ t grows => ?_
  refine (grows_of_uses (i := i) ?_ t).mono (fun _ _ later => grows.trans later) fun _ _ h => h
  refine (Prog.uses_call fun _ _ => trivial).bind fun hex => ?_
  refine (Prog.uses_call fun _ _ => trivial).bind fun _ => ?_
  refine ((Daemon.updateTaskStatus_passive _ _).mono fun _ => treeQuiet_of_passive).bind
    fun _ => ?_
  exact (self.dispatchCapsule_queues _).mono fun _ queues => queues.treeQuiet

/-- the loop by one for each, -/
theorem dispatchCandidates_tree (collisionFree : setup.sha256.CollisionFree) (self : ForestWorker)
    {nodeId code : String} {node : NodeHash} (root : NodeHash) (plan : TaskPlan)
    (targetLines : List Int) (candidates : List String) (generated : Nat) {s : Snap ι}
    (room : Room setup.task nodeId (node.depth.getD 0) s.world.redis) :
    Safe setup.system (treeDiscipline setup) i
      (fun _ t => Grows s.world.redis t.world.redis) (fun _ _ => True)
      (self.dispatchCandidates setup.sha256 setup.taskId nodeId code node root plan targetLines
        candidates generated) s := by
  refine Safe.mono (fun _ _ ended => ended.elim fun _ grows => grows) (fun _ _ h => h)
    (self.safe_dispatchCandidates (I := fun _ (t : Snap ι) => Grows s.world.redis t.world.redis)
      (fun _ _ _ => id) (fun candidate rest t grows => ?_)
      (fun candidate rest t grows => ?_) generated (Grows.refl s.world.redis))
  · refine (grows_of_uses ?_ t).mono (fun _ _ later => grows.trans later) fun _ _ h => h
    exact (ForestWorker.reserveCandidateBudget_reserves _ plan).mono fun _ c => c.treeQuiet
  · exact (dispatchCandidate_tree collisionFree self root targetLines candidate
      (room.grows grows)).mono (fun _ _ later => grows.trans later) fun _ _ h => h

/-- Generating children grows the tree, by nodes below the one at hand. -/
theorem generate_tree (collisionFree : setup.sha256.CollisionFree) (self : ForestWorker)
    {nodeId : String} {node : NodeHash} (root : NodeHash) (plan : TaskPlan)
    (expansionPlan : ExpansionPlan) {s : Snap ι}
    (room : Room setup.task nodeId (node.depth.getD 0) s.world.redis) :
    Safe setup.system (treeDiscipline setup) i
      (fun _ t => Grows s.world.redis t.world.redis) (fun _ _ => True)
      (self.generate setup.sha256 setup.taskId nodeId node root plan expansionPlan) s := by
  refine Safe.quiet_bind (tree_quiet fun _ _ => trivial) (fun _ a growsA => ?_) fun _ _ _ => trivial
  refine Safe.ofExcept_bind (fun code _ => ?_) fun _ _ => trivial
  refine Safe.ofExcept_bind (fun candidates _ => ?_) fun _ _ => trivial
  refine Safe.bind (dispatchCandidates_tree collisionFree self root plan _ candidates 0
    (room.grows growsA)) fun generated t growsT => ?_
  refine Safe.bind (grows_of_uses (Prog.uses_call (c := Cmd.pg _) fun _ _ => trivial) t)
    fun _ u growsU => ?_
  have grows := (Grows.trans growsA growsT).trans growsU
  have there : ∀ v : Snap ι, Grows u.world.redis v.world.redis →
      (v.world.redis.hashes nodeId).isSome := by
    intro v growsV
    obtain ⟨h, found, -⟩ := (room.grows (grows.trans growsV)).node
    rw [found]
    rfl
  split
  · refine Safe.mono (fun _ _ later => grows.trans later) (fun _ _ h => h) (tame_call ?_)
    intro v growsV op mem
    simp only [List.mem_cons, List.not_mem_nil, or_false] at mem
    rcases mem with rfl | rfl <;> exact ⟨there v growsV, ⟨rfl, rfl, rfl, rfl, rfl⟩⟩
  · refine Safe.mono (fun _ _ later => grows.trans later) (fun _ _ h => h) (tame_call ?_)
    intro v growsV op mem
    rw [List.mem_singleton] at mem
    subst mem
    exact ⟨there v growsV, ⟨rfl, rfl, rfl, rfl, rfl⟩⟩

/-- The spec of an expansion past its guard. -/
theorem expandNode_tree (collisionFree : setup.sha256.CollisionFree) (self : ForestWorker)
    {nodeId : String} {node : NodeHash} {s : Snap ι}
    (isNode : ∃ h, s.world.redis.hashes nodeId = some h ∧ h.depth = some (node.depth.getD 0)) :
    Safe setup.system (treeDiscipline setup) i (fun _ _ => True) (fun _ _ => True)
      (self.expandNode setup.sha256 setup.taskId nodeId node) s := by
  have there : ∀ v : Snap ι, Grows s.world.redis v.world.redis →
      (v.world.redis.hashes nodeId).isSome := by
    intro v grows
    obtain ⟨h, found, -⟩ := isNode
    exact grows.isSome (by rw [found]; rfl)
  have closes : ∀ v : Snap ι, Grows s.world.redis v.world.redis →
      Safe setup.system (treeDiscipline setup) i (fun _ _ => True) (fun _ _ => True)
        (Daemon.redis (.hset nodeId { isTerminal := some true, expanded := some true })) v := by
    intro v growsV
    refine Safe.mono (fun _ _ _ => trivial) (fun _ _ h => h) (tame_call ?_)
    exact fun w growsW => ⟨there w (growsV.trans growsW), ⟨rfl, rfl, rfl, rfl, rfl⟩⟩
  refine Safe.read_bind (tree_quiet fun _ _ => trivial)
    (fun t x rootData growsT _ tree reply own => ?_) fun _ _ _ => trivial
  obtain rfl := treeAware.read reply
  obtain ⟨root, found, isRoot⟩ := tree.root
  have planned : self.taskPlan root = setup.task.plan := by
    simp only [ForestWorker.taskPlan, isRoot.plan]
  dsimp only
  rw [found, Option.getD_some, planned]
  have grows := Grows.trans growsT own
  split
  · exact closes _ grows
  next shallow =>
  refine Safe.quiet_bind (tree_quiet fun _ _ => trivial) (fun counter u growsU => ?_)
    fun _ _ _ => trivial
  have grows := grows.trans growsU
  split
  · refine Safe.quiet_bind (tree_quiet fun _ _ => trivial) (fun _ v growsV => ?_)
      fun _ _ _ => trivial
    refine Safe.quiet_bind (tree_quiet (treeQuiet_hset_root ⟨rfl, rfl, rfl, rfl, rfl⟩))
      (fun _ w growsW => ?_) fun _ _ _ => trivial
    refine Safe.uses_bind (fun _ passive => tree_quiet (treeQuiet_of_passive passive))
      (Daemon.updateTaskStatus_passive _ _) (fun _ a growsA => ?_) fun _ _ _ => trivial
    exact closes a (((grows.trans growsV).trans growsW).trans growsA)
  · obtain ⟨h, foundNode, depth⟩ := isNode
    obtain ⟨h', foundNode', same⟩ := grows.hashes nodeId h foundNode
    have room : Room setup.task nodeId (node.depth.getD 0) u.world.redis :=
      ⟨⟨h', foundNode', same.depth.trans depth⟩, by omega⟩
    exact (generate_tree collisionFree self root setup.task.plan _ room).mono
      (fun _ _ _ => trivial) fun _ _ h => h

/-- and an expansion keeps it a tree from any state it starts in. -/
theorem expand_tree (collisionFree : setup.sha256.CollisionFree) (self : ForestWorker)
    (nodeId : String) (s : Snap ι) :
    Safe setup.system (treeDiscipline setup) i (fun _ _ => True) (fun _ _ => True)
      (self.expand setup.sha256 setup.taskId nodeId) s := by
  refine Safe.read_bind (tree_quiet fun _ _ => trivial)
    (fun t x found _ _ tree reply own => ?_) fun _ _ _ => trivial
  obtain rfl := treeAware.read reply
  cases foundNode : t.world.redis.hashes nodeId with
  | none => trivial
  | some node =>
    dsimp only
    split
    · obtain ⟨d, depth⟩ := tree.depth foundNode
      obtain ⟨h', found', same⟩ := own.hashes nodeId node foundNode
      refine expandNode_tree collisionFree self ⟨h', found', ?_⟩
      rw [same.depth, depth, Option.getD_some]
    · trivial

/-- A visit to a task keeps the tree, since its expansion does. -/
theorem visitTask_tree (collisionFree : setup.sha256.CollisionFree) (self : ForestWorker)
    (fuel : Nat) (s : Snap ι) :
    Safe setup.system (treeDiscipline setup) i (fun _ _ => True) (fun _ _ => True)
      (self.visitTask setup.sha256 setup.ucb fuel setup.taskId) s :=
  self.safe_visitTask (fun _ _ _ _ => trivial) setup.ucb
    (fun _ passive => tree_quiet (treeQuiet_of_passive passive))
    (fun _ => tree_quiet fun _ _ => trivial) (fun _ => tree_quiet fun _ _ => trivial)
    (fun _ => tree_quiet fun _ _ => trivial)
    (fun nodeId t _ => expand_tree collisionFree self nodeId t) fuel trivial

/-! ## The run -/

/-- The seeded store is a tree of one node. -/
theorem tree_seeded (sha256 : Sha256) (task : SeedTask) :
    IsTree sha256 task task.seededWorld.redis := by
  refine ⟨⟨task.rootMapping, ?_, ⟨rfl, rfl, rfl, rfl⟩⟩, fun id h found other => ?_,
    fun p c mem => ?_, fun key => ?_⟩
  · rw [SeedTask.seededWorld_hashes, Function.update_self]
  · rw [SeedTask.seededWorld_hashes, Function.update_of_ne other] at found
    cases found
  · rw [SeedTask.seededWorld_sets, Function.update_of_ne (nodeChildrenKey_ne_treeIndex p)] at mem
    cases mem
  · rw [SeedTask.seededWorld_sets]
    by_cases here : key = treeIndex
    · subst here
      rw [Function.update_self]
      exact List.nodup_singleton _
    · rw [Function.update_of_ne here]
      exact List.nodup_nil

theorem tree_commits : Commits setup.system (treeDiscipline setup) i := by
  intro t x pipe _ tree queued _ _
  have same := SameTree.world (c := .redis (.pipeline pipe)) queued.tame x
  exact ⟨IsTree.sameTree tree same, same.toGrows⟩

variable [DecidableEq ι]

/-- The system obeys the tree discipline. -/
theorem tree_obeys (setup : SearchSetup ι S) (collisionFree : setup.sha256.CollisionFree) :
    setup.system.Obeys (treeDiscipline setup) where
  known := fun _ _ => trivial
  init := fun w seeded => by
    subst seeded
    exact ⟨tree_seeded setup.sha256 setup.task, fun _ => trivial⟩
  compatible := fun _ _ _ _ _ _ _ _ _ guar => guar
  env := fun s w _ _ tree around =>
    ⟨IsTree.sameTree tree (SameTree.around around), fun _ => (SameTree.around around).toGrows⟩
  idle := fun _ _ _ _ _ _ => trivial
  calls := fun i p s called _ _ => by
    cases called with
    | expand nodeId => exact expand_tree collisionFree _ nodeId s
    | visit fuel => exact visitTask_tree collisionFree _ fuel s
    | remember fuel => exact remember_safe treeAware tree_commits fuel s

/-- Later stores have grown from earlier ones. -/
theorem tree_later (collisionFree : setup.sha256.CollisionFree)
    {s t : State ι Cmd Cmd.Reply PyError World} (reached : setup.system.Reachable s)
    (later : setup.system.Later s t) : Grows s.world.redis t.world.redis :=
  reached.grows (G := fun u v => Grows u.world.redis v.world.redis)
    (tree_obeys setup collisionFree) (fun u => .refl u.world.redis)
    (fun _ _ _ => Grows.trans) (fun _ _ _ guar => guar)
    (fun _ _ around => (SameTree.around around).toGrows) later

end Growth

/-! ## The walk of a result -/

theorem backpropagate_replay_zero (pack : VerificationPack) (reward : Rat) {current : String}
    (named : current ≠ "") (ws : Nat → World) :
    (GlobalMemory.backpropagate pack reward 0 current).replay World.exec (fun _ => {}) ws =
      .error .outOfFuel := by
  rw [GlobalMemory.backpropagate, if_neg named]
  rfl

/-- One iteration reads the node's hash and goes on from its parent. -/
theorem backpropagate_replay_succ (pack : VerificationPack) (reward : Rat) {current : String}
    (named : current ≠ "") (fuel : Nat) (ws : Nat → World) :
    (GlobalMemory.backpropagate pack reward (fuel + 1) current).replay World.exec (fun _ => {}) ws =
      ((GlobalMemory.backpropagate pack reward fuel
          ((((ws 0).redis.hashes current).bind (·.parent)).getD "")).replay World.exec
            (fun _ => {}) fun n => ws (n + 1)).map
        (GlobalMemory.visitOps pack reward current ++ ·) := by
  rw [GlobalMemory.backpropagate, if_neg named]
  simp only [Daemon.redis, Prog.call, Prog.cmd_bind, Prog.ret_bind, Prog.replay, World.exec,
    Bool.false_eq_true, ↓reduceIte, Redis.exec, Prog.pure_eq]
  exact Prog.replay_map ..

/-- The walk from a node of a tree: it needs one iteration for each node of the route,
and queues their increments, whatever the stores it reads have become meanwhile. -/
theorem backpropagate_replay (pack : VerificationPack) (reward : Rat) {r : Redis}
    {current : String} {path : List String} (route : Rooted.Route (parentOf r) current path)
    (named : ∀ id ∈ path, id ≠ "") (ws : Nat → World)
    (grown : ∀ n, ∀ id ∈ path, parentOf (ws n).redis id = parentOf r id) (fuel : Nat) :
    (GlobalMemory.backpropagate pack reward fuel current).replay World.exec (fun _ => {}) ws =
      if fuel < path.length then .error .outOfFuel else .ok (walkOps pack reward path) := by
  induction route generalizing fuel ws with
  | @root x top =>
    cases fuel with
    | zero => exact backpropagate_replay_zero pack reward (named x List.mem_cons_self) ws
    | succ fuel =>
      have parent := parent_getD_of_none ((grown 0 x List.mem_cons_self).trans top)
      have stop : GlobalMemory.backpropagate pack reward fuel "" = .ret [] := by
        cases fuel <;> simp only [GlobalMemory.backpropagate, ↓reduceIte] <;> rfl
      rw [backpropagate_replay_succ pack reward (named x List.mem_cons_self), parent, stop,
        List.length_singleton, if_neg (by omega), walkOps, List.flatMap_singleton]
      simp only [Prog.replay, Except.map, List.append_nil]
  | @step x p path link rest ih =>
    cases fuel with
    | zero => exact backpropagate_replay_zero pack reward (named x List.mem_cons_self) ws
    | succ fuel =>
      have parent := parent_getD_of_some ((grown 0 x List.mem_cons_self).trans link)
      have tail := ih (fun id mem => named id (List.mem_cons_of_mem x mem))
        (fun n => ws (n + 1)) (fun n id mem => grown (n + 1) id (List.mem_cons_of_mem x mem)) fuel
      rw [backpropagate_replay_succ pack reward (named x List.mem_cons_self), parent, tail,
        List.length_cons]
      by_cases short : fuel < path.length
      · rw [if_pos short, if_pos (by omega)]
        rfl
      · rw [if_neg short, if_neg (by omega)]
        rfl

/-- What a store holds of a task is one tree. -/
structure SearchTree (sha256 : Sha256) (task : SeedTask) (r : Redis) : Prop where
  /-- A node that is not the root has its parent in the same tree, is listed there and
  nowhere else, and is one level deeper, within the plan's depth. -/
  linked : ∀ id h, r.hashes id = some h → id ≠ rootNodeId task.taskId →
    ∃ p ph d, h.parent = some p ∧ r.hashes p = some ph ∧ ph.treeId = some task.taskId ∧
      h.treeId = some task.taskId ∧ id ∈ r.sets (nodeChildrenKey p) ∧
      ph.depth = some d ∧ h.depth = some (d + 1) ∧ (d + 1 : Int) ≤ task.plan.maxDepth ∧
      ∀ q, id ∈ r.sets (nodeChildrenKey q) → q = p
  /-- Nodes with the same parent and code are the same node. -/
  same : ∀ id id' h h', r.hashes id = some h → r.hashes id' = some h' →
    id ≠ rootNodeId task.taskId → id' ≠ rootNodeId task.taskId →
    h.parent = h'.parent → h.code = h'.code → id = id'
  /-- Any other two have different ids: the id of a child tells its code and its parent,
  and is not the root's. -/
  distinct : ∀ p q a b, (r.hashes p).isSome → (r.hashes q).isSome →
    ForestWorker.childId sha256 task.taskId p a ≠ rootNodeId task.taskId ∧
      (ForestWorker.childId sha256 task.taskId p a = ForestWorker.childId sha256 task.taskId q b ↔
        a = b ∧ p = q)

/-- The store holds a search tree in the abstract sense. -/
theorem IsTree.searchTree {sha256 : Sha256} {task : SeedTask} {r : Redis}
    (tree : IsTree sha256 task r) (collisionFree : sha256.CollisionFree) :
    SearchTree sha256 task r where
  linked := fun id h found other => by
    obtain ⟨p, isChild⟩ := tree.child id h found other
    obtain ⟨ph, d, foundP, depthP, depth, bound⟩ := isChild.above
    refine ⟨p, ph, d, isChild.parent, foundP, tree.treeId foundP, isChild.tree, isChild.listed,
      depthP, depth, bound, fun q mem => ?_⟩
    obtain ⟨-, h', found', parent⟩ := tree.member q id mem
    rw [found] at found'
    obtain rfl := Option.some.inj found'
    rw [isChild.parent] at parent
    exact (Option.some.inj parent).symm
  same := fun id id' h h' found found' other other' parents codes => by
    obtain ⟨p, isChild⟩ := tree.child id h found other
    obtain ⟨p', isChild'⟩ := tree.child id' h' found' other'
    obtain ⟨code, coded, rfl⟩ := isChild.code
    obtain ⟨code', coded', rfl⟩ := isChild'.code
    rw [isChild.parent, isChild'.parent] at parents
    rw [coded, coded'] at codes
    rw [Option.some.inj parents, Option.some.inj codes]
  distinct := fun p q a b thereP thereQ => by
    obtain ⟨hp, foundP⟩ := Option.isSome_iff_exists.mp thereP
    obtain ⟨hq, foundQ⟩ := Option.isSome_iff_exists.mp thereQ
    refine ⟨IsNodeId.childId_ne_root _ _ _ _, fun same => ?_, ?_⟩
    · exact (tree.isNode foundP).childId_inj collisionFree (tree.isNode foundQ) same
    · rintro ⟨rfl, rfl⟩
      rfl

/-- Every reachable store is a search tree, and a result of a node at depth `d` is
walked up in `d + 1` iterations, which give each node of the route to the root one visit
and the reward, and no other node anything. -/
theorem search_tree {ι S : Type} [DecidableEq ι] [LinearOrder S] (setup : SearchSetup ι S)
    (collisionFree : setup.sha256.CollisionFree) (s : State ι Cmd Cmd.Reply PyError World)
    (reached : setup.system.Reachable s) :
    SearchTree setup.sha256 setup.task s.world.redis ∧
      ∀ (pack : VerificationPack) (node : NodeHash) (d : Nat) (reward : Rat),
        s.world.redis.hashes pack.capsuleId = some node → node.depth = some d →
        ∃ path, Rooted.Route (parentOf s.world.redis) pack.capsuleId path ∧ path.length = d + 1 ∧
          path.Nodup ∧ setup.rootId ∈ path ∧
          (∀ reads : Nat → State ι Cmd Cmd.Reply PyError World,
            (∀ n, setup.system.Later s (reads n)) → ∀ fuel,
            (GlobalMemory.backpropagate pack reward fuel pack.capsuleId).replay World.exec
                (fun _ => {}) (fun n => (reads n).world) =
              if fuel < d + 1 then .error .outOfFuel else .ok (walkOps pack reward path)) ∧
          ∀ (r : Redis) (id : String),
            visitsOf (r.applyAll (walkOps pack reward path)) id =
                visitsOf r id + (if id ∈ path then 1 else 0) ∧
              valueOf (r.applyAll (walkOps pack reward path)) id =
                valueOf r id + if id ∈ path then reward else 0 := by
  have tree := reached.inv (tree_obeys setup collisionFree)
  refine ⟨IsTree.searchTree tree collisionFree, fun pack node d reward found depth => ?_⟩
  have there : (s.world.redis.hashes pack.capsuleId).isSome := by rw [found]; rfl
  have level : depthOf s.world.redis pack.capsuleId = d := by
    simp only [depthOf, found, Option.bind_some, depth, Option.getD_some]
  obtain ⟨path, route⟩ := IsTree.exists_route tree there
  have nodes := IsTree.route_there tree there route
  have length : path.length = d + 1 := level ▸ IsTree.route_length tree there route
  have nodup := IsTree.route_nodup tree there route
  refine ⟨path, route, length, nodup, ?_, fun reads later fuel => ?_, fun r id => ⟨?_, ?_⟩⟩
  · obtain ⟨top, mem, parentless⟩ := route.exists_top
    have isRoot : top = setup.rootId := IsTree.eq_root tree (nodes top mem) parentless
    exact isRoot ▸ mem
  · rw [← length]
    refine backpropagate_replay pack reward route (fun id mem => ?_) _ (fun n id mem => ?_) fuel
    · obtain ⟨h, found⟩ := Option.isSome_iff_exists.mp (nodes id mem)
      exact (IsTree.isNode tree found).ne_empty
    · exact (tree_later collisionFree reached (later n)).parentOf_eq (nodes id mem)
  · rw [visitsOf_applyAll id (walkOps_ofMemory pack reward path), walkOps_visitsAdded,
      nodup.count]
    split <;> rfl
  · rw [valueOf_applyAll id (walkOps_ofMemory pack reward path), walkOps_valueAdded, nodup.count]
    split
    · rw [one_nsmul]
    · rw [zero_nsmul]

/-- The expanded root of the small search: a result of its first child is walked up in two
iterations. -/
theorem search_tree_expandedRoot :
    SearchTree SmallSearch.sha256 SmallSearch.task SmallSearch.expandedRoot.world.redis ∧
      ∃ path : List String, path.length = 2 ∧ rootNodeId SmallSearch.task.taskId ∈ path := by
  obtain ⟨tree, walk⟩ := search_tree (SmallSearch.setup SmallSearch.meanReward)
    SmallSearch.sha256_collisionFree _ (SmallSearch.expandedRoot_reachable SmallSearch.meanReward)
  have depth : (SmallSearch.expandedRoot.world.redis.hashes SmallSearch.idA).bind (·.depth) =
      some 1 := by
    decide
  obtain ⟨node, found, depth⟩ := Option.bind_eq_some_iff.mp depth
  let pack : VerificationPack :=
    { capsuleId := SmallSearch.idA, runId := "run_1", success := false, runtime := 1,
      nodeId := "rust_exec_1", hardwareIsolated := true, inputsDigest := "", testsPassed := 4,
      testsFailed := 1 }
  obtain ⟨path, -, length, -, root, -⟩ := walk pack node 1 300 found depth
  exact ⟨tree, path, length, root⟩

end KernelOmega
