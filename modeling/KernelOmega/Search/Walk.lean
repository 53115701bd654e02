import KernelOmega.Search.Tree
import Mathlib.Algebra.Order.Field.Rat
import Mathlib.Tactic.Ring

/-!
# The walk to the root

What the memory queues for a result, and what the queue does to the statistics.

The walk reads one hash at a time while workers add nodes, so its spec is stated for
any discipline that knows the store to be a tree and lets it only grow (`TreeAware`):
the increments it queues are for the route of the node, each node once, whatever
happens between its reads. The layers above use this spec with their own invariants.
-/

namespace KernelOmega

open Concurrent

/-! ## Statistics of a node -/

/-- The visits of a node, -/
def visitsOf (r : Redis) (id : String) : Int := ((r.hashes id).bind (·.visits)).getD 0

/-- and its value. -/
def valueOf (r : Redis) (id : String) : Rat := ((r.hashes id).bind (·.valueSum)).getD 0

/-- What an operation of the memory adds to the visits of a node. -/
def RedisOp.visitsAdded (id : String) : RedisOp → Int
  | .hincrbyVisits key => if key = id then 1 else 0
  | _ => 0

def RedisOp.valueAdded (id : String) : RedisOp → Rat
  | .hincrbyfloatValueSum key reward => if key = id then reward else 0
  | _ => 0

section Statistics

variable {r : Redis} {op : RedisOp} {ops : List RedisOp} (id : String)

theorem visitsOf_modifyHash (key : String) (f : NodeHash → NodeHash) :
    visitsOf (r.modifyHash key f) id =
      if key = id then ((f ((r.hashes id).getD {})).visits).getD 0 else visitsOf r id := by
  rw [visitsOf, Redis.modifyHash_hashes]
  by_cases here : id = key
  · subst here
    rw [Function.update_self, if_pos rfl, Option.bind_some]
  · rw [Function.update_of_ne here, if_neg (Ne.symm here), visitsOf]

theorem valueOf_modifyHash (key : String) (f : NodeHash → NodeHash) :
    valueOf (r.modifyHash key f) id =
      if key = id then ((f ((r.hashes id).getD {})).valueSum).getD 0 else valueOf r id := by
  rw [valueOf, Redis.modifyHash_hashes]
  by_cases here : id = key
  · subst here
    rw [Function.update_self, if_pos rfl, Option.bind_some]
  · rw [Function.update_of_ne here, if_neg (Ne.symm here), valueOf]

theorem visits_getD (r : Redis) (id : String) :
    (((r.hashes id).getD {}).visits).getD 0 = visitsOf r id := by
  unfold visitsOf
  cases r.hashes id <;> rfl

theorem valueSum_getD (r : Redis) (id : String) :
    (((r.hashes id).getD {}).valueSum).getD 0 = valueOf r id := by
  unfold valueOf
  cases r.hashes id <;> rfl

/-- An operation of the memory adds its visits to those of a node, -/
theorem visitsOf_apply (memory : op.OfMemory) :
    visitsOf (r.apply op) id = visitsOf r id + op.visitsAdded id := by
  cases op with
  | hset key mapping =>
    obtain ⟨_, _, _, _, _, _, -, rfl⟩ := memory
    simp only [Redis.apply, visitsOf_modifyHash, RedisOp.visitsAdded, add_zero]
    split
    · exact visits_getD r id
    · rfl
  | hincrbyVisits key =>
    simp only [Redis.apply, visitsOf_modifyHash, RedisOp.visitsAdded]
    split
    · rw [NodeHash.addVisit, Option.getD_some, visits_getD]
    · rw [add_zero]
  | hincrbyfloatValueSum key reward =>
    simp only [Redis.apply, visitsOf_modifyHash, RedisOp.visitsAdded, add_zero]
    split
    · exact visits_getD r id
    · rfl
  | sadd key member => exact memory.elim
  | xaddAccepted payload => exact memory.elim
  | _ => exact (add_zero _).symm

/-- and its value to that of the node. -/
theorem valueOf_apply (memory : op.OfMemory) :
    valueOf (r.apply op) id = valueOf r id + op.valueAdded id := by
  cases op with
  | hset key mapping =>
    obtain ⟨_, _, _, _, _, _, -, rfl⟩ := memory
    simp only [Redis.apply, valueOf_modifyHash, RedisOp.valueAdded, add_zero]
    split
    · exact valueSum_getD r id
    · rfl
  | hincrbyVisits key =>
    simp only [Redis.apply, valueOf_modifyHash, RedisOp.valueAdded, add_zero]
    split
    · exact valueSum_getD r id
    · rfl
  | hincrbyfloatValueSum key reward =>
    simp only [Redis.apply, valueOf_modifyHash, RedisOp.valueAdded]
    split
    · rw [NodeHash.addValue, Option.getD_some, valueSum_getD]
    · rw [add_zero]
  | sadd key member => exact memory.elim
  | xaddAccepted payload => exact memory.elim
  | _ => exact (add_zero _).symm

/-- The visits of a node after a pipeline, -/
theorem visitsOf_applyAll (memory : ∀ op ∈ ops, op.OfMemory) :
    visitsOf (r.applyAll ops) id = visitsOf r id + (ops.map (RedisOp.visitsAdded id)).sum := by
  induction ops generalizing r with
  | nil => exact (add_zero _).symm
  | cons op rest ih =>
    have tail : visitsOf ((r.apply op).applyAll rest) id = _ :=
      ih fun o mem => memory o (List.mem_cons_of_mem op mem)
    rw [List.map_cons, List.sum_cons, ← add_assoc,
      ← visitsOf_apply id (memory op List.mem_cons_self), ← tail]
    rfl

/-- and its value. -/
theorem valueOf_applyAll (memory : ∀ op ∈ ops, op.OfMemory) :
    valueOf (r.applyAll ops) id = valueOf r id + (ops.map (RedisOp.valueAdded id)).sum := by
  induction ops generalizing r with
  | nil => exact (add_zero _).symm
  | cons op rest ih =>
    have tail : valueOf ((r.apply op).applyAll rest) id = _ :=
      ih fun o mem => memory o (List.mem_cons_of_mem op mem)
    rw [List.map_cons, List.sum_cons, ← add_assoc,
      ← valueOf_apply id (memory op List.mem_cons_self), ← tail]
    rfl

end Statistics

/-! ## What a walk adds -/

/-- The operations a walk along a path queues. -/
def walkOps (pack : VerificationPack) (reward : Rat) (path : List String) : List RedisOp :=
  path.flatMap (GlobalMemory.visitOps pack reward)

theorem walkOps_ofMemory (pack : VerificationPack) (reward : Rat) (path : List String) :
    ∀ op ∈ walkOps pack reward path, op.OfMemory := by
  intro op mem
  obtain ⟨id, -, mem⟩ := List.mem_flatMap.mp mem
  exact GlobalMemory.visitOps_ofMemory pack reward id op mem

/-- A walk adds one visit for each time a node stands on its path. -/
theorem walkOps_visitsAdded (pack : VerificationPack) (reward : Rat) (path : List String)
    (id : String) :
    ((walkOps pack reward path).map (RedisOp.visitsAdded id)).sum = path.count id := by
  induction path with
  | nil => rfl
  | cons y rest ih =>
    have own : ((GlobalMemory.visitOps pack reward y).map (RedisOp.visitsAdded id)).sum =
        if y = id then 1 else 0 := by
      unfold GlobalMemory.visitOps
      split <;> simp [RedisOp.visitsAdded]
    rw [walkOps, List.flatMap_cons, List.map_append, List.sum_append, own, ← walkOps, ih,
      List.count_cons]
    simp only [beq_iff_eq]
    split <;> push_cast <;> ring

/-- The walk adds the reward once for every time a node is on the path. -/
theorem walkOps_valueAdded (pack : VerificationPack) (reward : Rat) (path : List String)
    (id : String) :
    ((walkOps pack reward path).map (RedisOp.valueAdded id)).sum = path.count id • reward := by
  induction path with
  | nil => exact (zero_nsmul reward).symm
  | cons y rest ih =>
    have own : ((GlobalMemory.visitOps pack reward y).map (RedisOp.valueAdded id)).sum =
        if y = id then reward else 0 := by
      unfold GlobalMemory.visitOps
      split <;> simp [RedisOp.valueAdded]
    rw [walkOps, List.flatMap_cons, List.map_append, List.sum_append, own, ← walkOps, ih,
      List.count_cons]
    simp only [beq_iff_eq]
    split
    · rw [add_nsmul, one_nsmul, add_comm]
    · rw [zero_add, add_zero]

/-! ## What a batch queues -/

/-- The operations queued after a walk: summaries on nodes and the key that closes the
tree. -/
def RedisOp.Closing (r : Redis) : RedisOp → Prop
  | .hset key mapping => (r.hashes key).isSome ∧ ∃ isTerminal bestReward maxDepthSeen,
    isTerminal ≠ some false ∧ mapping = {
      isTerminal := isTerminal
      bestReward := bestReward
      maxDepthSeen := maxDepthSeen }
  | .set key _ => ∃ taskId, key = treeDoneKey taskId
  | _ => False

/-- What one message queues: nothing when its capsule is no node, and else the counters,
a walk along the route of the capsule, and the closing operations. -/
inductive MessageOps (r : Redis) : List RedisOp → Prop
  | unknown : MessageOps r []
  | result (now : Nat) (pack : VerificationPack) (reward : Rat) (path : List String)
      (closing : List RedisOp) :
      Rooted.Route (parentOf r) pack.capsuleId path → (∀ id ∈ path, (r.hashes id).isSome) →
      (∀ op ∈ closing, op.Closing r) →
      MessageOps r
        (GlobalMemory.statsOps now pack reward ++ walkOps pack reward path ++ closing)

/-- What a batch queues, message after message. -/
inductive PipeOps (r : Redis) : List RedisOp → Prop
  | nil : PipeOps r []
  | message {pipe ops : List RedisOp} (id : Nat) : PipeOps r pipe → MessageOps r ops →
      PipeOps r (pipe ++ (ops ++ [.xack "memory_group" id]))

section Queue

variable {r r' : Redis} {op : RedisOp} {ops : List RedisOp}

/-- The operations that close are the memory's, -/
theorem RedisOp.Closing.ofMemory (closing : op.Closing r) : op.OfMemory := by
  cases op with
  | hset key mapping =>
    obtain ⟨-, _, _, _, latched, rfl⟩ := closing
    exact ⟨none, none, none, _, _, _, latched, rfl⟩
  | set key value => exact closing
  | _ => exact closing.elim

/-- and are tame. -/
theorem RedisOp.Closing.tame (closing : op.Closing r) : op.Tame r := by
  cases op with
  | hset key mapping =>
    obtain ⟨there, _, _, _, -, rfl⟩ := closing
    exact ⟨there, ⟨rfl, rfl, rfl, rfl, rfl⟩⟩
  | set key value => trivial
  | _ => exact closing.elim

theorem RedisOp.Closing.grows (closing : op.Closing r) (grows : Grows r r') : op.Closing r' := by
  cases op with
  | hset key mapping => exact ⟨grows.isSome closing.1, closing.2⟩
  | set key value => exact closing
  | _ => exact closing.elim

theorem statsOps_tame (now : Nat) (pack : VerificationPack) (reward : Rat) :
    ∀ op ∈ GlobalMemory.statsOps now pack reward, op.Tame r := by
  intro op mem
  simp only [GlobalMemory.statsOps, List.mem_cons, List.not_mem_nil, or_false] at mem
  rcases mem with rfl | rfl | rfl | rfl | rfl | rfl <;> trivial

/-- A visit writes to a node that is there. -/
theorem visitOps_tame (pack : VerificationPack) (reward : Rat) {id : String}
    (there : (r.hashes id).isSome) : ∀ op ∈ GlobalMemory.visitOps pack reward id, op.Tame r := by
  intro op mem
  unfold GlobalMemory.visitOps at mem
  rw [List.mem_append] at mem
  rcases mem with mem | mem
  · simp only [List.mem_cons, List.not_mem_nil, or_false] at mem
    rcases mem with rfl | rfl <;> exact there
  · split at mem
    · rw [List.mem_singleton] at mem
      subst mem
      exact ⟨there, ⟨rfl, rfl, rfl, rfl, rfl⟩⟩
    · cases mem

theorem walkOps_tame (pack : VerificationPack) (reward : Rat) {path : List String}
    (there : ∀ id ∈ path, (r.hashes id).isSome) :
    ∀ op ∈ walkOps pack reward path, op.Tame r := by
  intro op mem
  obtain ⟨id, onPath, mem⟩ := List.mem_flatMap.mp mem
  exact visitOps_tame pack reward (there id onPath) op mem

namespace MessageOps

/-- The operations of a message stay so while the tree grows. -/
theorem grows (message : MessageOps r ops) (grows : Grows r r') : MessageOps r' ops := by
  cases message with
  | unknown => exact .unknown
  | result now pack reward path closing route nodes closes =>
    exact .result now pack reward path closing
      (route.congr fun id mem => grows.parentOf_eq (nodes id mem))
      (fun id mem => grows.isSome (nodes id mem)) fun op mem => (closes op mem).grows grows

theorem ofMemory (message : MessageOps r ops) : ∀ op ∈ ops, op.OfMemory := by
  cases message with
  | unknown => exact fun _ mem => absurd mem List.not_mem_nil
  | result now pack reward path closing route nodes closes =>
    intro op mem
    simp only [List.mem_append] at mem
    rcases mem with (mem | mem) | mem
    · exact GlobalMemory.statsOps_ofMemory now pack reward op mem
    · exact walkOps_ofMemory pack reward path op mem
    · exact (closes op mem).ofMemory

theorem tame (message : MessageOps r ops) : ∀ op ∈ ops, op.Tame r := by
  cases message with
  | unknown => exact fun _ mem => absurd mem List.not_mem_nil
  | result now pack reward path closing route nodes closes =>
    intro op mem
    simp only [List.mem_append] at mem
    rcases mem with (mem | mem) | mem
    · exact statsOps_tame now pack reward op mem
    · exact walkOps_tame pack reward nodes op mem
    · exact (closes op mem).tame

end MessageOps

namespace PipeOps

theorem grows (pipe : PipeOps r ops) (grows : Grows r r') : PipeOps r' ops := by
  induction pipe with
  | nil => exact .nil
  | message id _ message ih => exact .message id ih (message.grows grows)

theorem ofMemory (pipe : PipeOps r ops) : ∀ op ∈ ops, op.OfMemory := by
  induction pipe with
  | nil => exact fun _ mem => absurd mem List.not_mem_nil
  | message id _ message ih =>
    intro op mem
    simp only [List.mem_append, List.mem_singleton] at mem
    rcases mem with mem | mem | rfl
    · exact ih op mem
    · exact message.ofMemory op mem
    · trivial

theorem tame (pipe : PipeOps r ops) : ∀ op ∈ ops, op.Tame r := by
  induction pipe with
  | nil => exact fun _ mem => absurd mem List.not_mem_nil
  | message id _ message ih =>
    intro op mem
    simp only [List.mem_append, List.mem_singleton] at mem
    rcases mem with mem | mem | rfl
    · exact ih op mem
    · exact message.tame op mem
    · trivial

end PipeOps

end Queue

/-! ## The memory in a growing tree -/

section Spec

variable {ι : Type} {sha256 : Sha256} {task : SeedTask}
  {sys : System ι Cmd Cmd.Reply PyError Choice World} {d : Discipline ι Cmd Cmd.Reply PyError World}
  {i : ι}

/-- A discipline that knows the store to be a tree and lets it only grow. -/
structure TreeAware (sha256 : Sha256) (task : SeedTask)
    (sys : System ι Cmd Cmd.Reply PyError Choice World)
    (d : Discipline ι Cmd Cmd.Reply PyError World) : Prop where
  exec : sys.exec = World.exec
  tree : ∀ s, d.known s → d.inv s → IsTree sha256 task s.world.redis
  grows : ∀ i s t, d.rely i s t → Grows s.world.redis t.world.redis
  passive : ∀ i c, c.Passive → Quiet sys d i c

/-- A hash is read from the store as the command finds it. -/
theorem TreeAware.read (aware : TreeAware sha256 task sys d) {x : Choice} {key : String} {w : World}
    {v : Option NodeHash} (reply : (sys.exec x (.redis (.hgetall key)) w).1 = .ok v) :
    v = w.redis.hashes key := by
  rw [aware.exec] at reply
  exact (World.exec_redis_eq_ok reply).2

/-- The end of a walk from `current`. -/
def Walked (pack : VerificationPack) (reward : Rat) (current : String) (ops : List RedisOp)
    (r : Redis) : Prop :=
  (current = "" ∧ ops = []) ∨
    current ≠ "" ∧ ∃ path, Rooted.Route (parentOf r) current path ∧
      (∀ id ∈ path, (r.hashes id).isSome) ∧ ops = walkOps pack reward path

/-- The spec of the walk: it queues the increments of the route. -/
theorem backpropagate_safe (aware : TreeAware sha256 task sys d) (pack : VerificationPack)
    (reward : Rat) (fuel : Nat) {s : Snap ι} {current : String}
    (start : current = "" ∨ (s.world.redis.hashes current).isSome) :
    Safe sys d i
      (fun ops t => d.rely i s t ∧ Walked pack reward current ops t.world.redis) (fun _ _ => True)
      (GlobalMemory.backpropagate pack reward fuel current) s := by
  induction fuel generalizing s current with
  | zero =>
    unfold GlobalMemory.backpropagate
    split
    · next done => exact ⟨d.rely_refl i s, .inl ⟨done, rfl⟩⟩
    · trivial
  | succ fuel ih =>
    unfold GlobalMemory.backpropagate
    split
    · next done => exact ⟨d.rely_refl i s, .inl ⟨done, rfl⟩⟩
    next more =>
    refine Safe.read_bind (aware.passive i _ trivial) (fun t x v rely known inv reply own => ?_)
      fun _ _ _ => trivial
    obtain rfl := aware.read reply
    have tree := aware.tree t known inv
    have there := (aware.grows i s t rely).isSome (start.resolve_left more)
    obtain ⟨h, found⟩ := Option.isSome_iff_exists.mp there
    have later := aware.grows i t _ own
    have next : ((t.world.redis.hashes current).bind (·.parent)).getD "" = "" ∨
        ((t.after sys.exec i x (.redis (.hgetall current))).world.redis.hashes
          (((t.world.redis.hashes current).bind (·.parent)).getD "")).isSome := by
      by_cases top : ((t.world.redis.hashes current).bind (·.parent)).getD "" = ""
      · exact .inl top
      · have link : parentOf t.world.redis current =
            some (((t.world.redis.hashes current).bind (·.parent)).getD "") := if_neg top
        exact .inr (later.isSome (tree.parentOf_spec there link).1)
    refine Safe.bind (ih next) fun rest u walked => ?_
    obtain ⟨rely', walked⟩ := walked
    refine ⟨d.rely_trans i s t u rely (d.rely_trans i t _ u own rely'), .inr ⟨more, ?_⟩⟩
    have same := (later.trans (aware.grows i _ u rely')).parentOf_eq there
    have thereU := (later.trans (aware.grows i _ u rely')).isSome there
    rcases walked with ⟨top, rfl⟩ | ⟨top, path, route, nodes, rfl⟩
    · refine ⟨[current], .root (same.trans (if_pos top)), ?_, ?_⟩
      · exact fun id mem => List.mem_singleton.mp mem ▸ thereU
      · rw [walkOps, List.flatMap_singleton, List.append_nil]
    · refine ⟨current :: path, .step (same.trans (if_neg top)) route, fun id mem => ?_, rfl⟩
      obtain rfl | mem := List.mem_cons.mp mem
      · exact thereU
      · exact nodes id mem

/-- The operations of the summary change no node. -/
theorem summaryOps_safe (aware : TreeAware sha256 task sys d) (reward : Rat) (nodeDepth : Nat)
    (s : Snap ι) :
    Safe sys d i
      (fun ops t => d.rely i s t ∧ ∀ op ∈ ops, op.Closing t.world.redis) (fun _ _ => True)
      (GlobalMemory.summaryOps (rootNodeId task.taskId) reward nodeDepth) s := by
  refine Safe.read_bind (aware.passive i _ trivial) (fun t _ _ relyT _ _ _ ownT => ?_)
    fun _ _ _ => trivial
  refine Safe.read_bind (aware.passive i _ trivial) (fun u _ _ relyU known inv _ ownU => ?_)
    fun _ _ _ => trivial
  have there := (aware.grows i u _ ownU).isSome (aware.tree u known inv).root_isSome
  refine ⟨d.rely_trans i s t _ relyT (d.rely_trans i t _ _ ownT (d.rely_trans i _ u _ relyU ownU)),
    fun op mem => ?_⟩
  rcases List.mem_append.mp mem with mem | mem
  · split at mem
    · rw [List.mem_singleton] at mem
      subst mem
      exact ⟨there, none, _, none, nofun, rfl⟩
    · cases mem
  · split at mem
    · rw [List.mem_singleton] at mem
      subst mem
      exact ⟨there, none, none, _, nofun, rfl⟩
    · cases mem

/-- Those that settle a result close nodes and change no statistics. -/
theorem settle_safe (aware : TreeAware sha256 task sys d) (taskId : String)
    (pack : VerificationPack) {s : Snap ι} (there : (s.world.redis.hashes pack.capsuleId).isSome) :
    Safe sys d i
      (fun ops t => d.rely i s t ∧ ∀ op ∈ ops, op.Closing t.world.redis) (fun _ _ => True)
      (GlobalMemory.settle taskId pack) s := by
  unfold GlobalMemory.settle
  split
  · refine Safe.uses_bind (aware.passive i) (Daemon.updateCandidateStatus_passive _ _)
      (fun _ t relyT => ?_) fun _ _ _ => trivial
    refine Safe.uses_bind (aware.passive i) (Daemon.updateTaskStatus_passive _ _)
      (fun _ u relyU => ?_) fun _ _ _ => trivial
    have rely := d.rely_trans i s t u relyT relyU
    refine ⟨rely, fun op mem => ?_⟩
    simp only [List.mem_cons, List.not_mem_nil, or_false] at mem
    rcases mem with rfl | rfl
    · exact ⟨taskId, rfl⟩
    · exact ⟨(aware.grows i s u rely).isSome there, some true, none, none, nofun, rfl⟩
  · refine Safe.uses_bind (aware.passive i) (Daemon.updateCandidateStatus_passive _ _)
      (fun _ t rely => ?_) fun _ _ _ => trivial
    exact ⟨rely, fun _ mem => absurd mem List.not_mem_nil⟩

/-- The spec of one message. -/
theorem rememberResult_safe (aware : TreeAware sha256 task sys d) (fuel now : Nat)
    (pack : VerificationPack) (s : Snap ι) :
    Safe sys d i (fun ops t => d.rely i s t ∧ MessageOps t.world.redis ops) (fun _ _ => True)
      (GlobalMemory.rememberResult fuel now pack) s := by
  refine Safe.quiet_bind (aware.passive i _ trivial) (fun _ t relyT => ?_) fun _ _ _ => trivial
  refine Safe.read_bind (aware.passive i _ trivial)
    (fun u x found relyU known inv reply ownU => ?_) fun _ _ _ => trivial
  have rely := d.rely_trans i s t _ relyT (d.rely_trans i t u _ relyU ownU)
  obtain rfl := aware.read reply
  cases found : u.world.redis.hashes pack.capsuleId with
  | none => exact ⟨rely, .unknown⟩
  | some node =>
    have tree := aware.tree u known inv
    have there : (u.world.redis.hashes pack.capsuleId).isSome := by rw [found]; rfl
    have named := (tree.isNode found).ne_empty
    refine Safe.uses_bind (aware.passive i) (GlobalMemory.parentData_passive node)
      (fun parent v relyV => ?_) fun _ _ _ => trivial
    dsimp only
    rw [tree.treeId found, subscript, Prog.ofExcept_ok, Prog.ret_bind]
    have thereV := (aware.grows i u v (d.rely_trans i u _ v ownU relyV)).isSome there
    refine Safe.bind (backpropagate_safe aware pack _ fuel (.inr thereV)) fun path w walked => ?_
    obtain ⟨relyW, ⟨empty, -⟩ | ⟨-, path, route, nodes, rfl⟩⟩ := walked
    · exact absurd empty named
    refine Safe.bind (summaryOps_safe aware _ _ w) fun summary a closes => ?_
    obtain ⟨relyA, closes⟩ := closes
    have thereW := (aware.grows i v w relyW).isSome thereV
    have thereA := (aware.grows i w a relyA).isSome thereW
    refine Safe.bind (settle_safe aware task.taskId pack thereA) fun closing b closes' => ?_
    obtain ⟨relyB, closes'⟩ := closes'
    have later := d.rely_trans i w a b relyA relyB
    refine ⟨d.rely_trans i s _ b rely (d.rely_trans i _ v b relyV
      (d.rely_trans i v w b relyW later)), ?_⟩
    rw [List.append_assoc]
    have grown := aware.grows i w b later
    refine .result now pack _ path (summary ++ closing) ?_ ?_ fun op mem => ?_
    · exact route.congr fun id mem => grown.parentOf_eq (nodes id mem)
    · exact fun id mem => grown.isSome (nodes id mem)
    · rcases List.mem_append.mp mem with mem | mem
      · exact (closes op mem).grows (aware.grows i a b relyB)
      · exact closes' op mem

/-- The pipeline a batch ends with keeps the invariant and the guarantee. -/
def Commits (sys : System ι Cmd Cmd.Reply PyError Choice World)
    (d : Discipline ι Cmd Cmd.Reply PyError World) (i : ι) : Prop :=
  ∀ t x pipe, d.known t → d.inv t → PipeOps t.world.redis pipe →
    sys.may t i x (.redis (.pipeline pipe)) →
    d.known (t.after sys.exec i x (.redis (.pipeline pipe))) →
      d.inv (t.after sys.exec i x (.redis (.pipeline pipe))) ∧
        d.guar i t (t.after sys.exec i x (.redis (.pipeline pipe)))

/-- The spec of a batch: the pipeline it ends with is what the messages queue. -/
theorem rememberBatch_safe (aware : TreeAware sha256 task sys d)
    (commit : Commits sys d i) (fuel now : Nat) (messages : List ResultMessage) {pipe : List RedisOp} {s : Snap ι}
    (queued : PipeOps s.world.redis pipe) :
    Safe sys d i (fun _ _ => True) (fun _ _ => True)
      (GlobalMemory.rememberBatch fuel now messages pipe) s := by
  induction messages generalizing pipe s with
  | nil =>
    refine Safe.call fun t rely known inv x may known' => ?_
    obtain ⟨inv', guar⟩ :=
      commit t x pipe known inv (queued.grows (aware.grows i s t rely)) may known'
    exact ⟨inv', guar, fun _ _ => trivial, fun _ _ => trivial⟩
  | cons message rest ih =>
    refine Safe.bind (Safe.ofExcept (fun _ _ => d.rely_refl i s) fun _ _ => trivial)
      fun pack t relyT => ?_
    refine Safe.bind (rememberResult_safe aware fuel now pack t) fun ops u result => ?_
    obtain ⟨relyU, message⟩ := result
    exact ih (.message _ (queued.grows (aware.grows i s u (d.rely_trans i s t u relyT relyU))) message)

/-- The spec of a turn of the memory, from what its pipeline does. -/
theorem remember_safe (aware : TreeAware sha256 task sys d) (commit : Commits sys d i)
    (fuel : Nat) (s : Snap ι) :
    Safe sys d i (fun _ _ => True) (fun _ _ => True) (GlobalMemory.remember fuel) s := by
  refine Safe.quiet_bind (aware.passive i _ trivial) (fun messages t _ => ?_) fun _ _ _ => trivial
  split
  · trivial
  · refine Safe.quiet_bind (aware.passive i _ trivial) (fun now u _ => ?_) fun _ _ _ => trivial
    exact rememberBatch_safe aware commit fuel now messages .nil

end Spec

end KernelOmega
