import KernelOmega.Search.SingleWriter

/-!
# Visits and values are conserved

A node's visits are what the applied results of its subtree add up to, and so are its
values. The invariant says it in the form a single step keeps: every applied result is
credited to each node of its route (`Conserved`). The memory's pipeline adds a result to
the list and its credits to the statistics in one transaction; a new child starts with
nothing, and no result's route goes through it yet. The equation between a node and its
children is then the conservation law of credits along routes.

A second write of a child would reset it, so the runs are those in which no node is
expanded twice.
-/

namespace KernelOmega

open Concurrent

/-! ## The route of a node -/

/-- The walk from a node for at most `fuel` nodes. -/
def climb (r : Redis) : (fuel : Nat) → (id : String) → List String
  | 0, _ => []
  | fuel + 1, id =>
    id :: match parentOf r id with
      | none => []
      | some p => climb r fuel p

def routeOf (r : Redis) (id : String) : List String := climb r (depthOf r id + 1) id

/-- The way up from a node of the tree is a route: its depth bounds it. -/
theorem IsTree.route_routeOf {sha256 : Sha256} {task : SeedTask} {r : Redis}
    (tree : IsTree sha256 task r) {id : String} (there : (r.hashes id).isSome) :
    Rooted.Route (parentOf r) id (routeOf r id) := by
  unfold routeOf
  induction level : depthOf r id generalizing id with
  | zero =>
    cases link : parentOf r id with
    | none =>
      rw [climb, link]
      exact .root link
    | some p =>
      obtain ⟨-, above, -⟩ := tree.parentOf_spec there link
      omega
  | succ n ih =>
    rw [climb]
    cases link : parentOf r id with
    | none => exact .root link
    | some p =>
      obtain ⟨thereP, above, -⟩ := tree.parentOf_spec there link
      exact .step link (ih thereP (by omega))

/-- A node's route stays while the tree grows. -/
theorem Grows.routeOf_eq {sha256 : Sha256} {task : SeedTask} {r r' : Redis} (grows : Grows r r')
    (tree : IsTree sha256 task r) (tree' : IsTree sha256 task r') {id : String}
    (there : (r.hashes id).isSome) : routeOf r' id = routeOf r id :=
  (tree'.route_routeOf (grows.isSome there)).unique
    (grows.route tree there (tree.route_routeOf there))

/-! ## The invariant -/

/-- The applied results, each as one visit. -/
def visitsGiven (given : List (String × Rat)) : List (String × Int) :=
  given.map fun e => (e.1, 1)

/-- Every applied result is credited to each node of its route, and nothing else is. -/
structure Conserved (r : Redis) : Prop where
  nodes : ∀ e ∈ r.applied, (r.hashes e.1).isSome
  visits : ∀ id, visitsOf r id = Rooted.credit (routeOf r) id (visitsGiven r.applied)
  values : ∀ id, valueOf r id = Rooted.credit (routeOf r) id r.applied

/-- Credits only read the routes of the contributions. -/
theorem credit_congr {M : Type} [AddMonoid M] {route route' : String → List String} (id : String)
    {given : List (String × M)} (same : ∀ e ∈ given, route' e.1 = route e.1) :
    Rooted.credit route' id given = Rooted.credit route id given := by
  unfold Rooted.credit
  congr 1
  exact List.map_congr_left fun e mem => by rw [same e mem]

theorem mem_visitsGiven {given : List (String × Rat)} {e : String × Int}
    (mem : e ∈ visitsGiven given) : ∃ w, (e.1, w) ∈ given := by
  obtain ⟨a, memA, rfl⟩ := List.mem_map.mp mem
  exact ⟨a.2, memA⟩

/-- A change that lets the tree grow and moves no statistic. -/
structure StatsKept (r r' : Redis) : Prop where
  grows : Grows r r'
  visits : ∀ id, visitsOf r' id = visitsOf r id
  values : ∀ id, valueOf r' id = valueOf r id
  applied : r'.applied = r.applied

/-- The statistics are conserved when none has changed and the tree has only grown. -/
theorem Conserved.of_kept {sha256 : Sha256} {task : SeedTask} {r r' : Redis}
    (conserved : Conserved r) (kept : StatsKept r r') (tree : IsTree sha256 task r)
    (tree' : IsTree sha256 task r') : Conserved r' := by
  have routes : ∀ e ∈ r.applied, routeOf r' e.1 = routeOf r e.1 := fun e mem =>
    kept.grows.routeOf_eq tree tree' (conserved.nodes e mem)
  refine ⟨fun e mem => ?_, fun id => ?_, fun id => ?_⟩
  · rw [kept.applied] at mem
    exact kept.grows.isSome (conserved.nodes e mem)
  · rw [kept.visits, kept.applied, conserved.visits]
    refine (credit_congr id fun e mem => ?_).symm
    obtain ⟨w, mem⟩ := mem_visitsGiven mem
    exact routes _ mem
  · rw [kept.values, kept.applied, conserved.values]
    exact (credit_congr id routes).symm

/-! ## The pipeline of the memory -/

def RedisOp.given : RedisOp → Option (String × Rat)
  | .applied capsuleId reward => some (capsuleId, reward)
  | _ => none

/-- The marks of a pipeline are added to those there are. -/
theorem applyAll_applied (r : Redis) (ops : List RedisOp) :
    (r.applyAll ops).applied = r.applied ++ ops.filterMap RedisOp.given := by
  induction ops generalizing r with
  | nil => exact (List.append_nil _).symm
  | cons op rest ih =>
    have head : (r.apply op).applied = r.applied ++ (RedisOp.given op).toList := by
      cases op with
      | applied capsuleId reward => rfl
      | _ => exact (List.append_nil _).symm
    have tail : ((r.apply op).applyAll rest).applied = _ := ih (r.apply op)
    rw [head] at tail
    refine tail.trans ?_
    rw [List.append_assoc, List.filterMap_cons]
    cases RedisOp.given op <;> rfl

/-- What a queue adds to the statistics is what it credits along the routes. -/
structure Credits (r : Redis) (ops : List RedisOp) : Prop where
  nodes : ∀ e ∈ ops.filterMap RedisOp.given, (r.hashes e.1).isSome
  visits : ∀ id, (ops.map (RedisOp.visitsAdded id)).sum =
    Rooted.credit (routeOf r) id (visitsGiven (ops.filterMap RedisOp.given))
  values : ∀ id, (ops.map (RedisOp.valueAdded id)).sum =
    Rooted.credit (routeOf r) id (ops.filterMap RedisOp.given)

namespace Credits

/-- Credits add up over a sequence. -/
theorem append {r : Redis} {ops ops' : List RedisOp} (first : Credits r ops)
    (last : Credits r ops') : Credits r (ops ++ ops') := by
  refine ⟨fun e mem => ?_, fun id => ?_, fun id => ?_⟩
  · rw [List.filterMap_append, List.mem_append] at mem
    exact mem.elim (first.nodes e) (last.nodes e)
  · rw [List.map_append, List.sum_append, first.visits, last.visits, List.filterMap_append]
    simp only [Rooted.credit, visitsGiven, List.map_append, List.sum_append]
  · rw [List.map_append, List.sum_append, first.values, last.values, List.filterMap_append]
    simp only [Rooted.credit, List.map_append, List.sum_append]

/-- A queue that neither adds nor applies. -/
theorem of_silent {r : Redis} {ops : List RedisOp}
    (silent : ∀ op ∈ ops, op.given = none ∧ ∀ id, op.visitsAdded id = 0 ∧ op.valueAdded id = 0) :
    Credits r ops := by
  induction ops with
  | nil => exact ⟨fun _ mem => absurd mem List.not_mem_nil, fun _ => rfl, fun _ => rfl⟩
  | cons op rest ih =>
    obtain ⟨unapplied, unadded⟩ := silent op List.mem_cons_self
    have tail := ih fun o mem => silent o (List.mem_cons_of_mem op mem)
    refine ⟨?_, fun id => ?_, fun id => ?_⟩
    · rw [List.filterMap_cons_none unapplied]
      exact tail.nodes
    · rw [List.filterMap_cons_none unapplied, List.map_cons, List.sum_cons, (unadded id).1, zero_add]
      exact tail.visits id
    · rw [List.filterMap_cons_none unapplied, List.map_cons, List.sum_cons, (unadded id).2, zero_add]
      exact tail.values id

end Credits

/-- The operations of a visit mark nothing. -/
theorem visitOps_given (pack : VerificationPack) (reward : Rat) (id : String) :
    ∀ op ∈ GlobalMemory.visitOps pack reward id, op.given = none := by
  intro op mem
  unfold GlobalMemory.visitOps at mem
  rw [List.mem_append] at mem
  rcases mem with mem | mem
  · simp only [List.mem_cons, List.not_mem_nil, or_false] at mem
    rcases mem with rfl | rfl <;> rfl
  · split at mem
    · rw [List.mem_singleton] at mem
      subst mem
      rfl
    · cases mem

theorem walkOps_given (pack : VerificationPack) (reward : Rat) (path : List String) :
    (walkOps pack reward path).filterMap RedisOp.given = [] := by
  rw [List.filterMap_eq_nil_iff]
  intro op mem
  obtain ⟨id, -, mem⟩ := List.mem_flatMap.mp mem
  exact visitOps_given pack reward id op mem

/-- A result's counters and its walk: one application, and its credit along the route. -/
theorem credits_walk {r : Redis} (now : Nat) (pack : VerificationPack) (reward : Rat)
    {path : List String} (route : routeOf r pack.capsuleId = path)
    (there : (r.hashes pack.capsuleId).isSome) :
    Credits r (GlobalMemory.statsOps now pack reward ++ walkOps pack reward path) := by
  have given : (GlobalMemory.statsOps now pack reward ++ walkOps pack reward path).filterMap
      RedisOp.given = [(pack.capsuleId, reward)] := by
    rw [List.filterMap_append, walkOps_given]
    rfl
  refine ⟨fun e mem => ?_, fun id => ?_, fun id => ?_⟩
  · rw [given, List.mem_singleton] at mem
    rw [mem]
    exact there
  · have stats : ((GlobalMemory.statsOps now pack reward).map (RedisOp.visitsAdded id)).sum = 0 :=
      rfl
    rw [given, List.map_append, List.sum_append, stats, walkOps_visitsAdded, ← route]
    simp only [Rooted.credit, visitsGiven, List.map_cons, List.map_nil, List.sum_cons, List.sum_nil,
      zero_add, add_zero, nsmul_eq_mul, mul_one]
  · have stats : ((GlobalMemory.statsOps now pack reward).map (RedisOp.valueAdded id)).sum = 0 := by
      simp only [GlobalMemory.statsOps, List.map_cons, List.map_nil, RedisOp.valueAdded,
        List.sum_cons, List.sum_nil, add_zero]
    rw [given, List.map_append, List.sum_append, stats, walkOps_valueAdded, ← route]
    simp only [Rooted.credit, List.map_cons, List.map_nil, List.sum_cons, List.sum_nil, zero_add,
      add_zero]

section Pipeline

variable {sha256 : Sha256} {task : SeedTask} {r : Redis} {ops : List RedisOp}

/-- The operations of one message credit its path with what they mark. -/
theorem MessageOps.credits (message : MessageOps r ops) (tree : IsTree sha256 task r) :
    Credits r ops := by
  cases message with
  | unknown => exact .of_silent fun _ mem => absurd mem List.not_mem_nil
  | result now pack reward path closing route nodes closes =>
    have there := nodes pack.capsuleId route.head_mem
    have same := (tree.route_routeOf there).unique route
    refine (credits_walk now pack reward same there).append (.of_silent fun op mem => ?_)
    have closes := closes op mem
    cases op with
    | hset key mapping => exact ⟨rfl, fun _ => ⟨rfl, rfl⟩⟩
    | set key value => exact ⟨rfl, fun _ => ⟨rfl, rfl⟩⟩
    | _ => exact closes.elim

/-- The transaction of a batch credits each of its messages. -/
theorem PipeOps.credits (pipe : PipeOps r ops) (tree : IsTree sha256 task r) : Credits r ops := by
  induction pipe with
  | nil => exact .of_silent fun _ mem => absurd mem List.not_mem_nil
  | message id _ message ih =>
    refine ih.append ((message.credits tree).append (.of_silent fun op mem => ?_))
    rw [List.mem_singleton] at mem
    subst mem
    exact ⟨rfl, fun _ => ⟨rfl, rfl⟩⟩

/-- The transaction of a batch keeps the invariant. -/
theorem Conserved.pipeline (conserved : Conserved r) (tree : IsTree sha256 task r)
    (pipe : PipeOps r ops) : Conserved (r.applyAll ops) := by
  have same := SameTree.applyAll pipe.tame
  have credits := pipe.credits tree
  have nodes : ∀ e ∈ r.applied ++ ops.filterMap RedisOp.given, (r.hashes e.1).isSome := by
    intro e mem
    exact (List.mem_append.mp mem).elim (conserved.nodes e) (credits.nodes e)
  have routes : ∀ e ∈ r.applied ++ ops.filterMap RedisOp.given,
      routeOf (r.applyAll ops) e.1 = routeOf r e.1 := fun e mem =>
    same.toGrows.routeOf_eq tree (tree.sameTree same) (nodes e mem)
  have visits : ∀ id, Rooted.credit (routeOf r) id
      (visitsGiven (r.applied ++ ops.filterMap RedisOp.given)) =
        visitsOf r id + (ops.map (RedisOp.visitsAdded id)).sum := by
    intro id
    rw [conserved.visits, credits.visits]
    simp only [Rooted.credit, visitsGiven, List.map_append, List.sum_append]
  have values : ∀ id, Rooted.credit (routeOf r) id
      (r.applied ++ ops.filterMap RedisOp.given) =
        valueOf r id + (ops.map (RedisOp.valueAdded id)).sum := by
    intro id
    rw [conserved.values, credits.values]
    simp only [Rooted.credit, List.map_append, List.sum_append]
  refine ⟨fun e mem => ?_, fun id => ?_, fun id => ?_⟩
  · rw [applyAll_applied] at mem
    exact same.toGrows.isSome (nodes e mem)
  · rw [visitsOf_applyAll id pipe.ofMemory, applyAll_applied, ← visits]
    refine (credit_congr id fun e mem => ?_).symm
    obtain ⟨w, mem⟩ := mem_visitsGiven mem
    exact routes _ mem
  · rw [valueOf_applyAll id pipe.ofMemory, applyAll_applied, ← values]
    exact (credit_congr id routes).symm

end Pipeline

/-! ## The commands of a worker -/

/-- An operation that moves no node and no statistic. -/
def RedisOp.Still : RedisOp → Prop
  | .hset _ mapping => mapping.Placeless ∧ mapping.visits = none ∧ mapping.valueSum = none
  | .sadd _ _ => False
  | .hincrbyVisits _ => False
  | .hincrbyfloatValueSum _ _ => False
  | .applied _ _ => False
  | _ => True

/-- A command that places no node and changes no statistics. -/
def RedisCmd.Still : RedisCmd → Prop
  | .hset _ mapping => mapping.Placeless ∧ mapping.visits = none ∧ mapping.valueSum = none
  | .sadd _ _ => False
  | .pipeline ops => ∀ op ∈ ops, op.Still
  | _ => True

def Cmd.Still : Cmd → Prop
  | .redis c => c.Still
  | _ => True

/-- The write of a child that starts without visits. -/
def Cmd.WritesChild (sha256 : Sha256) (taskId : String) (c : Cmd) : Prop :=
  ∃ p candidate child, child.visits = some 0 ∧ child.valueSum = some 0 ∧
    c = .redis (.pipeline [.hset (ForestWorker.childId sha256 taskId p candidate) child,
      .sadd (nodeChildrenKey p) (ForestWorker.childId sha256 taskId p candidate)])

def Cmd.OfWorker (sha256 : Sha256) (taskId : String) (c : Cmd) : Prop :=
  c.Still ∨ c.WritesChild sha256 taskId

theorem Cmd.Still.of_passive {c : Cmd} (passive : c.Passive) : c.Still := by
  cases c with
  | redis c =>
    cases c with
    | hset key mapping => exact passive.elim
    | sadd key member => exact passive.elim
    | pipeline ops => exact passive.elim
    | _ => trivial
  | _ => trivial

namespace StatsKept

theorem refl (r : Redis) : StatsKept r r := ⟨.refl r, fun _ => rfl, fun _ => rfl, rfl⟩

theorem trans {r r' r'' : Redis} (first : StatsKept r r') (last : StatsKept r' r'') :
    StatsKept r r'' :=
  ⟨first.grows.trans last.grows, fun id => (last.visits id).trans (first.visits id),
    fun id => (last.values id).trans (first.values id), last.applied.trans first.applied⟩

theorem of_eq {r r' : Redis} (hashes : r'.hashes = r.hashes) (sets : r'.sets = r.sets)
    (applied : r'.applied = r.applied) : StatsKept r r' := by
  refine ⟨(SameTree.of_eq hashes sets).toGrows, fun id => ?_, fun id => ?_, applied⟩
  · rw [visitsOf, hashes, visitsOf]
  · rw [valueOf, hashes, valueOf]

/-- A write of other fields leaves the statistics alone. -/
theorem hset (r : Redis) (key : String) {mapping : NodeHash} (placeless : mapping.Placeless)
    (visits : mapping.visits = none) (values : mapping.valueSum = none) :
    StatsKept r (r.modifyHash key mapping.update) := by
  refine ⟨⟨fun id h found => ?_, fun _ _ mem => mem⟩, fun id => ?_, fun id => ?_, rfl⟩
  · rw [Redis.modifyHash_hashes]
    by_cases here : id = key
    · subst here
      refine ⟨mapping.update h, ?_, placeless.samePlace h⟩
      rw [Function.update_self, found, Option.getD_some]
    · exact ⟨h, by rw [Function.update_of_ne here, found], .refl h⟩
  · rw [visitsOf_modifyHash]
    split
    · rw [NodeHash.update, visits]
      exact visits_getD r id
    · rfl
  · rw [valueOf_modifyHash]
    split
    · rw [NodeHash.update, values]
      exact valueSum_getD r id
    · rfl

theorem apply {op : RedisOp} (still : op.Still) (r : Redis) : StatsKept r (r.apply op) := by
  cases op with
  | hset key mapping => exact hset r key still.1 still.2.1 still.2.2
  | sadd key member => exact still.elim
  | hincrbyVisits key => exact still.elim
  | hincrbyfloatValueSum key reward => exact still.elim
  | applied capsuleId reward => exact still.elim
  | _ => exact of_eq rfl rfl rfl

theorem applyAll {ops : List RedisOp} (still : ∀ op ∈ ops, op.Still) (r : Redis) :
    StatsKept r (r.applyAll ops) := by
  induction ops generalizing r with
  | nil => exact refl r
  | cons op rest ih =>
    have first := apply (still op List.mem_cons_self) r
    exact first.trans (ih (fun o mem => still o (List.mem_cons_of_mem op mem)) (r.apply op))

theorem exec {c : RedisCmd} (still : (Cmd.redis c).Still) (now : Nat) (r : Redis) :
    StatsKept r (r.exec now c).2 := by
  cases c with
  | hset key mapping => exact hset _ key still.1 still.2.1 still.2.2
  | sadd key member => exact still.elim
  | set key value nx ex =>
    simp only [Redis.exec]
    split
    · exact refl _
    · exact of_eq rfl rfl rfl
  | pipeline ops => exact applyAll still _
  | _ => exact of_eq rfl rfl rfl

/-- A still command leaves every node's statistics as they are. -/
theorem world {c : Cmd} (still : c.Still) (x : Choice) (w : World) :
    StatsKept w.redis (World.exec x c w).2.redis := by
  rcases World.exec_redis_cases x c w with same | ⟨command, rfl, after⟩
  · rw [same]
    exact refl _
  · rw [after]
    exact exec still w.clock w.redis

/-- Writing a child that is not there yet. -/
theorem addChild {r : Redis} {id : String} (fresh : r.hashes id = none) (p : String)
    {child : NodeHash} (visits : child.visits = some 0) (values : child.valueSum = some 0) :
    StatsKept r (r.addChild p id child) := by
  refine ⟨⟨fun key h found => ⟨h, ?_, .refl h⟩, fun key c mem => ?_⟩, fun key => ?_, fun key => ?_,
    rfl⟩
  · rw [Redis.addChild_hashes]
    have other : key ≠ id := by
      rintro rfl
      rw [fresh] at found
      cases found
    rw [Function.update_of_ne other, found]
  · exact Redis.mem_addChild_sets.mpr (.inl mem)
  · rw [visitsOf, Redis.addChild_hashes]
    by_cases here : key = id
    · rw [here, Function.update_self, Option.bind_some, NodeHash.update, visits, visitsOf, fresh]
      rfl
    · rw [Function.update_of_ne here, visitsOf]
  · rw [valueOf, Redis.addChild_hashes]
    by_cases here : key = id
    · rw [here, Function.update_self, Option.bind_some, NodeHash.update, values, valueOf, fresh]
      rfl
    · rw [Function.update_of_ne here, valueOf]

end StatsKept

/-! ## The discipline -/

section Conservation

variable {ι S : Type} {setup : SearchSetup ι S} {i : ι}

/-- A child that is written is written for the first time, so it was not there. -/
theorem fresh_of_write {t : Snap ι} {p candidate : String}
    {e : Event ι Cmd Cmd.Reply PyError} {r' : Redis}
    (tree : IsTree setup.sha256 setup.task t.world.redis)
    (before : WriterInv t.world.redis t.history) (after : WriterInv r' (e :: t.history))
    (cmd : childrenIn e = [setup.childId p candidate]) :
    t.world.redis.hashes (setup.childId p candidate) = none := by
  have once : (setup.childId p candidate :: childWrites t.history).Nodup := by
    have writes := after.writesOnce
    rwa [childWrites, List.flatMap_cons, cmd] at writes
  by_contra there
  obtain ⟨h, found⟩ := Option.ne_none_iff_exists'.mp there
  obtain ⟨q, isChild⟩ := tree.child _ h found (IsNodeId.childId_ne_root _ _ _ _)
  exact (List.nodup_cons.mp once).1 (before.listed q _ isChild.listed).2

variable [LinearOrder S]

/-- The discipline of the statistics. All processes share it: each step grows the tree, and that is
all a process needs of the others. -/
def conservationDiscipline (setup : SearchSetup ι S) :
    Discipline ι Cmd Cmd.Reply PyError World where
  known := fun s => IsTree setup.sha256 setup.task s.world.redis ∧
    WriterInv s.world.redis s.history
  inv := fun s => Conserved s.world.redis
  rely := fun _ s t => Grows s.world.redis t.world.redis
  guar := fun _ s t => Grows s.world.redis t.world.redis
  idle := fun _ _ => True
  rely_refl := fun _ => grows_self
  rely_trans := fun _ => grows_onward

/-- No command of a worker touches the statistics of a node that is there. -/
theorem worker_quiet {c : Cmd} (worker : c.OfWorker setup.sha256 setup.taskId) :
    Quiet setup.once (conservationDiscipline setup) i c := by
  intro t x known conserved _ known'
  have kept : StatsKept t.world.redis (t.after World.exec i x c).world.redis := by
    rcases worker with still | ⟨p, candidate, child, visits, values, rfl⟩
    · exact .world still x t.world
    · cases fails : x.fail with
      | true =>
        rw [Snapshot.after_world, World.exec_redis_fail fails]
        exact .refl _
      | false =>
        have fresh := fresh_of_write known.1 known.2 known'.2 (by
          simp only [SearchSetup.once, System.restrict, SearchSetup.system,
            World.exec_redis_ok fails]
          rfl)
        rw [Snapshot.after_world, World.exec_redis_ok fails]
        exact .addChild fresh p visits values
  exact ⟨Conserved.of_kept conserved kept known.1 known'.1, kept.grows, kept.grows⟩

theorem conservationAware :
    TreeAware setup.sha256 setup.task setup.once (conservationDiscipline setup) where
  exec := rfl
  tree := fun _ known _ => known.1
  grows := fun _ _ _ grows => grows
  passive := fun _ _ passive => worker_quiet (.inl (.of_passive passive))

/-- A transaction of the memory commits whole messages. -/
theorem conservation_commits : Commits setup.once (conservationDiscipline setup) i := by
  intro t x pipe known conserved queued _ _
  have same := SameTree.world (c := .redis (.pipeline pipe)) queued.tame x
  refine ⟨?_, same.toGrows⟩
  cases fails : x.fail with
  | true =>
    simp only [SearchSetup.once, System.restrict, SearchSetup.system, conservationDiscipline,
      Snapshot.after_world, World.exec_redis_fail fails]
    exact conserved
  | false =>
    simp only [SearchSetup.once, System.restrict, SearchSetup.system, conservationDiscipline,
      Snapshot.after_world, World.exec_redis_ok fails]
    exact Conserved.pipeline conserved known.1 queued

/-! ## The code -/

section Worker

variable {sha256 : Sha256} {taskId : String}

/-- Every command of an expansion is still or writes a fresh child. -/
theorem ForestWorker.Expands.ofWorker {self : ForestWorker} {nodeId : String} {node : NodeHash}
    {c : Cmd} (expands : self.Expands sha256 taskId nodeId node c) : c.OfWorker sha256 taskId := by
  cases expands with
  | leaves issued =>
    cases issued with
    | refuse => exact .inl ⟨⟨rfl, rfl, rfl, rfl, rfl⟩, rfl, rfl⟩
    | leaf => exact .inl ⟨⟨rfl, rfl, rfl, rfl, rfl⟩, rfl, rfl⟩
    | _ => exact .inl trivial
  | reserves issued =>
    cases issued with
    | refuse => exact .inl ⟨⟨rfl, rfl, rfl, rfl, rfl⟩, rfl, rfl⟩
    | grant generated => exact .inl ⟨⟨rfl, rfl, rfl, rfl, rfl⟩, rfl, rfl⟩
    | _ => exact .inl trivial
  | dispatches coded mutates issued =>
    cases issued with
    | queues queued => cases queued <;> exact .inl trivial
    | draw => exact .inl trivial
    | child made =>
      obtain ⟨testCode, sourcePath, testPath, repoPath, rfl⟩ :=
        ForestWorker.childMapping_eq_ok made
      exact .inr ⟨nodeId, _, _, rfl, rfl, rfl⟩
  | closes issued =>
    cases issued with
    | ledger c => exact .inl trivial
    | barren =>
      exact .inl (List.forall_mem_cons.mpr ⟨⟨⟨rfl, rfl, rfl, rfl, rfl⟩, rfl, rfl⟩,
        List.forall_mem_singleton.mpr ⟨⟨rfl, rfl, rfl, rfl, rfl⟩, rfl, rfl⟩⟩)
    | done => exact .inl (List.forall_mem_singleton.mpr ⟨⟨rfl, rfl, rfl, rfl, rfl⟩, rfl, rfl⟩)
  | _ => exact .inl trivial

theorem expand_ofWorker (self : ForestWorker) (nodeId : String) :
    (self.expand sha256 taskId nodeId).Uses (Cmd.OfWorker sha256 taskId) :=
  self.expand_uses sha256 taskId nodeId (.inl trivial) fun _ _ expands => expands.ofWorker

end Worker

theorem expand_conservation (self : ForestWorker) (nodeId : String) (s : Snap ι) :
    Safe setup.once (conservationDiscipline setup) i (fun _ _ => True) (fun _ _ => True)
      (self.expand setup.sha256 setup.taskId nodeId) s :=
  Safe.mono (fun _ _ _ => trivial) (fun _ _ h => h)
    (Safe.of_uses (fun _ => worker_quiet) (expand_ofWorker self nodeId) fun _ _ _ => trivial)

/-- A visit to a task conserves the statistics: it touches none. -/
theorem visitTask_conservation (self : ForestWorker) (fuel : Nat) (s : Snap ι) :
    Safe setup.once (conservationDiscipline setup) i (fun _ _ => True) (fun _ _ => True)
      (self.visitTask setup.sha256 setup.ucb fuel setup.taskId) s := by
  have quiet : ∀ c : Cmd, c.Still → Quiet setup.once (conservationDiscipline setup) i c :=
    fun _ still => worker_quiet (.inl still)
  exact self.safe_visitTask (fun _ _ _ _ => trivial) setup.ucb
    (fun _ passive => quiet _ (.of_passive passive)) (fun _ => quiet _ trivial)
    (fun _ => quiet _ trivial) (fun _ => quiet _ trivial)
    (fun nodeId t _ => expand_conservation self nodeId t) fuel trivial

/-! ## The run -/

/-- A seeded tree has no visits and no value. -/
theorem conserved_seeded (task : SeedTask) : Conserved task.seededWorld.redis := by
  have applied : task.seededWorld.redis.applied = [] := by rw [SeedTask.seededWorld_eq]
  have hashes := task.seededWorld_hashes
  refine ⟨fun e mem => ?_, fun id => ?_, fun id => ?_⟩
  · rw [applied] at mem
    cases mem
  · rw [visitsOf, hashes, applied]
    by_cases here : id = rootNodeId task.taskId
    · rw [here, Function.update_self]
      rfl
    · rw [Function.update_of_ne here]
      rfl
  · rw [valueOf, hashes, applied]
    by_cases here : id = rootNodeId task.taskId
    · rw [here, Function.update_self]
      rfl
    · rw [Function.update_of_ne here]
      rfl

theorem StatsKept.around {w w' : World} (around : SearchSetup.Around w w') :
    StatsKept w.redis w'.redis := by
  cases around with
  | expire key entry deadline found due past => exact of_eq rfl rfl rfl
  | deliver m => exact of_eq rfl rfl rfl
  | _ => exact refl _

variable [DecidableEq ι]

/-- The search without repeated expansions obeys the conservation discipline. -/
theorem conservation_obeys (setup : SearchSetup ι S) (collisionFree : setup.sha256.CollisionFree) :
    setup.once.Obeys (conservationDiscipline setup) where
  known := fun s reached =>
    ⟨(System.Reachable.of_restrict reached).1.inv (tree_obeys setup collisionFree),
      reached.inv (writer_obeys setup collisionFree)⟩
  init := fun w start => by
    obtain ⟨rfl, -⟩ := start
    exact ⟨conserved_seeded setup.task, fun _ => trivial⟩
  compatible := fun _ _ _ _ _ _ _ _ _ guar => guar
  env := fun s w known known' conserved acts =>
    ⟨Conserved.of_kept conserved (.around acts.1) known.1 known'.1,
      fun _ => (StatsKept.around acts.1).grows⟩
  idle := fun _ _ _ _ _ _ => trivial
  calls := fun i p s called _ _ => by
    cases called with
    | expand nodeId => exact expand_conservation _ nodeId s
    | visit fuel => exact visitTask_conservation _ fuel s
    | remember fuel => exact remember_safe conservationAware conservation_commits fuel s

/-- The rewards of the applied results whose capsule is the node. -/
def rewardsOf (r : Redis) (id : String) : List Rat :=
  (r.applied.filter fun e => e.1 = id).map (·.2)

/-- The visits given at a node are as many as its rewards. -/
theorem givenAt_visitsGiven (r : Redis) (id : String) :
    Rooted.givenAt id (visitsGiven r.applied) = (rewardsOf r id).length := by
  unfold rewardsOf
  rw [Rooted.givenAt_eq, visitsGiven, List.length_map]
  induction r.applied with
  | nil => rfl
  | cons e rest ih =>
    simp only [List.map_cons, List.filter_cons]
    split
    · rw [List.map_cons, List.sum_cons, ih, List.length_cons]
      exact Int.add_comm 1 _
    · exact ih

section Tree

variable {sha256 : Sha256} {task : SeedTask} {r : Redis}

/-- On a tree the invariant is the conservation law, node by node. -/
theorem Conserved.law (conserved : Conserved r) (tree : IsTree sha256 task r) (id : String) :
    visitsOf r id = (rewardsOf r id).length +
        ((r.sets (nodeChildrenKey id)).map (visitsOf r)).sum ∧
      valueOf r id = (rewardsOf r id).sum +
        ((r.sets (nodeChildrenKey id)).map (valueOf r)).sum := by
  have routes : ∀ e ∈ r.applied, Rooted.Route (parentOf r) e.1 (routeOf r e.1) := fun e mem =>
    tree.route_routeOf (conserved.nodes e mem)
  have listed : ∀ e ∈ r.applied, ∀ c ∈ routeOf r e.1,
      c ∈ r.sets (nodeChildrenKey id) ↔ parentOf r c = some id := fun e mem c on =>
    tree.mem_sets_iff (tree.route_there (conserved.nodes e mem) (routes e mem) c on)
  have distinct := tree.distinct (nodeChildrenKey id)
  constructor
  · have law := Rooted.credit_eq (m := id) distinct (visitsGiven r.applied)
      (fun e mem => by
        obtain ⟨w, mem⟩ := mem_visitsGiven mem
        exact routes _ mem)
      fun e mem => by
        obtain ⟨w, mem⟩ := mem_visitsGiven mem
        exact listed _ mem
    rw [givenAt_visitsGiven, ← conserved.visits] at law
    rw [law]
    congr 2
    exact List.map_congr_left fun c _ => (conserved.visits c).symm
  · have law := Rooted.credit_eq (m := id) distinct r.applied routes listed
    rw [Rooted.givenAt_eq, ← conserved.values] at law
    rw [law]
    congr 2
    exact List.map_congr_left fun c _ => (conserved.values c).symm

/-- Every route passes through the root, so every applied result is a visit of it. -/
theorem Conserved.root (conserved : Conserved r) (tree : IsTree sha256 task r) :
    visitsOf r (rootNodeId task.taskId) = r.applied.length := by
  have once : ∀ e ∈ r.applied, (routeOf r e.1).count (rootNodeId task.taskId) = 1 := by
    intro e mem
    have there := conserved.nodes e mem
    have route := tree.route_routeOf there
    obtain ⟨top, on, parentless⟩ := route.exists_top
    rw [tree.eq_root (tree.route_there there route top on) parentless] at on
    rw [(tree.route_nodup there route).count, if_pos on]
  rw [conserved.visits, Rooted.credit_of_forall _ fun e mem => ?_]
  · rw [visitsGiven, List.map_map]
    show (r.applied.map fun _ => (1 : Int)).sum = r.applied.length
    rw [List.map_const', List.sum_replicate, nsmul_eq_mul, mul_one]
  · obtain ⟨w, mem⟩ := mem_visitsGiven mem
    exact once _ mem

end Tree

/-- In every run that expands no node twice, a node's visits are the results applied at it
and the visits of its children, its value is their rewards and its children's values,
and the root has a visit for every applied result. -/
theorem visits_conserved {ι S : Type} [DecidableEq ι] [LinearOrder S] (setup : SearchSetup ι S)
    (collisionFree : setup.sha256.CollisionFree) (s : State ι Cmd Cmd.Reply PyError World)
    (reached : setup.system.Reachable s) (once : (expansions s.history).Nodup) :
    (∀ id, (s.world.redis.hashes id).isSome →
      visitsOf s.world.redis id = (rewardsOf s.world.redis id).length +
          ((s.world.redis.sets (nodeChildrenKey id)).map (visitsOf s.world.redis)).sum ∧
        valueOf s.world.redis id = (rewardsOf s.world.redis id).sum +
          ((s.world.redis.sets (nodeChildrenKey id)).map (valueOf s.world.redis)).sum) ∧
      visitsOf s.world.redis setup.rootId = s.world.redis.applied.length := by
  have conserved := (once_reachable reached once).inv
    (conservation_obeys setup collisionFree)
  have tree := reached.inv (tree_obeys setup collisionFree)
  exact ⟨fun id _ => Conserved.law conserved tree id, Conserved.root conserved tree⟩

/-- The small search with both children scored. -/
theorem visits_conserved_scored :
    visitsOf SmallSearch.scored.world.redis (rootNodeId SmallSearch.task.taskId) = 2 ∧
      valueOf SmallSearch.scored.world.redis SmallSearch.idA =
        (rewardsOf SmallSearch.scored.world.redis SmallSearch.idA).sum := by
  have once : (expansions SmallSearch.scored.history).Nodup := by decide
  obtain ⟨law, root⟩ := visits_conserved (SmallSearch.setup SmallSearch.meanReward)
    SmallSearch.sha256_collisionFree _ (SmallSearch.scored_reachable SmallSearch.meanReward) once
  have there : (SmallSearch.scored.world.redis.hashes SmallSearch.idA).isSome := by
    decide +kernel
  have applied : SmallSearch.scored.world.redis.applied.length = 2 := by decide +kernel
  have leaf : SmallSearch.scored.world.redis.sets (nodeChildrenKey SmallSearch.idA) = [] := by
    decide +kernel
  obtain ⟨-, value⟩ := law _ there
  dsimp only at root value
  rw [applied] at root
  rw [leaf, List.map_nil, List.sum_nil, add_zero] at value
  exact ⟨root, value⟩

end Conservation

end KernelOmega
