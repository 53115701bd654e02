import KernelOmega.Distance.Changes
import KernelOmega.Patcher.Extent
import KernelOmega.Plant.Budding
import KernelOmega.Plant.Hostile
import KernelOmega.Plant.Winner

/-!
# Where a repair comes from

Whoever adds to the results stream, an accepted entry names a seeded task and the file that was
seeded with it, and its code is the task's source after so many patches of the workers as the
task's plan allows levels. A child is patched from the code its parent was read with; what is
stored under a node's id is a root as it was seeded last, or such a child.
-/

namespace KernelOmega

open Concurrent Distance Python

variable {sha256 : Sha256} {origin : String → Option SeedTask} {mutates : String → String → Prop}

/-! ## The stored nodes -/

/-- What a hash says of its tree is so: its code goes back to the task's, patch by patch. -/
structure NodeHash.Sourced (origin : String → Option SeedTask) (mutates : String → String → Prop)
    (key : String) (node : NodeHash) : Prop where
  planned : ∀ taskId task, key = rootNodeId taskId → origin taskId = some task →
    node.planJson = some task.plan
  coded : node.code.isSome = true → node.treeId.isSome = true
  placed : ∀ taskId, node.treeId = some taskId → NamesTree key taskId ∧ ∃ task code,
    origin taskId = some task ∧ node.code = some code ∧
      Steps mutates (node.depth.getD 0) task.code code ∧
      node.depth.getD 0 ≤ task.plan.maxDepth.toNat ∧
      node.sourceRelpath = some task.sourceRelpath ∧ node.repoPath = some task.repoPath

namespace NodeHash.Sourced

variable {key : String} {old new : NodeHash}

/-- A hash that differs in other fields only. -/
theorem same (sourced : old.Sourced origin mutates key) (place : old.SamePlace new)
    (relpath : new.sourceRelpath = old.sourceRelpath) (repo : new.repoPath = old.repoPath) :
    new.Sourced origin mutates key where
  planned := by
    intro taskId task here known
    rw [place.planJson]
    exact sourced.planned taskId task here known
  coded := by
    rw [place.code, place.treeId]
    exact sourced.coded
  placed := by
    rw [place.treeId, place.code, place.depth, relpath, repo]
    exact sourced.placed

/-- A mapping without code or tree keeps a node's sources. -/
theorem homeless {mapping : NodeHash} (sourced : old.Sourced origin mutates key)
    (homeless : mapping.Homeless) : (mapping.update old).Sourced origin mutates key := by
  refine sourced.same (homeless.toPlaceless.samePlace old) ?_ ?_
  · simp only [update, homeless.sourceRelpath, Option.none_or, Option.orElse_eq_orElse,
      Option.orElse_eq_or]
  · simp only [update, homeless.repoPath, Option.none_or, Option.orElse_eq_orElse,
      Option.orElse_eq_or]

/-- A child of a node that was read, whatever its hash held before. -/
theorem child {taskId p code candidate : String} {node root child : NodeHash} {self : ForestWorker}
    (sourced : old.Sourced origin mutates (ForestWorker.childId sha256 taskId p candidate))
    (nodeSourced : node.Sourced origin mutates p)
    (rootSourced : root.Sourced origin mutates (rootNodeId taskId)) (names : NamesTree p taskId)
    (above : (node.depth.getD 0 : Int) < (self.taskPlan root).maxDepth)
    (coded : node.code = some code) (step : mutates code candidate)
    (made : child.ChildOf taskId p candidate node) :
    (child.update old).Sourced origin mutates
      (ForestWorker.childId sha256 taskId p candidate) := by
  obtain ⟨taskId', tree⟩ := Option.isSome_iff_exists.mp
    (nodeSourced.coded (coded ▸ Option.isSome_some))
  obtain ⟨names', task, code', known, coded', steps, -, relpath, repo⟩ :=
    nodeSourced.placed taskId' tree
  obtain rfl := names.unique names'
  obtain rfl := Option.some.inj (coded.symm.trans coded')
  have plan : self.taskPlan root = task.plan := by
    rw [ForestWorker.taskPlan, rootSourced.planned taskId task rfl known]
  rw [plan] at above
  have tree : (child.update old).treeId = some taskId := by
    simp only [update, made.treeId, Option.orElse_eq_orElse, Option.orElse_eq_or, Option.some_or]
  constructor
  case planned =>
    intro taskId' task' here known'
    simp only [update, made.planJson, Option.orElse_eq_orElse, Option.orElse_eq_or, Option.none_or]
    exact sourced.planned taskId' task' here known'
  case coded =>
    intro _
    rw [tree, Option.isSome_some]
  case placed =>
    intro taskId' tree'
    obtain rfl := Option.some.inj (tree.symm.trans tree')
    refine ⟨⟨_, sha256.not_mem_text _ (by decide), rfl⟩, task, candidate, known, ?_⟩
    simp only [update, made.code, made.depth, made.sourceRelpath, made.repoPath, repo, relpath,
      Option.orElse_eq_orElse, Option.orElse_eq_or, Option.some_or, Option.getD_some]
    exact ⟨trivial, steps.tail step, by omega, trivial, trivial⟩

end NodeHash.Sourced

/-- Every hash is sourced, those that are not there included. -/
def Redis.Sourced (origin : String → Option SeedTask) (mutates : String → String → Prop)
    (r : Redis) : Prop :=
  ∀ key, ((r.hashes key).getD {}).Sourced origin mutates key

/-- What an operation writes keeps the hashes sourced and the children in their trees. -/
def RedisOp.Sources (sha256 : Sha256) (origin : String → Option SeedTask)
    (mutates : String → String → Prop) : RedisOp → Prop
  | .hset key mapping => ∀ old : NodeHash, old.Sourced origin mutates key →
      (mapping.update old).Sourced origin mutates key
  | .sadd key member => ∃ taskId p candidate, IsNodeId sha256 taskId p ∧ key = nodeChildrenKey p ∧
      member = ForestWorker.childId sha256 taskId p candidate
  | _ => True

/-- A command that leaves no code in a tree that is not of the tree. -/
def Cmd.Sources (sha256 : Sha256) (origin : String → Option SeedTask)
    (mutates : String → String → Prop) : Cmd → Prop
  | .redis (.hset _ mapping) => mapping.Homeless
  | .redis (.sadd _ _) => False
  | .redis (.pipeline ops) => ∀ op ∈ ops, op.Sources sha256 origin mutates
  | _ => True

namespace Redis

variable {r : Redis}

/-- A change that keeps a node's code to its sources, -/
theorem Sourced.modify (sourced : r.Sourced origin mutates) {key : String} {f : NodeHash → NodeHash}
    (keeps : ∀ old : NodeHash, old.Sourced origin mutates key →
      (f old).Sourced origin mutates key) : (r.modifyHash key f).Sourced origin mutates := by
  intro key'
  rw [modifyHash_hashes]
  by_cases here : key' = key
  · subst here
    rw [Function.update_self, Option.getD_some]
    exact keeps _ (sourced key')
  · rw [Function.update_of_ne here]
    exact sourced key'

/-- and an operation that does. -/
theorem Sourced.apply (sourced : r.Sourced origin mutates) {op : RedisOp}
    (sources : op.Sources sha256 origin mutates) : (r.apply op).Sourced origin mutates := by
  cases op with
  | hset key mapping => exact sourced.modify sources
  | hincrbyVisits key =>
    exact sourced.modify fun _ kept => kept.same ⟨rfl, rfl, rfl, rfl, rfl⟩ rfl rfl
  | hincrbyfloatValueSum key reward =>
    exact sourced.modify fun _ kept => kept.same ⟨rfl, rfl, rfl, rfl, rfl⟩ rfl rfl
  | _ => exact sourced

/-- An operation that keeps to its sources lists children of their parents. -/
theorem Kin.apply (kin : r.Kin sha256) {op : RedisOp} (sources : op.Sources sha256 origin mutates) :
    (r.apply op).Kin sha256 := by
  cases op with
  | sadd key member =>
    obtain ⟨taskId, p, candidate, above, rfl, rfl⟩ := sources
    exact kin.addMember above
  | _ => exact kin

/-- Hashes that are sourced, and children in their trees. -/
structure Rooted (sha256 : Sha256) (origin : String → Option SeedTask)
    (mutates : String → String → Prop) (r : Redis) : Prop where
  sourced : r.Sourced origin mutates
  kin : r.Kin sha256

theorem Rooted.of_eq {r' : Redis} (rooted : r.Rooted sha256 origin mutates)
    (hashes : r'.hashes = r.hashes) (sets : r'.sets = r.sets) :
    r'.Rooted sha256 origin mutates := by
  refine ⟨fun key => ?_, fun p c mem => rooted.kin p c (sets ▸ mem)⟩
  rw [hashes]
  exact rooted.sourced key

theorem Rooted.apply (rooted : r.Rooted sha256 origin mutates) {op : RedisOp}
    (sources : op.Sources sha256 origin mutates) : (r.apply op).Rooted sha256 origin mutates :=
  ⟨rooted.sourced.apply sources, rooted.kin.apply sources⟩

/-- A command that keeps to its sources leaves every node's code in the tree it comes from. -/
theorem Rooted.world {w : World} (rooted : w.redis.Rooted sha256 origin mutates) {c : Cmd}
    (sources : c.Sources sha256 origin mutates) (x : Choice) :
    (World.exec x c w).2.redis.Rooted sha256 origin mutates := by
  rcases World.exec_redis_cases x c w with same | ⟨command, rfl, after⟩
  · rw [same]
    exact rooted
  · rw [after]
    cases command with
    | hset key mapping =>
      exact ⟨rooted.sourced.modify fun _ kept => kept.homeless sources, rooted.kin⟩
    | sadd key member => exact sources.elim
    | pipeline ops =>
      exact applyAll_induction (P := Rooted sha256 origin mutates)
        (fun op mem _ kept => kept.apply (sources op mem)) rooted
    | set key value nx ex =>
      simp only [Redis.exec]
      split <;> exact rooted.of_eq rfl rfl
    | _ => exact rooted.of_eq rfl rfl

end Redis

theorem RedisOp.sources_hset {key : String} {mapping : NodeHash} (homeless : mapping.Homeless) :
    (RedisOp.hset key mapping).Sources sha256 origin mutates := fun _ kept => kept.homeless homeless

/-! ## What the daemons write -/

section Writes

variable {c : Cmd}

/-- Pipelines of acknowledgements. -/
theorem Cmd.sources_of_xacks {ops : List RedisOp}
    (acks : ∀ op ∈ ops, ∃ group id, op = RedisOp.xack group id) :
    Cmd.Sources sha256 origin mutates (.redis (.pipeline ops)) := by
  intro op mem
  obtain ⟨group, id, rfl⟩ := acks op mem
  trivial

/-- A dispatcher writes no code. -/
theorem Sending.Allows.sources {q : Sending} (allowed : q.Allows c) :
    c.Sources sha256 origin mutates := by
  cases c with
  | redis c =>
    cases c with
    | hset _ _ | sadd _ _ => exact allowed.elim
    | pipeline ops =>
      refine Cmd.sources_of_xacks fun op mem => ?_
      obtain ⟨id, rfl⟩ := allowed op mem
      exact ⟨_, _, rfl⟩
    | _ => trivial
  | _ => trivial

/-- An executor writes no code. -/
theorem Running.Allows.sources {q : Running} (allowed : q.Allows c) :
    c.Sources sha256 origin mutates := by
  cases c with
  | redis c =>
    cases c with
    | hset _ _ | sadd _ _ | pipeline _ => exact allowed.elim
    | _ => trivial
  | _ => trivial

/-- The memory writes no code, -/
theorem Remembering.Allows.sources {q : Remembering} (allowed : q.Allows c) :
    c.Sources sha256 origin mutates := by
  cases c with
  | redis c =>
    cases c with
    | hset _ _ | sadd _ _ => exact allowed.elim
    | pipeline ops =>
      intro op mem
      have justifies := allowed op mem
      cases op with
      | hset key mapping =>
        obtain ⟨_, _, _, _, _, _, -, rfl⟩ := justifies
        exact RedisOp.sources_hset ⟨⟨rfl, rfl, rfl, rfl, rfl⟩, rfl, rfl⟩
      | sadd key member => exact justifies.elim
      | _ => trivial
    | _ => trivial
  | _ => trivial

/-- no gate does, -/
theorem PolicyGate.Allows.sources {policy : PolicyGate} {q : Gating} (allowed : policy.Allows q c) :
    c.Sources sha256 origin mutates := by
  cases c with
  | redis c =>
    cases c with
    | hset _ _ | sadd _ _ => exact allowed.elim
    | pipeline ops =>
      intro op mem
      have queued := allowed.2.queued op mem
      cases op with
      | hset _ _ | sadd _ _ => exact queued.elim
      | _ => trivial
    | _ => trivial
  | _ => trivial

/-- and no merger. -/
theorem Claiming.Allows.sources {q : Claiming} (allowed : q.Allows c) :
    c.Sources sha256 origin mutates := by
  cases c with
  | redis c =>
    cases c with
    | hset _ _ | sadd _ _ => exact allowed.elim
    | pipeline ops =>
      obtain ⟨done, -, acks⟩ := allowed
      refine Cmd.sources_of_xacks fun op mem => ?_
      obtain ⟨message, -, rfl⟩ := acks op mem
      exact ⟨_, _, rfl⟩
    | _ => trivial
  | _ => trivial

/-- Whoever is no worker writes nothing that a payload is made of. -/
theorem Plant.Call.sources {ι S : Type} [LinearOrder S] {plant : Plant ι S} {role : Role}
    {p : Daemon Unit} (called : plant.Call role p) :
    p.Uses fun c => role.isWorker = false → c.Sources sha256 origin mutates := by
  cases called with
  | work self own fuel =>
    exact (self.turn_keeps plant.ucb own fuel).uses fun _ _ _ idle => by cases idle
  | dispatch self => exact self.turn_keeps.uses fun _ _ allowed _ => Sending.Allows.sources allowed
  | handle self core =>
    exact (self.handle_keeps core (.inl rfl)).uses fun _ _ allowed _ =>
      Running.Allows.sources allowed
  | coreTask self reads core =>
    exact (self.coreTask_keeps reads core (.inl rfl)).uses fun _ _ allowed _ =>
      Running.Allows.sources allowed
  | remember fuel =>
    exact (GlobalMemory.remember_keeps fuel {}).uses fun _ _ allowed _ =>
      Remembering.Allows.sources allowed
  | gate self => exact self.gate_keeps.uses fun _ _ allowed _ => PolicyGate.Allows.sources allowed
  | merge =>
    exact (Merger.merge_claims (.inl rfl)).uses fun _ _ allowed _ =>
      Claiming.Allows.sources allowed

/-- The hashes a worker has read are sourced. -/
def SourcedReads (origin : String → Option SeedTask) (mutates : String → String → Prop)
    (reads : List (String × NodeHash)) : Prop :=
  ∀ key node, (key, node) ∈ reads → node.Sourced origin mutates key

/-- What a worker writes in a tree it has come down in, of hashes that are sourced. -/
theorem budding_sources {self : ForestWorker} {reads : List (String × NodeHash)}
    {members : List (String × List String)} (sourced : SourcedReads origin mutates reads)
    (kin : KinRead sha256 members) (works : ∀ code candidate, self.Mutates code candidate →
      mutates code candidate) (allowed : (budding self sha256).allows reads c)
    (descends : (kinship sha256).allows members c) : c.Sources sha256 origin mutates := by
  cases c with
  | redis c =>
    cases c with
    | hset key mapping => exact allowed
    | sadd key member => exact allowed
    | pipeline ops =>
      rcases allowed with buds | closes
      · cases buds with
        | @child taskId p _ candidate node root _ nodeRead rootRead above coded mutated made =>
          -- The node is one the worker has come down to in this tree.
          have isNode : IsNodeId sha256 taskId p := by
            rcases descends with ⟨taskId', p', lineage, _, child', tree, -, -, same⟩ | closes
            · obtain ⟨first, last⟩ := List.cons.inj same
              obtain ⟨-, rfl⟩ := RedisOp.hset.inj first
              obtain ⟨key, -⟩ := RedisOp.sadd.inj (List.cons.inj last).1
              obtain rfl := nodeChildrenKey_injective key
              obtain rfl := Option.some.inj (made.treeId.symm.trans tree)
              exact lineage.isNodeId kin
            · obtain ⟨_, _, other, -⟩ := closes _ (List.mem_cons_of_mem _ List.mem_cons_self)
              cases other
          intro op mem
          simp only [List.mem_cons, List.not_mem_nil, or_false] at mem
          rcases mem with rfl | rfl
          · exact fun old kept => kept.child (sourced p node nodeRead) (sourced _ root rootRead)
              isNode.namesTree above coded (works _ _ mutated) made
          · exact ⟨taskId, p, candidate, isNode, rfl, rfl⟩
      · intro op mem
        obtain ⟨key, mapping, rfl, homeless⟩ := closes op mem
        exact RedisOp.sources_hset homeless
    | _ => trivial
  | _ => trivial

end Writes

end KernelOmega
