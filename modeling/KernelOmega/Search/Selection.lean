import KernelOmega.Rooted.Greedy
import KernelOmega.Search.SingleWriter
import Mathlib.Analysis.SpecialFunctions.Log.Basic
import Mathlib.Data.List.MinMax

/-!
# What selection finds

`distributed_select` is a greedy descent: its preference is a child without visits, or else
the child with the best score. The flags and the depth that decide whether `expand` does
anything with the node are not part of it, so what it returns is expandable exactly when the
scores lead there.
-/

namespace KernelOmega

open Concurrent

/-- The score of `distributed_select`, in exact reals. -/
noncomputable def ucb1 : UcbScore ℝ := fun exploration parentVisits visits valueSum =>
  (valueSum : ℝ) / visits +
    exploration * Real.sqrt (Real.log ((max parentVisits 1 : Int) : ℝ) / visits)

/-! ## The preference -/

section Preference

variable {S : Type} [LinearOrder S] (ucb : UcbScore S) (exploration : Rat) (r : Redis)

def score (nodeId childId : String) : S :=
  ucb exploration (((r.hashes nodeId).bind (·.visits)).getD 1) (visitsOf r childId)
    (valueOf r childId)

/-- The children in the order they are looked at. -/
def sortedChildren (nodeId : String) : List String :=
  (r.sets (nodeChildrenKey nodeId)).insertionSort (· ≤ ·)

/-- The child selection goes to: the first one without visits, or else the first one with
the best score. -/
def preferredChild (nodeId : String) : Option String :=
  (sortedChildren r nodeId).find? (fun c => visitsOf r c = 0) <|>
    (sortedChildren r nodeId).argmax (score ucb exploration r nodeId)

theorem mem_sortedChildren {nodeId c : String} :
    c ∈ sortedChildren r nodeId ↔ c ∈ r.sets (nodeChildrenKey nodeId) :=
  (List.perm_insertionSort (· ≤ ·) _).mem_iff

/-- The preferred child is a child, -/
theorem preferredChild_mem {nodeId c : String}
    (preferred : preferredChild ucb exploration r nodeId = some c) :
    c ∈ r.sets (nodeChildrenKey nodeId) := by
  rw [← mem_sortedChildren]
  unfold preferredChild at preferred
  cases found : (sortedChildren r nodeId).find? (fun c => visitsOf r c = 0) with
  | some d =>
    rw [found] at preferred
    obtain rfl := Option.some.inj preferred
    exact List.mem_of_find?_eq_some found
  | none =>
    rw [found] at preferred
    exact List.argmax_mem preferred

/-- Selection as a greedy descent. -/
def selection : Rooted.Greedy String where
  child := fun p c => c ∈ r.sets (nodeChildrenKey p)
  prefers := fun p c => preferredChild ucb exploration r p = some c
  final := fun c => visitsOf r c = 0
  prefers_child := preferredChild_mem ucb exploration r
  prefers_unique := fun preferred preferred' => Option.some.inj (preferred.symm.trans preferred')

end Preference

/-! ## The code -/

/-- The run of a program with nothing around it and no failure. -/
def World.ask (w : World) {α : Type} (p : Daemon α) : Except PyError α × World :=
  p.run World.exec (fun _ => {}) w

section Descent

variable {S : Type} [LinearOrder S] (ucb : UcbScore S) (plan : TaskPlan) (w : World)

theorem ask_hgetall {α : Type} (key : String) (f : Option NodeHash → Daemon α) :
    w.ask (Daemon.redis (.hgetall key) >>= f) = w.ask (f (w.redis.hashes key)) := rfl

theorem ask_smembers {α : Type} (key : String) (f : List String → Daemon α) :
    w.ask (Daemon.redis (.smembers key) >>= f) = w.ask (f (w.redis.sets key)) := rfl

/-- The scan of the children: the first one without visits, or else the best one, the
running best `best` included. -/
theorem bestChild_ask (nodeId : String) (children : List String) (best : Option String) :
    w.ask (ForestWorker.bestChild ucb plan
        (((w.redis.hashes nodeId).bind (·.visits)).getD 1) children
        (best.map fun b => (b, score ucb plan.ucbExploration w.redis nodeId b))) =
      (.ok (match children.find? (fun c => visitsOf w.redis c = 0) with
        | some c => .inl c
        | none => .inr ((children.foldl (List.argAux fun b c =>
            score ucb plan.ucbExploration w.redis nodeId c <
              score ucb plan.ucbExploration w.redis nodeId b) best).map
                fun b => (b, score ucb plan.ucbExploration w.redis nodeId b))), w) := by
  induction children generalizing best with
  | nil => rfl
  | cons c rest ih =>
    rw [ForestWorker.bestChild_cons, ask_hgetall, List.find?_cons]
    simp only [visits_getD, valueSum_getD]
    by_cases unvisited : visitsOf w.redis c = 0
    · simp only [unvisited, ↓reduceIte, decide_true]
      rfl
    · simp only [unvisited, ↓reduceIte, decide_false, List.foldl_cons]
      cases best with
      | none => exact ih (some c)
      | some b =>
        by_cases better : score ucb plan.ucbExploration w.redis nodeId b <
            score ucb plan.ucbExploration w.redis nodeId c
        · have scan := ih (some c)
          simp only [Option.map_some, List.argAux, better, ↓reduceIte] at scan ⊢
          exact (congrArg w.ask (if_pos better)).trans scan
        · have scan := ih (some b)
          simp only [Option.map_some, List.argAux, better, ↓reduceIte] at scan ⊢
          exact (congrArg w.ask (if_neg better)).trans scan

/-- The scan finds the preferred child, and tells whether it has visits. -/
theorem bestChild_preferred (nodeId : String) :
    w.ask (ForestWorker.bestChild ucb plan (((w.redis.hashes nodeId).bind (·.visits)).getD 1)
        (sortedChildren w.redis nodeId) none) =
      (.ok (match preferredChild ucb plan.ucbExploration w.redis nodeId with
        | none => .inr none
        | some c => if visitsOf w.redis c = 0 then .inl c
          else .inr (some (c, score ucb plan.ucbExploration w.redis nodeId c))), w) := by
  refine (bestChild_ask ucb plan w nodeId _ none).trans ?_
  unfold preferredChild
  cases found : (sortedChildren w.redis nodeId).find? (fun c => visitsOf w.redis c = 0) with
  | some c =>
    have unvisited : visitsOf w.redis c = 0 := by simpa using List.find?_some found
    simp only [Option.orElse_eq_orElse, Option.orElse_some, unvisited, ↓reduceIte]
  | none =>
    have visited : ∀ c ∈ sortedChildren w.redis nodeId, visitsOf w.redis c ≠ 0 := by
      simpa using List.find?_eq_none.mp found
    simp only [Option.orElse_eq_orElse, Option.orElse_none]
    change (Except.ok (Sum.inr (((sortedChildren w.redis nodeId).argmax
      (score ucb plan.ucbExploration w.redis nodeId)).map _)), w) = _
    cases best : (sortedChildren w.redis nodeId).argmax
        (score ucb plan.ucbExploration w.redis nodeId) with
    | none => rfl
    | some c => simp only [Option.map_some, visited c (List.argmax_mem best), ↓reduceIte]

/-- and there is one unless there are no children. -/
theorem preferredChild_eq_none_iff {r : Redis} {exploration : Rat} {nodeId : String} :
    preferredChild ucb exploration r nodeId = none ↔ sortedChildren r nodeId = [] := by
  unfold preferredChild
  constructor
  · intro absent
    cases found : (sortedChildren r nodeId).find? (fun c => visitsOf r c = 0) with
    | some c => rw [found] at absent; cases absent
    | none =>
      rw [found] at absent
      exact List.argmax_eq_none.mp absent
  · intro empty
    rw [empty]
    rfl

/-- One iteration of the descent. -/
theorem descend_ask (fuel : Nat) (nodeId : String) :
    w.ask (ForestWorker.descend ucb plan (fuel + 1) nodeId) =
      match preferredChild ucb plan.ucbExploration w.redis nodeId with
      | none => (.ok nodeId, w)
      | some c => if visitsOf w.redis c = 0 then (.ok c, w)
        else w.ask (ForestWorker.descend ucb plan fuel c) := by
  rw [ForestWorker.descend_succ, ask_smembers]
  by_cases empty : sortedChildren w.redis nodeId = []
  · rw [(preferredChild_eq_none_iff ucb).mpr empty]
    exact congrArg w.ask (if_pos empty)
  · refine (congrArg w.ask (if_neg empty)).trans ?_
    rw [ask_hgetall]
    refine (Prog.run_bind _ (bestChild_preferred ucb plan w nodeId)).trans ?_
    cases preferred : preferredChild ucb plan.ucbExploration w.redis nodeId with
    | none => exact absurd ((preferredChild_eq_none_iff ucb).mp preferred) empty
    | some c =>
      by_cases unvisited : visitsOf w.redis c = 0
      · simp only [unvisited, ↓reduceIte]
        rfl
      · simp only [unvisited, ↓reduceIte]
        rfl

/-- What selection returns is the end of the greedy descent. -/
theorem descend_ends (fuel : Nat) {nodeId e : String} {w' : World}
    (returns : w.ask (ForestWorker.descend ucb plan fuel nodeId) = (.ok e, w')) :
    (selection ucb plan.ucbExploration w.redis).Ends nodeId e := by
  induction fuel generalizing nodeId with
  | zero => cases (Prod.mk.inj returns).1
  | succ fuel ih =>
    rw [descend_ask] at returns
    cases preferred : preferredChild ucb plan.ucbExploration w.redis nodeId with
    | none =>
      rw [preferred] at returns
      obtain rfl := Except.ok.inj (Prod.mk.inj returns).1
      refine .leaf fun c mem => ?_
      have listed := (mem_sortedChildren w.redis).mpr mem
      rw [(preferredChild_eq_none_iff ucb).mp preferred] at listed
      cases listed
    | some c =>
      rw [preferred] at returns
      dsimp only at returns
      split at returns
      · next unvisited =>
        obtain rfl := Except.ok.inj (Prod.mk.inj returns).1
        exact .final preferred unvisited
      · next visited => exact .step preferred visited (ih returns)

variable {sha256 : Sha256} {task : SeedTask}

/-- A child is one level below its parent, within the depth bound of the plan. -/
theorem IsTree.child_depth {r : Redis} (tree : IsTree sha256 task r) {p c : String}
    (listed : c ∈ r.sets (nodeChildrenKey p)) :
    depthOf r c = depthOf r p + 1 ∧ (depthOf r c : Int) ≤ task.plan.maxDepth := by
  obtain ⟨notRoot, h, found, parent⟩ := tree.member p c listed
  obtain ⟨q, isChild⟩ := tree.child c h found notRoot
  rw [isChild.parent] at parent
  obtain rfl := Option.some.inj parent
  obtain ⟨ph, d, foundP, depthP, depthC, bound⟩ := isChild.above
  have atC : depthOf r c = d + 1 := by
    simp only [depthOf, found, Option.bind_some, depthC, Option.getD_some]
  have atP : depthOf r q = d := by
    simp only [depthOf, foundP, Option.bind_some, depthP, Option.getD_some]
  rw [atC, atP]
  exact ⟨rfl, by exact_mod_cast bound⟩

/-- The descent ends within the depth bound. -/
theorem descend_returns (tree : IsTree sha256 task w.redis) (fuel : Nat) (nodeId : String)
    (room : task.plan.maxDepth < depthOf w.redis nodeId + fuel) (start : 0 < fuel) :
    ∃ e, w.ask (ForestWorker.descend ucb plan fuel nodeId) = (.ok e, w) := by
  induction fuel generalizing nodeId with
  | zero => exact absurd start (Nat.lt_irrefl 0)
  | succ fuel ih =>
    rw [descend_ask]
    cases preferred : preferredChild ucb plan.ucbExploration w.redis nodeId with
    | none => exact ⟨nodeId, rfl⟩
    | some c =>
      obtain ⟨below, bound⟩ := tree.child_depth
        (preferredChild_mem ucb plan.ucbExploration w.redis preferred)
      dsimp only
      split
      · exact ⟨c, rfl⟩
      · exact ih c (by omega) (by omega)

/-- `distributed_select` is the descent with the root's plan. -/
theorem distributedSelect_ask (self : ForestWorker) (fuel : Nat) {taskId : String}
    {root : NodeHash} (found : w.redis.hashes (rootNodeId taskId) = some root)
    (planned : root.planJson = some plan) :
    w.ask (self.distributedSelect ucb fuel taskId) =
      w.ask (ForestWorker.descend ucb plan fuel (rootNodeId taskId)) := by
  rw [ForestWorker.distributedSelect, ForestWorker.selectChecked, ask_hgetall, found,
    Option.getD_some, ForestWorker.taskPlan, planned]
  rfl

end Descent

/-! ## What selection finds -/

/-- `expand` would still expand the node: neither flag is set and there is room below it. -/
def StillExpands (r : Redis) (maxDepth : Int) (nodeId : String) : Prop :=
  ∃ h ∈ r.hashes nodeId, ForestWorker.Expandable h ∧ ((h.depth.getD 0 : Nat) : Int) < maxDepth

instance (r : Redis) (maxDepth : Int) (nodeId : String) :
    Decidable (StillExpands r maxDepth nodeId) :=
  inferInstanceAs (Decidable (∃ h ∈ r.hashes nodeId, _))

/-- In every reachable state in which some node at or below the root would still be expanded,
selection returns a node, and it is one that would still be expanded exactly when the scores
lead there: at every node the descent visits that has such a node at or below it, the
preferred child has one too, and is one itself when it has no visits. -/
theorem select_finds_work {ι S : Type} [DecidableEq ι] [LinearOrder S] (setup : SearchSetup ι S)
    (collisionFree : setup.sha256.CollisionFree) (s : State ι Cmd Cmd.Reply PyError World)
    (reached : setup.system.Reachable s) (self : ForestWorker)
    (work : (selection ucb1 setup.task.plan.ucbExploration s.world.redis).HasBelow
      (StillExpands s.world.redis setup.task.plan.maxDepth) setup.rootId) :
    ∃ nodeId,
      (∀ fuel : Nat, 0 < fuel → setup.task.plan.maxDepth < fuel →
        s.world.ask (self.distributedSelect ucb1 fuel setup.taskId) = (.ok nodeId, s.world)) ∧
      (StillExpands s.world.redis setup.task.plan.maxDepth nodeId ↔
        (selection ucb1 setup.task.plan.ucbExploration s.world.redis).Guided
          (StillExpands s.world.redis setup.task.plan.maxDepth) setup.rootId) := by
  have tree := reached.inv (tree_obeys setup collisionFree)
  obtain ⟨root, found, isRoot⟩ := IsTree.root tree
  have ends : ∀ fuel : Nat, 0 < fuel → setup.task.plan.maxDepth < fuel →
      ∃ e, s.world.ask (ForestWorker.descend ucb1 setup.task.plan fuel setup.rootId) =
        (.ok e, s.world) :=
    fun fuel start room => descend_returns ucb1 _ s.world tree fuel setup.rootId (by omega) start
  obtain ⟨nodeId, returns⟩ := ends (setup.task.plan.maxDepth.toNat + 1) (by omega) (by omega)
  have arrives := descend_ends ucb1 _ s.world _ returns
  refine ⟨nodeId, fun fuel start room => ?_, arrives.good_iff work⟩
  obtain ⟨e, returns'⟩ := ends fuel start room
  rw [distributedSelect_ask ucb1 _ s.world self fuel found isRoot.plan, returns',
    arrives.unique (descend_ends ucb1 _ s.world _ returns')]

/-! ## Runs of the small search -/

namespace SmallSearch

/-- Below the expanded root there is a node to expand. -/
theorem expandedRoot_selection {S : Type} [LinearOrder S] (ucb : UcbScore S) :
    (selection ucb task.plan.ucbExploration expandedRoot.world.redis).HasBelow
      (StillExpands expandedRoot.world.redis task.plan.maxDepth) (rootNodeId task.taskId) := by
  have listed : idA ∈ expandedRoot.world.redis.sets (nodeChildrenKey (rootNodeId task.taskId)) := by
    decide
  have expands : StillExpands expandedRoot.world.redis task.plan.maxDepth idA := by
    decide
  exact .of_below (.single listed) expands

/-- The first child has been expanded with the rest of the budget, and its child, at the depth
bound, has a result; the second child is still to be expanded. -/
def stuck : Snap (Fin 3) :=
  remembered
    (scored.run World.exec 0 ((worker "worker_00000001").expand sha256 task.taskId idA)
      fun n => { fresh := toString n }).2
    [result idC 5 1]

/-- A run to the state in which the descent is stuck. -/
theorem stuck_reachable {S : Type} [LinearOrder S] (ucb : UcbScore S) :
    (setup ucb).system.Reachable { stuck with threads := fun _ => .ret () } := by
  have called : (setup ucb).system.calls 0
      ((worker "worker_00000001").expand sha256 task.taskId idA) := SearchSetup.Call.expand idA
  have returns : (scored.run World.exec 0
      ((worker "worker_00000001").expand sha256 task.taskId idA)
      fun n => { fresh := toString n }).1 = .ok () := by
    decide +kernel
  have expanded := (scored_reachable ucb).call_alone called (fun n => { fresh := toString n })
    (System.allowed_of_forall (fun _ _ _ => trivial) _ _ _) rfl returns
  have remembers : (([result idC 5 1].foldl deliver (scored.run World.exec 0
      ((worker "worker_00000001").expand sha256 task.taskId idA)
        fun n => { fresh := toString n }).2).run World.exec 2 (GlobalMemory.remember 4)
          fun _ => {}).1 = .ok () := by
    decide +kernel
  exact remembered_reachable expanded _ remembers

/-- What the store holds there: the tree and its statistics, no closing key, and a result
for everything dispatched. -/
theorem stuck_store :
    (sortedChildren stuck.world.redis (rootNodeId task.taskId) = [idB, idA] ∧
      sortedChildren stuck.world.redis idA = [idC] ∧
      sortedChildren stuck.world.redis idC = []) ∧
    (((stuck.world.redis.hashes (rootNodeId task.taskId)).bind (·.visits)).getD 1 = 3 ∧
      visitsOf stuck.world.redis idA = 2 ∧ visitsOf stuck.world.redis idB = 1 ∧
      visitsOf stuck.world.redis idC = 1 ∧
      valueOf stuck.world.redis idA = 600 ∧ valueOf stuck.world.redis idB = -700) ∧
    (stuck.world.redis.hashes (rootNodeId task.taskId)).bind (·.planJson) = some task.plan ∧
    (∀ c ∈ dispatches stuck.history, c ∈ stuck.world.redis.applied.map (·.1)) ∧
    stuck.world.redis.strings (treeDoneKey task.taskId) = none ∧
    stuck.world.redis.strings (treeBudgetExhaustedKey task.taskId) = none ∧
    StillExpands stuck.world.redis task.plan.maxDepth idB ∧
    ¬StillExpands stuck.world.redis task.plan.maxDepth idC := by
  decide +kernel

theorem stuck_prefers_idA :
    preferredChild ucb1 task.plan.ucbExploration stuck.world.redis (rootNodeId task.taskId) =
      some idA := by
  obtain ⟨⟨sorted, -⟩, ⟨visitsRoot, visitsA, visitsB, -, valueA, valueB⟩, -⟩ := stuck_store
  have better : score ucb1 task.plan.ucbExploration stuck.world.redis (rootNodeId task.taskId) idB <
      score ucb1 task.plan.ucbExploration stuck.world.redis (rootNodeId task.taskId) idA := by
    have low : Real.sqrt (Real.log 3) ≤ 2 := by
      have log : Real.log 3 ≤ 3 - 1 := Real.log_le_sub_one_of_pos (by norm_num)
      exact Real.sqrt_le_iff.mpr ⟨by norm_num, by linarith⟩
    have high : 0 ≤ Real.sqrt (Real.log 3 / 2) := Real.sqrt_nonneg _
    have explores : task.plan.ucbExploration = 105 / 100 := rfl
    simp only [score, visitsRoot, visitsA, visitsB, valueA, valueB, ucb1, explores]
    push_cast
    rw [max_eq_left (by norm_num : (1 : ℝ) ≤ 3), div_one, div_one]
    linarith
  have visited : [idB, idA].find? (fun c => visitsOf stuck.world.redis c = 0) = none := by
    simp only [List.find?_cons, List.find?_nil, visitsA, visitsB, OfNat.ofNat_ne_zero, one_ne_zero,
      decide_false]
  rw [preferredChild, sorted, visited]
  show [idB, idA].argmax _ = some idA
  simp only [List.argmax, List.foldl_cons, List.foldl_nil, List.argAux, better, ↓reduceIte]

/-- At the first candidate the descent goes on to its child. -/
theorem stuck_prefers_idC :
    preferredChild ucb1 task.plan.ucbExploration stuck.world.redis idA = some idC := by
  obtain ⟨⟨-, sorted, -⟩, ⟨-, -, -, visitsC, -⟩, -⟩ := stuck_store
  have visited : [idC].find? (fun c => visitsOf stuck.world.redis c = 0) = none := by
    simp only [List.find?_cons, List.find?_nil, visitsC, one_ne_zero, decide_false]
  rw [preferredChild, sorted, visited]
  rfl

end SmallSearch

open SmallSearch in
/-- With every result applied and a node left to expand, selection returns a node at the
depth bound that `expand` does nothing with. -/
theorem not_select_finds_work :
    ¬∀ s, (setup ucb1).system.Reachable s →
      (∀ c ∈ dispatches s.history, c ∈ s.world.redis.applied.map (·.1)) →
      s.world.redis.strings (treeDoneKey task.taskId) = none →
      s.world.redis.strings (treeBudgetExhaustedKey task.taskId) = none →
      (selection ucb1 task.plan.ucbExploration s.world.redis).HasBelow
        (StillExpands s.world.redis task.plan.maxDepth) (rootNodeId task.taskId) →
      ∃ fuel nodeId w, s.world.ask
          ((worker "worker_00000001").distributedSelect ucb1 fuel task.taskId) = (.ok nodeId, w) ∧
        StillExpands s.world.redis task.plan.maxDepth nodeId := by
  intro finds
  obtain ⟨⟨sorted, -, leaf⟩, ⟨-, visitsA, -, visitsC, -⟩, planned, applied, undone, unexhausted,
    left, shut⟩ := stuck_store
  have listed : idB ∈ stuck.world.redis.sets (nodeChildrenKey (rootNodeId task.taskId)) := by
    rw [← mem_sortedChildren, sorted]
    exact List.mem_cons_self
  obtain ⟨fuel, nodeId, w, returns, expands⟩ := finds _ (stuck_reachable ucb1) applied undone
    unexhausted (.of_below (.single listed) left)
  obtain ⟨root, found, plan⟩ := Option.bind_eq_some_iff.mp planned
  rw [distributedSelect_ask ucb1 _ stuck.world _ fuel found plan] at returns
  have arrives : (selection ucb1 task.plan.ucbExploration stuck.world.redis).Ends
      (rootNodeId task.taskId) idC := by
    refine .step stuck_prefers_idA (fun unvisited => ?_) (.step stuck_prefers_idC
      (fun unvisited => ?_) (.leaf fun c mem => ?_))
    · cases visitsA.symm.trans unvisited
    · cases visitsC.symm.trans unvisited
    · have mem := (mem_sortedChildren stuck.world.redis).mpr mem
      rw [leaf] at mem
      cases mem
  obtain rfl := arrives.unique (descend_ends ucb1 _ stuck.world fuel returns)
  exact shut expands

/-- The expanded root: its children have no visits yet, and selection returns one of them. -/
theorem select_finds_work_expandedRoot :
    ∃ nodeId, SmallSearch.expandedRoot.world.ask
        ((SmallSearch.worker "worker_00000001").distributedSelect ucb1 3 SmallSearch.task.taskId) =
      (.ok nodeId, SmallSearch.expandedRoot.world) := by
  obtain ⟨nodeId, returns, -⟩ := select_finds_work (SmallSearch.setup ucb1)
    SmallSearch.sha256_collisionFree _ (SmallSearch.expandedRoot_reachable ucb1)
    (SmallSearch.worker "worker_00000001") (SmallSearch.expandedRoot_selection ucb1)
  exact ⟨nodeId, returns 3 (by decide) (by decide)⟩

end KernelOmega
