import KernelOmega.Search.Selection

/-!
# The descent of selection

`distributed_select` with the arithmetic that can raise: a score divides by the visits of the
child and takes the root of a logarithm. On a search tree of bounded depth whose visits are
not negative it never does. The descent goes down at most as often as the tree is deep, each
time to the first of the best children, and ends at a leaf or at the first unvisited child
it sees.
-/

namespace KernelOmega

open Concurrent

/-- `value_sum / visits + ucb_exploration * math.sqrt(math.log(max(parent_visits, 1)) / visits)`
in exact reals, with the cases in which `/`, `math.log` and `math.sqrt` raise. -/
noncomputable def checkedUcb : CheckedUcbScore ℝ := fun exploration parentVisits visits valueSum =>
  if visits = 0 then .error .zeroDivisionError
  else if max parentVisits 1 ≤ 0 then .error (.valueError "math domain error")
  else if Real.log ((max parentVisits 1 : Int) : ℝ) / visits < 0 then
    .error (.valueError "math domain error")
  else .ok (ucb1 exploration parentVisits visits valueSum)

/-! ## The scan -/

/-- With visits above zero the score is defined. -/
theorem checkedUcb_eq_ok {exploration : Rat} {parentVisits visits : Int} {valueSum : Rat}
    (visited : 0 < visits) :
    checkedUcb exploration parentVisits visits valueSum =
      .ok (ucb1 exploration parentVisits visits valueSum) := by
  have atLeast : 1 ≤ max parentVisits 1 := le_max_right _ _
  have log : 0 ≤ Real.log ((max parentVisits 1 : Int) : ℝ) :=
    Real.log_nonneg (by exact_mod_cast atLeast)
  have quotient : 0 ≤ Real.log ((max parentVisits 1 : Int) : ℝ) / visits :=
    div_nonneg log (by exact_mod_cast visited.le)
  rw [checkedUcb, if_neg visited.ne', if_neg (by omega), if_neg (not_lt.mpr quotient)]

section Scan

variable {S : Type} [LinearOrder S] {ucb : UcbScore S}
  {checked : CheckedUcbScore S}
  (plan : TaskPlan) (w : World)

/-- Where no score raises, the scan is the one without errors. -/
theorem bestChildChecked_ask
    (defined : ∀ exploration parentVisits visits valueSum, 0 < visits →
      checked exploration parentVisits visits valueSum =
        .ok (ucb exploration parentVisits visits valueSum))
    (parentVisits : Int) (children : List String) (counted : ∀ c ∈ children, 0 ≤ visitsOf w.redis c)
    (best : Option (String × S)) :
    w.ask (ForestWorker.bestChildChecked checked plan parentVisits children best) =
      w.ask (ForestWorker.bestChild ucb plan parentVisits children best) := by
  induction children generalizing best with
  | nil => rfl
  | cons c rest ih =>
    have later := ih fun d mem => counted d (List.mem_cons_of_mem c mem)
    rw [ForestWorker.bestChildChecked, ForestWorker.bestChild_cons, ask_hgetall, ask_hgetall]
    simp only [visits_getD, valueSum_getD]
    by_cases unvisited : visitsOf w.redis c = 0
    · simp only [unvisited, ↓reduceIte]
    · have visited : 0 < visitsOf w.redis c :=
        lt_of_le_of_ne (counted c List.mem_cons_self) (Ne.symm unvisited)
      simp only [unvisited, ↓reduceIte, defined _ _ _ _ visited, Prog.ofExcept_ok, Prog.ret_bind]
      cases best with
      | none => exact later _
      | some running =>
        dsimp only
        split
        · exact later _
        · exact later _

/-- One iteration of the descent with a score that may raise, where none does. -/
theorem descendChecked_ask
    (defined : ∀ exploration parentVisits visits valueSum, 0 < visits →
      checked exploration parentVisits visits valueSum =
        .ok (ucb exploration parentVisits visits valueSum))
    (fuel : Nat) (nodeId : String)
    (counted : ∀ c ∈ w.redis.sets (nodeChildrenKey nodeId), 0 ≤ visitsOf w.redis c) :
    w.ask (ForestWorker.descendChecked checked plan (fuel + 1) nodeId) =
      match preferredChild ucb plan.ucbExploration w.redis nodeId with
      | none => (.ok nodeId, w)
      | some c => if visitsOf w.redis c = 0 then (.ok c, w)
        else w.ask (ForestWorker.descendChecked checked plan fuel c) := by
  rw [ForestWorker.descendChecked, ask_smembers]
  by_cases empty : sortedChildren w.redis nodeId = []
  · rw [(preferredChild_eq_none_iff ucb).mpr empty]
    exact congrArg w.ask (if_pos empty)
  · refine (congrArg w.ask (if_neg empty)).trans ?_
    rw [ask_hgetall]
    have scan := (bestChildChecked_ask plan w defined _ (sortedChildren w.redis nodeId)
      (fun c mem => counted c ((mem_sortedChildren w.redis).mp mem)) none).trans
        (bestChild_preferred ucb plan w nodeId)
    refine (Prog.run_bind _ scan).trans ?_
    cases preferred : preferredChild ucb plan.ucbExploration w.redis nodeId with
    | none => exact absurd ((preferredChild_eq_none_iff ucb).mp preferred) empty
    | some c =>
      by_cases unvisited : visitsOf w.redis c = 0
      · simp only [unvisited, ↓reduceIte]
        rfl
      · simp only [unvisited, ↓reduceIte]
        rfl

end Scan

/-! ## Where the loop looks -/

/-- The sets of children a run of the program reads, in order. -/
def World.childrenRead (w : World) {α : Type} (p : Daemon α) : List String :=
  (p.issued World.exec (fun _ => {}) w).filterMap fun
    | .redis (.smembers key) => some key
    | _ => none

section Looks

variable {S : Type} [LinearOrder S] {ucb : UcbScore S}
  {checked : CheckedUcbScore S}
  (plan : TaskPlan) (w : World)

theorem childrenRead_hgetall {α : Type} (key : String) (f : Option NodeHash → Daemon α) :
    w.childrenRead (Daemon.redis (.hgetall key) >>= f) = w.childrenRead (f (w.redis.hashes key)) :=
  rfl

theorem childrenRead_smembers {α : Type} (key : String) (f : List String → Daemon α) :
    w.childrenRead (Daemon.redis (.smembers key) >>= f) =
      key :: w.childrenRead (f (w.redis.sets key)) := rfl

/-- The iteration at a node reads its children, and the next one is at the child that is
preferred. -/
theorem descendChecked_childrenRead
    (defined : ∀ exploration parentVisits visits valueSum, 0 < visits →
      checked exploration parentVisits visits valueSum =
        .ok (ucb exploration parentVisits visits valueSum))
    (fuel : Nat) (nodeId : String)
    (counted : ∀ c ∈ w.redis.sets (nodeChildrenKey nodeId), 0 ≤ visitsOf w.redis c) :
    w.childrenRead (ForestWorker.descendChecked checked plan (fuel + 1) nodeId) =
      nodeChildrenKey nodeId ::
        match preferredChild ucb plan.ucbExploration w.redis nodeId with
        | none => []
        | some c => if visitsOf w.redis c = 0 then []
          else w.childrenRead (ForestWorker.descendChecked checked plan fuel c) := by
  rw [ForestWorker.descendChecked, childrenRead_smembers]
  refine congrArg (nodeChildrenKey nodeId :: ·) ?_
  by_cases empty : sortedChildren w.redis nodeId = []
  · rw [(preferredChild_eq_none_iff ucb).mpr empty]
    exact congrArg w.childrenRead (if_pos empty)
  · refine (congrArg w.childrenRead (if_neg empty)).trans ?_
    rw [childrenRead_hgetall]
    have scan := (bestChildChecked_ask plan w defined _ (sortedChildren w.redis nodeId)
      (fun c mem => counted c ((mem_sortedChildren w.redis).mp mem)) none).trans
        (bestChild_preferred ucb plan w nodeId)
    have reads : ∀ {α : Type} (f : _ → Daemon α),
        w.childrenRead (ForestWorker.bestChildChecked checked plan
          (((w.redis.hashes nodeId).bind (·.visits)).getD 1) (sortedChildren w.redis nodeId) none >>= f) =
          w.childrenRead (f (match preferredChild ucb plan.ucbExploration w.redis nodeId with
            | none => .inr none
            | some c => if visitsOf w.redis c = 0 then .inl c
              else .inr (some (c, score ucb plan.ucbExploration w.redis nodeId c)))) := by
      intro α f
      have silent : w.childrenRead (ForestWorker.bestChildChecked checked plan
          (((w.redis.hashes nodeId).bind (·.visits)).getD 1) (sortedChildren w.redis nodeId) none) =
            [] := by
        have hashes : (ForestWorker.bestChildChecked checked plan
            (((w.redis.hashes nodeId).bind (·.visits)).getD 1) (sortedChildren w.redis nodeId)
              none).Uses fun c => ∃ key, c = .redis (.hgetall key) :=
          ForestWorker.bestChildChecked_uses checked (fun key => ⟨key, rfl⟩) plan _ _ none
        refine List.filterMap_eq_nil_iff.mpr fun c mem => ?_
        obtain ⟨key, rfl⟩ := hashes.issued _ w c mem
        rfl
      refine (congrArg (List.filterMap _) (Prog.issued_bind f scan)).trans ?_
      rw [List.filterMap_append]
      exact congrArg (· ++ w.childrenRead (f _)) silent
    refine (reads _).trans ?_
    cases preferred : preferredChild ucb plan.ucbExploration w.redis nodeId with
    | none => exact absurd ((preferredChild_eq_none_iff ucb).mp preferred) empty
    | some c =>
      by_cases unvisited : visitsOf w.redis c = 0
      · simp only [unvisited, ↓reduceIte]
        rfl
      · simp only [unvisited, ↓reduceIte]

end Looks

/-! ## The way down -/

/-- The child at which the loop returns at once: the least one without visits. -/
def LeastUnvisited (r : Redis) (nodeId c : String) : Prop :=
  c ∈ r.sets (nodeChildrenKey nodeId) ∧ visitsOf r c = 0 ∧
    ∀ d ∈ r.sets (nodeChildrenKey nodeId), visitsOf r d = 0 → c ≤ d

/-- The child the loop goes down to: the least one among those with the best score. -/
def LeastBest {S : Type} [LinearOrder S] (score : String → S) (r : Redis) (nodeId c : String) :
    Prop :=
  c ∈ r.sets (nodeChildrenKey nodeId) ∧
    (∀ d ∈ r.sets (nodeChildrenKey nodeId), score d ≤ score c) ∧
      ∀ d ∈ r.sets (nodeChildrenKey nodeId), score d = score c → c ≤ d

/-- From `nodeId` the loop goes down to the nodes of `path` in turn, and returns `e`. -/
inductive Descends {S : Type} [LinearOrder S] (ucb : UcbScore S) (exploration : Rat) (r : Redis) :
    (nodeId : String) → (path : List String) → (e : String) → Prop
  | leaf {nodeId : String} : r.sets (nodeChildrenKey nodeId) = [] →
      Descends ucb exploration r nodeId [] nodeId
  | unvisited {nodeId c : String} : LeastUnvisited r nodeId c →
      Descends ucb exploration r nodeId [] c
  | down {nodeId c e : String} {path : List String} :
      (∀ d ∈ r.sets (nodeChildrenKey nodeId), visitsOf r d ≠ 0) →
      LeastBest (score ucb exploration r nodeId) r nodeId c →
      Descends ucb exploration r c path e → Descends ucb exploration r nodeId (c :: path) e

/-- One node is a child of the other. -/
def ListsChild (r : Redis) (nodeId c : String) : Prop := c ∈ r.sets (nodeChildrenKey nodeId)

/-- A finite search tree as selection needs it: below the root a child is one level under its
parent and within the bound, and no visits are negative. -/
structure SearchShape (r : Redis) (rootId : String) (maxDepth : Int) : Prop where
  depth : ∀ nodeId, Relation.ReflTransGen (ListsChild r) rootId nodeId →
    ∀ c, ListsChild r nodeId c →
      depthOf r c = depthOf r nodeId + 1 ∧ (depthOf r c : Int) ≤ maxDepth
  visits : ∀ nodeId, Relation.ReflTransGen (ListsChild r) rootId nodeId →
    ∀ c, ListsChild r nodeId c → 0 ≤ visitsOf r c

section Down

variable {S : Type} [LinearOrder S] {ucb : UcbScore S} {exploration : Rat} {r : Redis}

theorem sortedChildren_pairwise (r : Redis) (nodeId : String) :
    (sortedChildren r nodeId).Pairwise (· ≤ ·) :=
  List.pairwise_insertionSort (· ≤ ·) _

/-- In the order in which the children are looked at, an earlier one is less. -/
theorem le_of_idxOf_le {nodeId c d : String} (mem : c ∈ sortedChildren r nodeId)
    (mem' : d ∈ sortedChildren r nodeId)
    (earlier : (sortedChildren r nodeId).idxOf c ≤ (sortedChildren r nodeId).idxOf d) : c ≤ d := by
  have inside := List.idxOf_lt_length_iff.mpr mem
  have inside' := List.idxOf_lt_length_iff.mpr mem'
  rcases Nat.lt_or_ge ((sortedChildren r nodeId).idxOf c) ((sortedChildren r nodeId).idxOf d)
    with before | after
  · have ordered := List.pairwise_iff_getElem.mp (sortedChildren_pairwise r nodeId) _ _ inside
      inside' before
    rwa [List.getElem_idxOf, List.getElem_idxOf] at ordered
  · exact le_of_eq (List.idxOf_inj mem |>.mp (Nat.le_antisymm earlier after))

/-- A child preferred without a visit is the least of those without one. -/
theorem leastUnvisited_of_preferred {nodeId c : String}
    (preferred : preferredChild ucb exploration r nodeId = some c) (unvisited : visitsOf r c = 0) :
    LeastUnvisited r nodeId c := by
  have listed := preferredChild_mem ucb exploration r preferred
  refine ⟨listed, unvisited, fun d mem unseen => ?_⟩
  unfold preferredChild at preferred
  cases found : (sortedChildren r nodeId).find? (fun c => visitsOf r c = 0) with
  | none =>
    have visited := List.find?_eq_none.mp found c ((mem_sortedChildren r).mpr listed)
    simp only [unvisited, decide_true, not_true_eq_false] at visited
  | some b =>
    rw [found] at preferred
    obtain rfl := Option.some.inj preferred
    obtain ⟨-, before, after, split, skipped⟩ := List.find?_eq_some_iff_append.mp found
    have mem := (mem_sortedChildren r).mpr mem
    have sorted := sortedChildren_pairwise r nodeId
    rw [split] at mem sorted
    rcases List.mem_append.mp mem with early | late
    · have visited := skipped d early
      simp only [unseen, decide_true, Bool.not_true, Bool.false_eq_true] at visited
    · rcases List.mem_cons.mp late with rfl | late
      · exact le_rfl
      · exact (List.pairwise_cons.mp (List.pairwise_append.mp sorted).2.1).1 d late

/-- A child preferred with visits says that all have been visited, and is the least with the best
score. -/
theorem leastBest_of_preferred {nodeId c : String}
    (preferred : preferredChild ucb exploration r nodeId = some c) (visited : visitsOf r c ≠ 0) :
    (∀ d ∈ r.sets (nodeChildrenKey nodeId), visitsOf r d ≠ 0) ∧
      LeastBest (score ucb exploration r nodeId) r nodeId c := by
  have listed := preferredChild_mem ucb exploration r preferred
  unfold preferredChild at preferred
  cases found : (sortedChildren r nodeId).find? (fun c => visitsOf r c = 0) with
  | some b =>
    rw [found] at preferred
    obtain rfl := Option.some.inj preferred
    have unvisited : visitsOf r b = 0 := by simpa using List.find?_some found
    exact absurd unvisited visited
  | none =>
    rw [found] at preferred
    obtain ⟨mem, best, first⟩ := List.mem_argmax_iff.mp preferred
    refine ⟨fun d mem unvisited => ?_, listed, fun d mem => ?_, fun d mem' same => ?_⟩
    · have skipped := List.find?_eq_none.mp found d ((mem_sortedChildren r).mpr mem)
      simp only [unvisited, decide_true, not_true_eq_false] at skipped
    · exact best d ((mem_sortedChildren r).mpr mem)
    · have mem' := (mem_sortedChildren r).mpr mem'
      exact le_of_idxOf_le mem mem' (first d mem' same.ge)

/-- A descent reaches its end from child to child. -/
theorem Descends.reaches {nodeId e : String} {path : List String}
    (descends : Descends ucb exploration r nodeId path e) :
    Relation.ReflTransGen (ListsChild r) nodeId e := by
  induction descends with
  | leaf _ => exact .refl
  | unvisited least => exact .single least.1
  | down _ best _ ih => exact .head best.1 ih

/-- What is returned has no children or no visits. -/
theorem Descends.final {nodeId e : String} {path : List String}
    (descends : Descends ucb exploration r nodeId path e) :
    r.sets (nodeChildrenKey e) = [] ∨ visitsOf r e = 0 := by
  induction descends with
  | leaf empty => exact .inl empty
  | unvisited least => exact .inr least.2.1
  | down _ _ _ ih => exact ih

theorem LeastBest.unique {score : String → S} {nodeId c c' : String}
    (best : LeastBest score r nodeId c) (best' : LeastBest score r nodeId c') : c = c' := by
  have same : score c' = score c := le_antisymm (best.2.1 c' best'.1) (best'.2.1 c best.1)
  exact le_antisymm (best.2.2 c' best'.1 same) (best'.2.2 c best.1 same.symm)

theorem LeastUnvisited.unique {nodeId c c' : String} (least : LeastUnvisited r nodeId c)
    (least' : LeastUnvisited r nodeId c') : c = c' :=
  le_antisymm (least.2.2 c' least'.1 least'.2.1) (least'.2.2 c least.1 least.2.1)

/-- There is one way down. -/
theorem Descends.unique {nodeId e e' : String} {path path' : List String}
    (descends : Descends ucb exploration r nodeId path e)
    (descends' : Descends ucb exploration r nodeId path' e') : path = path' ∧ e = e' := by
  induction descends generalizing path' with
  | leaf empty =>
    cases descends' with
    | leaf _ => exact ⟨rfl, rfl⟩
    | unvisited least =>
      have mem := least.1
      rw [empty] at mem
      cases mem
    | down _ best _ =>
      have mem := best.1
      rw [empty] at mem
      cases mem
  | unvisited least =>
    cases descends' with
    | leaf empty =>
      have mem := least.1
      rw [empty] at mem
      cases mem
    | unvisited least' => exact ⟨rfl, least.unique least'⟩
    | down visited _ _ => exact absurd least.2.1 (visited _ least.1)
  | down visited best _ ih =>
    cases descends' with
    | leaf empty =>
      have mem := best.1
      rw [empty] at mem
      cases mem
    | unvisited least => exact absurd least.2.1 (visited _ least.1)
    | down _ best' rest =>
      obtain rfl := best.unique best'
      obtain ⟨rfl, rfl⟩ := ih rest
      exact ⟨rfl, rfl⟩

end Down

/-- The loop goes all the way down: the run from a node of the tree returns the end of the way,
and reads the children of the nodes on it. -/
theorem descendChecked_descends {w : World} {rootId : String} {maxDepth : Int} (plan : TaskPlan)
    (shape : SearchShape w.redis rootId maxDepth) (fuel : Nat) {nodeId : String}
    (below : Relation.ReflTransGen (ListsChild w.redis) rootId nodeId) (start : 0 < fuel)
    (room : maxDepth < depthOf w.redis nodeId + fuel) :
    ∃ path e, (path = [] ∨ (path.length + depthOf w.redis nodeId : Int) ≤ maxDepth) ∧
      Descends ucb1 plan.ucbExploration w.redis nodeId path e ∧
      w.ask (ForestWorker.descendChecked checkedUcb plan fuel nodeId) = (.ok e, w) ∧
      w.childrenRead (ForestWorker.descendChecked checkedUcb plan fuel nodeId) =
        (nodeId :: path).map nodeChildrenKey := by
  induction fuel generalizing nodeId with
  | zero => exact absurd start (Nat.lt_irrefl 0)
  | succ fuel ih =>
    have defined : ∀ exploration parentVisits visits valueSum, 0 < visits →
        checkedUcb exploration parentVisits visits valueSum =
          .ok (ucb1 exploration parentVisits visits valueSum) :=
      fun _ _ _ _ => checkedUcb_eq_ok
    have counted : ∀ c ∈ w.redis.sets (nodeChildrenKey nodeId), 0 ≤ visitsOf w.redis c :=
      shape.visits nodeId below
    rw [descendChecked_ask plan w defined fuel nodeId counted,
      descendChecked_childrenRead plan w defined fuel nodeId counted]
    cases preferred : preferredChild ucb1 plan.ucbExploration w.redis nodeId with
    | none =>
      have empty : w.redis.sets (nodeChildrenKey nodeId) = [] := by
        refine List.eq_nil_iff_forall_not_mem.mpr fun c mem => ?_
        have mem := (mem_sortedChildren w.redis).mpr mem
        rw [(preferredChild_eq_none_iff ucb1).mp preferred] at mem
        cases mem
      exact ⟨[], nodeId, .inl rfl, .leaf empty, rfl, rfl⟩
    | some c =>
      dsimp only
      have listed := preferredChild_mem ucb1 plan.ucbExploration w.redis preferred
      by_cases unvisited : visitsOf w.redis c = 0
      · rw [if_pos unvisited, if_pos unvisited]
        exact ⟨[], c, .inl rfl, .unvisited (leastUnvisited_of_preferred preferred unvisited),
          rfl, rfl⟩
      · rw [if_neg unvisited, if_neg unvisited]
        obtain ⟨visited, best⟩ := leastBest_of_preferred preferred unvisited
        obtain ⟨depth, bound⟩ := shape.depth nodeId below c listed
        obtain ⟨path, e, short, descends, returns, reads⟩ :=
          ih (below.tail listed) (by omega) (by omega)
        refine ⟨c :: path, e, .inr ?_, .down visited best descends, returns, ?_⟩
        · rw [List.length_cons]
          rcases short with rfl | short
          · simp only [List.length_nil]
            omega
          · omega
        · rw [reads, List.map_cons, List.map_cons, List.map_cons]

/-- On a search tree of bounded depth `distributed_select` goes down at most as often as the
bound says and returns a leaf or an unvisited node below the root, whatever the visits, the
values and the exploration constant: no score raises, every node it goes down to is the least
of the best children of the node before, and the least unvisited child of a node it looks at
is returned at once. -/
theorem select_descends (w : World) (self : ForestWorker) (taskId : String) (maxDepth : Int)
    (shape : SearchShape w.redis (rootNodeId taskId) maxDepth) :
    ∃ path e, path.length ≤ maxDepth.toNat ∧
      Descends ucb1
        (self.taskPlan ((w.redis.hashes (rootNodeId taskId)).getD {})).ucbExploration w.redis
        (rootNodeId taskId) path e ∧
      Relation.ReflTransGen (ListsChild w.redis) (rootNodeId taskId) e ∧
      (w.redis.sets (nodeChildrenKey e) = [] ∨ visitsOf w.redis e = 0) ∧
      ∀ fuel : Nat, 0 < fuel → maxDepth < fuel →
        w.ask (self.selectChecked checkedUcb fuel taskId) = (.ok e, w) ∧
        w.childrenRead (self.selectChecked checkedUcb fuel taskId) =
          (rootNodeId taskId :: path).map nodeChildrenKey := by
  have runs : ∀ fuel : Nat, 0 < fuel → maxDepth < fuel → _ := fun fuel start room =>
    descendChecked_descends (self.taskPlan ((w.redis.hashes (rootNodeId taskId)).getD {})) shape
      fuel .refl start (by omega)
  obtain ⟨path, e, short, descends, -, -⟩ := runs (maxDepth.toNat + 1) (by omega) (by omega)
  refine ⟨path, e, ?_, descends, descends.reaches, descends.final, fun fuel start room => ?_⟩
  · rcases short with rfl | short
    · exact Nat.zero_le _
    · omega
  · obtain ⟨path', e', -, descends', returns, reads⟩ := runs fuel start room
    obtain ⟨rfl, rfl⟩ := descends.unique descends'
    exact ⟨returns, reads⟩

/-- A root whose first child has been seen and whose second has not. -/
def halfSeen : World where
  redis :=
    { hashes := fun id =>
        if id = rootNodeId "t" then some { visits := some 1, depth := some 0 }
        else if id = "a" then some { visits := some 1, valueSum := some 100, depth := some 1 }
        else if id = "b" then some { visits := some 0, depth := some 1 }
        else none
      sets := fun key => if key = nodeChildrenKey (rootNodeId "t") then ["b", "a"] else [] }

/-- The root has two children and they have none. -/
theorem halfSeen_shape : SearchShape halfSeen.redis (rootNodeId "t") 1 := by
  have listed : ∀ nodeId c, ListsChild halfSeen.redis nodeId c →
      nodeId = rootNodeId "t" ∧ c ∈ ["b", "a"] := by
    intro nodeId c lists
    simp only [ListsChild, halfSeen] at lists
    split at lists
    · next same => exact ⟨nodeChildrenKey_injective same, lists⟩
    · cases lists
  have depths : depthOf halfSeen.redis (rootNodeId "t") = 0 ∧ ∀ c ∈ ["b", "a"],
      depthOf halfSeen.redis c = 1 ∧ 0 ≤ visitsOf halfSeen.redis c := by
    decide
  constructor
  · intro nodeId _ c lists
    obtain ⟨rfl, mem⟩ := listed nodeId c lists
    have atChild := (depths.2 c mem).1
    rw [depths.1, atChild]
    decide
  · intro nodeId _ c lists
    exact (depths.2 c (listed nodeId c lists).2).2

/-- One of the root's children has been visited, and the descent ends at the other one. -/
theorem select_descends_halfSeen :
    ∃ path e, path.length ≤ 1 ∧
      halfSeen.ask ((SmallSearch.worker "worker_00000001").selectChecked checkedUcb 2 "t") =
        (.ok e, halfSeen) ∧
      halfSeen.childrenRead
          ((SmallSearch.worker "worker_00000001").selectChecked checkedUcb 2 "t") =
        (rootNodeId "t" :: path).map nodeChildrenKey := by
  obtain ⟨path, e, short, -, -, -, runs⟩ := select_descends halfSeen
    (SmallSearch.worker "worker_00000001") "t" 1 halfSeen_shape
  exact ⟨path, e, short, runs 2 (by decide) (by decide)⟩

end KernelOmega
