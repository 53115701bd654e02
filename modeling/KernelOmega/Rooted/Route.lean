import Mathlib

/-!
# Routes to the root

A forest given by its parent links. The route of a node lists it and its ancestors,
up to a node without a parent. Where depths grow by one along every link, every node
has exactly one route, as long as its depth tells, and no node stands on it twice.

A statistic that credits a contribution to every node of a route is local: what a node
is credited with is what was contributed at the node itself and what its children are
credited with (`credit_eq`).
-/

namespace Rooted

variable {α : Type}

/-- The nodes from `x` up to a node without a parent. -/
inductive Route (parent : α → Option α) : α → List α → Prop
  | root {x : α} : parent x = none → Route parent x [x]
  | step {x p : α} {path : List α} :
      parent x = some p → Route parent p path → Route parent x (x :: path)

namespace Route

variable {parent parent' : α → Option α} {x : α} {path path' : List α}

theorem unique (route : Route parent x path) (route' : Route parent x path') : path = path' := by
  induction route generalizing path' with
  | root top =>
    cases route' with
    | root _ => rfl
    | step link _ => rw [top] at link; cases link
  | step link _ ih =>
    cases route' with
    | root top => rw [top] at link; cases link
    | step link' rest =>
      rw [link] at link'
      obtain rfl := Option.some.inj link'
      rw [ih rest]

theorem head_mem (route : Route parent x path) : x ∈ path := by
  cases route <;> exact List.mem_cons_self

/-- A route ends at a node without a parent. -/
theorem exists_top (route : Route parent x path) : ∃ y ∈ path, parent y = none := by
  induction route with
  | root top => exact ⟨_, List.mem_cons_self, top⟩
  | step _ _ ih =>
    obtain ⟨y, mem, top⟩ := ih
    exact ⟨y, List.mem_cons_of_mem _ mem, top⟩

/-- A route only reads the links of its own nodes. -/
theorem congr (route : Route parent x path) (same : ∀ y ∈ path, parent' y = parent y) :
    Route parent' x path := by
  induction route with
  | @root x top => exact .root ((same x List.mem_cons_self).trans top)
  | @step x p path link _ ih =>
    refine .step ((same x List.mem_cons_self).trans link) (ih fun y mem => ?_)
    exact same y (List.mem_cons_of_mem x mem)

/-- A property that passes from a node to its parent holds along a route. -/
theorem forall_mem {P : α → Prop} (route : Route parent x path) (start : P x)
    (up : ∀ y p, P y → parent y = some p → P p) : ∀ y ∈ path, P y := by
  induction route with
  | root _ =>
    intro y mem
    rw [List.mem_singleton] at mem
    exact mem ▸ start
  | step link _ ih =>
    intro y mem
    obtain rfl | mem := List.mem_cons.mp mem
    · exact start
    · exact ih (up _ _ start link) y mem

section Depth

variable {depth : α → Nat}

/-- Depths fall along a route. -/
theorem depth_le (route : Route parent x path)
    (up : ∀ y ∈ path, ∀ p, parent y = some p → depth y = depth p + 1) :
    ∀ y ∈ path, depth y ≤ depth x := by
  induction route with
  | root _ =>
    intro y mem
    rw [List.mem_singleton] at mem
    exact mem ▸ Nat.le_refl _
  | @step x p path link _ ih =>
    intro y mem
    have above := up x List.mem_cons_self p link
    obtain rfl | mem := List.mem_cons.mp mem
    · exact Nat.le_refl _
    · have below := ih (fun z mem => up z (List.mem_cons_of_mem x mem)) y mem
      omega

/-- A route on which the depth falls meets no node twice. -/
theorem nodup (route : Route parent x path)
    (up : ∀ y ∈ path, ∀ p, parent y = some p → depth y = depth p + 1) : path.Nodup := by
  induction route with
  | root _ => exact List.nodup_singleton _
  | @step x p path link rest ih =>
    have upRest : ∀ y ∈ path, ∀ q, parent y = some q → depth y = depth q + 1 :=
      fun y mem => up y (List.mem_cons_of_mem x mem)
    refine List.nodup_cons.mpr ⟨fun mem => ?_, ih upRest⟩
    have below := rest.depth_le upRest x mem
    have above := up x List.mem_cons_self p link
    omega

/-- A route has one node more than its start is deep, when its end is at depth zero. -/
theorem length (route : Route parent x path)
    (up : ∀ y ∈ path, ∀ p, parent y = some p → depth y = depth p + 1)
    (top : ∀ y ∈ path, parent y = none → depth y = 0) : path.length = depth x + 1 := by
  induction route with
  | @root x link =>
    rw [top x List.mem_cons_self link, List.length_singleton]
  | @step x p path link _ ih =>
    have rest := ih (fun y mem => up y (List.mem_cons_of_mem x mem))
      fun y mem => top y (List.mem_cons_of_mem x mem)
    rw [List.length_cons, rest, up x List.mem_cons_self p link]

end Depth

/-- Every node of a domain closed under parents, with depths that grow along the links,
has a route. -/
theorem exists_of_depth {P : α → Prop} {depth : α → Nat}
    (up : ∀ y p, P y → parent y = some p → P p ∧ depth y = depth p + 1) (start : P x) :
    ∃ path, Route parent x path := by
  induction level : depth x generalizing x with
  | zero =>
    cases link : parent x with
    | none => exact ⟨[x], .root link⟩
    | some p =>
      obtain ⟨-, above⟩ := up x p start link
      omega
  | succ n ih =>
    cases link : parent x with
    | none => exact ⟨[x], .root link⟩
    | some p =>
      obtain ⟨inside, above⟩ := up x p start link
      obtain ⟨path, route⟩ := ih inside (by omega)
      exact ⟨x :: path, .step link route⟩

variable [DecidableEq α]

/-- In a list without repetitions every node is found once. -/
theorem sum_map_ite_eq (y : α) {children : List α} (distinct : children.Nodup) :
    (children.map fun c => if y = c then 1 else 0).sum = if y ∈ children then 1 else 0 := by
  induction children with
  | nil => rfl
  | cons c rest ih =>
    obtain ⟨fresh, distinct⟩ := List.nodup_cons.mp distinct
    rw [List.map_cons, List.sum_cons, ih distinct]
    by_cases same : y = c
    · subst same
      simp only [↓reduceIte, fresh, List.mem_cons, or_false]
    · simp only [same, ↓reduceIte, List.mem_cons, false_or, Nat.zero_add]

/-- How often `m` stands on the route of `x`: once for `x` itself, and else as often as
its children do. -/
theorem count_eq (route : Route parent x path) {m : α} {children : List α}
    (distinct : children.Nodup) (mem_children : ∀ c ∈ path, c ∈ children ↔ parent c = some m) :
    path.count m = (if x = m then 1 else 0) + (children.map fun c => path.count c).sum := by
  induction route with
  | @root x top =>
    have absent : x ∉ children := by
      rw [mem_children x List.mem_cons_self, top]
      exact nofun
    simp only [List.count_singleton, beq_iff_eq]
    rw [sum_map_ite_eq x distinct, if_neg absent, Nat.add_zero]
  | @step x p path link rest ih =>
    have upper := ih fun c mem => mem_children c (List.mem_cons_of_mem x mem)
    have here : x ∈ children ↔ p = m := by
      rw [mem_children x List.mem_cons_self, link, Option.some.injEq]
    simp only [List.count_cons, beq_iff_eq, List.sum_map_add]
    rw [sum_map_ite_eq x distinct, upper]
    simp only [here]
    omega

end Route

/-! ## Credits along routes -/

variable [DecidableEq α] {M : Type}

/-- What `m` is credited with by a list of contributions, each credited to every node of
the route of the node it is made at. -/
def credit [AddMonoid M] (route : α → List α) (m : α) (given : List (α × M)) : M :=
  (given.map fun e => (route e.1).count m • e.2).sum

/-- What is contributed at `m` itself. -/
def givenAt [AddMonoid M] (m : α) (given : List (α × M)) : M :=
  (given.map fun e => if e.1 = m then e.2 else 0).sum

/-- What is given at a node is the sum of what is given to it. -/
theorem givenAt_eq [AddMonoid M] (m : α) (given : List (α × M)) :
    givenAt m given = ((given.filter fun e => e.1 = m).map (·.2)).sum := by
  induction given with
  | nil => rfl
  | cons e rest ih =>
    unfold givenAt at *
    rw [List.map_cons, List.sum_cons, ih, List.filter_cons]
    by_cases here : e.1 = m
    · simp only [here, ↓reduceIte, decide_true, List.map_cons, List.sum_cons]
    · simp only [here, ↓reduceIte, decide_false, Bool.false_eq_true, zero_add]

theorem sum_nsmul [AddMonoid M] (counts : List Nat) (w : M) :
    counts.sum • w = (counts.map (· • w)).sum := by
  induction counts with
  | nil => simp only [List.sum_nil, zero_nsmul, List.map_nil]
  | cons k rest ih => rw [List.sum_cons, add_nsmul, ih, List.map_cons, List.sum_cons]

/-- The conservation law: a node is credited with what is contributed at it and what its
children are credited with. -/
theorem credit_eq [AddCommMonoid M] {parent : α → Option α} {route : α → List α} {m : α}
    {children : List α} (distinct : children.Nodup) (given : List (α × M))
    (routes : ∀ e ∈ given, Route parent e.1 (route e.1))
    (mem_children : ∀ e ∈ given, ∀ c ∈ route e.1, c ∈ children ↔ parent c = some m) :
    credit route m given =
      givenAt m given + (children.map fun c => credit route c given).sum := by
  induction given with
  | nil => simp only [credit, givenAt, List.map_nil, List.sum_nil, List.map_const', zero_add,
      List.sum_replicate, nsmul_zero]
  | cons e rest ih =>
    have tail := ih (fun e' mem => routes e' (List.mem_cons_of_mem e mem))
      fun e' mem => mem_children e' (List.mem_cons_of_mem e mem)
    have head := (routes e List.mem_cons_self).count_eq distinct
      (mem_children e List.mem_cons_self)
    have own : (if e.1 = m then 1 else 0) • e.2 = if e.1 = m then e.2 else 0 := by
      split
      · exact one_nsmul e.2
      · exact zero_nsmul e.2
    unfold credit givenAt at *
    simp only [List.map_cons, List.sum_cons, List.sum_map_add]
    rw [tail, head, add_nsmul, sum_nsmul, List.map_map, own]
    exact add_add_add_comm _ _ _ _

/-- A node on every route is credited with every contribution. -/
theorem credit_of_forall [AddMonoid M] {route : α → List α} {m : α} (given : List (α × M))
    (once : ∀ e ∈ given, (route e.1).count m = 1) :
    credit route m given = (given.map (·.2)).sum := by
  unfold credit
  congr 1
  exact List.map_congr_left fun e mem => by rw [once e mem, one_nsmul]

end Rooted
