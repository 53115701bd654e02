import KernelOmega.Oracle.Z3
import KernelOmega.Python.Unicode
import KernelOmega.Patcher.Swaps
import Mathlib.Data.List.Dedup
import Mathlib.Data.List.DropRight

/-!
# The equivalence oracle

`Z3EquivalenceChecker` of `control_plane/smt_oracle.py` decides whether a candidate repair means
the same as the source: it looks for the comparison that changed and asks Z3 whether the two
versions can differ. It takes two comparisons for versions of one another when they have the
same place, end included. A swap of `<` and `<=` or of `>` and `>=` moves the end of the
comparison it is made in, so the pair is not found and the answer is no.
-/

namespace KernelOmega

open Python

/-- Tuples of four integers compare in order. -/
def spanLe (s s' : Span) : Bool :=
  decide (s.start.Lt s'.start ∨ (s.start = s'.start ∧ s.stop.Le s'.stop))

/-- The modes of `ast.parse` the checker tries. -/
inductive ParseMode where
  | exec
  | eval

/-- The checker with the parser and the solver it calls. Of the solver the code under proof relies
on its answers only, so it comes in as a parameter. -/
structure Z3EquivalenceChecker where
  z3 : Z3
  astParse : ParseMode → String → Except PyError (Ast Span)

namespace Z3EquivalenceChecker

variable (self : Z3EquivalenceChecker)

/-- `_parse` -/
def parse (code : String) : Except PyError (Ast Span) :=
  match self.astParse .exec code with
  | .error .syntaxError => self.astParse .eval code
  | result => result

/-- `_comparison_nodes`: the items in the order they are put in the `dict`. -/
def comparisonNodes (tree : Ast Span) : List (Span × Ast Span) :=
  (tree.walk.filter Ast.isCompare).map fun node => (node.span, node)

/-- `items[location]`: the item put last. -/
def getNode (items : List (Span × Ast Span)) (location : Span) : Option (Ast Span) :=
  (items.reverse.find? fun item => item.1 = location).map Prod.snd

/-- The pair at a location, when the two differ. -/
def changedAt (origNodes mutNodes : List (Span × Ast Span)) (location : Span) :
    Option (Ast Span × Ast Span) :=
  match getNode origNodes location, getNode mutNodes location with
  | some orig, some mutated => if orig.same mutated then none else some (orig, mutated)
  | _, _ => none

/-- `set(orig_nodes) & set(mut_nodes)` -/
def sharedLocations (origNodes mutNodes : List (Span × Ast Span)) : List Span :=
  (origNodes.map Prod.fst).dedup.filter fun location => location ∈ mutNodes.map Prod.fst

/-- The loop of `_changed_comparison`. -/
def firstChanged (orig mutated : Ast Span) : Option (Ast Span × Ast Span) :=
  ((sharedLocations (comparisonNodes orig) (comparisonNodes mutated)).mergeSort spanLe).findSome?
    (changedAt (comparisonNodes orig) (comparisonNodes mutated))

/-- `_changed_comparison` -/
def changedComparison (origCode mutCode : String) :
    Except PyError (Option (Ast Span × Ast Span)) := do
  let orig ← self.parse origCode
  let mutated ← self.parse mutCode
  return firstChanged orig mutated

/-- What `is_semantically_equivalent` answers about the pair it found. -/
def decidePair (original mutated : Ast Span) : Except PyError Bool :=
  match self.z3.astToZ3 original, self.z3.astToZ3 mutated with
  | .ok z3Original, .ok z3Mutated => do
    let differ ← self.z3.compare .notEq z3Original z3Mutated
    return self.z3.unsat differ
  | _, _ => return false

/-- `is_semantically_equivalent` -/
def isSemanticallyEquivalent (origCode mutCode : String) : Except PyError Bool :=
  if strip origCode.toList = strip mutCode.toList then return true
  else do
    let changed ← self.changedComparison origCode mutCode
    match changed with
    | none => return false
    | some (original, mutated) => self.decidePair original mutated

end Z3EquivalenceChecker

/-! ## The pair that is found -/

namespace Z3EquivalenceChecker

theorem spanLe_trans (a b c : Span) : spanLe a b = true → spanLe b c = true → spanLe a c = true := by
  unfold spanLe Pos.Lt Pos.Le
  simp only [decide_eq_true_eq, Pos.ext_iff]
  omega

theorem spanLe_total (a b : Span) : (spanLe a b || spanLe b a) = true := by
  unfold spanLe Pos.Lt Pos.Le
  simp only [Bool.or_eq_true, decide_eq_true_eq, Pos.ext_iff]
  omega

/-- The comparisons are listed with their places. -/
theorem mem_comparisonNodes {tree t : Ast Span} {location : Span} :
    (location, t) ∈ comparisonNodes tree ↔
      t ∈ tree.nodes ∧ t.isCompare = true ∧ t.span = location := by
  unfold comparisonNodes
  rw [List.mem_map]
  constructor
  · rintro ⟨node, mem, same⟩
    obtain ⟨rfl, rfl⟩ := Prod.mk.inj same
    obtain ⟨mem, compare⟩ := List.mem_filter.mp mem
    exact ⟨Ast.mem_walk.mp mem, compare, rfl⟩
  · rintro ⟨mem, compare, rfl⟩
    exact ⟨t, List.mem_filter.mpr ⟨Ast.mem_walk.mpr mem, compare⟩, rfl⟩

/-- A location has one comparison at most. -/
theorem getNode_eq_some_iff {tree t : Ast Span} (laid : Laid tree) {location : Span} :
    getNode (comparisonNodes tree) location = some t ↔
      t ∈ tree.nodes ∧ t.isCompare = true ∧ t.span = location := by
  unfold getNode
  rw [← mem_comparisonNodes]
  constructor
  · intro found
    obtain ⟨⟨location', t'⟩, first, rfl⟩ := Option.map_eq_some_iff.mp found
    have here : location' = location := by simpa using List.find?_some first
    subst here
    exact List.mem_reverse.mp (List.mem_of_find?_eq_some first)
  · intro mem
    have there : ((comparisonNodes tree).reverse.find? fun item => item.1 = location).isSome :=
      List.find?_isSome.mpr ⟨_, List.mem_reverse.mpr mem, decide_eq_true rfl⟩
    obtain ⟨⟨location', t'⟩, first⟩ := Option.isSome_iff_exists.mp there
    have here : location' = location := by simpa using List.find?_some first
    subst here
    have mem' := List.mem_reverse.mp (List.mem_of_find?_eq_some first)
    obtain ⟨inTree, compare, place⟩ := mem_comparisonNodes.mp mem
    obtain ⟨inTree', compare', place'⟩ := mem_comparisonNodes.mp mem'
    rw [first, Option.map_some, laid.eq_of_span inTree' inTree compare' compare (place'.trans place.symm)]

/-- Comparisons of the two trees at one location that are not the same. -/
structure Differ (orig mutated : Ast Span) (location : Span) (pair : Ast Span × Ast Span) : Prop where
  inOrig : pair.1 ∈ orig.nodes
  inMutated : pair.2 ∈ mutated.nodes
  compare : pair.1.isCompare = true
  compare' : pair.2.isCompare = true
  place : pair.1.span = location
  place' : pair.2.span = location
  dumps : pair.1.dump ≠ pair.2.dump

/-- The comparison found at a location is the pair of comparisons that stand there and differ. -/
theorem changedAt_eq_some_iff {orig mutated : Ast Span} (laid : Laid orig) (laid' : Laid mutated)
    {location : Span} {pair : Ast Span × Ast Span} :
    changedAt (comparisonNodes orig) (comparisonNodes mutated) location = some pair ↔
      Differ orig mutated location pair := by
  obtain ⟨a, b⟩ := pair
  unfold changedAt
  constructor
  · intro changed
    split at changed
    · next a' b' found found' =>
      split at changed
      · cases changed
      · next differ =>
        obtain ⟨rfl, rfl⟩ := Prod.mk.inj (Option.some.inj changed)
        obtain ⟨inOrig, compare, place⟩ := (getNode_eq_some_iff laid).mp found
        obtain ⟨inMutated, compare', place'⟩ := (getNode_eq_some_iff laid').mp found'
        exact ⟨inOrig, inMutated, compare, compare', place, place',
          fun same => differ ((Ast.same_iff _ _).mpr same)⟩
    · cases changed
  · intro differ
    rw [(getNode_eq_some_iff laid).mpr ⟨differ.inOrig, differ.compare, differ.place⟩,
      (getNode_eq_some_iff laid').mpr ⟨differ.inMutated, differ.compare', differ.place'⟩]
    exact if_neg fun same => differ.dumps ((Ast.same_iff _ _).mp same)

/-- A place where the trees differ is one they share. -/
theorem mem_sharedLocations {orig mutated : Ast Span} {location : Span} {pair : Ast Span × Ast Span}
    (differ : Differ orig mutated location pair) :
    location ∈ sharedLocations (comparisonNodes orig) (comparisonNodes mutated) := by
  have first : (location, pair.1) ∈ comparisonNodes orig :=
    mem_comparisonNodes.mpr ⟨differ.inOrig, differ.compare, differ.place⟩
  have second : (location, pair.2) ∈ comparisonNodes mutated :=
    mem_comparisonNodes.mpr ⟨differ.inMutated, differ.compare', differ.place'⟩
  refine List.mem_filter.mpr ⟨List.mem_dedup.mpr (List.mem_map.mpr ⟨_, first, rfl⟩), ?_⟩
  exact decide_eq_true (List.mem_map.mpr ⟨_, second, rfl⟩)

/-- The pair found is the first of those that differ. -/
theorem firstChanged_eq_some {orig mutated : Ast Span} (laid : Laid orig) (laid' : Laid mutated)
    {pair : Ast Span × Ast Span} (found : firstChanged orig mutated = some pair) :
    ∃ location, Differ orig mutated location pair ∧
      ∀ location' pair', Differ orig mutated location' pair' → spanLe location location' = true := by
  obtain ⟨front, location, back, split, changed, none⟩ := List.findSome?_eq_some_iff.mp found
  refine ⟨location, (changedAt_eq_some_iff laid laid').mp changed, fun location' pair' differ => ?_⟩
  have mem : location' ∈ (sharedLocations (comparisonNodes orig) (comparisonNodes mutated)).mergeSort
      spanLe := List.mem_mergeSort.mpr (mem_sharedLocations differ)
  have sorted := List.pairwise_mergeSort spanLe_trans spanLe_total
    (sharedLocations (comparisonNodes orig) (comparisonNodes mutated))
  rw [split] at mem sorted
  rcases List.mem_append.mp mem with before | after
  · have nothing := none location' before
    rw [(changedAt_eq_some_iff laid laid').mpr differ] at nothing
    cases nothing
  · rcases List.mem_cons.mp after with rfl | after
    · exact (Bool.or_self _).symm.trans (spanLe_total location' location')
    · exact List.rel_of_pairwise_cons (List.pairwise_append.mp sorted).2.1 after

/-- Where nothing is found to have changed, no shared place differs. -/
theorem firstChanged_eq_none {orig mutated : Ast Span} (laid : Laid orig) (laid' : Laid mutated)
    (none : firstChanged orig mutated = none) (location : Span) (pair : Ast Span × Ast Span) :
    ¬Differ orig mutated location pair := by
  intro differ
  have nothing := List.findSome?_eq_none_iff.mp none location
    (List.mem_mergeSort.mpr (mem_sharedLocations differ))
  rw [(changedAt_eq_some_iff laid laid').mpr differ] at nothing
  cases nothing

end Z3EquivalenceChecker

/-! ## The outermost comparison that keeps its place -/

/-- The longest part of the frames, from the inside, with a property. -/
def outermost {S : Type} (p : List (Frame S) → Bool) : List (Frame S) → Option (List (Frame S))
  | [] => if p [] then some [] else none
  | frame :: inner => if p (frame :: inner) then some (frame :: inner) else outermost p inner

/-- The outermost frames with the property have it, and no frames further out do. -/
theorem outermost_eq_some {S : Type} {p : List (Frame S) → Bool} {frames inner : List (Frame S)}
    (found : outermost p frames = some inner) :
    inner <:+ frames ∧ p inner = true ∧ ∀ other, other <:+ frames → p other = true → other <:+ inner := by
  induction frames with
  | nil =>
    rw [outermost] at found
    split at found
    · next holds =>
      obtain rfl := Option.some.inj found
      exact ⟨List.suffix_rfl, holds, fun other suffix _ => suffix⟩
    · cases found
  | cons frame rest ih =>
    rw [outermost] at found
    split at found
    · next holds =>
      obtain rfl := Option.some.inj found
      exact ⟨List.suffix_rfl, holds, fun other suffix _ => suffix⟩
    · next fails =>
      obtain ⟨suffix, holds, longest⟩ := ih found
      refine ⟨suffix.trans (List.suffix_cons _ _), holds, fun other suffix holds => ?_⟩
      rcases List.suffix_cons_iff.mp suffix with rfl | suffix
      · exact absurd holds fails
      · exact longest other suffix holds

/-- If there are none, no frames on the way have the property. -/
theorem outermost_eq_none {S : Type} {p : List (Frame S) → Bool} {frames : List (Frame S)}
    (none : outermost p frames = none) : ∀ other, other <:+ frames → p other = false := by
  induction frames with
  | nil =>
    rw [outermost] at none
    split at none
    · cases none
    · next fails =>
      intro other suffix
      rw [List.suffix_nil.mp suffix]
      exact Bool.eq_false_iff.mpr fails
  | cons frame rest ih =>
    rw [outermost] at none
    split at none
    · cases none
    · next fails =>
      intro other suffix
      rcases List.suffix_cons_iff.mp suffix with rfl | suffix
      · exact Bool.eq_false_iff.mpr fails
      · exact ih none other suffix

/-- The outermost frames with a property, for frames that are mapped. -/
theorem outermost_map {S S' : Type} (g : Frame S → Frame S') (p : List (Frame S') → Bool)
    (frames : List (Frame S)) :
    outermost p (frames.map g) = (outermost (fun inner => p (inner.map g)) frames).map (List.map g) := by
  induction frames with
  | nil =>
    show (if p [] then _ else _) = Option.map _ (if p [] then _ else _)
    split <;> rfl
  | cons frame inner ih =>
    rw [List.map_cons, outermost, outermost, ← List.map_cons]
    split
    · rfl
    · exact ih

/-- The tree around the node is a comparison that has the same place before and after a change. -/
def keepsPlace (move : Span → Span) (node : Ast Span) (frames : List (Frame Span)) : Bool :=
  (plug frames node).isCompare && decide (move (plug frames node).span = (plug frames node).span)

section Changed

open Z3EquivalenceChecker

variable {frames inner : List (Frame Span)} {node node' : Ast Span} {move : Span → Span}
  {edge : Pos} {old new : Nat}

theorem plug_span (inner : List (Frame Span)) (place : node.span = node'.span) :
    (plug inner node').span = (plug inner node).span := by
  cases inner with
  | nil => exact place.symm
  | cons frame rest => rfl

theorem plug_isCompare (inner : List (Frame Span)) (compare : node.isCompare = true)
    (compare' : node'.isCompare = true) :
    (plug inner node').isCompare = (plug inner node).isCompare := by
  cases inner with
  | nil => exact compare'.trans compare.symm
  | cons frame rest => rfl

theorem plug_mem_nodes (suffix : inner <:+ frames) : plug inner node ∈ (plug frames node).nodes := by
  cases inner with
  | nil => exact mem_nodes_plug.mpr (.inr (.inl node.self_mem_nodes))
  | cons frame rest =>
    exact mem_nodes_plug.mpr (.inl ⟨_, suffix, List.cons_ne_nil frame rest, rfl⟩)

/-- A comparison of the changed tree is a tree around the node, or stood in the source as well. -/
theorem changed_cases {t : Ast Span} (quiet : ∀ u ∈ node'.nodes, u.isCompare = true → u = node')
    (mem : t ∈ (plug frames node').nodes) (compare : t.isCompare = true) :
    (∃ inner, inner <:+ frames ∧ t = plug inner node') ∨ t ∈ (plug frames node).nodes := by
  rcases mem_nodes_plug.mp mem with ⟨inner, suffix, -, same⟩ | inside | beside
  · exact .inl ⟨inner, suffix, same⟩
  · exact .inl ⟨[], List.nil_suffix, quiet t inside compare⟩
  · exact .inr (mem_nodes_plug.mpr (.inr (.inr beside)))

/-- The pairs that differ are the trees around the node that keep their place. -/
theorem differ_iff (laid : Laid (plug frames node)) (bound : old ≤ edge.col)
    (grows : new ≤ old + 1) (shrinks : old ≤ new + 1) (place : node.span = node'.span)
    (compare : node.isCompare = true) (compare' : node'.isCompare = true)
    (quiet : ∀ u ∈ node'.nodes, u.isCompare = true → u = node') (dumps : node.dump ≠ node'.dump)
    {location : Span} {pair : Ast Span × Ast Span} :
    Differ (plug frames node) ((plug frames node').map (·.movedFrom edge old new)) location pair ↔
      ∃ inner, inner <:+ frames ∧ keepsPlace (·.movedFrom edge old new) node inner = true ∧
        location = (plug inner node).span ∧
        pair = (plug inner node, (plug inner node').map (·.movedFrom edge old new)) := by
  constructor
  · rintro ⟨inOrig, inMap, isCompare, isCompare', here, here', different⟩
    obtain ⟨a, b⟩ := pair
    dsimp only at *
    rw [Ast.nodes_map] at inMap
    obtain ⟨b, inMutated, rfl⟩ := List.mem_map.mp inMap
    rw [Ast.span_map] at here'
    have compareB : b.isCompare = true := by rwa [Ast.isCompare, Ast.kind_map] at isCompare'
    -- Where the comparison stood in the source, a move took it to the place of `a`.
    have same : ∀ c ∈ (plug frames node).nodes, c.isCompare = true → c.span = b.span → a = c := by
      intro c mem compareC placeC
      rcases laid.trichotomy inOrig mem isCompare compareC with same | other
      · exact same
      · have moved : a.span = c.span.movedFrom edge old new := by
          rw [here, placeC, here']
        exact absurd moved (Span.ne_movedFrom bound grows shrinks (laid.wide inOrig isCompare) other)
    rcases changed_cases quiet inMutated compareB with ⟨inner, suffix, rfl⟩ | stood
    · have around := same (plug inner node) (plug_mem_nodes suffix)
        ((plug_isCompare inner compare compare').symm.trans compareB) (plug_span inner place).symm
      subst around
      refine ⟨inner, suffix, ?_, here.symm, rfl⟩
      rw [keepsPlace, Bool.and_eq_true, decide_eq_true_eq]
      exact ⟨isCompare, (congrArg (·.movedFrom edge old new) (plug_span inner place).symm).trans
        (here'.trans here.symm)⟩
    · have unchanged := same b stood compareB rfl
      rw [unchanged, Ast.dump_map] at different
      exact absurd rfl different
  · rintro ⟨inner, suffix, keeps, rfl, rfl⟩
    obtain ⟨isCompare, stays⟩ := Bool.and_eq_true_iff.mp keeps
    have stays := of_decide_eq_true stays
    refine ⟨plug_mem_nodes suffix, ?_, isCompare, ?_, rfl, ?_, ?_⟩
    · rw [Ast.nodes_map]
      exact List.mem_map.mpr ⟨_, plug_mem_nodes suffix, rfl⟩
    · rw [Ast.isCompare, Ast.kind_map]
      exact (plug_isCompare inner compare compare').trans isCompare
    · dsimp only
      rw [Ast.span_map, plug_span inner place]
      exact stays
    · dsimp only
      rw [Ast.dump_map]
      exact fun same => dumps (dump_plug_injective same)

/-- The pair found is the outermost comparison around the node that keeps its place. -/
theorem firstChanged_eq (laid : Laid (plug frames node))
    (laid' : Laid ((plug frames node').map (·.movedFrom edge old new))) (bound : old ≤ edge.col)
    (grows : new ≤ old + 1) (shrinks : old ≤ new + 1) (place : node.span = node'.span)
    (compare : node.isCompare = true) (compare' : node'.isCompare = true)
    (quiet : ∀ u ∈ node'.nodes, u.isCompare = true → u = node') (dumps : node.dump ≠ node'.dump) :
    firstChanged (plug frames node) ((plug frames node').map (·.movedFrom edge old new)) =
      (outermost (keepsPlace (·.movedFrom edge old new) node) frames).map fun inner =>
        (plug inner node, (plug inner node').map (·.movedFrom edge old new)) := by
  have differ := @differ_iff frames node node' edge old new laid bound grows shrinks place compare
    compare' quiet dumps
  cases kept : outermost (keepsPlace (·.movedFrom edge old new) node) frames with
  | none =>
    cases found : firstChanged (plug frames node)
        ((plug frames node').map (·.movedFrom edge old new)) with
    | none => rfl
    | some pair =>
      obtain ⟨location, differs, -⟩ := firstChanged_eq_some laid laid' found
      obtain ⟨inner, suffix, keeps, -⟩ := differ.mp differs
      rw [outermost_eq_none kept inner suffix] at keeps
      cases keeps
  | some outer =>
    obtain ⟨suffix, keeps, longest⟩ := outermost_eq_some kept
    have candidate := differ.mpr ⟨outer, suffix, keeps, rfl, rfl⟩
    cases found : firstChanged (plug frames node)
        ((plug frames node').map (·.movedFrom edge old new)) with
    | none => exact absurd candidate (firstChanged_eq_none laid laid' found _ _)
    | some pair =>
      obtain ⟨location, differs, least⟩ := firstChanged_eq_some laid laid' found
      obtain ⟨inner, suffix', keeps', rfl, rfl⟩ := differ.mp differs
      have first := least _ _ candidate
      -- A shorter part would be a comparison inside the outer one, and start later.
      obtain ⟨between, same⟩ := longest inner suffix' keeps'
      cases between with
      | nil =>
        obtain rfl : inner = outer := same
        rfl
      | cons frame between =>
        have outerMem : plug outer node ∈ (plug frames node).nodes := plug_mem_nodes suffix
        have outerLaid := laid.of_mem outerMem
        have outerCompare := (Bool.and_eq_true_iff.mp keeps).1
        have innerCompare := (Bool.and_eq_true_iff.mp keeps').1
        subst same
        have child : plug (between ++ inner) node ∈
            (plug (frame :: between ++ inner) node).children :=
          List.mem_append_right _ List.mem_cons_self
        have within := outerLaid.inside outerCompare child
          (plug_mem_nodes (List.suffix_append between inner)) innerCompare
        have later := within.1
        unfold spanLe at first
        unfold Pos.Lt Pos.Le at *
        simp only [decide_eq_true_eq, Pos.ext_iff] at first
        omega

end Changed

end KernelOmega
