import KernelOmega.Oracle.Equivalence

/-!
# When the oracle is exact

The oracle is asked about a source and the source with one operator swapped, where the operands
are integer expressions. Its answer is exact for `==` and `!=` outside other comparisons. A swap
of `<`, `<=`, `>` or `>=` moves the end of the comparison, and of every comparison around it that
ends on the same line: the oracle does not find the pair and answers no, which is right when the
operands can be equal. Where a comparison around the swapped one keeps its place, the answer is
about that one.
-/

namespace KernelOmega

open Python

-- A list is gone through before all of `Char` is.
attribute [local instance (high)] List.decidableBAll

/-! ## What is stripped -/

/-- Blanks are stripped only in front of what is solid. -/
theorem dropWhile_before {token : List Char} (proper : token ≠ [])
    (solid : ∀ c ∈ token, isBlank c = false) (front back : List Char) :
    (front ++ (token ++ back)).dropWhile isBlank = front.dropWhile isBlank ++ (token ++ back) := by
  have stays : (token ++ back).dropWhile isBlank = token ++ back := by
    cases token with
    | nil => exact absurd rfl proper
    | cons c rest =>
      rw [List.cons_append, List.dropWhile_cons_of_neg]
      rw [solid c List.mem_cons_self]
      exact Bool.false_ne_true
  rw [List.dropWhile_append, stays]
  split
  · next blank => rw [List.isEmpty_iff.mp blank, List.nil_append]
  · rfl

/-- Stripping a text leaves the token and what is solid around it. -/
theorem strip_spliced (s : Spliced) (proper : s.token ≠ [])
    (solid : ∀ c ∈ s.token, isBlank c = false) :
    strip s.text = s.before.dropWhile isBlank ++ s.token ++ s.after.rdropWhile isBlank := by
  rw [strip, Spliced.text, List.append_assoc, dropWhile_before proper solid, List.rdropWhile,
    ← List.append_assoc, List.reverse_append, List.reverse_append, dropWhile_before, List.rdropWhile]
  · simp only [List.reverse_append, List.reverse_reverse, List.append_assoc]
  · rwa [ne_eq, List.reverse_eq_nil_iff]
  · exact fun c mem => solid c (List.mem_reverse.mp mem)

/-! ## A swap -/

/-- A comparison with one operator. -/
def compareNode {S : Type} (op : Comparison) (place : S) (left right : Ast S) : Ast S :=
  .node (.compare [.plain op]) place [left, right]

/-- A source text with a comparison of integer expressions in it; places are offsets. -/
structure SwapSite where
  text : Spliced
  op : Comparison
  isOp : text.token = (operatorTokens op).toList
  frames : List (Frame (Nat × Nat))
  place : Nat × Nat
  left : Ast (Nat × Nat)
  right : Ast (Nat × Nat)
  leftInteger : left.IsInteger
  rightInteger : right.IsInteger
  /-- No node starts or ends inside the operator. -/
  uncut : ∀ t ∈ (plug frames (compareNode op place left right)).nodes,
    text.Uncut t.span.1 ∧ text.Uncut t.span.2

namespace SwapSite

variable (site : SwapSite)

/-- The operator of the candidate, as it is written. -/
def newToken : List Char := (operatorSwaps site.op).toList

def source : String := String.ofList site.text.text

/-- The source with the operator swapped. -/
def candidate : String := String.ofList (site.text.replace site.newToken).text

/-- The comparison, and the swapped one. -/
def node : Ast (Nat × Nat) := compareNode site.op site.place site.left site.right

def node' : Ast (Nat × Nat) := compareNode (swapped site.op) site.place site.left site.right

/-- The tree of the source, and that of the candidate: the same nodes stand at the same
characters. -/
def tree : Ast Span := (plug site.frames site.node).map (locate site.text.text)

def tree' : Ast Span :=
  ((plug site.frames site.node').map (site.text.shiftSpan site.newToken)).map
    (locate (site.text.replace site.newToken).text)

/-- The checker's parser reads both texts as Python does. -/
structure Parsed (checker : Z3EquivalenceChecker) : Prop where
  source : checker.parse site.source = .ok site.tree
  candidate : checker.parse site.candidate = .ok site.tree'
  laid : Laid site.tree
  laid' : Laid site.tree'

/-- The original and the swapped comparison have the same truth value, whatever the names. -/
def SameTruth : Prop :=
  ∀ names, site.op.holds (site.left.value names) (site.right.value names) =
    (swapped site.op).holds (site.left.value names) (site.right.value names)

/-- Where the swap moves a place to. -/
def move (span : Span) : Span :=
  span.movedFrom site.text.edge site.text.token.length site.newToken.length

/-- The outermost comparison around the swapped one, itself included, that has the same place in
the source and in the candidate. -/
def keeper : Option (List (Frame (Nat × Nat))) :=
  outermost (fun inner => (plug inner site.node).isCompare &&
    decide (site.move (locate site.text.text (plug inner site.node).span) =
      locate site.text.text (plug inner site.node).span)) site.frames

/-- Z3 can express the tree around the comparison before and after the swap, and its value never
changes. -/
def Indistinct (z3 : Z3) (inner : List (Frame (Nat × Nat))) : Prop :=
  (∃ term, z3.astToZ3 (plug inner site.node) = .ok term) ∧
    (∃ term, z3.astToZ3 (plug inner site.node') = .ok term) ∧
    ∀ names, (plug inner site.node).value names = (plug inner site.node').value names

/-- The answer is right: no comparison keeps its place and the operands can be equal, or the
swapped comparison itself is the outermost that keeps its place, or the one that is changes its
value when the swapped comparison does. -/
def AnswersRight (z3 : Z3) : Prop :=
  match site.keeper with
  | none => ∃ names, site.left.value names = site.right.value names
  | some [] => True
  | some (frame :: inner) => site.Indistinct z3 (frame :: inner) ↔ site.SameTruth

/-! ### The trees as the checker sees them -/

section Trees

variable {site : SwapSite}

theorem token_plain : TokenText site.text.token := by
  rw [site.isOp]
  exact operatorTokens_plain site.op

theorem newToken_eq : site.newToken = (operatorTokens (swapped site.op)).toList := by
  rw [newToken, operatorSwaps_eq]

theorem newToken_plain : TokenText site.newToken := by
  rw [newToken_eq]
  exact operatorTokens_plain (swapped site.op)

/-- The nodes of the candidate stand where nodes of the source stand. -/
theorem span_of_mem {t : Ast (Nat × Nat)} (mem : t ∈ (plug site.frames site.node').nodes) :
    ∃ u ∈ (plug site.frames site.node).nodes, u.span = t.span := by
  have within : ∀ t ∈ site.node'.nodes, ∃ u ∈ site.node.nodes, u.span = t.span := by
    intro t mem
    rcases Ast.mem_nodes.mp mem with rfl | ⟨c, child, inside⟩
    · exact ⟨site.node, site.node.self_mem_nodes, rfl⟩
    · exact ⟨t, Ast.mem_nodes.mpr (.inr ⟨c, child, inside⟩), rfl⟩
  rcases mem_nodes_plug.mp mem with ⟨inner, suffix, proper, rfl⟩ | inside | beside
  · refine ⟨plug inner site.node, mem_nodes_plug.mpr (.inl ⟨inner, suffix, proper, rfl⟩), ?_⟩
    cases inner with
    | nil => rfl
    | cons frame rest => rfl
  · obtain ⟨u, mem, same⟩ := within t inside
    exact ⟨u, mem_nodes_plug.mpr (.inr (.inl mem)), same⟩
  · exact ⟨t, mem_nodes_plug.mpr (.inr (.inr beside)), rfl⟩

/-- The candidate's tree is the source's with the operator swapped and places moved. -/
theorem tree'_eq :
    site.tree' = (plug (site.frames.map (Frame.map (locate site.text.text)))
      (site.node'.map (locate site.text.text))).map site.move := by
  rw [tree', ← map_plug, Ast.map_map, Ast.map_map]
  refine Ast.map_congr fun t mem => ?_
  obtain ⟨u, mem', same⟩ := span_of_mem mem
  obtain ⟨start, stop⟩ := site.uncut u mem'
  rw [same] at start stop
  exact Span.locate_shiftSpan token_plain newToken_plain start stop

theorem tree_eq :
    site.tree = plug (site.frames.map (Frame.map (locate site.text.text)))
      (site.node.map (locate site.text.text)) := by
  rw [tree, map_plug]

/-- The only comparison below the swapped one is itself. -/
theorem quiet : ∀ u ∈ (site.node'.map (locate site.text.text)).nodes, u.isCompare = true →
    u = site.node'.map (locate site.text.text) := by
  intro u inMap compare
  rw [Ast.nodes_map] at inMap
  obtain ⟨t, mem, rfl⟩ := List.mem_map.mp inMap
  rw [Ast.isCompare, Ast.kind_map] at compare
  rcases Ast.mem_nodes.mp mem with rfl | ⟨c, child, inside⟩
  · rfl
  · have none : t.kind.isCompare = false := by
      rcases List.mem_cons.mp child with first | child
      · exact site.leftInteger.no_compare t (first ▸ inside)
      · exact site.rightInteger.no_compare t (List.mem_singleton.mp child ▸ inside)
    rw [none] at compare
    cases compare

/-- The swap changes the dump of the comparison. -/
theorem dumps : (site.node.map (locate site.text.text)).dump ≠
    (site.node'.map (locate site.text.text)).dump := by
  rw [Ast.dump_map, Ast.dump_map, node, node', compareNode, compareNode, Ast.dump, Ast.dump,
    Ast.map_node, Ast.map_node]
  intro same
  injection same with kinds
  injection kinds with ops
  injection List.cons.inj ops |>.1 with ops
  exact swapped_ne site.op ops.symm

variable {self : Z3EquivalenceChecker}

/-- The checker finds the outermost comparison that keeps its place. -/
theorem changedComparison_eq (parsed : site.Parsed self) :
    self.changedComparison site.source site.candidate =
      .ok (site.keeper.map fun inner => ((plug inner site.node).map (locate site.text.text),
        ((plug inner site.node').map (locate site.text.text)).map site.move)) := by
  have lengths := operatorTokens_length site.op
  rw [← site.isOp, ← newToken_eq] at lengths
  have laid := parsed.laid
  have laid' := parsed.laid'
  rw [tree_eq] at laid
  rw [tree'_eq] at laid'
  have found := firstChanged_eq laid laid' (Spliced.length_le_edge token_plain) lengths.1 lengths.2
    ((Ast.span_map _ _).trans (Ast.span_map _ _).symm) rfl rfl quiet dumps
  have kept : (fun inner => keepsPlace site.move (site.node.map (locate site.text.text))
        (inner.map (Frame.map (locate site.text.text)))) =
      fun inner => (plug inner site.node).isCompare &&
        decide (site.move (locate site.text.text (plug inner site.node).span) =
          locate site.text.text (plug inner site.node).span) := by
    funext inner
    rw [keepsPlace, ← map_plug, Ast.isCompare, Ast.kind_map, Ast.span_map]
  show (do
    let orig ← self.parse site.source
    let mutated ← self.parse site.candidate
    return Z3EquivalenceChecker.firstChanged orig mutated) = _
  rw [parsed.source, parsed.candidate, tree_eq, tree'_eq]
  refine congrArg Except.ok (found.trans ?_)
  rw [outermost_map, Option.map_map]
  show Option.map _ (outermost (fun inner => keepsPlace site.move _ _) _) = _
  rw [kept]
  refine congrArg (Option.map · site.keeper) (funext fun inner => ?_)
  show (plug (inner.map _) _, (plug (inner.map _) _).map _) = _
  rw [← map_plug, ← map_plug]
  rfl

/-- The texts differ in more than blanks around them. -/
theorem strip_ne : strip site.source.toList ≠ strip site.candidate.toList := by
  have solid : ∀ op, ∀ c ∈ (operatorTokens op).toList, isBlank c = false := by
    intro op
    cases op <;> decide
  have first := strip_spliced site.text token_plain.1 (site.isOp ▸ solid site.op)
  have second := strip_spliced (site.text.replace site.newToken) newToken_plain.1
    (newToken_eq ▸ solid (swapped site.op))
  rw [source, candidate, String.toList_ofList, String.toList_ofList, first, second]
  intro same
  have tokens := List.append_cancel_left (List.append_cancel_right same)
  rw [site.isOp] at tokens
  have new : (site.text.replace site.newToken).token = (operatorTokens (swapped site.op)).toList :=
    newToken_eq
  rw [new] at tokens
  exact swapped_ne site.op (operatorTokens_injective (String.toList_inj.mp tokens)).symm

end Trees

end SwapSite

/-! ## What the answer says -/

section Answer

variable {self : Z3EquivalenceChecker} {value : self.z3.Term → (String → Int) → Z3.Value}

/-- About a pair of comparisons the checker answers yes exactly when both translate and have the
same value, whatever the names. -/
theorem decidePair_iff (sound : self.z3.Sound value) {a b : Ast Span} (compare : a.isCompare)
    (compare' : b.isCompare) :
    self.decidePair a b = .ok true ↔
      (∃ term, self.z3.astToZ3 a = .ok term) ∧ (∃ term, self.z3.astToZ3 b = .ok term) ∧
        ∀ names, a.value names = b.value names := by
  unfold Z3EquivalenceChecker.decidePair
  cases first : self.z3.astToZ3 a with
  | error e =>
    constructor
    · intro yes
      cases yes
    · rintro ⟨⟨term, none⟩, -⟩
      cases none
  | ok original =>
    cases second : self.z3.astToZ3 b with
    | error e =>
      constructor
      · intro yes
        cases yes
      · rintro ⟨-, ⟨term, none⟩, -⟩
        cases none
    | ok mutated =>
      have sort := Z3.boolSort_of_compare sound compare first
      have sort' := Z3.boolSort_of_compare sound compare' second
      obtain ⟨differ, applied⟩ := sound.differ original mutated sort sort'
      have decides : self.z3.unsat differ = true ↔ ∀ names, a.value names = b.value names := by
        have values := sound.compare .notEq original mutated differ applied
        rw [sound.unsat differ fun names => ⟨_, values names⟩]
        refine forall_congr' fun names => ?_
        rw [values names, Z3.value_astToZ3 sound a names original first,
          Z3.value_astToZ3 sound b names mutated second, Z3.Value.bool.injEq, Comparison.holds,
          decide_eq_false_iff_not, not_not]
      have answer : (do
          let differ ← self.z3.compare .notEq original mutated
          return self.z3.unsat differ : Except PyError Bool) = .ok (self.z3.unsat differ) := by
        rw [applied]
        rfl
      dsimp only
      rw [answer, Except.ok.injEq, decides]
      exact ⟨fun same => ⟨⟨_, rfl⟩, ⟨_, rfl⟩, same⟩, fun all => all.2.2⟩

theorem toInt_injective {a b : Bool} (same : a.toInt = b.toInt) : a = b := by
  cases a <;> cases b <;> first | rfl | cases same

variable {site : SwapSite}

/-- A comparison of integers can be said to the solver. -/
theorem compareNode_translates (sound : self.z3.Sound value) (op : Comparison) (place : Nat × Nat)
    {left right : Ast (Nat × Nat)} (leftInteger : left.IsInteger) (rightInteger : right.IsInteger) :
    ∃ term, self.z3.astToZ3 (compareNode op place left right) = .ok term := by
  obtain ⟨a, first, sort⟩ := Z3.astToZ3_of_isInteger sound leftInteger
  obtain ⟨b, second, sort'⟩ := Z3.astToZ3_of_isInteger sound rightInteger
  obtain ⟨term, applied⟩ := sound.compareInt op a b sort sort'
  refine ⟨term, ?_⟩
  simp only [compareNode, Z3.astToZ3, Z3.astToZ3All, Z3.translateNode, first, second]
  exact applied

/-- About the swapped comparison itself Z3 knows the truth. -/
theorem indistinct_nil_iff (sound : self.z3.Sound value) :
    site.Indistinct self.z3 [] ↔ site.SameTruth := by
  have translates := compareNode_translates sound site.op site.place site.leftInteger site.rightInteger
  have translates' :=
    compareNode_translates sound (swapped site.op) site.place site.leftInteger site.rightInteger
  constructor
  · rintro ⟨-, -, same⟩ names
    exact toInt_injective (same names)
  · exact fun same => ⟨translates, translates', fun names => congrArg Bool.toInt (same names)⟩

/-- What the checker answers. -/
theorem isSemanticallyEquivalent_iff (sound : self.z3.Sound value) (parsed : site.Parsed self) :
    self.isSemanticallyEquivalent site.source site.candidate = .ok true ↔
      match site.keeper with
      | none => False
      | some inner => site.Indistinct self.z3 inner := by
  unfold Z3EquivalenceChecker.isSemanticallyEquivalent
  rw [if_neg SwapSite.strip_ne, SwapSite.changedComparison_eq parsed]
  cases kept : site.keeper with
  | none =>
    constructor
    · intro yes
      cases yes
    · exact False.elim
  | some inner =>
    have compare : (plug inner site.node).isCompare = true :=
      (Bool.and_eq_true_iff.mp (outermost_eq_some kept).2.1).1
    have compare' : (plug inner site.node').isCompare = true := by
      cases inner with
      | nil => rfl
      | cons frame rest => exact compare
    have answer := decidePair_iff sound
      (a := (plug inner site.node).map (locate site.text.text))
      (b := ((plug inner site.node').map (locate site.text.text)).map site.move)
      (by rwa [Ast.isCompare, Ast.kind_map]) (by rwa [Ast.isCompare, Ast.kind_map, Ast.kind_map])
    simp only [Z3.astToZ3_map, Ast.value_map] at answer
    exact answer

/-- A swap of `<`, `<=`, `>` or `>=` changes nothing exactly when the operands never are equal. -/
theorem sameTruth_iff (ordered : site.op ≠ .eq ∧ site.op ≠ .notEq) :
    site.SameTruth ↔ ∀ names, site.left.value names ≠ site.right.value names := by
  refine forall_congr' fun names => ?_
  generalize site.left.value names = a
  generalize site.right.value names = b
  cases op : site.op with
  | eq => exact absurd op ordered.1
  | notEq => exact absurd op ordered.2
  | _ =>
    simp only [swapped, Comparison.holds, decide_eq_decide]
    omega

/-- Where no comparison keeps its place the operator has changed its length. -/
theorem ordered_of_keeper_eq_none (none : site.keeper = none) :
    site.op ≠ .eq ∧ site.op ≠ .notEq := by
  have moved := outermost_eq_none none [] List.nil_suffix
  have still : site.text.token.length = site.newToken.length → False := by
    intro same
    have stays : ∀ span, site.move span = span := by
      intro span
      unfold SwapSite.move Span.movedFrom Pos.movedFrom
      rw [same]
      ext
      · dsimp only
        split <;> rfl
      · dsimp only
        split
        · exact Nat.add_sub_cancel _ _
        · rfl
      · dsimp only
        split <;> rfl
      · dsimp only
        split
        · exact Nat.add_sub_cancel _ _
        · rfl
    rw [stays, decide_eq_true rfl] at moved
    cases moved
  constructor
  · intro isEq
    refine still ?_
    rw [site.isOp, SwapSite.newToken, isEq]
    rfl
  · intro isNotEq
    refine still ?_
    rw [site.isOp, SwapSite.newToken, isNotEq]
    rfl

/-- The answer is exact for a swap if and only if it is right for its site. The checker compares
what stands at the places that the source and the candidate share, and a swap that changes the
length of the text moves all that is behind it. -/
theorem oracle_exact_iff (sound : self.z3.Sound value) (site : SwapSite)
    (parsed : site.Parsed self) :
    (self.isSemanticallyEquivalent site.source site.candidate = .ok true ↔ site.SameTruth) ↔
      site.AnswersRight self.z3 := by
  rw [isSemanticallyEquivalent_iff sound parsed, SwapSite.AnswersRight]
  cases kept : site.keeper with
  | none =>
    rw [sameTruth_iff (ordered_of_keeper_eq_none kept)]
    constructor
    · intro answer
      by_contra never
      exact answer.mpr fun names same => never ⟨names, same⟩
    · rintro ⟨names, same⟩
      exact ⟨False.elim, fun never => never names same⟩
  | some inner =>
    cases inner with
    | nil => exact iff_of_true (indistinct_nil_iff sound) trivial
    | cons frame rest => exact Iff.rfl

end Answer

/-! ## A comparison that always holds -/

namespace SmallOracle

/-- Z3 as its documentation has it: a term is what it evaluates to. -/
noncomputable def z3 : Z3 where
  Term := (String → Int) → Z3.Value
  symbol id := fun names => .int (names id)
  intVal n := fun _ => .int n
  boolVal b := fun _ => .bool b
  neg a := .ok fun names => .int (-(a names).asInt)
  add a b := .ok fun names => .int ((a names).asInt + (b names).asInt)
  sub a b := .ok fun names => .int ((a names).asInt - (b names).asInt)
  compare op a b := .ok fun names => .bool (op.holds (a names).asInt (b names).asInt)
  unsat t := @decide (∀ names, t names = .bool false) (Classical.propDecidable _)

/-- A solver that computes with integers is sound. -/
theorem z3_sound : z3.Sound fun t => t where
  symbol _ _ := rfl
  intVal _ _ := rfl
  boolVal _ _ := rfl
  neg _ _ applied _ := by rw [← Except.ok.inj applied]
  add _ _ _ applied _ := by rw [← Except.ok.inj applied]
  sub _ _ _ applied _ := by rw [← Except.ok.inj applied]
  compare _ _ _ _ applied _ := by rw [← Except.ok.inj applied]
  negInt _ _ := ⟨_, rfl⟩
  addInt _ _ _ _ := ⟨_, rfl⟩
  subInt _ _ _ _ := ⟨_, rfl⟩
  compareInt _ _ _ _ _ := ⟨_, rfl⟩
  differ _ _ _ _ := ⟨_, rfl⟩
  unsat _ _ := @decide_eq_true_iff _ (Classical.propDecidable _)

/-- `x < x + 1` -/
def site : SwapSite where
  text := { before := "x ".toList, token := "<".toList, after := " x + 1".toList }
  op := .lt
  isOp := rfl
  frames :=
    [{ kind := .other "Module", span := (0, 9), before := [], after := [] },
      { kind := .other "Expr", span := (0, 9), before := [], after := [] }]
  place := (0, 9)
  left := .node (.name "x") (0, 1) []
  right := .node .add (4, 9) [.node (.name "x") (4, 5) [], .node (.int 1) (8, 9) []]
  leftInteger := .name "x" _
  rightInteger := .add _ (.name "x" _) (.int 1 _)
  uncut := by
    unfold Spliced.Uncut
    decide

/-- A parser that reads the two texts. -/
noncomputable def checker : Z3EquivalenceChecker where
  z3 := z3
  astParse _ code :=
    if code = site.source then .ok site.tree
    else if code = site.candidate then .ok site.tree' else .error .syntaxError

theorem site_parsed : site.Parsed checker where
  source := by
    have reads : checker.astParse .exec site.source = .ok site.tree := by
      simp only [checker, ↓reduceIte]
    rw [Z3EquivalenceChecker.parse, reads]
  candidate := by
    have other : site.candidate ≠ site.source := by decide
    have reads : checker.astParse .exec site.candidate = .ok site.tree' := by
      simp only [checker, other, ↓reduceIte]
    rw [Z3EquivalenceChecker.parse, reads]
  laid := .around rfl (.around rfl (.compare (by decide) (by decide)))
  laid' := .around rfl (.around rfl (.compare (by decide) (by decide)))

theorem site_keeper : site.keeper = none := Option.isNone_iff_eq_none.mp (by decide)

/-- The swap changes nothing: a number is less than its successor. -/
theorem site_sameTruth : site.SameTruth := by
  refine (sameTruth_iff (by decide)).mpr fun names => ?_
  show names "x" ≠ names "x" + 1
  omega

end SmallOracle

open SmallOracle in
/-- `x < x + 1` against `x <= x + 1`, for a solver that computes with integers. -/
theorem oracle_exact_iff_successor :
    (checker.isSemanticallyEquivalent site.source site.candidate = .ok true ↔ site.SameTruth) ↔
      site.AnswersRight checker.z3 :=
  oracle_exact_iff z3_sound site site_parsed

open SmallOracle in
/-- The checker says that `x < x + 1` and `x <= x + 1` differ. -/
theorem not_oracle_exact :
    ¬ ∀ (self : Z3EquivalenceChecker) (value : self.z3.Term → (String → Int) → Z3.Value),
      self.z3.Sound value → ∀ site : SwapSite, site.Parsed self →
        (self.isSemanticallyEquivalent site.source site.candidate = .ok true ↔ site.SameTruth) := by
  intro exactly
  have yes := (exactly checker _ z3_sound site site_parsed).mpr site_sameTruth
  have answer := (isSemanticallyEquivalent_iff z3_sound site_parsed).mp yes
  rw [site_keeper] at answer
  exact answer

end KernelOmega
