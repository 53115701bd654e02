import KernelOmega.Contracts
import KernelOmega.Python.Ast
import KernelOmega.Python.Raising
import Mathlib.Data.List.Forall2

/-!
# Comparisons as Z3 terms

`_ast_to_z3` of `control_plane/smt_oracle.py` turns a comparison of integer expressions into a
Z3 term. Z3 is a library: its terms, its operators and its solver are parameters, with what its
documentation says of them. An operator on a Boolean and an integer takes the Boolean for 0 or 1
where it does not raise.
-/

namespace Python

namespace Comparison

/-- Whether two integers compare so. -/
def holds : Comparison → Int → Int → Bool
  | lt, a, b => decide (a < b)
  | ltE, a, b => decide (a ≤ b)
  | gt, a, b => decide (b < a)
  | gtE, a, b => decide (b ≤ a)
  | eq, a, b => decide (a = b)
  | notEq, a, b => decide (a ≠ b)

end Comparison

/-- The integer a node evaluates to, from those of its children; a truth value counts as 0 or 1,
and what is no integer expression over comparisons as 0. -/
def Kind.value (names : String → Int) : Kind → List Int → Int
  | .name id, _ => names id
  | .int n, _ => n
  | .bool b, _ => b.toInt
  | .neg, [operand] => -operand
  | .add, [left, right] => left + right
  | .sub, [left, right] => left - right
  | .compare [.plain op], [left, right] => (op.holds left right).toInt
  | _, _ => 0

namespace Ast

variable {S S' : Type}

mutual
/-- The integer an expression evaluates to. -/
def value (names : String → Int) : Ast S → Int
  | node kind _ children => kind.value names (values names children)

/-- The values of the children. -/
def values (names : String → Int) : List (Ast S) → List Int
  | [] => []
  | c :: rest => c.value names :: values names rest
end

theorem values_eq (names : String → Int) (children : List (Ast S)) :
    values names children = children.map (value names) := by
  induction children with
  | nil => rfl
  | cons c rest ih => rw [values, ih, List.map_cons]

/-- An integer expression of names, constants, unary minus, `+` and `-`. -/
inductive IsInteger : Ast S → Prop
  | name (id : String) (span : S) : IsInteger (node (.name id) span [])
  | int (n : Int) (span : S) : IsInteger (node (.int n) span [])
  | neg {operand : Ast S} (span : S) : IsInteger operand → IsInteger (node .neg span [operand])
  | add {left right : Ast S} (span : S) : IsInteger left → IsInteger right →
    IsInteger (node .add span [left, right])
  | sub {left right : Ast S} (span : S) : IsInteger left → IsInteger right →
    IsInteger (node .sub span [left, right])

theorem value_map (names : String → Int) (f : S → S') (t : Ast S) :
    (t.map f).value names = t.value names := by
  induction t using induct with
  | node kind span children ih =>
    rw [map_node, value, value, values_eq, values_eq, List.map_map]
    exact congrArg _ (List.map_congr_left ih)

/-- Whether a tree is an integer's does not depend on its places. -/
theorem IsInteger.map (f : S → S') {t : Ast S} (integer : t.IsInteger) : (t.map f).IsInteger := by
  induction integer with
  | name id span => exact .name id (f span)
  | int n span => exact .int n (f span)
  | neg span _ ih => exact .neg (f span) ih
  | add span _ _ ih ih' => exact .add (f span) ih ih'
  | sub span _ _ ih ih' => exact .sub (f span) ih ih'

/-- An integer expression has no comparison in it. -/
theorem IsInteger.no_compare {t : Ast S} (integer : t.IsInteger) :
    ∀ u ∈ t.nodes, u.kind.isCompare = false := by
  induction integer with
  | name id span =>
    intro u mem
    rw [List.mem_singleton.mp mem]
    rfl
  | int n span =>
    intro u mem
    rw [List.mem_singleton.mp mem]
    rfl
  | neg span _ ih =>
    intro u mem
    rcases mem_nodes.mp mem with rfl | ⟨c, child, inner⟩
    · rfl
    · rw [List.mem_singleton.mp child] at inner
      exact ih u inner
  | add span _ _ ih ih' | sub span _ _ ih ih' =>
    intro u mem
    rcases mem_nodes.mp mem with rfl | ⟨c, child, inner⟩
    · rfl
    · rcases List.mem_cons.mp child with first | child
      · exact ih u (first ▸ inner)
      · exact ih' u (List.mem_singleton.mp child ▸ inner)

end Ast

end Python

namespace KernelOmega

open Python

/-- What the checker uses of Z3: expressions, Python's operators on them, which may raise, and
whether a solver with one constraint answers `unsat`. -/
structure Z3 where
  Term : Type
  /-- `z3.Int` -/
  symbol : String → Term
  intVal : Int → Term
  boolVal : Bool → Term
  neg : Term → Except PyError Term
  add : Term → Term → Except PyError Term
  sub : Term → Term → Except PyError Term
  /-- `<`, `<=`, `>`, `>=`, `==` and `!=` -/
  compare : Comparison → Term → Term → Except PyError Term
  unsat : Term → Bool

namespace Z3

variable (z3 : Z3)

/-- One node of `_ast_to_z3`, from the translations of its children. -/
def translateNode : Kind → List (Except PyError z3.Term) → Except PyError z3.Term
  | .name id, _ => .ok (z3.symbol id)
  | .int n, _ => .ok (z3.intVal n)
  | .bool b, _ => .ok (z3.boolVal b)
  | .neg, [operand] => do z3.neg (← operand)
  | .add, [left, right] => do z3.add (← left) (← right)
  | .sub, [left, right] => do z3.sub (← left) (← right)
  | .compare [.plain op], [left, right] => do z3.compare op (← left) (← right)
  | _, _ => .error (.valueError "Unsupported AST node")

mutual
/-- `_ast_to_z3` -/
def astToZ3 {S : Type} : Ast S → Except PyError z3.Term
  | .node kind _ children => z3.translateNode kind (astToZ3All children)

/-- The terms of the children, of which each may raise. -/
def astToZ3All {S : Type} : List (Ast S) → List (Except PyError z3.Term)
  | [] => []
  | c :: rest => astToZ3 c :: astToZ3All rest
end

/-! ## What Z3 promises -/

/-- The value of a term. -/
inductive Value where
  | int (n : Int)
  | bool (b : Bool)
  deriving DecidableEq

/-- A Boolean is taken for 0 or 1 where an integer is wanted. -/
def Value.asInt : Value → Int
  | .int n => n
  | .bool b => b.toInt

variable {z3}

/-- The term is of integer sort. -/
def IntSort (value : z3.Term → (String → Int) → Value) (t : z3.Term) : Prop :=
  ∀ names, ∃ n, value t names = .int n

/-- The term is of Boolean sort. -/
def BoolSort (value : z3.Term → (String → Int) → Value) (t : z3.Term) : Prop :=
  ∀ names, ∃ b, value t names = .bool b

/-- The operators mean what they say, and do not raise on integers; the solver decides. -/
structure Sound (z3 : Z3) (value : z3.Term → (String → Int) → Value) : Prop where
  symbol : ∀ id names, value (z3.symbol id) names = .int (names id)
  intVal : ∀ n names, value (z3.intVal n) names = .int n
  boolVal : ∀ b names, value (z3.boolVal b) names = .bool b
  neg : ∀ a t, z3.neg a = .ok t → ∀ names, value t names = .int (-(value a names).asInt)
  add : ∀ a b t, z3.add a b = .ok t →
    ∀ names, value t names = .int ((value a names).asInt + (value b names).asInt)
  sub : ∀ a b t, z3.sub a b = .ok t →
    ∀ names, value t names = .int ((value a names).asInt - (value b names).asInt)
  compare : ∀ op a b t, z3.compare op a b = .ok t →
    ∀ names, value t names = .bool (op.holds (value a names).asInt (value b names).asInt)
  negInt : ∀ a, IntSort value a → ∃ t, z3.neg a = .ok t
  addInt : ∀ a b, IntSort value a → IntSort value b → ∃ t, z3.add a b = .ok t
  subInt : ∀ a b, IntSort value a → IntSort value b → ∃ t, z3.sub a b = .ok t
  compareInt : ∀ op a b, IntSort value a → IntSort value b → ∃ t, z3.compare op a b = .ok t
  /-- `!=` of two Booleans -/
  differ : ∀ a b, BoolSort value a → BoolSort value b → ∃ t, z3.compare .notEq a b = .ok t
  unsat : ∀ t, BoolSort value t → (z3.unsat t = true ↔ ∀ names, value t names = .bool false)

theorem astToZ3All_eq {S : Type} (children : List (Ast S)) :
    z3.astToZ3All children = children.map z3.astToZ3 := by
  induction children with
  | nil => rfl
  | cons c rest ih => rw [astToZ3All, ih, List.map_cons]

theorem astToZ3_map {S S' : Type} (f : S → S') (t : Ast S) :
    z3.astToZ3 (t.map f) = z3.astToZ3 t := by
  induction t using Ast.induct with
  | node kind span children ih =>
    rw [Ast.map_node, astToZ3, astToZ3, astToZ3All_eq, astToZ3All_eq, List.map_map]
    exact congrArg _ (List.map_congr_left ih)

section Translation

variable {S : Type} {value : z3.Term → (String → Int) → Value} (sound : z3.Sound value)
include sound

/-- A node's translation has the node's value when its children's have theirs. -/
theorem translateNode_value {kind : Kind} {terms : List (Except PyError z3.Term)} {ints : List Int}
    {names : String → Int}
    (children : List.Forall₂ (fun r n => ∀ t, r = .ok t → (value t names).asInt = n) terms ints)
    {term : z3.Term} (translates : z3.translateNode kind terms = .ok term) :
    (value term names).asInt = kind.value names ints := by
  cases kind with
  | name id =>
    obtain rfl := Except.ok.inj translates
    rw [sound.symbol]
    rfl
  | int n =>
    obtain rfl := Except.ok.inj translates
    rw [sound.intVal]
    rfl
  | bool b =>
    obtain rfl := Except.ok.inj translates
    rw [sound.boolVal]
    rfl
  | other label => cases translates
  | neg =>
    match terms, ints, children with
    | [], _, _ => cases translates
    | _ :: _ :: _, _, _ => cases translates
    | [_], [_], .cons first .nil =>
      obtain ⟨a, operand, applied⟩ := Python.bind_eq_ok_iff.mp translates
      rw [sound.neg a term applied]
      exact congrArg (- ·) (first a operand)
  | add =>
    match terms, ints, children with
    | [], _, _ | [_], _, _ | _ :: _ :: _ :: _, _, _ => cases translates
    | [_, _], [_, _], .cons first (.cons second .nil) =>
      obtain ⟨a, left, more⟩ := Python.bind_eq_ok_iff.mp translates
      obtain ⟨b, right, applied⟩ := Python.bind_eq_ok_iff.mp more
      rw [sound.add a b term applied]
      exact congrArg₂ (· + ·) (first a left) (second b right)
  | sub =>
    match terms, ints, children with
    | [], _, _ | [_], _, _ | _ :: _ :: _ :: _, _, _ => cases translates
    | [_, _], [_, _], .cons first (.cons second .nil) =>
      obtain ⟨a, left, more⟩ := Python.bind_eq_ok_iff.mp translates
      obtain ⟨b, right, applied⟩ := Python.bind_eq_ok_iff.mp more
      rw [sound.sub a b term applied]
      exact congrArg₂ (· - ·) (first a left) (second b right)
  | compare ops =>
    match ops, terms, ints, children with
    | [], _, _, _ | .other _ :: _, _, _, _ | .plain _ :: _ :: _, _, _, _ => cases translates
    | [.plain _], [], _, _ | [.plain _], [_], _, _ | [.plain _], _ :: _ :: _ :: _, _, _ =>
      cases translates
    | [.plain op], [_, _], [_, _], .cons first (.cons second .nil) =>
      obtain ⟨a, left, more⟩ := Python.bind_eq_ok_iff.mp translates
      obtain ⟨b, right, applied⟩ := Python.bind_eq_ok_iff.mp more
      rw [sound.compare op a b term applied, first a left, second b right]
      rfl

/-- A translation has the value of the expression. -/
theorem value_astToZ3 (t : Ast S) (names : String → Int) :
    ∀ term, z3.astToZ3 t = .ok term → (value term names).asInt = t.value names := by
  induction t using Ast.induct with
  | node kind span children ih =>
    intro term translates
    rw [astToZ3] at translates
    rw [Ast.value]
    refine translateNode_value sound ?_ translates
    rw [astToZ3All_eq, Ast.values_eq, List.forall₂_map_left_iff, List.forall₂_map_right_iff]
    exact List.forall₂_same.mpr ih

/-- Integer expressions translate to terms of integer sort. -/
theorem astToZ3_of_isInteger {t : Ast S} (integer : t.IsInteger) :
    ∃ term, z3.astToZ3 t = .ok term ∧ IntSort value term := by
  induction integer with
  | name id span => exact ⟨_, rfl, fun names => ⟨_, sound.symbol id names⟩⟩
  | int n span => exact ⟨_, rfl, fun names => ⟨_, sound.intVal n names⟩⟩
  | neg span _ ih =>
    obtain ⟨a, operand, sort⟩ := ih
    obtain ⟨t, applied⟩ := sound.negInt a sort
    refine ⟨t, ?_, fun names => ⟨_, sound.neg a t applied names⟩⟩
    simp only [astToZ3, astToZ3All, translateNode, operand]
    exact applied
  | add span _ _ ih ih' =>
    obtain ⟨a, left, sort⟩ := ih
    obtain ⟨b, right, sort'⟩ := ih'
    obtain ⟨t, applied⟩ := sound.addInt a b sort sort'
    refine ⟨t, ?_, fun names => ⟨_, sound.add a b t applied names⟩⟩
    simp only [astToZ3, astToZ3All, translateNode, left, right]
    exact applied
  | sub span _ _ ih ih' =>
    obtain ⟨a, left, sort⟩ := ih
    obtain ⟨b, right, sort'⟩ := ih'
    obtain ⟨t, applied⟩ := sound.subInt a b sort sort'
    refine ⟨t, ?_, fun names => ⟨_, sound.sub a b t applied names⟩⟩
    simp only [astToZ3, astToZ3All, translateNode, left, right]
    exact applied

/-- A translated comparison is of Boolean sort. -/
theorem boolSort_of_compare {t : Ast S} (compare : t.kind.isCompare) {term : z3.Term}
    (translates : z3.astToZ3 t = .ok term) : BoolSort value term := by
  obtain ⟨kind, span, children⟩ := t
  rw [astToZ3] at translates
  generalize z3.astToZ3All children = terms at translates
  cases kind with
  | compare ops =>
    match ops, terms with
    | [], _ | .other _ :: _, _ | .plain _ :: _ :: _, _ => cases translates
    | [.plain _], [] | [.plain _], [_] | [.plain _], _ :: _ :: _ :: _ => cases translates
    | [.plain op], [_, _] =>
      obtain ⟨a, -, more⟩ := Python.bind_eq_ok_iff.mp translates
      obtain ⟨b, -, applied⟩ := Python.bind_eq_ok_iff.mp more
      exact fun names => ⟨_, sound.compare op a b term applied names⟩
  | _ => cases compare

end Translation

end Z3

end KernelOmega
