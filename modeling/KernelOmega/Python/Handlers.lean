import Mathlib.Data.List.Basic

/-!
# Try statements and their handlers

The trees `ast.parse` returns, as far as exception handling and attributes are concerned.
A `try` and a `try ... except*` are nodes of two classes with the same fields. What tells
other nodes apart is in their label, and every node below them is among their children.
-/

namespace Python

/-- A node, seen as far as handlers and names go. -/
inductive Node where
  /-- `Try`, and `TryStar` when `star` -/
  | tryStmt (star : Bool) (body handlers orelse finalbody : List Node)
  | exceptHandler (type : Option Node) (name : Option String) (body : List Node)
  | name (id : String)
  /-- `Attribute` -/
  | attr (value : Node) (attr : String)
  | tuple (elts : List Node)
  | other (label : String) (children : List Node)

namespace Node

/-- `ast.iter_child_nodes` -/
def children : Node → List Node
  | tryStmt _ body handlers orelse finalbody => body ++ handlers ++ orelse ++ finalbody
  | exceptHandler type _ body => type.toList ++ body
  | name _ => []
  | attr value _ => [value]
  | tuple elts => elts
  | other _ children => children

/-- What holds of a node when it holds of its children holds of every node. -/
theorem induct {P : Node → Prop} (step : ∀ t, (∀ c ∈ t.children, P c) → P t) (t : Node) : P t := by
  refine @Node.rec P (fun nodes => ∀ c ∈ nodes, P c) (fun type => ∀ c ∈ type, P c)
    ?_ ?_ ?_ ?_ ?_ ?_ ?_ ?_ ?_ ?_ t
  · intro star body handlers orelse finalbody inBody inHandlers inOrelse inFinal
    apply step
    intro c member
    simp only [children, List.mem_append] at member
    rcases member with ((member | member) | member) | member
    · exact inBody c member
    · exact inHandlers c member
    · exact inOrelse c member
    · exact inFinal c member
  · intro type name body inType inBody
    apply step
    intro c member
    rcases List.mem_append.mp member with member | member
    · exact inType c (Option.mem_toList.mp member)
    · exact inBody c member
  · intro id
    apply step
    intro c none
    exact absurd none List.not_mem_nil
  · intro value attr inValue
    apply step
    intro c member
    rw [List.mem_singleton.mp member]
    exact inValue
  · intro elts inElts
    exact step _ inElts
  · intro label children inChildren
    exact step _ inChildren
  · exact fun c none => absurd none List.not_mem_nil
  · intro c nodes here rest c' member
    rcases List.mem_cons.mp member with rfl | later
    · exact here
    · exact rest c' later
  · exact fun c none => absurd none (Option.not_mem_none c)
  · intro c here c' member
    rw [← Option.some.inj member]
    exact here

mutual
/-- The nodes `ast.walk` yields, a node before what is below it; `ast.walk` itself goes level by
level. -/
def walk : Node → List Node
  | tryStmt star body handlers orelse finalbody =>
    tryStmt star body handlers orelse finalbody ::
      (walkAll body ++ walkAll handlers ++ walkAll orelse ++ walkAll finalbody)
  | exceptHandler type bound body =>
    exceptHandler type bound body :: (walkOption type ++ walkAll body)
  | name id => [name id]
  | attr value field => attr value field :: walk value
  | tuple elts => tuple elts :: walkAll elts
  | other label children => other label children :: walkAll children

def walkAll : List Node → List Node
  | [] => []
  | c :: nodes => walk c ++ walkAll nodes

/-- The nodes below a field that may be `None`. -/
def walkOption : Option Node → List Node
  | none => []
  | some c => walk c
end

theorem mem_walkAll {nodes : List Node} {t : Node} :
    t ∈ walkAll nodes ↔ ∃ c ∈ nodes, t ∈ c.walk := by
  induction nodes with
  | nil => simp [walkAll]
  | cons c nodes ih => simp [walkAll, ih]

theorem mem_walkOption {type : Option Node} {t : Node} :
    t ∈ walkOption type ↔ ∃ c ∈ type.toList, t ∈ c.walk := by
  cases type with
  | none => simp [walkOption]
  | some c => simp [walkOption]

/-- A walk meets a node and what is below it. -/
theorem mem_walk {t root : Node} :
    t ∈ root.walk ↔ t = root ∨ ∃ c ∈ root.children, t ∈ c.walk := by
  cases root with
  | tryStmt star body handlers orelse finalbody =>
    rw [walk, List.mem_cons, ← mem_walkAll]
    simp only [children, List.mem_append, mem_walkAll]
    grind
  | exceptHandler type name body =>
    rw [walk, List.mem_cons]
    simp only [children, List.mem_append, mem_walkAll, mem_walkOption]
    grind
  | name id => simp [walk, children]
  | attr value field => simp [walk, children]
  | tuple elts => rw [walk, List.mem_cons, mem_walkAll, children]
  | other label nodes => rw [walk, List.mem_cons, mem_walkAll, children]

end Node

end Python
