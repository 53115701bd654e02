import KernelOmega.PolicyGate
import KernelOmega.Python.Handlers

/-!
# The semantic policy

`PolicyGate.enforce_semantic_policy`: a module passes when it parses, no attribute of it
is called `skip` or `xfail`, and no handler of a `try` is bare or a plain `Exception` or
`BaseException`. A handler of `try ... except*`, and one that names either class within a
tuple or as an attribute, is not looked at: a module with one of those can pass and still
swallow every exception.
-/

namespace KernelOmega

open Python

/-- `{"Exception", "BaseException"}` -/
def isBroadName (id : String) : Bool := id = "Exception" || id = "BaseException"

/-- The checks on one handler of a `Try` node. -/
def handlerRefused : Node → Bool
  | .exceptHandler none _ _ => true
  | .exceptHandler (some (.name id)) _ _ => isBroadName id
  | _ => false

/-- The checks on one node of the walk. -/
def nodeRefused : Node → Bool
  | .tryStmt false _ handlers _ _ => handlers.any handlerRefused
  | .attr _ attr => attr = "skip" || attr = "xfail"
  | _ => false

/-- `enforce_semantic_policy`; `parse` is `ast.parse`. -/
def enforceSemanticPolicy (parse : String → Except PyError Node) (code : String) :
    Except PyError Bool :=
  match parse code with
  | .ok tree => .ok (!tree.walk.any nodeRefused)
  | .error .syntaxError => .ok false
  | .error e => .error e

/-! ## What a handler catches -/

mutual
/-- The expression names `Exception` or `BaseException` among the classes of a handler. -/
def namesBroad : Node → Bool
  | .name id => isBroadName id
  | .attr _ attr => isBroadName attr
  | .tuple elts => anyNamesBroad elts
  | _ => false

/-- `any` over the elements of a tuple. -/
def anyNamesBroad : List Node → Bool
  | [] => false
  | elt :: elts => namesBroad elt || anyNamesBroad elts
end

end KernelOmega
