import Mathlib.Data.List.Infix

/-!
# Names of refs

A ref has a full name, and a short name stands for up to six of them (`gitrevisions`: the name
itself, or the name under `refs/`, `refs/tags/`, `refs/heads/`, `refs/remotes/`, or the `HEAD` of a
remote). So a branch that shares its name with a tag is not named by its own name: what
`rev-parse --abbrev-ref` prints for it is longer (`shorten`), and a command that asks for one ref
takes a name only when one of the six is there (`resolveUnique`). This is git as it is without
settings; with `core.warnAmbiguousRefs` off, a name that stands for several refs is taken too.
-/

namespace Git

/-- The name of a branch. -/
def BranchName : Type := { name : String // name ≠ "" ∧ name ≠ "HEAD" }
  deriving DecidableEq

namespace BranchName

/-- The branch of a name, unless no branch can have it. -/
def of (name : String) : Option BranchName :=
  if proper : name ≠ "" ∧ name ≠ "HEAD" then some ⟨name, proper⟩ else none

/-- The full name of a branch's ref. -/
def full (branch : BranchName) : String := "refs/heads/" ++ branch.1

/-- The branch whose ref has a full name. -/
def ofFull (full : String) : Option BranchName :=
  if "refs/heads/".toList <+: full.toList then of (String.ofList (full.toList.drop 11)) else none

end BranchName

/-- The full names a name may be short for, in the order they are tried. -/
def fullNames (name : String) : List String :=
  [name, "refs/" ++ name, "refs/tags/" ++ name, "refs/heads/" ++ name, "refs/remotes/" ++ name,
    "refs/remotes/" ++ name ++ "/HEAD"]

/-- The commits that refs are at, by their full names. -/
abbrev Refs := String → Option Nat

namespace Refs

variable (refs : Refs)

/-- The commit a name stands for: that of the first ref it may be short for. -/
def resolve (name : String) : Option Nat := (fullNames name).findSome? refs

/-- The commit a name stands for when it stands for one ref only. -/
def resolveUnique (name : String) : Option Nat :=
  match (fullNames name).filterMap refs with
  | [commit] => some commit
  | _ => none

/-- Of the refs a name may be short for, no other is there. -/
def Unambiguous (name full : String) : Prop :=
  ∀ other ∈ fullNames name, other ≠ full → refs other = none

instance (name full : String) : Decidable (refs.Unambiguous name full) :=
  inferInstanceAs (Decidable (∀ other ∈ fullNames name, _))

/-- The shortest name of a branch that is not ambiguous; its full name if every one is. -/
def shorten (branch : BranchName) : String :=
  if refs.Unambiguous branch.1 branch.full then branch.1
  else if refs.Unambiguous ("heads/" ++ branch.1) branch.full then "heads/" ++ branch.1
  else branch.full

variable {refs}

end Refs

end Git
