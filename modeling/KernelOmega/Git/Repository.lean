import KernelOmega.Git.Files
import KernelOmega.Git.Refs
import Mathlib.Logic.Function.Basic

/-!
# A git repository

Commits, branches and other refs, `HEAD`, the index and the working tree, and the effect the
documentation gives to the commands a program uses to work on branches. A command that fails changes
nothing.

Switching from one commit to another is the two-tree merge of `git read-tree`: a path that is the
same in both commits keeps its entry and its file. A path that differs may already be in the
index as in the new commit, and its file is left alone; or it is as in the old commit with a
clean file, and it is replaced; otherwise the command refuses. A file that is missing from the
working tree counts as clean, and so does one that is ignored and not tracked. A file that has to be
created needs its place free, and ignored files make room for it. Contents are those git compares:
no filter or line-ending conversion is between the index and the working tree.
-/

namespace Git

/-- `HEAD` names a branch, which need not have a commit yet, or a commit. -/
inductive Head where
  | branch (name : BranchName)
  | detached (commit : Nat)
  deriving DecidableEq

/-- A commit has its files and the commit it was made on. The merges of git have more than one
parent and are made by nothing here. -/
structure Commit (Content : Type) where
  tree : Files String Content
  parent : Option Nat

/-- The commits are numbered in the order they were made. -/
structure Repository (Content : Type) where
  initialized : Bool
  commits : List (Commit Content)
  branches : BranchName → Option Nat
  /-- The refs that are no branches: tags, the refs of remotes, files of git's own directory. -/
  others : Refs
  head : Head
  index : Files String Content
  work : Files String Content
  /-- The user's settings, empty where there is none. -/
  config : String → String
  /-- Whether a path of a working tree is ignored. -/
  ignored : Files String Content → Path String → Bool
  /-- Whether a path of a working tree is inside a repository of its own. -/
  nested : Files String Content → Path String → Bool
  /-- The entries that `add .` makes for the repositories inside a working tree. -/
  links : Files String Content → Files String Content

/-- The commands `merger.py` runs, in the forms it runs them in. -/
inductive Command where
  /-- `init -b <branch>` -/
  | init (branch : BranchName)
  /-- `config <key>` -/
  | configGet (key : String)
  /-- `config <key> <value>` -/
  | configSet (key value : String)
  /-- `rev-parse --verify HEAD` -/
  | verifyHead
  /-- `rev-parse --abbrev-ref HEAD` -/
  | currentRev
  /-- `add .` -/
  | addAll
  /-- `add <path>` -/
  | add (path : Path String)
  /-- `commit [--allow-empty] -m <message>` -/
  | commit (allowEmpty : Bool) (message : String)
  /-- `checkout -B <branch> <start>` -/
  | checkoutNew (branch : BranchName) (start : String)
  /-- `checkout <rev>` -/
  | checkout (rev : String)

/-- What a command prints, as far as it is read. -/
@[reducible] def Command.Reply : Command → Type
  | .configGet _ => String
  | .currentRev => String
  | _ => Unit

namespace Repository

variable {Content : Type}

section Commits

variable (r : Repository Content)

/-- The commit `HEAD` stands on, if it has one. -/
def headCommit : Option Nat :=
  match r.head with
  | .branch name => r.branches name
  | .detached commit => some commit

/-- The commit of a ref, by its full name. -/
def refs : Refs := fun full =>
  if full = "HEAD" then r.headCommit
  else match BranchName.ofFull full with
    | some branch => r.branches branch
    | none => r.others full

/-- The branch that is there under a name, and its commit. -/
def branchAt (name : String) : Option (BranchName × Nat) :=
  (BranchName.of name).bind fun branch => (r.branches branch).map fun commit => (branch, commit)

/-- No other ref is called `HEAD`. -/
def HeadNamed : Prop := r.refs.Unambiguous "HEAD" "HEAD"

instance : Decidable r.HeadNamed := inferInstanceAs (Decidable (Refs.Unambiguous _ _ _))

/-- The files of a commit. -/
def treeOf (commit : Nat) : Files String Content :=
  match r.commits[commit]? with
  | some commit => commit.tree
  | none => []

/-- The files of the commit `HEAD` is at. -/
def headTree : Files String Content :=
  match r.headCommit with
  | some commit => r.treeOf commit
  | none => []

/-- What `git rev-parse --abbrev-ref HEAD` prints. -/
def currentRev : String :=
  match r.head with
  | .branch name => r.refs.shorten name
  | .detached _ => "HEAD"

/-- Make a commit; its number is that of the commits before. -/
def record (commit : Commit Content) : Repository Content :=
  { r with commits := r.commits ++ [commit] }

/-- Move the branch `HEAD` is on, or `HEAD` itself. -/
def moveHead (commit : Nat) : Repository Content :=
  match r.head with
  | .branch name => { r with branches := Function.update r.branches name (some commit) }
  | .detached _ => { r with head := .detached commit }

/-- Commit the whole index. -/
def commitIndex : Repository Content :=
  (r.record ⟨r.index, r.headCommit⟩).moveHead r.commits.length

end Commits

variable [DecidableEq Content]

/-- A file there is ignored, and not tracked. -/
def Expendable (r : Repository Content) (p : Path String) : Prop :=
  r.ignored r.work p = true ∧ r.index.get p = none

instance (r : Repository Content) (p : Path String) : Decidable (r.Expendable p) :=
  inferInstanceAs (Decidable (_ ∧ _))

/-- A switch to the files `new` may change the path. -/
def MayChange (r : Repository Content) (new : Files String Content) (p : Path String) : Prop :=
  r.index.get p = new.get p ∨
    (r.index.get p = r.headTree.get p ∧
      (r.work.get p = r.index.get p ∨ r.work.get p = none ∨ r.Expendable p))

instance (r : Repository Content) (new : Files String Content) (p : Path String) :
    Decidable (r.MayChange new p) := inferInstanceAs (Decidable (_ ∨ _))

/-- The paths whose files a switch to the files `new` replaces. -/
def replaced (r : Repository Content) (new : Files String Content) : List (Path String) :=
  (Files.differing r.headTree new).filter fun p => r.index.get p ≠ new.get p

/-- An ignored file is where a directory of a file that is created goes, or below that file. -/
def InTheWay (r : Repository Content) (new : Files String Content) (q : Path String) : Prop :=
  r.Expendable q ∧ ∃ p ∈ r.replaced new, new.get p ≠ none ∧ Clash p q

instance (r : Repository Content) (new : Files String Content) (q : Path String) :
    Decidable (r.InTheWay new q) := inferInstanceAs (Decidable (_ ∧ ∃ p ∈ _, _))

/-- The working tree after a switch. -/
def switchedWork (r : Repository Content) (new : Files String Content) : Files String Content :=
  (r.work.drop fun q => decide (r.InTheWay new q)).overwrite new (r.replaced new)

/-- The files created have their places free. -/
def PlacesFree (work new : Files String Content) (created : List (Path String)) : Prop :=
  ∀ p ∈ created, new.get p ≠ none → ∀ q ∈ work.paths, Clash p q → work.get q = none

instance (work new : Files String Content) (created : List (Path String)) :
    Decidable (PlacesFree work new created) := inferInstanceAs (Decidable (∀ p ∈ created, _))

/-- The index and the working tree are switched to the files of a commit. -/
def switch (r : Repository Content) (new : Files String Content) : Option (Repository Content) :=
  if (∀ p ∈ Files.differing r.headTree new, r.MayChange new p) ∧
      PlacesFree (r.switchedWork new) new (r.replaced new) then
    some { r with
      index := r.index.overwrite new (Files.differing r.headTree new)
      work := r.switchedWork new }
  else none

/-- The path is inside the repository's own directory. -/
def IsInternal (p : Path String) : Prop := p.head? = some ".git"

instance (p : Path String) : Decidable (IsInternal p) := inferInstanceAs (Decidable (_ = _))

/-- `git add` passes over a path of a directory `.git`, and over one inside a repository of its
own that is not in the index: it adds nothing and does not fail. -/
def PassesOver (r : Repository Content) (p : Path String) : Prop :=
  ".git" ∈ p ∨ (r.nested r.work p = true ∧ r.index.get p = none)

instance (r : Repository Content) (p : Path String) : Decidable (r.PassesOver p) :=
  inferInstanceAs (Decidable (_ ∨ _))

/-- `git add` refuses a path that is ignored, unless it is in the index or passed over. -/
def RefusesToAdd (r : Repository Content) (p : Path String) : Prop :=
  ¬r.PassesOver p ∧ r.Expendable p

instance (r : Repository Content) (p : Path String) : Decidable (r.RefusesToAdd p) :=
  inferInstanceAs (Decidable (_ ∧ _))

/-- The index that `git add .` makes: that of the working tree, with an entry for each repository
inside, and without what is ignored. -/
def gathered (r : Repository Content) : Files String Content :=
  r.links r.work ++ r.work.drop fun p => decide (r.PassesOver p ∨ r.Expendable p)

/-- What a command prints and does, when it does not fail. A name on the command line is that of a
branch first; the commit of another ref is checked out without a branch. -/
def run : (command : Command) → Repository Content → Option (command.Reply × Repository Content)
  | .init branch, r =>
    if r.initialized then some ((), r)
    else some ((), { r with initialized := true, head := .branch branch })
  | .configGet key, r => some (r.config key, r)
  | .configSet key value, r => some ((), { r with config := Function.update r.config key value })
  | .verifyHead, r => if r.headCommit.isSome then some ((), r) else none
  | .currentRev, r => if r.headCommit.isSome ∧ r.HeadNamed then some (r.currentRev, r) else none
  | .addAll, r => some ((), { r with index := r.gathered })
  | .add path, r =>
    if r.PassesOver path then some ((), r)
    else if r.RefusesToAdd path then none
    else match r.work.get path with
      | some content => some ((), { r with index := r.index.put path content })
      | none => none
  | .commit allowEmpty _, r =>
    if allowEmpty = false ∧ r.index.Same r.headTree then none
    else some ((), r.commitIndex)
  | .checkoutNew branch start, r =>
    match r.refs.resolveUnique start with
    | none => none
    | some commit => (r.switch (r.treeOf commit)).map fun r =>
        ((), { r with branches := Function.update r.branches branch (some commit), head := .branch branch })
  | .checkout rev, r =>
    match r.branchAt rev with
    | some (branch, commit) => (r.switch (r.treeOf commit)).map fun r =>
        ((), { r with head := .branch branch })
    | none =>
      match r.refs.resolve rev with
      | none => none
      | some commit =>
        if rev = "HEAD" then some ((), r)
        else (r.switch (r.treeOf commit)).map fun r => ((), { r with head := .detached commit })

/-- The index once a path that has this content is added. -/
def staged (r : Repository Content) (p : Path String) (content : Content) : Files String Content :=
  if r.PassesOver p then r.index else r.index.put p content

end Repository

end Git
