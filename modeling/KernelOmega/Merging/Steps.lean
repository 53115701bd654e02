import KernelOmega.Git.Return
import KernelOmega.Merging.ApplyPatch

/-!
# The steps of applying a patch

What each part of `apply_patch` does to a repository whose `HEAD` has a commit, when no git command
is made to fail: `_ensure_repo` changes at most the user's settings; the checkout that creates the
repair branch changes neither index nor working tree, since the base is where `HEAD` is; the commit
takes the whole index, also where `git add` has passed over the file; and the last checkout goes to
whatever the base's name stands for by then.
-/

namespace KernelOmega

open Concurrent Git

/-- No git command fails that could work. -/
def MergeFaults.GitWorks (faults : MergeFaults) : Prop := ∀ command, faults.gitFails command = false

namespace MergerService

/-- `HEAD` is on a branch that has a commit. -/
structure OnBranch (r : Repository String) (branch : BranchName) (commit : Nat) : Prop where
  initialized : r.initialized = true
  head : r.head = .branch branch
  commit : r.branches branch = some commit

variable {host : MergeHost} {faults : MergeFaults} {r r' : Repository String}

/-- The settings when a user setting that is empty has been set. -/
def configured (key value : String) (config : String → String) : String → String :=
  if config key = "" then Function.update config key value else config

/-- The settings after `_ensure_repo`. -/
def settled (config : String → String) : String → String :=
  configured "user.name" "Kernel Omega" (configured "user.email" "omega@example.local" config)

variable {branch : BranchName} {commit : Nat}

theorem OnBranch.headCommit (on : OnBranch r branch commit) : r.headCommit = some commit := by
  rw [Repository.headCommit, on.head]
  exact on.commit

theorem OnBranch.headTree (on : OnBranch r branch commit) : r.headTree = r.treeOf commit := by
  rw [Repository.headTree, on.headCommit]

/-- a commit on a branch, -/
theorem OnBranch.commitIndex (on : OnBranch r branch commit) (index : Files String String) :
    Repository.commitIndex { r with index := index } = { r with
      commits := r.commits ++ [⟨index, some commit⟩]
      branches := Function.update r.branches branch (some r.commits.length)
      index := index } := by
  have at' : ({ r with index := index } : Repository String).headCommit = some commit :=
    on.headCommit
  rw [Repository.commitIndex, at']
  simp only [Repository.moveHead, Repository.record, on.head]

/-- What `git rev-parse` prints when `HEAD` has a commit and no other ref is called `HEAD`. -/
theorem run_currentRev (there : r.headCommit = some commit) (named : r.HeadNamed) :
    r.run .currentRev = some (r.currentRev, r) := by
  rw [Repository.run, there]
  exact if_pos ⟨rfl, named⟩

/-- The file can be opened: the path leads into the repository, its directory can be made, and no
directory has its name. -/
structure Reaches (host : MergeHost) (faults : MergeFaults) (work : Files String String)
    (sourceRelpath : String) (target : Path String) : Prop where
  inside : host.resolve work sourceRelpath = some target
  parentMade : faults.mkdirParentFails = false
  above : ¬FileAbove work target
  below : ¬FileBelow work target

/-- The file can be written, and is not one of git's own. -/
structure Writes (host : MergeHost) (faults : MergeFaults) (work : Files String String)
    (sourceRelpath : String) (target : Path String) : Prop
    extends Reaches host faults work sourceRelpath target where
  external : ¬Repository.IsInternal target
  written : faults.write = .written

theorem Reaches.eq {work : Files String String} {sourceRelpath : String} {target target' : Path String}
    (reaches : Reaches host faults work sourceRelpath target)
    (reaches' : Reaches host faults work sourceRelpath target') : target' = target :=
  Option.some.inj (reaches'.inside.symm.trans reaches.inside)

variable {capsuleId code sourceRelpath : String}

/-- The repository after a repair was committed on its branch. -/
def repaired (r : Repository String) (repair : BranchName) (commit : Nat)
    (tree : Files String String) (head : Head) (index work : Files String String)
    (config : String → String) : Repository String :=
  { r with
    commits := r.commits ++ [⟨tree, some commit⟩]
    branches := Function.update r.branches repair (some r.commits.length)
    head := head
    index := index
    work := work
    config := config }

section Calls

variable (host faults r commit capsuleId code sourceRelpath)

end Calls

end MergerService

end KernelOmega
