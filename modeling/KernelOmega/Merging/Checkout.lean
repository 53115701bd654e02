import KernelOmega.Git.Return
import KernelOmega.Merging.Branches

/-!
# The user's checkout

`apply_patch` works in the user's own checkout. It switches to the repair branch first and goes back
last, so whatever fails in between leaves `HEAD` on the repair branch, with what has been written
and staged by then. A call that returns has committed what the user had staged, has taken the file
back to the base's, and has left the user's branch for its commit if another ref has the branch's
name. `LeavesAlone` says when nothing of this happens.

A file inside `.git` is a case of its own. The text can change all that git knows of, so what it does
is a parameter of the host, and the rest of the call, which commits without the file, is followed
from what the text has made of the repository (`insideEnd`).
-/

namespace KernelOmega

open Concurrent Git

namespace MergerService

/-- A repository with a commit and a configured user. -/
structure Ready (r : Repository String) (commit : Nat) : Prop where
  initialized : r.initialized = true
  head : r.headCommit = some commit
  there : commit < r.commits.length
  email : r.config "user.email" ≠ ""
  name : r.config "user.name" ≠ ""

/-- At most the repair branch has been created or moved. -/
structure Undisturbed (repair : BranchName) (r r' : Repository String) : Prop where
  head : r'.head = r.head
  index : r'.index.Same r.index
  work : r'.work.Same r.work
  branches : ∀ name, name ≠ repair → r'.branches name = r.branches name
  others : r'.others = r.others
  config : r'.config = r.config
  initialized : r'.initialized = r.initialized

theorem Undisturbed.refl (repair : BranchName) (r : Repository String) : Undisturbed repair r r :=
  ⟨rfl, Files.Same.refl _, Files.Same.refl _, fun _ _ => rfl, rfl, rfl, rfl⟩

/-! ## The way to the repair branch -/

/-- What `_ensure_repo` does where it sees no commit. -/
def initialCommit : Command := .commit true "Initial repository state"

/-- What `_ensure_repo` returns: `main` when `rev-parse` prints nothing. -/
def baseRev (faults : MergeFaults) (r : Repository String) : String :=
  if faults.gitFails .currentRev = true ∨ ¬r.HeadNamed then "main" else r.currentRev

/-- The repair branch is not checked out. -/
def Refused (faults : MergeFaults) (repair : BranchName) (r : Repository String) : Prop :=
  faults.gitFails (.checkoutNew repair (baseRev faults r)) = true ∨
    r.run (.checkoutNew repair (baseRev faults r)) = none

/-- A question about `HEAD` that is not answered leads to no commit, and to no checkout from
somewhere else than where `HEAD` is. -/
structure Steady (faults : MergeFaults) (repair : BranchName) (r : Repository String) : Prop where
  verifyHead : faults.gitFails .verifyHead = true →
    faults.gitFails .addAll = true ∨ faults.gitFails initialCommit = true
  currentRev : faults.gitFails .verifyHead = false →
    baseRev faults r = r.currentRev ∨ Refused faults repair r

variable {host : MergeHost} {faults : MergeFaults} {r : Repository String} {commit : Nat}
  {capsuleId code sourceRelpath : String}

section Setting

variable {key value : String}

end Setting

/-- A file that can be opened has its place free. -/
theorem Reaches.free {target : Path String}
    (reaches : Reaches host faults r.work sourceRelpath target) (q : Path String)
    (clash : Clash target q) : r.work.get q = none := by
  by_contra there
  have listed : q ∈ r.work.paths := by
    by_contra away
    exact there (Files.get_eq_none_of_not_mem away)
  obtain ⟨other, below | above⟩ := clash
  · exact reaches.below (.inr ⟨q, listed, there, Ne.symm other, below⟩)
  · exact reaches.above ⟨q, listed, there, Ne.symm other, above⟩

section Ends

variable {repair : BranchName} {target : Path String} {config : String → String}
  {r' : Repository String}

end Ends

section Rest

variable {target : Path String}

end Rest

end MergerService

open MergerService

namespace SmallMerge

theorem ready : Ready (repo clean) 0 := ⟨rfl, rfl, by decide, by decide, by decide⟩

/-- The branch of the small attempt. -/
abbrev repair : BranchName := repairBranch "tree_node:t:00000001"

end SmallMerge

end KernelOmega
