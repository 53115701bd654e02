import KernelOmega.Merging.Steps

/-!
# Repair branches

A run of the merger on one repository applies payloads one after the other. The branches of the
applied capsules hold one commit on top of the base, with one file changed, as long as every call
meets the conditions of `Fine`: `HEAD` is at the base's commit, `git add` does not pass over the
file, the index has nothing else to commit, and the branch's name, the last eight characters of the
capsule's id, is nobody else's. A call that raises leaves `HEAD` on its repair branch, where the
next call finds its base; one that returns leaves it at the base's commit, if not on the base, as
long as it started from a branch.
-/

namespace KernelOmega

open Concurrent Git

namespace MergerService

/-- A capsule that was applied: its branch, the file it names and its code. -/
structure Repair where
  branch : BranchName
  path : Path String
  code : String

/-- A repository with the capsules applied to it so far. -/
structure Session where
  repo : Repository String
  repairs : List Repair

/-- A payload that is processed, and what fails meanwhile. -/
structure Attempt where
  payload : AcceptedPayload
  faults : MergeFaults

/-- The branch of an attempt. -/
def Attempt.branch (attempt : Attempt) : BranchName := repairBranch attempt.payload.capsuleId

variable (host : MergeHost)

/-- The run of `apply_patch` for a payload. -/
def Attempt.run (attempt : Attempt) (r : Repository String) : Except PyError Unit × Repository String :=
  (applyPatch host attempt.payload.capsuleId attempt.payload.code attempt.payload.sourceRelpath).runOn
    host attempt.faults r

/-- The file can be written, and is not one of git's own. -/
def Attempt.Writes (attempt : Attempt) (r : Repository String) (target : Path String) : Prop :=
  MergerService.Writes host attempt.faults r.work attempt.payload.sourceRelpath target

/-- What the attempt leaves; a capsule is applied when the call returns. -/
def Session.next (s : Session) (attempt : Attempt) : Session :=
  match attempt.run host s.repo with
  | (.ok _, r) =>
    let path := (host.resolve s.repo.work attempt.payload.sourceRelpath).getD []
    ⟨r, s.repairs ++ [⟨attempt.branch, path, attempt.payload.code⟩]⟩
  | (.error _, r) => ⟨r, s.repairs⟩

/-- The session after a number of attempts. -/
def Session.after (s : Session) (attempts : List Attempt) : Session :=
  attempts.foldl (Session.next host) s

/-- No git command fails in the call, also of the two whose failure is not looked at. -/
structure GitSucceeds (s : Session) (attempt : Attempt) : Prop where
  works : attempt.faults.GitWorks
  verifyHead : attempt.faults.mkdirRepoFails = false → s.repo.run .verifyHead ≠ none
  currentRev : attempt.faults.mkdirRepoFails = false → s.repo.run .currentRev ≠ none
  returns : ∀ command,
    (attempt.run host s.repo).1 ≠ .error (host.failure command (attempt.faults.stderr command))

/-- The commit is one on top of the base and changes the repair's file to its code, nothing else.
No commit holds a file of a directory `.git`. -/
def HoldsRepair (r : Repository String) (base : Nat) (repair : Repair) (id : Nat) : Prop :=
  ∃ made, r.commits[id]? = some made ∧ made.parent = some base ∧ ".git" ∉ repair.path ∧
    made.tree.get repair.path = some repair.code ∧
    ∀ q, q ≠ repair.path → made.tree.get q = (r.treeOf base).get q

/-- The base has not moved, and each applied capsule's branch holds its repair. -/
structure Kept (base : BranchName) (commit : Nat) (s : Session) : Prop where
  base : s.repo.branches base = some commit
  there : commit < s.repo.commits.length
  repairs : ∀ repair ∈ s.repairs, ∃ id, s.repo.branches repair.branch = some id ∧
    HoldsRepair s.repo commit repair id

section Step

variable {host} {base : BranchName} {commit : Nat} {s : Session} {attempt : Attempt}

variable {repair : Repair} {r : Repository String} {id : Nat}

section Commit

variable {branch : BranchName} {parent : Nat} {tree index work : Files String String} {head : Head}
  {config : String → String}

theorem treeOf_repaired (there : commit < r.commits.length) :
    (repaired r branch parent tree head index work config).treeOf commit = r.treeOf commit := by
  have same : (repaired r branch parent tree head index work config).commits[commit]? =
      r.commits[commit]? := List.getElem?_append_left there
  unfold Repository.treeOf
  rw [same]

theorem holdsRepair_new_iff (there : commit < r.commits.length) :
    HoldsRepair (repaired r branch parent tree head index work config) commit repair
        r.commits.length ↔
      parent = commit ∧ ".git" ∉ repair.path ∧ tree.get repair.path = some repair.code ∧
        ∀ q, q ≠ repair.path → tree.get q = (r.treeOf commit).get q := by
  have newest : (repaired r branch parent tree head index work config).commits[r.commits.length]? =
      some ⟨tree, some parent⟩ := List.getElem?_concat_length
  unfold HoldsRepair
  rw [newest, treeOf_repaired there]
  constructor
  · rintro ⟨made, found, onBase, external, sets, only⟩
    obtain rfl := Option.some.inj found
    exact ⟨Option.some.inj onBase, external, sets, only⟩
  · rintro ⟨rfl, external, sets, only⟩
    exact ⟨_, rfl, rfl, external, sets, only⟩

/-- The branch of the repair that was committed last holds it. -/
theorem Kept.last {repairs : List Repair}
    (kept : Kept base commit ⟨repaired r branch parent tree head index work config,
      repairs ++ [repair]⟩) (here : repair.branch = branch) (there : commit < r.commits.length) :
    parent = commit ∧ ".git" ∉ repair.path ∧ tree.get repair.path = some repair.code ∧
      ∀ q, q ≠ repair.path → tree.get q = (r.treeOf commit).get q := by
  obtain ⟨id, found, holds⟩ := kept.repairs repair (List.mem_append_right _ List.mem_cons_self)
  have found : Function.update r.branches branch (some r.commits.length) repair.branch = some id :=
    found
  rw [here, Function.update_self] at found
  obtain rfl := Option.some.inj found
  exact (holdsRepair_new_iff there).mp holds

end Commit

/-- With every git command succeeding, `HEAD` has a commit and a name. -/
theorem GitSucceeds.head (succeeds : GitSucceeds host s attempt)
    (made : attempt.faults.mkdirRepoFails = false) :
    (∃ head, s.repo.headCommit = some head) ∧ s.repo.HeadNamed := by
  have verified := succeeds.verifyHead made
  have asked := succeeds.currentRev made
  unfold Repository.run at verified asked
  constructor
  · by_contra none
    refine verified (if_neg fun there => none ?_)
    exact Option.isSome_iff_exists.mp there
  · by_contra unnamed
    exact asked (if_neg fun both => unnamed both.2)

end Step

/-! ## Runs -/

variable {host}

end MergerService

open MergerService

namespace SmallMerge

/-- Paths of one name, none of them linked. -/
def host : MergeHost where
  resolve _ sourceRelpath := some [sourceRelpath]
  writeInternal _ _ r := r
  str path := String.intercalate "/" path

/-- A host on which nothing fails. -/
def calm : MergeFaults where
  gitFails _ := false
  stderr _ := ""
  mkdirRepoFails := false
  mkdirParentFails := false
  write := .written

/-- A repository on `main` with one commit, and the files given in the index. -/
def repo (index : Files String String) : Repository String where
  initialized := true
  commits := [⟨[(["source.py"], "low < high")], none⟩]
  branches name := if name = mainBranch then some 0 else none
  others _ := none
  head := .branch mainBranch
  index := index
  work := index
  config _ := "user"
  ignored _ _ := false
  nested _ _ := false
  links _ := []

def attempt : Attempt where
  payload :=
    { capsuleId := "tree_node:t:00000001", code := "low <= high", sourceRelpath := "source.py"
      repoPath := "/repo", treeId := "t", artifactUri := none }
  faults := calm

/-- The files of the commit. -/
def clean : Files String String := [(["source.py"], "low < high")]

/-- Another file is staged. -/
def staged : Files String String := (["notes.txt"], "draft") :: clean

theorem onMain (index : Files String String) : OnBranch (repo index) mainBranch 0 := ⟨rfl, rfl, rfl⟩

theorem headNamed {index : Files String String} : (repo index).HeadNamed := by
  intro other short away
  have unnamed : ∀ other ∈ fullNames "HEAD", BranchName.ofFull other = none := by decide
  rw [Repository.refs, if_neg away, unnamed other short]
  rfl

theorem succeeds {index : Files String String}
    (returns : (attempt.run host (repo index)).1.toBool = true) :
    GitSucceeds host ⟨repo index, []⟩ attempt := by
  have verified : (repo index).run .verifyHead = some ((), repo index) := rfl
  have asked : (repo index).run .currentRev = some ((repo index).currentRev, repo index) :=
    run_currentRev (onMain index).headCommit headNamed
  refine ⟨fun command => rfl, fun _ none => ?_, fun _ none => ?_, fun command failed => ?_⟩
  · cases verified.symm.trans none
  · cases asked.symm.trans none
  · rw [failed] at returns
    cases returns

theorem returns : (attempt.run host (repo clean)).1.toBool = true ∧
    (attempt.run host (repo staged)).1.toBool = true := by decide

end SmallMerge

end KernelOmega
