import KernelOmega.Concurrent.Prog
import KernelOmega.Contracts
import KernelOmega.Git.Repository
import Mathlib.Data.List.DropRight

/-!
# Applying a patch

`MergerService.apply_patch` of `control_plane/merger.py`, with `_ensure_repo` and `_git_checked`,
as a program of git commands and file operations on one repository: it creates or resets a repair
branch at the base, writes the file, stages and commits it, and goes back to the base. The base is
the name that git prints for `HEAD`, so whether the last step goes back to a branch depends on what
else has that name. Any command or operation can fail besides: a failing git command changes
nothing, and a failing write may leave a part of the text.
-/

namespace KernelOmega

open Concurrent Git

/-- What the merger asks of git and of the file system. -/
inductive MergerCall where
  | git (command : Command)
  /-- `repo_path.mkdir(parents=True, exist_ok=True)` -/
  | mkdirRepo
  /-- `(repo_path / ".git").exists()` -/
  | dotGitExists
  /-- `(repo / source_relpath).resolve()`, as a path below the repository if it is one -/
  | resolve (sourceRelpath : String)
  /-- `target.parent.mkdir(parents=True, exist_ok=True)` -/
  | mkdirParent (target : Path String)
  /-- `target.write_text(code, encoding="utf-8")` -/
  | write (target : Path String) (code : String)

/-- A git command that fails has a nonzero return code and says why. -/
@[reducible] def MergerCall.Reply : MergerCall → Type
  | .git command => Except String command.Reply
  | .dotGitExists => Bool
  | .resolve _ => Option (Path String)
  | _ => Unit

/-- What a write comes to. -/
inductive WriteFate where
  | written
  /-- It fails, leaving the file alone or with another text. -/
  | failed (left : Option String)
  deriving DecidableEq

/-- What fails that could have worked. -/
structure MergeFaults where
  gitFails : Command → Bool
  /-- What git says when a command fails. -/
  stderr : Command → String
  mkdirRepoFails : Bool
  mkdirParentFails : Bool
  write : WriteFate

/-- The machine the merger works on. -/
structure MergeHost where
  /-- How the names in a path and the links in the working tree resolve; `none` is outside. -/
  resolve : Files String String → String → Option (Path String)
  /-- What becomes of a repository when a file inside `.git` comes to hold a text. -/
  writeInternal : Path String → String → Repository String → Repository String
  /-- A path of the repository as git is given it. -/
  str : Path String → String

/-- A file of the working tree is where a directory above the target should be. -/
def FileAbove (work : Files String String) (target : Path String) : Prop :=
  ∃ q ∈ work.paths, work.get q ≠ none ∧ q ≠ target ∧ q <+: target

/-- The target is a directory. -/
def FileBelow (work : Files String String) (target : Path String) : Prop :=
  target = [] ∨ ∃ q ∈ work.paths, work.get q ≠ none ∧ q ≠ target ∧ target <+: q

instance (work : Files String String) (target : Path String) : Decidable (FileAbove work target) :=
  inferInstanceAs (Decidable (∃ q ∈ work.paths, _))

instance (work : Files String String) (target : Path String) : Decidable (FileBelow work target) :=
  inferInstanceAs (Decidable (_ ∨ _))

namespace MergeHost

variable (host : MergeHost)

/-- What a git command comes to. -/
def runGit (faults : MergeFaults) (command : Command) (r : Repository String) :
    Except String command.Reply × Repository String :=
  if faults.gitFails command then (.error (faults.stderr command), r)
  else match r.run command with
    | some (reply, r') => (.ok reply, r')
    | none => (.error (faults.stderr command), r)

/-- The repository when the target has come to hold a text. Inside `.git` that can change all that
git knows of, but neither remove the repository nor touch the working tree. -/
def place (target : Path String) (text : String) (r : Repository String) : Repository String :=
  if Repository.IsInternal target then
    { host.writeInternal target text r with initialized := r.initialized, work := r.work }
  else { r with work := r.work.put target text }

/-- What a write does. -/
def runWrite (fate : WriteFate) (target : Path String) (code : String) (r : Repository String) :
    Except PyError Unit × Repository String :=
  if FileBelow r.work target then (.error (.osError "Is a directory"), r)
  else match fate with
    | .written => (.ok (), host.place target code r)
    | .failed none => (.error (.osError "write failed"), r)
    | .failed (some left) => (.error (.osError "write failed"), host.place target left r)

/-- One call. Each may fail for reasons of its own, which the faults say; a command of git may also
refuse, as the state of the repository has it. -/
def exec : Exec MergerCall MergerCall.Reply PyError MergeFaults (Repository String)
  | faults, .git command, r => let done := runGit faults command r; (.ok done.1, done.2)
  | faults, .mkdirRepo, r =>
    (if faults.mkdirRepoFails then .error (.osError "mkdir failed") else .ok (), r)
  | _, .dotGitExists, r => (.ok r.initialized, r)
  | _, .resolve sourceRelpath, r => (.ok (host.resolve r.work sourceRelpath), r)
  | faults, .mkdirParent target, r =>
    (if faults.mkdirParentFails ∨ FileAbove r.work target then .error (.osError "mkdir failed")
      else .ok (), r)
  | faults, .write target code, r => host.runWrite faults.write target code r

/-- The words after `git`. -/
def args : Command → List String
  | .init branch => ["init", "-b", branch.1]
  | .configGet key => ["config", key]
  | .configSet key value => ["config", key, value]
  | .verifyHead => ["rev-parse", "--verify", "HEAD"]
  | .currentRev => ["rev-parse", "--abbrev-ref", "HEAD"]
  | .addAll => ["add", "."]
  | .add path => ["add", host.str path]
  | .commit true message => ["commit", "--allow-empty", "-m", message]
  | .commit false message => ["commit", "-m", message]
  | .checkoutNew branch start => ["checkout", "-B", branch.1, start]
  | .checkout rev => ["checkout", rev]

/-- The error for a command that failed. -/
def failure (command : Command) (stderr : String) : PyError :=
  .runtimeError ("git " ++ String.intercalate " " (host.args command) ++ ": " ++
    if stderr = "" then "git command failed" else stderr)

end MergeHost

/-- A program over git and the file system, as `merger.py` calls them. -/
abbrev MergerScript (α : Type) := Prog MergerCall MergerCall.Reply PyError α

/-- The run of a script with the same faults all the way. -/
abbrev MergerScript.runOn {α : Type} (host : MergeHost) (faults : MergeFaults) (script : MergerScript α)
    (r : Repository String) : Except PyError α × Repository String :=
  script.run host.exec (fun _ => faults) r

def mainBranch : BranchName := ⟨"main", by decide⟩

theorem repair_head (suffix : String) : ("omega_repair_" ++ suffix).toList.head? = some 'o' := by
  rw [String.toList_append]
  rfl

/-- `f"omega_repair_{capsule_id[-8:]}"` -/
def repairBranch (capsuleId : String) : BranchName :=
  ⟨"omega_repair_" ++ String.ofList (capsuleId.toList.rtake 8),
    fun same => absurd ((repair_head _).symm.trans (congrArg (·.toList.head?) same)) (by decide),
    fun same => absurd ((repair_head _).symm.trans (congrArg (·.toList.head?) same)) (by decide)⟩

namespace MergerService

variable (host : MergeHost)

/-- `_git` -/
def git (command : Command) : MergerScript (Except String command.Reply) :=
  Prog.call (MergerCall.git command)

/-- `_git_checked` -/
def gitChecked (command : Command) : MergerScript command.Reply := do
  match ← git command with
  | .ok reply => return reply
  | .error stderr => .raise (host.failure command stderr)

/-- Make a repository where there is none. -/
def ensureInit : MergerScript Unit := do
  let there ← Prog.call MergerCall.dotGitExists
  if there then
    return ()
  else
    gitChecked host (.init mainBranch)

/-- Set a user setting that is empty. -/
def ensureConfig (key value : String) : MergerScript Unit := do
  let stdout ← git (.configGet key)
  if stdout.toOption.getD "" = "" then
    gitChecked host (.configSet key value)
  else
    return ()

/-- Make the first commit where there is none. -/
def ensureCommit : MergerScript Unit := do
  match ← git .verifyHead with
  | .ok _ => return ()
  | .error _ => do
    gitChecked host .addAll
    gitChecked host (.commit true "Initial repository state")

/-- `stdout.strip() or "main"` -/
def orMain (stdout : String) : String := if stdout = "" then "main" else stdout

/-- `_ensure_repo` -/
def ensureRepo : MergerScript String := do
  Prog.call MergerCall.mkdirRepo
  ensureInit host
  ensureConfig host "user.email" "omega@example.local"
  ensureConfig host "user.name" "Kernel Omega"
  ensureCommit host
  let current ← git .currentRev
  return orMain (current.toOption.getD "")

/-- The command that commits the repair. -/
def commitRepair (capsuleId : String) : Command :=
  .commit false ("Kernel Omega repair for " ++ String.ofList (capsuleId.toList.rtake 8))

/-- What `apply_patch` does on the repair branch. -/
def repairOn (capsuleId code sourceRelpath : String) : MergerScript Unit := do
  let target ← Prog.call (MergerCall.resolve sourceRelpath)
  match target with
  | none => .raise (.valueError ("unsafe source_relpath outside repo: " ++ sourceRelpath))
  | some target => do
    Prog.call (MergerCall.mkdirParent target)
    Prog.call (MergerCall.write target code)
    gitChecked host (.add target)
    gitChecked host (commitRepair capsuleId)

/-- `apply_patch` -/
def applyPatch (capsuleId code sourceRelpath : String) : MergerScript Unit := do
  let baseBranch ← ensureRepo host
  gitChecked host (.checkoutNew (repairBranch capsuleId) baseBranch)
  repairOn host capsuleId code sourceRelpath
  gitChecked host (.checkout baseBranch)

end MergerService

end KernelOmega
