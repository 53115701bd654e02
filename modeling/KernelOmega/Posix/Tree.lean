import KernelOmega.Concurrent.Prog
import Mathlib.Data.List.Infix

/-!
# A tree of directories and files

The part of a POSIX file system that programs which only create things see: directories and
regular files under a top directory, no links and no permissions. A path is the list of its
names with the innermost first, so that the parent of a path is its tail and an ancestor is a
suffix.

`mkdir` and an opening for writing fail with the error the kernel gives, in its order of
precedence: the walk to the parent comes first.
-/

namespace Posix

open Concurrent

/-- A path from the top directory, innermost name first. -/
abbrev Path (Name : Type) := List Name

/-- A name stands for a directory or a file; there are no links. -/
inductive Entry (Content : Type) where
  | dir
  | file (content : Content)
  deriving DecidableEq

/-- The errors `mkdir` and an opening for writing end in here. -/
inductive Errno where
  | noent
  | exist
  | notdir
  | isdir
  deriving DecidableEq

/-- Directories and files: whatever is there stands in a directory. -/
@[ext]
structure Tree (Name Content : Type) where
  entry : Path Name → Option (Entry Content)
  top : entry [] = some .dir
  closed : ∀ name parent, entry (name :: parent) ≠ none → entry parent = some .dir

variable {Name Content : Type}

instance decidableEqSomeDir (entry : Option (Entry Content)) : Decidable (entry = some .dir) :=
  match entry with
  | some .dir => isTrue rfl
  | some (.file _) => isFalse fun same => by cases same
  | none => isFalse fun same => by cases same

namespace Tree

/-- A tree with nothing but its top directory. -/
def empty [DecidableEq Name] : Tree Name Content where
  entry path := if path = [] then some .dir else none
  top := rfl
  closed name parent there := absurd (if_neg (List.cons_ne_nil name parent)) there

/-- The ancestors of what is there are directories. -/
theorem dir_of_append (t : Tree Name Content) {below path : Path Name} (proper : below ≠ [])
    (there : t.entry (below ++ path) ≠ none) : t.entry path = some .dir := by
  induction below with
  | nil => exact absurd rfl proper
  | cons name rest ih =>
    have parent := t.closed name (rest ++ path) there
    cases rest with
    | nil => exact parent
    | cons _ _ => exact ih (List.cons_ne_nil _ _) (by rw [parent]; exact Option.some_ne_none _)

/-- What is above a directory is a directory. -/
theorem dir_of_suffix (t : Tree Name Content) {above path : Path Name} (suffix : above <:+ path)
    (isDir : t.entry path = some .dir) : t.entry above = some .dir := by
  obtain ⟨below, rfl⟩ := suffix
  cases below with
  | nil => exact isDir
  | cons name rest =>
    refine t.dir_of_append (List.cons_ne_nil name rest) ?_
    rw [isDir]
    exact Option.some_ne_none _

/-- Path resolution: the walk from the top directory ends at the first name that is missing or
follows a file. -/
def lookup (t : Tree Name Content) : Path Name → Except Errno (Entry Content)
  | [] => .ok .dir
  | name :: parent =>
    match t.lookup parent with
    | .error e => .error e
    | .ok (.file _) => .error .notdir
    | .ok .dir =>
      match t.entry (name :: parent) with
      | some entry => .ok entry
      | none => .error .noent

/-- The walk down a path finds what is there. -/
theorem lookup_eq_ok_iff (t : Tree Name Content) {path : Path Name} {entry : Entry Content} :
    t.lookup path = .ok entry ↔ t.entry path = some entry := by
  induction path generalizing entry with
  | nil =>
    rw [lookup, t.top]
    constructor
    · exact fun same => congrArg some (Except.ok.inj same)
    · exact fun same => congrArg Except.ok (Option.some.inj same)
  | cons name parent ih =>
    rw [lookup]
    constructor
    · intro found
      cases walk : t.lookup parent with
      | error e => rw [walk] at found; cases found
      | ok above =>
        rw [walk] at found
        cases above with
        | file content => cases found
        | dir =>
          cases there : t.entry (name :: parent) with
          | none => rw [there] at found; cases found
          | some entry' =>
            rw [there] at found
            exact congrArg some (Except.ok.inj found)
    · intro there
      have above := t.closed name parent (by rw [there]; exact Option.some_ne_none _)
      rw [ih.mpr above, there]

section Create

variable [DecidableEq Name]

/-- Put an entry where there is no directory, inside a directory. -/
def put (t : Tree Name Content) (name : Name) (parent : Path Name) (entry : Entry Content) :
    Tree Name Content :=
  if allowed : t.entry parent = some .dir ∧ t.entry (name :: parent) ≠ some .dir then
    { entry := Function.update t.entry (name :: parent) (some entry)
      top := (Function.update_of_ne (List.cons_ne_nil name parent).symm _ _).trans t.top
      closed := by
        intro name' parent' there
        have stays : ∀ path, t.entry path = some .dir →
            Function.update t.entry (name :: parent) (some entry) path = some .dir := by
          intro path isDir
          have other : path ≠ name :: parent := fun same => allowed.2 (same ▸ isDir)
          rw [Function.update_of_ne other, isDir]
        by_cases here : name' :: parent' = name :: parent
        · obtain ⟨rfl, rfl⟩ := List.cons.inj here
          exact stays _ allowed.1
        · rw [Function.update_of_ne here] at there
          exact stays _ (t.closed name' parent' there) }
  else t

theorem put_entry {t : Tree Name Content} {name : Name} {parent : Path Name}
    (inDir : t.entry parent = some .dir) (free : t.entry (name :: parent) ≠ some .dir)
    (entry : Entry Content) :
    (t.put name parent entry).entry = Function.update t.entry (name :: parent) (some entry) := by
  unfold put
  rw [dif_pos ⟨inDir, free⟩]

/-- `mkdir(2)` -/
def mkdir (t : Tree Name Content) : Path Name → Except Errno (Tree Name Content)
  | [] => .error .exist
  | name :: parent =>
    match t.lookup parent with
    | .error e => .error e
    | .ok (.file _) => .error .notdir
    | .ok .dir =>
      match t.entry (name :: parent) with
      | some _ => .error .exist
      | none => .ok (t.put name parent .dir)

/-- `open(2)` with `O_WRONLY | O_CREAT | O_TRUNC`, the content written, and `close(2)`. -/
def write (t : Tree Name Content) (content : Content) :
    Path Name → Except Errno (Tree Name Content)
  | [] => .error .isdir
  | name :: parent =>
    match t.lookup parent with
    | .error e => .error e
    | .ok (.file _) => .error .notdir
    | .ok .dir =>
      match t.entry (name :: parent) with
      | some .dir => .error .isdir
      | _ => .ok (t.put name parent (.file content))

end Create

/-- `S_ISDIR` of a `stat(2)`; a failure reads as no. -/
def isDir (t : Tree Name Content) (path : Path Name) : Bool :=
  match t.lookup path with
  | .ok .dir => true
  | _ => false

theorem isDir_iff (t : Tree Name Content) (path : Path Name) :
    t.isDir path = true ↔ t.entry path = some .dir := by
  rw [← t.lookup_eq_ok_iff, isDir]
  cases t.lookup path with
  | error e => exact ⟨fun no => (by cases no), fun no => (by cases no)⟩
  | ok entry =>
    cases entry with
    | dir => exact ⟨fun _ => rfl, fun _ => rfl⟩
    | file content => exact ⟨fun no => (by cases no), fun no => (by cases no)⟩

end Tree

/-! ## Programs over system calls -/

/-- The system calls both writers of a capsule's files are made of. -/
inductive Call (Name Content : Type) where
  | mkdir (path : Path Name)
  | write (path : Path Name) (content : Content)
  | isDir (path : Path Name)

/-- What each call returns when it does not fail. -/
abbrev Call.Reply : Call Name Content → Type
  | .isDir _ => Bool
  | _ => Unit

/-- A system call failed, or the program raised an error of its own. -/
inductive Failure (E : Type) where
  | sys (e : Errno)
  | own (e : E)
  deriving DecidableEq

/-- A call that fails changes nothing. -/
def attempt {E : Type} (t : Tree Name Content) :
    Except Errno (Tree Name Content) → Except (Failure E) Unit × Tree Name Content
  | .ok t' => (.ok (), t')
  | .error e => (.error (.sys e), t)

/-- The meaning of a system call. -/
def Call.exec [DecidableEq Name] {E : Type} :
    Exec (Call Name Content) Call.Reply (Failure E) Unit (Tree Name Content)
  | _, .mkdir path, t => attempt t (t.mkdir path)
  | _, .write path content, t => attempt t (t.write content path)
  | _, .isDir path, t => (.ok (t.isDir path), t)

/-- A program that makes directories and writes files. -/
abbrev Script (Name Content E α : Type) := Prog (Call Name Content) Call.Reply (Failure E) α

/-- The run of a script. -/
abbrev Script.runOn [DecidableEq Name] {E α : Type} (s : Script Name Content E α)
    (t : Tree Name Content) : Except (Failure E) α × Tree Name Content :=
  s.run Call.exec (fun _ => ()) t

end Posix
