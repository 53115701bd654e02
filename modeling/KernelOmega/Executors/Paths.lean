import KernelOmega.Contracts

/-!
# Relative paths in two languages

A capsule names its files by strings. The simulator turns one into a path below its repository
with `_safe_target`, over Python's `pathlib`; the guest with `safe_join`, over Rust's
`std::path`. The libraries normalise differently: `pathlib` drops empty names and `.` when it
parses, `std::path` keeps the text and drops them when the components are listed, except for a
`.` at the beginning.
-/

namespace KernelOmega

/-- What the executors raise for a path they do not accept. -/
inductive PathError where
  | unsafePath (path : String)
  deriving DecidableEq

/-- The names between the slashes. -/
def splitSlash (text : String) : List String :=
  (text.toList.splitOn '/').map String.ofList

/-- The names without empty ones and `.`. -/
def keptNames (text : String) : List String :=
  (splitSlash text).filter fun name => decide (name ≠ "" ∧ name ≠ ".")

/-- The text starts with a slash. -/
def startsAtRoot (text : String) : Bool := text.toList.head? == some '/'

/-! ## Python -/

/-- `pathlib.PurePosixPath`: the root, empty for a relative path, and the names. -/
structure PurePath where
  root : String
  tail : List String
  deriving DecidableEq

namespace PurePath

/-- `PurePosixPath(text)`. Two leading slashes are a root of their own, three or more are one. -/
def parse (text : String) : PurePath where
  root :=
    match text.toList with
    | '/' :: '/' :: '/' :: _ => "/"
    | '/' :: '/' :: _ => "//"
    | '/' :: _ => "/"
    | _ => ""
  tail := keptNames text

def isAbsolute (path : PurePath) : Bool := decide (path.root ≠ "")

/-- `path.parts` -/
def parts (path : PurePath) : List String :=
  if path.root = "" then path.tail else path.root :: path.tail

/-- `path / other` -/
def join (path other : PurePath) : PurePath :=
  if other.root = "" then { path with tail := path.tail ++ other.tail } else other

/-- `path.parent` -/
def parent (path : PurePath) : PurePath := { path with tail := path.tail.dropLast }

/-- `path.name` -/
def name (path : PurePath) : String := path.tail.getLast?.getD ""

end PurePath

/-- `_safe_target` -/
def safeTarget (root : PurePath) (relativePath : String) : Except PathError PurePath :=
  let relative := PurePath.parse relativePath
  if relative.isAbsolute || decide (".." ∈ relative.parts) then .error (.unsafePath relativePath)
  else .ok (root.join relative)

/-! ## Rust -/

/-- `std::path::Component` on a system without prefixes. -/
inductive Component where
  | rootDir
  | curDir
  | parentDir
  | normal (name : String)
  deriving DecidableEq

/-- `Path::components` -/
def components (text : String) : List Component :=
  (if startsAtRoot text then [.rootDir]
    else if (splitSlash text).head? = some "." then [.curDir] else []) ++
  (keptNames text).map fun name => if name = ".." then .parentDir else .normal name

/-- `Path::join` -/
def joinPath (path other : String) : String :=
  if startsAtRoot other then other
  else if path.toList = [] ∨ path.toList.getLast? = some '/' then path ++ other
  else path ++ "/" ++ other

/-- `safe_join` -/
def safeJoin (root relative : String) : Except PathError String :=
  if startsAtRoot relative || (components relative).any fun component =>
      component == .parentDir || component == .rootDir then
    .error (.unsafePath relative)
  else .ok (joinPath root relative)

/-! ## What both accept -/

/-- A path both accept: relative, and without `..`. -/
def SafePath (text : String) : Prop := startsAtRoot text = false ∧ ".." ∉ keptNames text

instance (text : String) : Decidable (SafePath text) := inferInstanceAs (Decidable (_ ∧ _))

/-- A path without a root is a relative one. -/
theorem parse_root (text : String) : (PurePath.parse text).root = "" ↔ startsAtRoot text = false := by
  unfold PurePath.parse startsAtRoot
  dsimp only
  split
  · next _ chars => simp [chars]
  · next _ _ chars => simp [chars]
  · next _ _ _ chars => simp [chars]
  · next _ _ not =>
    cases chars : text.toList with
    | nil => simp
    | cons c rest =>
      have other : c ≠ '/' := fun slash => not rest (slash ▸ chars)
      simp [other]

/-- A safe path is taken below the root. -/
theorem safeTarget_of_safe {text : String} (safe : SafePath text) (root : PurePath) :
    safeTarget root text = .ok { root with tail := root.tail ++ keptNames text } := by
  have relative := (parse_root text).mpr safe.1
  have parts : (PurePath.parse text).parts = keptNames text := if_pos relative
  simp only [safeTarget, PurePath.isAbsolute, relative, parts, safe.2, ne_eq, not_true_eq_false,
    decide_false, Bool.or_self, Bool.false_eq_true, ↓reduceIte, PurePath.join]
  rfl

/-- A path that is not safe is refused. -/
theorem safeTarget_of_not_safe {text : String} (not : ¬SafePath text) (root : PurePath) :
    safeTarget root text = .error (.unsafePath text) := by
  by_cases absolute : startsAtRoot text = false
  · have relative := (parse_root text).mpr absolute
    have parts : (PurePath.parse text).parts = keptNames text := if_pos relative
    have up : ".." ∈ keptNames text := by
      by_contra none
      exact not ⟨absolute, none⟩
    simp only [safeTarget, parts, up, decide_true, Bool.or_true, ↓reduceIte]
  · have rooted : (PurePath.parse text).root ≠ "" := fun none => absolute ((parse_root text).mp none)
    simp only [safeTarget, PurePath.isAbsolute, rooted, ne_eq, not_false_eq_true, decide_true,
      Bool.true_or, ↓reduceIte]

theorem components_any (text : String) :
    (startsAtRoot text || (components text).any fun component =>
      component == .parentDir || component == .rootDir) = true ↔ ¬SafePath text := by
  unfold components SafePath
  cases startsAtRoot text with
  | true => simp
  | false =>
    have up : ((keptNames text).map fun name =>
        if name = ".." then Component.parentDir else .normal name).any (fun component =>
          component == .parentDir || component == .rootDir) = true ↔ ".." ∈ keptNames text := by
      rw [List.any_map, List.any_eq_true]
      constructor
      · rintro ⟨name, mem, isUp⟩
        dsimp only [Function.comp_apply] at isUp
        split at isUp
        · next same => exact same ▸ mem
        · cases isUp
      · intro mem
        exact ⟨"..", mem, rfl⟩
    rw [Bool.false_or, List.any_append, Bool.or_eq_true, up]
    simp only [true_and, not_not, Bool.false_eq_true, ↓reduceIte]
    split
    · simp
    · simp

theorem safeJoin_of_safe {text : String} (safe : SafePath text) (root : String) :
    safeJoin root text = .ok (joinPath root text) :=
  if_neg fun any => (components_any text).mp any safe

theorem safeJoin_of_not_safe {text : String} (not : ¬SafePath text) (root : String) :
    safeJoin root text = .error (.unsafePath text) :=
  if_pos ((components_any text).mpr not)

/-! ## Where the joined paths lie -/

/-- The names on both sides of a slash. -/
theorem keptNames_append_slash (front back : String) :
    keptNames (front ++ "/" ++ back) = keptNames front ++ keptNames back := by
  have chars : (front ++ "/" ++ back).toList = front.toList ++ '/' :: back.toList := by
    simp [String.toList_append]
  rw [keptNames, splitSlash, chars, List.splitOn_append_cons_self, List.map_append,
    List.filter_append]
  rfl

/-- Joining a relative path to a root joins their names. -/
theorem keptNames_joinPath {root text : String} (relative : startsAtRoot text = false) :
    keptNames (joinPath root text) = keptNames root ++ keptNames text := by
  unfold joinPath
  rw [relative, if_neg Bool.false_ne_true]
  split
  · next bare =>
    rcases bare with empty | slash
    · have none : root = "" := String.toList_inj.mp empty
      rw [none, String.empty_append]
      rfl
    · obtain ⟨front, chars⟩ := List.getLast?_eq_some_iff.mp slash
      have split : root = String.ofList front ++ "/" := by
        apply String.toList_inj.mp
        simp [chars, String.toList_append]
      have ends : keptNames root = keptNames (String.ofList front) := by
        have last := keptNames_append_slash (String.ofList front) ""
        rw [String.append_empty, ← split] at last
        rw [last]
        exact List.append_nil _
      rw [ends, split, keptNames_append_slash]
  · exact keptNames_append_slash root text

/-- A relative path joined to a root is as absolute as the root. -/
theorem startsAtRoot_joinPath {root text : String} (relative : startsAtRoot text = false) :
    startsAtRoot (joinPath root text) = startsAtRoot root := by
  unfold joinPath
  rw [relative, if_neg Bool.false_ne_true]
  cases chars : root.toList with
  | nil =>
    rw [if_pos (.inl rfl)]
    have none : root = "" := String.toList_inj.mp chars
    rw [none, String.empty_append, relative]
    rfl
  | cons c rest =>
    have first : ∀ other : String, startsAtRoot (root ++ other) = startsAtRoot root := by
      intro other
      simp [startsAtRoot, String.toList_append, chars]
    split
    · exact first text
    · rw [String.append_assoc]
      exact first _

end KernelOmega
