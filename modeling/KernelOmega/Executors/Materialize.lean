import KernelOmega.Executors.Paths
import KernelOmega.Posix.Confined
import Mathlib.Data.List.Nodup

/-!
# The tree a capsule is tested in

Both executors write the repository snapshot below an empty root and lay the candidate's code
and the tests over it. The simulator goes through a `dict`, the guest through a `BTreeMap`; one
name may be a directory for one file and a file itself, so the loops can fail half way.

The main result says that they fail together or leave the same tree below their roots, and that
neither ever changes anything outside.
-/

namespace KernelOmega

open Concurrent Posix

/-- A script over files of text, named by strings. -/
abbrev FileScript := Script String String PathError Unit

/-! ## The simulator -/

namespace Simulator

/-- What a system call gets of an absolute path. -/
def place (path : PurePath) : Path String := path.tail.reverse

/-- `target.parent.mkdir(parents=True, exist_ok=True)` -/
def mkdirParent (target : PurePath) : FileScript := mkdirParents (place target.parent)

/-- `target.write_text(content, encoding="utf-8")` -/
def writeText (target : PurePath) (content : String) : FileScript :=
  Prog.call (Call.write (place target) content)

/-- An accepted path, or the `ValueError`. -/
def target (root : PurePath) (relativePath : String) : Script String String PathError PurePath :=
  match safeTarget root relativePath with
  | .ok path => return path
  | .error e => .raise (.own e)

/-- `_materialize_snapshot` -/
def materializeSnapshot (repoRoot : PurePath) (snapshot : List (String × String)) : FileScript :=
  Script.each (fun entry => do
    let path ← target repoRoot entry.1
    mkdirParent path
    writeText path entry.2) snapshot

/-- `capsule.source_relpath or Path(capsule.source_path).name` -/
def relpathOr (relpath path : String) : String :=
  if relpath = "" then (PurePath.parse path).name else relpath

/-- What `execute_capsule` does to the temporary repository before it runs the tests. -/
def materialize (tmpRepo : PurePath) (capsule : TaskCapsule) : FileScript := do
  materializeSnapshot tmpRepo capsule.repoSnapshot
  let targetSource ← target tmpRepo (relpathOr capsule.sourceRelpath capsule.sourcePath)
  let targetTest ← target tmpRepo (relpathOr capsule.testRelpath capsule.testPath)
  mkdirParent targetSource
  mkdirParent targetTest
  writeText targetSource capsule.code
  writeText targetTest capsule.testCode

end Simulator

/-! ## The guest -/

namespace Guest

/-- What a system call gets of an absolute path. -/
def place (text : String) : Path String := (keptNames text).reverse

/-- `if let Some(parent) = target.parent() { create_dir_all(parent)?; }` -/
def createParent (target : String) : FileScript :=
  match (components target).getLast? with
  | some (.normal _) => createDirAll (place target).tail
  | some .parentDir => createDirAll (place target).tail
  | some .curDir => createDirAll (place target)
  | _ => return ()

/-- `std::fs::write`. The kernel takes a text that ends in a slash or in `.` for a directory. -/
def write (target content : String) : FileScript :=
  if (splitSlash target).getLast? = some "" ∨ (splitSlash target).getLast? = some "." then
    .raise (.sys .isdir)
  else Prog.call (Call.write (place target) content)

/-- An accepted path, or the error. -/
def joined (root relative : String) : Script String String PathError String :=
  match safeJoin root relative with
  | .ok path => return path
  | .error e => .raise (.own e)

/-- `materialize_snapshot`; the map is gone through in the order of its keys. -/
def materializeSnapshot (root : String) (snapshot : List (String × String)) : FileScript :=
  Script.each (fun entry => do
    let target ← joined root entry.1
    createParent target
    write target entry.2) (snapshot.mergeSort fun a b => a.1 ≤ b.1)

/-- What `execute_payload` does below the emptied `/tmp/repo` before it runs the tests. -/
def materialize (repoRoot : String) (capsule : TaskCapsule) : FileScript := do
  materializeSnapshot repoRoot capsule.repoSnapshot
  let sourcePath ← joined repoRoot capsule.sourceRelpath
  let testPath ← joined repoRoot capsule.testRelpath
  createParent sourcePath
  createParent testPath
  write sourcePath capsule.code
  write testPath capsule.testCode

/-- `Path::new("/tmp/repo")` -/
def repoRoot : String := "/tmp/repo"

end Guest

/-! ## One file -/

/-- A relative path without empty names and `.`; an absolute path may have them. -/
def PlainPath (text : String) : Prop :=
  text ≠ "" ∧ (startsAtRoot text = false → ∀ name ∈ splitSlash text, name ≠ "" ∧ name ≠ ".")

instance (text : String) : Decidable (PlainPath text) := inferInstanceAs (Decidable (_ ∧ _))

/-- Where a path lies below a root. -/
def below (text : String) : Path String := (keptNames text).reverse

theorem keptNames_of_plain {text : String} (plain : PlainPath text)
    (relative : startsAtRoot text = false) : keptNames text = splitSlash text := by
  rw [keptNames, List.filter_eq_self]
  intro name mem
  exact decide_eq_true (plain.2 relative name mem)

theorem splitSlash_ne_nil (text : String) : splitSlash text ≠ [] := by
  unfold splitSlash
  rw [ne_eq, List.map_eq_nil_iff]
  exact List.splitOn_ne_nil _ _

theorem splitSlash_injective {text text' : String} (same : splitSlash text = splitSlash text') :
    text = text' := by
  unfold splitSlash at same
  have names := (List.map_injective_iff.mpr fun a b same => String.ofList_injective same) same
  have chars := congrArg (List.intercalate ['/']) names
  rw [List.intercalate_splitOn, List.intercalate_splitOn] at chars
  exact String.toList_inj.mp chars

section Below

variable {text : String} (safe : SafePath text) (plain : PlainPath text)
include safe plain

theorem below_ne_nil : below text ≠ [] := by
  unfold below
  rw [keptNames_of_plain plain safe.1, ne_eq, List.reverse_eq_nil_iff]
  exact splitSlash_ne_nil text

/-- A path that is safe names the place below the root, and its parent that of the parent. -/
theorem simulator_target (root : PurePath) :
    safeTarget root text = .ok { root with tail := root.tail ++ keptNames text } ∧
    Simulator.place { root with tail := root.tail ++ keptNames text } =
      below text ++ Simulator.place root ∧
    Simulator.place (PurePath.parent { root with tail := root.tail ++ keptNames text }) =
      (below text).tail ++ Simulator.place root := by
  have proper : keptNames text ≠ [] := by
    rw [keptNames_of_plain plain safe.1]
    exact splitSlash_ne_nil text
  refine ⟨safeTarget_of_safe safe root, ?_, ?_⟩
  · simp only [Simulator.place, below, List.reverse_append]
  · simp only [Simulator.place, below, PurePath.parent, List.dropLast_append_of_ne_nil proper,
      List.reverse_append, List.tail_reverse]

/-- What the guest's steps come to at an accepted path. -/
theorem guest_target :
    safeJoin Guest.repoRoot text = .ok (Guest.repoRoot ++ "/" ++ text) ∧
    Guest.createParent (Guest.repoRoot ++ "/" ++ text) =
      createDirAll ((below text).tail ++ Guest.place Guest.repoRoot) ∧
    ∀ content, Guest.write (Guest.repoRoot ++ "/" ++ text) content =
      Prog.call (Call.write (below text ++ Guest.place Guest.repoRoot) content) := by
  have names := keptNames_of_plain plain safe.1
  have proper : keptNames text ≠ [] := by
    rw [names]
    exact splitSlash_ne_nil text
  have kept : keptNames (Guest.repoRoot ++ "/" ++ text) =
      keptNames Guest.repoRoot ++ keptNames text := keptNames_append_slash _ _
  have place : Guest.place (Guest.repoRoot ++ "/" ++ text) =
      below text ++ Guest.place Guest.repoRoot := by
    rw [Guest.place, kept, List.reverse_append]
    rfl
  obtain ⟨last, ends⟩ : ∃ last, (keptNames text).getLast? = some last :=
    ⟨_, List.getLast?_eq_some_getLast proper⟩
  have mem := List.mem_of_getLast? ends
  refine ⟨?_, ?_, fun content => ?_⟩
  · rw [safeJoin_of_safe safe]
    have joins : joinPath Guest.repoRoot text = Guest.repoRoot ++ "/" ++ text := by
      unfold joinPath
      rw [safe.1, if_neg Bool.false_ne_true]
      exact if_neg (by decide)
    rw [joins]
  · have normal : (components (Guest.repoRoot ++ "/" ++ text)).getLast? = some (.normal last) := by
      have notUp : last ≠ ".." := fun up => safe.2 (up ▸ mem)
      rw [components, kept, List.map_append, ← List.append_assoc, List.getLast?_append_of_ne_nil,
        List.getLast?_map, ends]
      · simp [notUp]
      · rwa [ne_eq, List.map_eq_nil_iff]
    have tail : (below text ++ Guest.place Guest.repoRoot).tail =
        (below text).tail ++ Guest.place Guest.repoRoot := by
      refine List.tail_append_of_ne_nil ?_
      rwa [below, ne_eq, List.reverse_eq_nil_iff]
    rw [Guest.createParent, normal, place, tail]
  · have split : splitSlash (Guest.repoRoot ++ "/" ++ text) =
        splitSlash Guest.repoRoot ++ splitSlash text := by
      have chars : (Guest.repoRoot ++ "/" ++ text).toList =
          Guest.repoRoot.toList ++ '/' :: text.toList := by
        simp [String.toList_append]
      rw [splitSlash, chars, List.splitOn_append_cons_self, List.map_append]
      rfl
    have final : (splitSlash (Guest.repoRoot ++ "/" ++ text)).getLast? = some last := by
      rw [split, List.getLast?_append_of_ne_nil _ (splitSlash_ne_nil text), ← names, ends]
    rw [names] at mem
    obtain ⟨nonempty, noDot⟩ := plain.2 safe.1 last mem
    have isFile : ¬((splitSlash (Guest.repoRoot ++ "/" ++ text)).getLast? = some "" ∨
        (splitSlash (Guest.repoRoot ++ "/" ++ text)).getLast? = some ".") := by
      rw [final]
      rintro (same | same)
      · exact nonempty (Option.some.inj same)
      · exact noDot (Option.some.inj same)
    rw [Guest.write, if_neg isFile, place]

end Below

/-- Two safe and plain paths that name the same place are the same text. -/
theorem below_injective {text text' : String} (safe : SafePath text) (plain : PlainPath text)
    (safe' : SafePath text') (plain' : PlainPath text') (same : below text = below text') :
    text = text' := by
  unfold below at same
  have names := List.reverse_injective same
  rw [keptNames_of_plain plain safe.1, keptNames_of_plain plain' safe'.1] at names
  exact splitSlash_injective names

/-- What a file of the snapshot does to a tree. -/
def putBelow (root : Path String) (entry : String × String) (t : Tree String String) :
    Option (Tree String String) :=
  if SafePath entry.1 then
    (t.makeAll ((below entry.1).tail ++ root)).bind (Tree.writeAt entry.2 (below entry.1 ++ root))
  else none

theorem putBelow_of_safe {root : Path String} {entry : String × String} (safe : SafePath entry.1) :
    putBelow root entry = fun t => (t.makeAll ((below entry.1).tail ++ root)).bind
      (Tree.writeAt entry.2 (below entry.1 ++ root)) :=
  funext fun _ => if_pos safe

theorem putBelow_of_not_safe {root : Path String} {entry : String × String}
    (not : ¬SafePath entry.1) : putBelow root entry = fun _ => none :=
  funext fun _ => if_neg not

/-- The simulator puts the file. -/
theorem simulator_entry_does (root : PurePath) {entry : String × String}
    (plain : PlainPath entry.1) :
    Does (Simulator.place root) (do
        let path ← Simulator.target root entry.1
        Simulator.mkdirParent path
        Simulator.writeText path entry.2)
      (putBelow (Simulator.place root) entry) := by
  unfold Simulator.target
  by_cases safe : SafePath entry.1
  · obtain ⟨accepts, place, parent⟩ := simulator_target safe plain root
    rw [putBelow_of_safe safe, accepts]
    dsimp only
    rw [Prog.pure_eq, Prog.ret_bind, Simulator.mkdirParent, parent, Simulator.writeText, place]
    exact (mkdirParents_does _ _).bind (write_does _ _ _)
  · rw [putBelow_of_not_safe safe, safeTarget_of_not_safe safe]
    exact .failing _ _

/-- The guest puts the file. -/
theorem guest_entry_does {entry : String × String} (plain : PlainPath entry.1) :
    Does (Guest.place Guest.repoRoot) (do
        let target ← Guest.joined Guest.repoRoot entry.1
        Guest.createParent target
        Guest.write target entry.2)
      (putBelow (Guest.place Guest.repoRoot) entry) := by
  unfold Guest.joined
  by_cases safe : SafePath entry.1
  · obtain ⟨accepts, parent, write⟩ := guest_target safe plain
    rw [putBelow_of_safe safe, accepts]
    dsimp only
    rw [Prog.pure_eq, Prog.ret_bind, parent, write]
    exact (createDirAll_does _ _).bind (write_does _ _ _)
  · rw [putBelow_of_not_safe safe, safeJoin_of_not_safe safe]
    exact .failing _ _

/-! ## The whole capsule -/

/-- What the overlay does to a tree. -/
def overlayBelow (root : Path String) (capsule : TaskCapsule) (t : Tree String String) :
    Option (Tree String String) :=
  if SafePath capsule.sourceRelpath ∧ SafePath capsule.testRelpath then
    (t.makeAll ((below capsule.sourceRelpath).tail ++ root)).bind fun t =>
      (t.makeAll ((below capsule.testRelpath).tail ++ root)).bind fun t =>
        (Tree.writeAt capsule.code (below capsule.sourceRelpath ++ root) t).bind
          (Tree.writeAt capsule.testCode (below capsule.testRelpath ++ root))
  else none

/-- What the capsule does to a tree. -/
def capsuleBelow (root : Path String) (entries : List (String × String)) (capsule : TaskCapsule)
    (t : Tree String String) : Option (Tree String String) :=
  (inTurn (putBelow root) entries t).bind (overlayBelow root capsule)

/-- The paths of the capsule, as `asdict` of a `TaskCapsule` has them: the snapshot is a `dict`. -/
structure PlainCapsule (capsule : TaskCapsule) : Prop where
  source : PlainPath capsule.sourceRelpath
  test : PlainPath capsule.testRelpath
  entries : ∀ entry ∈ capsule.repoSnapshot, PlainPath entry.1
  keys : (capsule.repoSnapshot.map Prod.fst).Nodup

section Capsule

variable {capsule : TaskCapsule} (plain : PlainCapsule capsule)
include plain

/-- The simulator's writes are those of the capsule's files below its root, in the order the
snapshot has them. -/
theorem simulator_does (root : PurePath) :
    Does (Simulator.place root) (Simulator.materialize root capsule)
      (capsuleBelow (Simulator.place root) capsule.repoSnapshot capsule) := by
  unfold Simulator.materialize
  refine (Does.each fun entry mem => simulator_entry_does root (plain.entries entry mem)).bind ?_
  unfold Simulator.target Simulator.relpathOr
  rw [if_neg plain.source.1, if_neg plain.test.1]
  by_cases source : SafePath capsule.sourceRelpath
  · obtain ⟨accepts, place, parent⟩ := simulator_target source plain.source root
    rw [accepts]
    by_cases test : SafePath capsule.testRelpath
    · obtain ⟨accepts', place', parent'⟩ := simulator_target test plain.test root
      have both : overlayBelow (Simulator.place root) capsule = _ :=
        funext fun _ => if_pos ⟨source, test⟩
      rw [accepts', both]
      dsimp only
      rw [Prog.pure_eq, Prog.ret_bind, Prog.pure_eq, Prog.ret_bind, Simulator.mkdirParent, parent,
        Simulator.mkdirParent, parent', Simulator.writeText, place, Simulator.writeText, place']
      exact (mkdirParents_does _ _).bind ((mkdirParents_does _ _).bind
        ((write_does _ _ _).bind (write_does _ _ _)))
    · have neither : overlayBelow (Simulator.place root) capsule = fun _ => none :=
        funext fun _ => if_neg fun both => test both.2
      rw [neither, safeTarget_of_not_safe test]
      exact .failing _ _
  · have neither : overlayBelow (Simulator.place root) capsule = fun _ => none :=
      funext fun _ => if_neg fun both => source both.1
    rw [neither, safeTarget_of_not_safe source]
    exact .failing _ _

/-- The guest's are the same with the snapshot sorted, as it comes out of a `BTreeMap`. -/
theorem guest_does :
    Does (Guest.place Guest.repoRoot) (Guest.materialize Guest.repoRoot capsule)
      (capsuleBelow (Guest.place Guest.repoRoot)
        (capsule.repoSnapshot.mergeSort fun a b => a.1 ≤ b.1) capsule) := by
  unfold Guest.materialize
  refine (Does.each fun entry mem =>
    guest_entry_does (plain.entries entry (List.mem_mergeSort.mp mem))).bind ?_
  unfold Guest.joined
  by_cases source : SafePath capsule.sourceRelpath
  · obtain ⟨accepts, parent, write⟩ := guest_target source plain.source
    rw [accepts]
    by_cases test : SafePath capsule.testRelpath
    · obtain ⟨accepts', parent', write'⟩ := guest_target test plain.test
      have both : overlayBelow (Guest.place Guest.repoRoot) capsule = _ :=
        funext fun _ => if_pos ⟨source, test⟩
      rw [accepts', both]
      dsimp only
      rw [Prog.pure_eq, Prog.ret_bind, Prog.pure_eq, Prog.ret_bind, parent, parent', write, write']
      exact (createDirAll_does _ _).bind ((createDirAll_does _ _).bind
        ((write_does _ _ _).bind (write_does _ _ _)))
    · have neither : overlayBelow (Guest.place Guest.repoRoot) capsule = fun _ => none :=
        funext fun _ => if_neg fun both => test both.2
      rw [neither, safeJoin_of_not_safe test]
      exact .failing _ _
  · have neither : overlayBelow (Guest.place Guest.repoRoot) capsule = fun _ => none :=
      funext fun _ => if_neg fun both => source both.1
    rw [neither, safeJoin_of_not_safe source]
    exact .failing _ _

/-- The order of the entries does not matter: their paths differ. -/
theorem entries_perm (root : Path String) {entries : List (String × String)}
    (perm : capsule.repoSnapshot.Perm entries) :
    inTurn (putBelow root) capsule.repoSnapshot = inTurn (putBelow root) entries := by
  refine inTurn_perm perm fun a mem b mem' t => ?_
  have placed : ∀ {entry : String × String}, SafePath entry.1 → PlainPath entry.1 →
      putBelow root entry = Tree.place entry.2 (below entry.1 ++ root) := by
    intro entry safe plain
    funext t
    rw [putBelow_of_safe safe, Tree.place, List.tail_append_of_ne_nil (below_ne_nil safe plain)]
  by_cases same : a = b
  · rw [same]
  · by_cases safe : SafePath a.1
    · by_cases safe' : SafePath b.1
      · rw [placed safe (plain.entries a mem), placed safe' (plain.entries b mem')]
        refine Tree.place_comm t (fun together => ?_) a.2 b.2
        have keys := below_injective safe (plain.entries a mem) safe' (plain.entries b mem')
          (List.append_cancel_right together)
        exact same (List.inj_on_of_nodup_map plain.keys mem mem' keys)
      · rw [putBelow_of_not_safe safe']
        cases putBelow root a t <;> rfl
    · rw [putBelow_of_not_safe safe]
      cases putBelow root b t <;> rfl

end Capsule

/-- A file of the snapshot goes to the same place below any root. -/
theorem putBelow_parallel (root root' : Path String) (entry : String × String) :
    Parallel root root' (putBelow root entry) (putBelow root' entry) := by
  by_cases safe : SafePath entry.1
  · rw [putBelow_of_safe safe, putBelow_of_safe safe]
    exact (parallel_makeAll root root' _).bind (parallel_writeAt root root' _ _)
  · rw [putBelow_of_not_safe safe, putBelow_of_not_safe safe]
    exact .none

/-- The capsule's own files go to the same places below any root. -/
theorem overlayBelow_parallel (root root' : Path String) (capsule : TaskCapsule) :
    Parallel root root' (overlayBelow root capsule) (overlayBelow root' capsule) := by
  unfold overlayBelow
  by_cases safe : SafePath capsule.sourceRelpath ∧ SafePath capsule.testRelpath
  · simp only [safe, and_self, ↓reduceIte]
    exact (parallel_makeAll root root' _).bind ((parallel_makeAll root root' _).bind
      ((parallel_writeAt root root' _ _).bind (parallel_writeAt root root' _ _)))
  · simp only [safe, ↓reduceIte]
    exact .none

/-- The root is an empty directory. -/
structure EmptyRoot (t : Tree String String) (root : Path String) : Prop where
  isDir : t.entry root = some .dir
  nothing : ∀ q, q ≠ [] → t.entry (q ++ root) = none

/-- Below two empty roots all is alike. -/
theorem EmptyRoot.alike {t t' : Tree String String} {root root' : Path String}
    (bare : EmptyRoot t root) (bare' : EmptyRoot t' root') : Alike root root' t t' := by
  refine ⟨bare.isDir, fun q => ?_⟩
  cases q with
  | nil => exact bare.isDir.trans bare'.isDir.symm
  | cons name parent =>
    rw [bare.nothing _ (List.cons_ne_nil name parent), bare'.nothing _ (List.cons_ne_nil name parent)]

/-- Both end with an error, or both return and leave the same tree below their roots. -/
def SameOutcome (root root' : Path String)
    (run run' : Except (Failure PathError) Unit × Tree String String) : Prop :=
  (run.1.isOk = false ∧ run'.1.isOk = false) ∨
    (run.1.isOk = true ∧ run'.1.isOk = true ∧
      ∀ q, run.2.entry (q ++ root) = run'.2.entry (q ++ root'))

/-- For a plain capsule the order of the snapshot does not matter: both executors fail alike, or
leave the same files below their roots, and touch nothing outside of them. -/
theorem materialize_alike {capsule : TaskCapsule} (plain : PlainCapsule capsule) (root : PurePath)
    {t t' : Tree String String} (bare : EmptyRoot t (Simulator.place root))
    (bare' : EmptyRoot t' (Guest.place Guest.repoRoot)) :
    SameOutcome (Simulator.place root) (Guest.place Guest.repoRoot)
      (Script.runOn (Simulator.materialize root capsule) t)
      (Script.runOn (Guest.materialize Guest.repoRoot capsule) t') ∧
    Within (Simulator.place root) t (Script.runOn (Simulator.materialize root capsule) t).2 ∧
    Within (Guest.place Guest.repoRoot) t'
      (Script.runOn (Guest.materialize Guest.repoRoot capsule) t').2 := by
  have sorted : capsule.repoSnapshot.Perm (capsule.repoSnapshot.mergeSort fun a b => a.1 ≤ b.1) :=
    (List.mergeSort_perm _ _).symm
  have parallel : Parallel (Simulator.place root) (Guest.place Guest.repoRoot)
      (capsuleBelow (Simulator.place root) capsule.repoSnapshot capsule)
      (capsuleBelow (Guest.place Guest.repoRoot)
        (capsule.repoSnapshot.mergeSort fun a b => a.1 ≤ b.1) capsule) := by
    unfold capsuleBelow
    rw [← entries_perm plain _ sorted]
    exact (Parallel.inTurn fun entry _ => putBelow_parallel _ _ entry).bind
      (overlayBelow_parallel _ _ capsule)
  have together := parallel t t' (bare.alike bare')
  rcases simulator_does plain root t bare.isDir with ⟨t₁, defined, runs, within⟩ |
    ⟨undefined, e, t₁, fails, within⟩
  · rw [defined] at together
    rcases guest_does plain t' bare'.isDir with ⟨t₂, defined', runs', within'⟩ |
      ⟨undefined', e, t₂, fails', within'⟩
    · rw [defined'] at together
      cases together with
      | some alike =>
        rw [runs, runs']
        exact ⟨.inr ⟨rfl, rfl, alike.below⟩, within, within'⟩
    · rw [undefined'] at together
      cases together
  · rw [undefined] at together
    rcases guest_does plain t' bare'.isDir with ⟨t₂, defined', runs', within'⟩ |
      ⟨undefined', e', t₂, fails', within'⟩
    · rw [defined'] at together
      cases together
    · rw [fails, fails']
      exact ⟨.inl ⟨rfl, rfl⟩, within, within'⟩

/-! ## Both languages -/

/-- Both join the text to their roots, at the same place below, or both refuse it. -/
theorem safe_joins_alike (root : PurePath) (guestRoot text : String) :
    (∃ names, ".." ∉ names ∧
      safeTarget root text = .ok { root with tail := root.tail ++ names } ∧
      ∃ joined, safeJoin guestRoot text = .ok joined ∧
        startsAtRoot joined = startsAtRoot guestRoot ∧
        keptNames joined = keptNames guestRoot ++ names) ∨
    (safeTarget root text = .error (.unsafePath text) ∧
      safeJoin guestRoot text = .error (.unsafePath text)) := by
  by_cases safe : SafePath text
  · exact .inl ⟨keptNames text, safe.2, safeTarget_of_safe safe root, joinPath guestRoot text,
      safeJoin_of_safe safe guestRoot, startsAtRoot_joinPath safe.1, keptNames_joinPath safe.1⟩
  · exact .inr ⟨safeTarget_of_not_safe safe root, safeJoin_of_not_safe safe guestRoot⟩

/-- The simulator and the guest accept the same paths, below their roots, and materialise the same
tree or both fail, changing nothing outside. -/
theorem executors_materialize_alike :
    (∀ (root : PurePath) (guestRoot text : String),
      (∃ names, ".." ∉ names ∧
        safeTarget root text = .ok { root with tail := root.tail ++ names } ∧
        ∃ joined, safeJoin guestRoot text = .ok joined ∧
          startsAtRoot joined = startsAtRoot guestRoot ∧
          keptNames joined = keptNames guestRoot ++ names) ∨
      (safeTarget root text = .error (.unsafePath text) ∧
        safeJoin guestRoot text = .error (.unsafePath text))) ∧
    ∀ (capsule : TaskCapsule) (root : PurePath) (t t' : Tree String String),
      PlainCapsule capsule → EmptyRoot t (Simulator.place root) →
      EmptyRoot t' (Guest.place Guest.repoRoot) →
      SameOutcome (Simulator.place root) (Guest.place Guest.repoRoot)
        (Script.runOn (Simulator.materialize root capsule) t)
        (Script.runOn (Guest.materialize Guest.repoRoot capsule) t') ∧
      Within (Simulator.place root) t (Script.runOn (Simulator.materialize root capsule) t).2 ∧
      Within (Guest.place Guest.repoRoot) t'
        (Script.runOn (Guest.materialize Guest.repoRoot capsule) t').2 :=
  ⟨safe_joins_alike, fun _ root _ _ plain bare bare' => materialize_alike plain root bare bare'⟩

namespace SmallCapsule

/-- The code and the tests of a package, over a snapshot that has an older version of the code. -/
def capsule : TaskCapsule where
  id := "a"
  treeId := "t"
  sourcePath := "/repo/pkg/algo.py"
  testPath := "/repo/tests/test_algo.py"
  code := "def f(): return 1"
  testCode := "def test(): assert f() == 1"
  sourceRelpath := "pkg/algo.py"
  testRelpath := "tests/test_algo.py"
  repoSnapshot := [("pkg/algo.py", "def f(): return 0"), ("README.md", "A package.")]

theorem capsule_plain : PlainCapsule capsule where
  source := by decide
  test := by decide
  entries := by decide
  keys := by decide

def root : PurePath where
  root := "/"
  tail := ["tmp", "omega_sim_a", "repo"]

/-- A root just made has nothing in it. -/
theorem emptyRoot_made (path : Path String) : EmptyRoot (Tree.empty.made path) path := by
  refine ⟨if_pos List.suffix_rfl, fun q proper => ?_⟩
  have lower : ¬q ++ path <:+ path := by
    intro suffix
    have shorter := suffix.length_le
    have positive := List.length_pos_of_ne_nil proper
    rw [List.length_append] at shorter
    omega
  have notTop : q ++ path ≠ [] := fun none => proper (List.append_eq_nil_iff.mp none).1
  exact (if_neg lower).trans (if_neg notTop)

end SmallCapsule

open SmallCapsule in
/-- A capsule with two files in its snapshot, below a root that has just been made. -/
theorem executors_materialize_alike_capsule :
    SameOutcome (Simulator.place root) (Guest.place Guest.repoRoot)
      (Script.runOn (Simulator.materialize root capsule) (Tree.empty.made (Simulator.place root)))
      (Script.runOn (Guest.materialize Guest.repoRoot capsule)
        (Tree.empty.made (Guest.place Guest.repoRoot))) :=
  (executors_materialize_alike.2 capsule root _ _ capsule_plain (emptyRoot_made _)
    (emptyRoot_made _)).1

end KernelOmega
