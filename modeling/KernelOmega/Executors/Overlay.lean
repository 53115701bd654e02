import KernelOmega.Executors.Materialize

/-!
# What the funnel is run on

Once the snapshot is written, both executors write the candidate's code and then the tests, and
hand the two paths to the funnel. An empty relative path falls back to the last name of the
original path, so the code and the tests of different directories can meet in one file; the
tests are written last and stay.
-/

namespace KernelOmega

open Concurrent Posix

/-- The arguments of the funnel. -/
structure FunnelCall (P : Type) where
  targetFile : P
  targetTest : P
  cwd : P
  deriving DecidableEq

namespace Simulator

/-- What `execute_capsule` does until it starts the funnel. -/
def prepareFunnel (tmpRepo : PurePath) (capsule : TaskCapsule) :
    Script String String PathError (FunnelCall PurePath) := do
  materialize tmpRepo capsule
  let targetSource ← target tmpRepo (relpathOr capsule.sourceRelpath capsule.sourcePath)
  let targetTest ← target tmpRepo (relpathOr capsule.testRelpath capsule.testPath)
  return ⟨targetSource, targetTest, tmpRepo⟩

end Simulator

namespace Guest

/-- What `execute_payload` does until it starts the funnel. -/
def prepareFunnel (repoRoot : String) (payload : TaskCapsule) :
    Script String String PathError (FunnelCall String) := do
  materialize repoRoot payload
  let sourcePath ← joined repoRoot payload.sourceRelpath
  let testPath ← joined repoRoot payload.testRelpath
  return ⟨sourcePath, testPath, repoRoot⟩

end Guest

namespace Hypervisor

/-- `Path::file_name` -/
def fileName (text : String) : Option String :=
  match (components text).getLast? with
  | some (.normal name) => some name
  | _ => none

/-- `if relpath.is_empty() { file_name of the path, or a default }` -/
def relpathOr (relpath path default : String) : String :=
  if relpath = "" then (fileName path).getD default else relpath

/-- The part of a capsule that is framed for the guest. -/
def payload (capsule : TaskCapsule) : TaskCapsule :=
  { capsule with
    sourceRelpath := relpathOr capsule.sourceRelpath capsule.sourcePath "algo.py"
    testRelpath := relpathOr capsule.testRelpath capsule.testPath "test_algo.py" }

end Hypervisor

/-- The funnel finds the capsule's code and the capsule's tests. -/
structure SeesCapsule {P : Type} (place : P → Path String) (capsule : TaskCapsule)
    (call : FunnelCall P) (t : Tree String String) : Prop where
  code : t.entry (place call.targetFile) = some (.file capsule.code)
  testCode : t.entry (place call.targetTest) = some (.file capsule.testCode)

/-! ## Two writes -/

/-- A write that returns has written the one file. -/
theorem runOn_write_ok {t t' : Tree String String} {path : Path String} {content : String}
    (runs : Script.runOn (Prog.call (Call.write path content) : FileScript) t = (.ok (), t')) :
    t'.entry = Function.update t.entry path (some (.file content)) := by
  by_cases writable : t.Writable path
  · obtain ⟨t₁, writes, entries⟩ := Tree.write_of_writable writable content
    simp only [Script.runOn, Prog.call, Prog.run, Call.exec, writes, attempt, Prod.mk.injEq,
      true_and] at runs
    rwa [← runs]
  · obtain ⟨e, fails⟩ := Tree.write_of_not_writable writable content
    simp only [Script.runOn, Prog.call, Prog.run, Call.exec, fails, attempt, Prod.mk.injEq,
      reduceCtorEq, false_and] at runs

/-- After two writes both files are as written, unless the second one is the first. -/
theorem both_written_iff {entry : Path String → Option (Entry String)} {path path' : Path String}
    {content content' : String} :
    (Function.update (Function.update entry path (some (.file content))) path'
          (some (.file content')) path = some (.file content) ∧
        Function.update (Function.update entry path (some (.file content))) path'
          (some (.file content')) path' = some (.file content')) ↔
      path ≠ path' ∨ content = content' := by
  rw [Function.update_self, and_iff_left rfl]
  by_cases same : path = path'
  · subst same
    rw [Function.update_self, Option.some_inj, Entry.file.injEq]
    exact ⟨fun same => .inr same.symm, fun same => (same.resolve_left fun other => other rfl).symm⟩
  · rw [Function.update_of_ne same, Function.update_self]
    exact ⟨fun _ => .inl same, fun _ => rfl⟩

/-! ## The simulator -/

/-- A target that is returned was checked, and checking writes nothing. -/
theorem runOn_target_ok {root path : PurePath} {text : String} {t t' : Tree String String}
    (runs : Script.runOn (Simulator.target root text) t = (.ok path, t')) :
    safeTarget root text = .ok path ∧ t' = t := by
  unfold Simulator.target at runs
  cases accepts : safeTarget root text with
  | ok accepted =>
    rw [accepts] at runs
    obtain ⟨same, rfl⟩ := Prod.mk.inj runs
    exact ⟨congrArg Except.ok (Except.ok.inj same), rfl⟩
  | error e =>
    rw [accepts] at runs
    cases (Prod.mk.inj runs).1

/-- An accepted target is the root followed by the names of the text. -/
theorem place_of_safeTarget {root path : PurePath} {text : String}
    (accepts : safeTarget root text = .ok path) :
    Simulator.place path = (keptNames text).reverse ++ Simulator.place root := by
  by_cases safe : SafePath text
  · rw [safeTarget_of_safe safe] at accepts
    obtain rfl := Except.ok.inj accepts
    exact List.reverse_append
  · rw [safeTarget_of_not_safe safe] at accepts
    cases accepts

/-- Whatever the snapshot has put there, the source file and the test file are the capsule's in the
end, in the simulator, -/
theorem simulator_writes {root : PurePath} {capsule : TaskCapsule} {t t' : Tree String String}
    {source test : PurePath}
    (accepts : safeTarget root (Simulator.relpathOr capsule.sourceRelpath capsule.sourcePath) =
      .ok source)
    (accepts' : safeTarget root (Simulator.relpathOr capsule.testRelpath capsule.testPath) =
      .ok test)
    (runs : Script.runOn (Simulator.materialize root capsule) t = (.ok (), t')) :
    ∃ entry : Path String → Option (Entry String),
      t'.entry = Function.update (Function.update entry (Simulator.place source)
        (some (.file capsule.code))) (Simulator.place test) (some (.file capsule.testCode)) := by
  obtain ⟨_, t₁, -, runs⟩ := Prog.run_bind_eq_ok runs
  obtain ⟨source', t₂, joins, runs⟩ := Prog.run_bind_eq_ok runs
  obtain ⟨test', t₃, joins', runs⟩ := Prog.run_bind_eq_ok runs
  obtain ⟨_, t₄, -, runs⟩ := Prog.run_bind_eq_ok runs
  obtain ⟨_, t₅, -, runs⟩ := Prog.run_bind_eq_ok runs
  obtain ⟨_, t₆, writes, writes'⟩ := Prog.run_bind_eq_ok runs
  obtain rfl := Except.ok.inj ((runOn_target_ok joins).1.symm.trans accepts)
  obtain rfl := Except.ok.inj ((runOn_target_ok joins').1.symm.trans accepts')
  exact ⟨t₅.entry, by rw [runOn_write_ok writes', runOn_write_ok writes]⟩

/-- The funnel of the simulator finds code and tests exactly when they are different files. -/
theorem simulator_sees_iff {root : PurePath} {capsule : TaskCapsule} {t t' : Tree String String}
    {call : FunnelCall PurePath}
    (starts : Script.runOn (Simulator.prepareFunnel root capsule) t = (.ok call, t')) :
    SeesCapsule Simulator.place capsule call t' ↔
      keptNames (Simulator.relpathOr capsule.sourceRelpath capsule.sourcePath) ≠
          keptNames (Simulator.relpathOr capsule.testRelpath capsule.testPath) ∨
        capsule.code = capsule.testCode := by
  obtain ⟨_, t₁, runs, joining⟩ := Prog.run_bind_eq_ok starts
  obtain ⟨source, t₂, joins, joining⟩ := Prog.run_bind_eq_ok joining
  obtain ⟨test, t₃, joins', ends⟩ := Prog.run_bind_eq_ok joining
  obtain ⟨accepts, rfl⟩ := runOn_target_ok joins
  obtain ⟨accepts', rfl⟩ := runOn_target_ok joins'
  obtain ⟨called, rfl⟩ := Prod.mk.inj ends
  obtain rfl := Except.ok.inj called
  obtain ⟨entry, written⟩ := simulator_writes accepts accepts' runs
  have apart : Simulator.place source ≠ Simulator.place test ↔
      keptNames (Simulator.relpathOr capsule.sourceRelpath capsule.sourcePath) ≠
        keptNames (Simulator.relpathOr capsule.testRelpath capsule.testPath) := by
    rw [place_of_safeTarget accepts, place_of_safeTarget accepts', ne_eq, List.append_left_inj,
      List.reverse_inj]
  rw [← apart, ← @both_written_iff entry, ← written]
  exact ⟨fun sees => ⟨sees.code, sees.testCode⟩, fun both => ⟨both.1, both.2⟩⟩

/-! ## The guest -/

/-- So it is with the guest's. -/
theorem runOn_joined_ok {root path : String} {text : String} {t t' : Tree String String}
    (runs : Script.runOn (Guest.joined root text) t = (.ok path, t')) :
    safeJoin root text = .ok path ∧ t' = t := by
  unfold Guest.joined at runs
  cases accepts : safeJoin root text with
  | ok accepted =>
    rw [accepts] at runs
    obtain ⟨same, rfl⟩ := Prod.mk.inj runs
    exact ⟨congrArg Except.ok (Except.ok.inj same), rfl⟩
  | error e =>
    rw [accepts] at runs
    cases (Prod.mk.inj runs).1

/-- A joined path names the place below the root. -/
theorem place_of_safeJoin {root path text : String} (accepts : safeJoin root text = .ok path) :
    Guest.place path = (keptNames text).reverse ++ Guest.place root := by
  by_cases safe : SafePath text
  · rw [safeJoin_of_safe safe] at accepts
    obtain rfl := Except.ok.inj accepts
    rw [Guest.place, keptNames_joinPath safe.1, List.reverse_append]
    rfl
  · rw [safeJoin_of_not_safe safe] at accepts
    cases accepts

/-- What the guest writes without an error is a plain write. -/
theorem runOn_guestWrite_ok {t t' : Tree String String} {path content : String}
    (runs : Script.runOn (Guest.write path content) t = (.ok (), t')) :
    t'.entry = Function.update t.entry (Guest.place path) (some (.file content)) := by
  unfold Guest.write at runs
  split at runs
  · cases (Prod.mk.inj runs).1
  · exact runOn_write_ok runs

/-- and in the guest. -/
theorem guest_writes {root : String} {payload : TaskCapsule} {t t' : Tree String String}
    {source test : String} (accepts : safeJoin root payload.sourceRelpath = .ok source)
    (accepts' : safeJoin root payload.testRelpath = .ok test)
    (runs : Script.runOn (Guest.materialize root payload) t = (.ok (), t')) :
    ∃ entry : Path String → Option (Entry String),
      t'.entry = Function.update (Function.update entry (Guest.place source)
        (some (.file payload.code))) (Guest.place test) (some (.file payload.testCode)) := by
  obtain ⟨_, t₁, -, runs⟩ := Prog.run_bind_eq_ok runs
  obtain ⟨source', t₂, joins, runs⟩ := Prog.run_bind_eq_ok runs
  obtain ⟨test', t₃, joins', runs⟩ := Prog.run_bind_eq_ok runs
  obtain ⟨_, t₄, -, runs⟩ := Prog.run_bind_eq_ok runs
  obtain ⟨_, t₅, -, runs⟩ := Prog.run_bind_eq_ok runs
  obtain ⟨_, t₆, writes, writes'⟩ := Prog.run_bind_eq_ok runs
  obtain rfl := Except.ok.inj ((runOn_joined_ok joins).1.symm.trans accepts)
  obtain rfl := Except.ok.inj ((runOn_joined_ok joins').1.symm.trans accepts')
  exact ⟨t₅.entry, by rw [runOn_guestWrite_ok writes', runOn_guestWrite_ok writes]⟩

/-- The funnel of the guest finds code and tests exactly when they are different files. -/
theorem guest_sees_iff {root : String} {payload : TaskCapsule} {t t' : Tree String String}
    {call : FunnelCall String}
    (starts : Script.runOn (Guest.prepareFunnel root payload) t = (.ok call, t')) :
    SeesCapsule Guest.place payload call t' ↔
      keptNames payload.sourceRelpath ≠ keptNames payload.testRelpath ∨
        payload.code = payload.testCode := by
  obtain ⟨_, t₁, runs, joining⟩ := Prog.run_bind_eq_ok starts
  obtain ⟨source, t₂, joins, joining⟩ := Prog.run_bind_eq_ok joining
  obtain ⟨test, t₃, joins', ends⟩ := Prog.run_bind_eq_ok joining
  obtain ⟨accepts, rfl⟩ := runOn_joined_ok joins
  obtain ⟨accepts', rfl⟩ := runOn_joined_ok joins'
  obtain ⟨called, rfl⟩ := Prod.mk.inj ends
  obtain rfl := Except.ok.inj called
  obtain ⟨entry, written⟩ := guest_writes accepts accepts' runs
  have apart : Guest.place source ≠ Guest.place test ↔
      keptNames payload.sourceRelpath ≠ keptNames payload.testRelpath := by
    rw [place_of_safeJoin accepts, place_of_safeJoin accepts', ne_eq, List.append_left_inj,
      List.reverse_inj]
  rw [← apart, ← @both_written_iff entry, ← written]
  exact ⟨fun sees => ⟨sees.code, sees.testCode⟩, fun both => ⟨both.1, both.2⟩⟩

/-- A run whose target file has another text does not see the capsule. -/
theorem not_seesCapsule {P : Type} {place : P → Path String} {capsule : TaskCapsule}
    {call : FunnelCall P} {t : Tree String String} {path : Path String} {text : String}
    (at_path : place call.targetFile = path) (stands : t.entry path = some (.file text))
    (other : text ≠ capsule.code) : ¬SeesCapsule place capsule call t := by
  intro sees
  have code := sees.code
  rw [at_path, stands] at code
  exact other (Entry.file.inj (Option.some.inj code))

/-- The paths of code and tests, with the fallbacks, name different files. -/
def DifferentFiles (relpath relpath' : String) : Prop := keptNames relpath ≠ keptNames relpath'

instance (relpath relpath' : String) : Decidable (DifferentFiles relpath relpath') :=
  inferInstanceAs (Decidable (_ ≠ _))

/-- Whenever an executor starts the funnel, whatever the strings of the capsule and the tree it
finds, the funnel's file has exactly the capsule's code, whose hash is signed, and the funnel's
test exactly the capsule's tests, if and only if these are different files or the same text. -/
theorem funnel_sees_capsule_iff (capsule : TaskCapsule) :
    (∀ (root : PurePath) (t : Tree String String) (call : FunnelCall PurePath),
      (Script.runOn (Simulator.prepareFunnel root capsule) t).1 = .ok call →
        (SeesCapsule Simulator.place capsule call
            (Script.runOn (Simulator.prepareFunnel root capsule) t).2 ↔
          DifferentFiles (Simulator.relpathOr capsule.sourceRelpath capsule.sourcePath)
              (Simulator.relpathOr capsule.testRelpath capsule.testPath) ∨
            capsule.code = capsule.testCode)) ∧
    ∀ (t : Tree String String) (call : FunnelCall String),
      (Script.runOn (Guest.prepareFunnel Guest.repoRoot (Hypervisor.payload capsule)) t).1 =
          .ok call →
        (SeesCapsule Guest.place capsule call
            (Script.runOn
              (Guest.prepareFunnel Guest.repoRoot (Hypervisor.payload capsule)) t).2 ↔
          DifferentFiles (Hypervisor.payload capsule).sourceRelpath
              (Hypervisor.payload capsule).testRelpath ∨
            capsule.code = capsule.testCode) := by
  refine ⟨fun root t call starts => simulator_sees_iff (Prod.ext starts rfl),
    fun t call starts => ?_⟩
  have sees := @guest_sees_iff Guest.repoRoot (Hypervisor.payload capsule) t _ call (Prod.ext starts rfl)
  exact Iff.trans ⟨fun sees => ⟨sees.code, sees.testCode⟩, fun sees => ⟨sees.code, sees.testCode⟩⟩
    sees

open SmallCapsule in
/-- The small capsule's code is what its funnel runs. -/
theorem funnel_sees_capsule_iff_small :
    SeesCapsule Simulator.place capsule
      ⟨⟨"/", ["tmp", "omega_sim_a", "repo", "pkg", "algo.py"]⟩,
        ⟨"/", ["tmp", "omega_sim_a", "repo", "tests", "test_algo.py"]⟩, root⟩
      (Script.runOn (Simulator.prepareFunnel root capsule)
        (Tree.empty.made (Simulator.place root))).2 :=
  ((funnel_sees_capsule_iff capsule).1 root _ _ (by decide)).mpr (.inl (by decide))

namespace SmallCapsule

/-- Code and tests of one name in two directories, without relative paths. -/
def sameName : TaskCapsule where
  id := "a"
  treeId := "t"
  sourcePath := "/repo/src/algo.py"
  testPath := "/repo/tests/algo.py"
  code := "def f(): return 1"
  testCode := "def test(): pass"

/-- The funnel is started, its two files are one, and it has the tests in place of the code. -/
theorem not_funnel_sees_capsule :
    (Script.runOn (Simulator.prepareFunnel root sameName)
        (Tree.empty.made (Simulator.place root))).1 =
      .ok ⟨⟨"/", ["tmp", "omega_sim_a", "repo", "algo.py"]⟩,
        ⟨"/", ["tmp", "omega_sim_a", "repo", "algo.py"]⟩, root⟩ ∧
    (Script.runOn (Simulator.prepareFunnel root sameName)
        (Tree.empty.made (Simulator.place root))).2.entry
          ["algo.py", "repo", "omega_sim_a", "tmp"] = some (.file sameName.testCode) ∧
    ¬SeesCapsule Simulator.place sameName
      ⟨⟨"/", ["tmp", "omega_sim_a", "repo", "algo.py"]⟩,
        ⟨"/", ["tmp", "omega_sim_a", "repo", "algo.py"]⟩, root⟩
      (Script.runOn (Simulator.prepareFunnel root sameName)
        (Tree.empty.made (Simulator.place root))).2 := by
  have stands : (Script.runOn (Simulator.prepareFunnel root sameName)
      (Tree.empty.made (Simulator.place root))).2.entry
        ["algo.py", "repo", "omega_sim_a", "tmp"] = some (.file sameName.testCode) := by
    decide +kernel
  have at_path : Simulator.place ⟨"/", ["tmp", "omega_sim_a", "repo", "algo.py"]⟩ =
      ["algo.py", "repo", "omega_sim_a", "tmp"] := rfl
  exact ⟨by decide +kernel, stands, not_seesCapsule at_path stands (by decide)⟩

end SmallCapsule

end KernelOmega
