import KernelOmega.Posix.Tree

/-!
# Directories with their parents

Two standard libraries make a directory and its missing ancestors in their own ways: Python's
`Path.mkdir(parents=True, exist_ok=True)` and Rust's `create_dir_all`. Both try the whole path
first and go up when the kernel says that an ancestor is missing. Here they are as scripts of
system calls, with the one function of the tree both compute: it fails when a file stands in the
way, and then nothing was made.
-/

namespace Posix

open Concurrent

variable {Name Content E : Type}

namespace Tree

/-- No file stands at the path or above it. -/
def Clear (t : Tree Name Content) (path : Path Name) : Prop :=
  ∀ above, above <:+ path → ∀ content, t.entry above ≠ some (.file content)

theorem clear_nil (t : Tree Name Content) : t.Clear [] := by
  intro above suffix content
  rw [List.suffix_nil.mp suffix, t.top]
  exact fun same => by cases same

theorem clear_cons {t : Tree Name Content} {name : Name} {parent : Path Name} :
    t.Clear (name :: parent) ↔
      (∀ content, t.entry (name :: parent) ≠ some (.file content)) ∧ t.Clear parent := by
  constructor
  · intro clear
    exact ⟨clear _ List.suffix_rfl, fun above suffix => clear above (List.suffix_cons_iff.mpr (.inr suffix))⟩
  · rintro ⟨here, clear⟩ above suffix
    rcases List.suffix_cons_iff.mp suffix with rfl | suffix
    · exact here
    · exact clear above suffix

theorem clear_of_dir {t : Tree Name Content} {path : Path Name} (isDir : t.entry path = some .dir) :
    t.Clear path := by
  intro above suffix content
  rw [t.dir_of_suffix suffix isDir]
  exact fun same => by cases same

instance decidableClear (t : Tree Name Content) : (path : Path Name) → Decidable (t.Clear path)
  | [] => isTrue t.clear_nil
  | name :: parent =>
    match there : t.entry (name :: parent), decidableClear t parent with
    | some (.file content), _ => isFalse fun clear => (clear_cons.mp clear).1 content there
    | some .dir, _ => isTrue (clear_of_dir there)
    | none, isTrue clear => isTrue (clear_cons.mpr ⟨fun _ => by rw [there]; exact nofun, clear⟩)
    | none, isFalse blocked => isFalse fun clear => blocked (clear_cons.mp clear).2

/-- How a walk ends, and what that says about the way. -/
theorem lookup_cases (t : Tree Name Content) (path : Path Name) :
    (t.lookup path = .ok .dir ∧ t.entry path = some .dir) ∨
    (t.lookup path = .error .noent ∧ t.entry path = none ∧ t.Clear path) ∨
    ((∃ content, t.lookup path = .ok (.file content)) ∧ ¬t.Clear path) ∨
    (t.lookup path = .error .notdir ∧ ¬t.Clear path) := by
  induction path with
  | nil => exact .inl ⟨rfl, t.top⟩
  | cons name parent ih =>
    rw [lookup]
    rcases ih with ⟨walk, above⟩ | ⟨walk, above, clear⟩ | ⟨⟨content, walk⟩, blocked⟩ |
      ⟨walk, blocked⟩
    · rw [walk]
      cases there : t.entry (name :: parent) with
      | none =>
        exact .inr (.inl ⟨rfl, rfl, clear_cons.mpr ⟨fun _ => by rw [there]; exact nofun,
          clear_of_dir above⟩⟩)
      | some entry =>
        cases entry with
        | dir => exact .inl ⟨rfl, rfl⟩
        | file content =>
          exact .inr (.inr (.inl ⟨⟨content, rfl⟩, fun clear => (clear_cons.mp clear).1 _ there⟩))
    · rw [walk]
      have nothing : t.entry (name :: parent) = none := by
        by_contra there
        rw [t.closed name parent there] at above
        cases above
      exact .inr (.inl ⟨rfl, nothing, clear_cons.mpr ⟨fun _ => by rw [nothing]; exact nofun, clear⟩⟩)
    · rw [walk]
      exact .inr (.inr (.inr ⟨rfl, fun clear => blocked (clear_cons.mp clear).2⟩))
    · rw [walk]
      exact .inr (.inr (.inr ⟨rfl, fun clear => blocked (clear_cons.mp clear).2⟩))

section Make

variable [DecidableEq Name]

/-- The tree with the path and everything above it a directory. -/
def made (t : Tree Name Content) (path : Path Name) : Tree Name Content where
  entry q := if q <:+ path then some .dir else t.entry q
  top := if_pos List.nil_suffix
  closed := by
    intro name parent there
    by_cases above : parent <:+ path
    · exact if_pos above
    · rw [if_neg above]
      by_cases here : name :: parent <:+ path
      · exact absurd ((List.suffix_cons name parent).trans here) above
      · rw [if_neg here] at there
        exact t.closed name parent there

/-- A directory that is there need not be made. -/
theorem made_of_dir {t : Tree Name Content} {path : Path Name}
    (isDir : t.entry path = some .dir) : t.made path = t := by
  ext1
  funext q
  show (if q <:+ path then _ else _) = _
  split
  · next suffix => exact (t.dir_of_suffix suffix isDir).symm
  · rfl

/-- Make a directory and whatever is missing above it. -/
def makeAll (t : Tree Name Content) (path : Path Name) : Option (Tree Name Content) :=
  if t.Clear path then some (t.made path) else none

theorem makeAll_of_clear {t : Tree Name Content} {path : Path Name} (clear : t.Clear path) :
    t.makeAll path = some (t.made path) := if_pos clear

theorem makeAll_of_not_clear {t : Tree Name Content} {path : Path Name} (blocked : ¬t.Clear path) :
    t.makeAll path = none := if_neg blocked

theorem makeAll_of_dir {t : Tree Name Content} {path : Path Name}
    (isDir : t.entry path = some .dir) : t.makeAll path = some t := by
  rw [makeAll_of_clear (clear_of_dir isDir), made_of_dir isDir]

/-- Making a directory makes those above it, and nothing else. -/
theorem makeAll_entry {t t' : Tree Name Content} {path : Path Name}
    (makes : t.makeAll path = some t') (q : Path Name) :
    t'.entry q = if q <:+ path then some .dir else t.entry q := by
  by_cases clear : t.Clear path
  · rw [makeAll_of_clear clear] at makes
    obtain rfl := Option.some.inj makes
    rfl
  · rw [makeAll_of_not_clear clear] at makes
    cases makes

/-- What one `mkdir` says about the way to the directory. -/
theorem mkdir_cases (t : Tree Name Content) (name : Name) (parent : Path Name) :
    (t.mkdir (name :: parent) = .error .exist ∧ t.entry (name :: parent) = some .dir) ∨
    ((t.mkdir (name :: parent) = .error .exist ∨ t.mkdir (name :: parent) = .error .notdir) ∧
      ¬t.Clear (name :: parent)) ∨
    (∃ t', t.mkdir (name :: parent) = .ok t' ∧ t.makeAll (name :: parent) = some t') ∨
    (t.mkdir (name :: parent) = .error .noent ∧ t.entry (name :: parent) = none ∧
      t.entry parent = none ∧ t.Clear parent) := by
  rw [mkdir]
  rcases t.lookup_cases parent with ⟨walk, above⟩ | ⟨walk, above, clear⟩ | ⟨⟨content, walk⟩, blocked⟩ |
    ⟨walk, blocked⟩
  · rw [walk]
    cases there : t.entry (name :: parent) with
    | some entry =>
      cases entry with
      | dir => exact .inl ⟨rfl, rfl⟩
      | file content =>
        exact .inr (.inl ⟨.inl rfl, fun clear => (clear_cons.mp clear).1 _ there⟩)
    | none =>
      have clear : t.Clear (name :: parent) :=
        clear_cons.mpr ⟨fun _ => by rw [there]; exact nofun, clear_of_dir above⟩
      refine .inr (.inr (.inl ⟨_, rfl, ?_⟩))
      rw [makeAll_of_clear clear]
      congr 1
      ext1
      rw [put_entry above (by rw [there]; exact nofun)]
      funext q
      show (if q <:+ name :: parent then _ else _) = _
      by_cases here : q = name :: parent
      · rw [here, Function.update_self, if_pos List.suffix_rfl]
      · rw [Function.update_of_ne here]
        split
        · next suffix =>
          have higher := (List.suffix_cons_iff.mp suffix).resolve_left here
          exact (t.dir_of_suffix higher above).symm
        · rfl
  · rw [walk]
    have nothing : t.entry (name :: parent) = none := by
      by_contra there
      rw [t.closed name parent there] at above
      cases above
    exact .inr (.inr (.inr ⟨rfl, nothing, above, clear⟩))
  · rw [walk]
    exact .inr (.inl ⟨.inr rfl, fun clear => blocked (clear_cons.mp clear).2⟩)
  · rw [walk]
    exact .inr (.inl ⟨.inr rfl, fun clear => blocked (clear_cons.mp clear).2⟩)

end Make

end Tree

/-! ## The two scripts -/

/-- What both do when `mkdir` failed for another reason than a missing parent. -/
def unlessDir (path : Path Name) (e : Failure E) : Script Name Content E Unit := do
  let there ← Prog.call (Call.isDir path)
  if there then return () else .raise e

/-- `Path.mkdir(exist_ok=True)` of Python, without `parents`. -/
def mkdirExisting (path : Path Name) : Script Name Content E Unit :=
  (Prog.call (Call.mkdir path)).tryCatch fun
    | .sys .noent => .raise (.sys .noent)
    | e => unlessDir path e

/-- `Path.mkdir(parents=True, exist_ok=True)` of Python. -/
def mkdirParents : Path Name → Script Name Content E Unit
  | [] => mkdirExisting []
  | name :: parent =>
    (Prog.call (Call.mkdir (name :: parent))).tryCatch fun
      | .sys .noent => do
        mkdirParents parent
        mkdirExisting (name :: parent)
      | e => unlessDir (name :: parent) e

/-- `std::fs::create_dir_all` of Rust. -/
def createDirAll : Path Name → Script Name Content E Unit
  | [] =>
    (Prog.call (Call.mkdir [])).tryCatch fun
      | .sys .noent => .raise (.sys .noent)
      | e => unlessDir [] e
  | name :: parent =>
    (Prog.call (Call.mkdir (name :: parent))).tryCatch fun
      | .sys .noent => do
        createDirAll parent
        (Prog.call (Call.mkdir (name :: parent))).tryCatch (unlessDir (name :: parent))
      | e => unlessDir (name :: parent) e

/-! ## Both compute the same -/

section Run

variable [DecidableEq Name]

theorem runOn_mkdir_ok {t t' : Tree Name Content} {path : Path Name}
    (h : Failure E → Script Name Content E Unit) (made : t.mkdir path = .ok t') :
    Script.runOn ((Prog.call (Call.mkdir path)).tryCatch h) t = (.ok (), t') := by
  simp only [Script.runOn, Prog.call, Prog.tryCatch, Prog.run, Call.exec, made, attempt]

theorem runOn_mkdir_error {t : Tree Name Content} {path : Path Name} {e : Errno}
    (h : Failure E → Script Name Content E Unit) (failed : t.mkdir path = .error e) :
    Script.runOn ((Prog.call (Call.mkdir path)).tryCatch h) t = Script.runOn (h (.sys e)) t := by
  simp only [Script.runOn, Prog.call, Prog.tryCatch, Prog.run, Call.exec, failed, attempt]

theorem runOn_unlessDir_of_dir {t : Tree Name Content} {path : Path Name}
    (isDir : t.entry path = some .dir) (e : Failure E) :
    Script.runOn (unlessDir path e) t = (.ok (), t) := by
  have stat : t.isDir path = true := (t.isDir_iff path).mpr isDir
  simp only [Script.runOn, unlessDir, Prog.call, Prog.cmd_bind, Prog.ret_bind, Prog.run, Call.exec,
    stat, ↓reduceIte, Prog.pure_eq]

/-- With a file in the way the error is passed on. -/
theorem runOn_unlessDir_of_blocked {t : Tree Name Content} {path : Path Name}
    (blocked : ¬t.Clear path) (e : Failure E) :
    Script.runOn (unlessDir path e) t = (.error e, t) := by
  have stat : t.isDir path = false :=
    Bool.eq_false_iff.mpr fun yes => blocked (Tree.clear_of_dir ((t.isDir_iff path).mp yes))
  simp only [Script.runOn, unlessDir, Prog.call, Prog.cmd_bind, Prog.ret_bind, Prog.run, Call.exec,
    stat, Bool.false_eq_true, ↓reduceIte]

/-- The script computes `f`; where `f` is undefined it fails and leaves the tree as it was. -/
def Computes (s : Script Name Content E Unit)
    (f : Tree Name Content → Option (Tree Name Content)) (t : Tree Name Content) : Prop :=
  match f t with
  | some t' => s.runOn t = (.ok (), t')
  | none => ∃ e, s.runOn t = (.error e, t)

theorem Computes.of_some {s : Script Name Content E Unit}
    {f : Tree Name Content → Option (Tree Name Content)} {t t' : Tree Name Content}
    (defined : f t = some t') (runs : s.runOn t = (.ok (), t')) : Computes s f t := by
  rw [Computes, defined]
  exact runs

theorem Computes.of_none {s : Script Name Content E Unit}
    {f : Tree Name Content → Option (Tree Name Content)} {t : Tree Name Content} {e : Failure E}
    (undefined : f t = none) (fails : s.runOn t = (.error e, t)) : Computes s f t := by
  rw [Computes, undefined]
  exact ⟨e, fails⟩

/-- After the parents are made, the directory itself can be. -/
theorem mkdir_after_parents {t : Tree Name Content} {name : Name} {parent : Path Name}
    (nothing : t.entry (name :: parent) = none) :
    (t.made parent).mkdir (name :: parent) = .ok (t.made (name :: parent)) := by
  have inDir : (t.made parent).entry parent = some .dir := if_pos List.suffix_rfl
  have free : (t.made parent).entry (name :: parent) = none := by
    show (if name :: parent <:+ parent then _ else _) = _
    rw [if_neg fun suffix => ?_, nothing]
    have shorter := suffix.length_le
    rw [List.length_cons] at shorter
    omega
  rcases (t.made parent).mkdir_cases name parent with ⟨-, there⟩ | ⟨-, blocked⟩ |
    ⟨t', makes, all⟩ | ⟨-, -, missing, -⟩
  · rw [free] at there
    cases there
  · exact absurd (Tree.clear_cons.mpr ⟨fun _ => by rw [free]; exact nofun, Tree.clear_of_dir inDir⟩)
      blocked
  · rw [makes]
    congr 1
    ext1
    funext q
    rw [Tree.makeAll_entry all]
    show (if _ then _ else if _ then _ else _) = if _ then _ else _
    by_cases here : q <:+ name :: parent
    · rw [if_pos here, if_pos here]
    · have higher : ¬q <:+ parent := fun suffix => here (List.suffix_cons_iff.mpr (.inr suffix))
      rw [if_neg here, if_neg here, if_neg higher]
  · rw [inDir] at missing
    cases missing

/-- A script that tries the whole path and goes up when an ancestor is missing computes
`makeAll`, if it does for the parent. -/
theorem Computes.upwards {t : Tree Name Content} {name : Name} {parent : Path Name}
    {up again : Script Name Content E Unit} {h : Failure E → Script Name Content E Unit}
    (missing : h (.sys .noent) = (up >>= fun _ => again))
    (otherwise : ∀ e, e ≠ .noent → h (.sys e) = unlessDir (name :: parent) (.sys e))
    (ups : Computes up (·.makeAll parent) t)
    (ends : ∀ t t' : Tree Name Content, t.mkdir (name :: parent) = .ok t' →
      again.runOn t = (.ok (), t')) :
    Computes ((Prog.call (Call.mkdir (name :: parent))).tryCatch h)
      (·.makeAll (name :: parent)) t := by
  rcases t.mkdir_cases name parent with ⟨call, isDir⟩ | ⟨call, blocked⟩ | ⟨t', call, all⟩ |
    ⟨call, nothing, -, clear⟩
  · refine .of_some (Tree.makeAll_of_dir isDir) ((runOn_mkdir_error _ call).trans ?_)
    rw [otherwise .exist nofun]
    exact runOn_unlessDir_of_dir isDir _
  · rcases call with call | call
    · have fails := runOn_unlessDir_of_blocked blocked (E := E) (.sys .exist)
      rw [← otherwise .exist nofun] at fails
      exact .of_none (Tree.makeAll_of_not_clear blocked) ((runOn_mkdir_error _ call).trans fails)
    · have fails := runOn_unlessDir_of_blocked blocked (E := E) (.sys .notdir)
      rw [← otherwise .notdir nofun] at fails
      exact .of_none (Tree.makeAll_of_not_clear blocked) ((runOn_mkdir_error _ call).trans fails)
  · exact .of_some all (runOn_mkdir_ok _ call)
  · have whole : t.Clear (name :: parent) :=
      Tree.clear_cons.mpr ⟨fun _ => by rw [nothing]; exact nofun, clear⟩
    refine .of_some (Tree.makeAll_of_clear whole) ((runOn_mkdir_error _ call).trans ?_)
    rw [Computes, Tree.makeAll_of_clear clear] at ups
    rw [missing]
    exact (Prog.run_bind _ ups).trans (ends _ _ (mkdir_after_parents nothing))

theorem Computes.top {h : Failure E → Script Name Content E Unit} {t : Tree Name Content}
    (stands : h (.sys .exist) = unlessDir [] (.sys .exist)) :
    Computes ((Prog.call (Call.mkdir [])).tryCatch h) (·.makeAll []) t := by
  refine .of_some (Tree.makeAll_of_dir t.top) ((runOn_mkdir_error _ rfl).trans ?_)
  rw [stands]
  exact runOn_unlessDir_of_dir t.top _

/-- Python's `mkdir(parents=True, exist_ok=True)` makes them all, -/
theorem mkdirParents_computes (t : Tree Name Content) (path : Path Name) :
    Computes (E := E) (mkdirParents path) (·.makeAll path) t := by
  induction path with
  | nil => exact .top rfl
  | cons name parent ih =>
    refine .upwards rfl (fun e other => ?_) ih fun t t' => runOn_mkdir_ok _
    cases e with
    | noent => exact absurd rfl other
    | exist => rfl
    | notdir => rfl
    | isdir => rfl

/-- and so does `create_dir_all` of Rust. -/
theorem createDirAll_computes (t : Tree Name Content) (path : Path Name) :
    Computes (E := E) (createDirAll path) (·.makeAll path) t := by
  induction path with
  | nil => exact .top rfl
  | cons name parent ih =>
    refine .upwards rfl (fun e other => ?_) ih fun t t' => runOn_mkdir_ok _
    cases e with
    | noent => exact absurd rfl other
    | exist => rfl
    | notdir => rfl
    | isdir => rfl

end Run

end Posix
