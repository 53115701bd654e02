import KernelOmega.Posix.Below
import Mathlib.Data.Option.Basic

/-!
# Scripts confined to a root

What a script does to a tree is a partial function of it. A script confined to a root changes
nothing outside the root, whether it succeeds or fails half way. Confined steps compose, also
over the items of a list, where steps that commute can be taken in any order. Two confined
scripts with roots of their own run in parallel when the trees below the roots are the same.
-/

namespace Posix

open Concurrent

variable {Name Content E α : Type}

/-- Nothing changed except below the root, which is a directory. -/
structure Within (root : Path Name) (t t' : Tree Name Content) : Prop where
  isDir : t'.entry root = some .dir
  outside : ∀ q, ¬root <:+ q → t'.entry q = t.entry q

theorem Within.refl {root : Path Name} {t : Tree Name Content}
    (isDir : t.entry root = some .dir) : Within root t t :=
  ⟨isDir, fun _ _ => rfl⟩

theorem Within.trans {root : Path Name} {t t' t'' : Tree Name Content} (first : Within root t t')
    (second : Within root t' t'') : Within root t t'' :=
  ⟨second.isDir, fun q away => (second.outside q away).trans (first.outside q away)⟩

/-- A path on the way to something below the root is above the root or below it. -/
theorem above_or_below {root q path : Path Name} (suffix : path <:+ q ++ root) :
    path <:+ root ∨ ∃ p, path = p ++ root ∧ p <:+ q := by
  rcases List.suffix_or_suffix_of_suffix suffix (List.suffix_append q root) with above | below
  · exact .inl above
  · obtain ⟨p, rfl⟩ := below
    exact .inr ⟨p, rfl, List.suffix_append_self_iff.mp suffix⟩

section Does

variable [DecidableEq Name] {root : Path Name} {s s' : Script Name Content E Unit}
  {f g : Tree Name Content → Option (Tree Name Content)}

/-- The script is confined to the root and computes `f`: where `f` is undefined it fails. -/
def Does (root : Path Name) (s : Script Name Content E Unit)
    (f : Tree Name Content → Option (Tree Name Content)) : Prop :=
  ∀ t, t.entry root = some .dir →
    (∃ t', f t = some t' ∧ s.runOn t = (.ok (), t') ∧ Within root t t') ∨
    (f t = none ∧ ∃ e t', s.runOn t = (.error e, t') ∧ Within root t t')

theorem Does.nothing (root : Path Name) :
    Does root (Prog.ret () : Script Name Content E Unit) some :=
  fun t isDir => .inl ⟨t, rfl, rfl, .refl isDir⟩

theorem Does.failing (root : Path Name) (e : Failure E) :
    Does root (Prog.raise e : Script Name Content E Unit) fun _ => none :=
  fun t isDir => .inr ⟨rfl, e, t, rfl, .refl isDir⟩

/-- Scripts one after another do what they do one after another. -/
theorem Does.bind (first : Does root s f) (second : Does root s' g) :
    Does root (s >>= fun _ => s') fun t => (f t).bind g := by
  intro t isDir
  rcases first t isDir with ⟨t₁, defined, runs, within⟩ | ⟨undefined, e, t₁, fails, within⟩
  · rcases second t₁ within.isDir with ⟨t₂, defined', runs', within'⟩ |
      ⟨undefined', e, t₂, fails', within'⟩
    · exact .inl ⟨t₂, (congrArg (Option.bind · g) defined).trans defined',
        (Prog.run_bind _ runs).trans runs', within.trans within'⟩
    · exact .inr ⟨(congrArg (Option.bind · g) defined).trans undefined', e, t₂,
        (Prog.run_bind _ runs).trans fails', within.trans within'⟩
  · exact .inr ⟨congrArg (Option.bind · g) undefined, e, t₁, Prog.run_bind_error _ fails, within⟩

/-- A script that computes a function below the root does it. -/
theorem Does.of_computes (computes : ∀ t, Computes s f t)
    (within : ∀ t t', t.entry root = some .dir → f t = some t' → Within root t t') :
    Does root s f := by
  intro t isDir
  have here := computes t
  unfold Computes at here
  cases defined : f t with
  | some t' =>
    rw [defined] at here
    exact .inl ⟨t', rfl, here, within t t' isDir defined⟩
  | none =>
    rw [defined] at here
    obtain ⟨e, fails⟩ := here
    exact .inr ⟨rfl, e, t, fails, .refl isDir⟩

/-! ## Directories and files below the root -/

/-- Directories made below the root are below the root. -/
theorem makeAll_within {t t' : Tree Name Content} (q : Path Name)
    (isDir : t.entry root = some .dir) (makes : t.makeAll (q ++ root) = some t') :
    Within root t t' := by
  constructor
  · rw [Tree.makeAll_entry makes, if_pos (List.suffix_append q root)]
  · intro path away
    rw [Tree.makeAll_entry makes]
    split
    · next suffix =>
      rcases above_or_below suffix with above | ⟨p, rfl, -⟩
      · exact (t.dir_of_suffix above isDir).symm
      · exact absurd (List.suffix_append p root) away
    · rfl

theorem mkdirParents_does (root q : Path Name) :
    Does root (mkdirParents (q ++ root) : Script Name Content E Unit) (·.makeAll (q ++ root)) :=
  .of_computes (mkdirParents_computes · _) fun _ _ => makeAll_within q

theorem createDirAll_does (root q : Path Name) :
    Does root (createDirAll (q ++ root) : Script Name Content E Unit) (·.makeAll (q ++ root)) :=
  .of_computes (createDirAll_computes · _) fun _ _ => makeAll_within q

/-- A write below the root is one, whatever it fails with. -/
theorem write_does (root q : Path Name) (content : Content) :
    Does (E := E) root (Prog.call (Call.write (q ++ root) content))
      (Tree.writeAt content (q ++ root)) := by
  intro t isDir
  by_cases writable : t.Writable (q ++ root)
  · obtain ⟨t', writes, entries⟩ := Tree.write_of_writable writable content
    refine .inl ⟨t', ?_, ?_, ?_, ?_⟩
    · rw [Tree.writeAt, writes]
      rfl
    · simp only [Script.runOn, Prog.call, Prog.run, Call.exec, writes, attempt]
    · have other : root ≠ q ++ root := fun same => writable.2.2 (same ▸ isDir)
      rw [entries, Function.update_of_ne other, isDir]
    · intro path away
      have other : path ≠ q ++ root := by
        rintro rfl
        exact away (List.suffix_append q root)
      rw [entries, Function.update_of_ne other]
  · obtain ⟨e, fails⟩ := Tree.write_of_not_writable writable content
    refine .inr ⟨?_, .sys e, t, ?_, .refl isDir⟩
    · rw [Tree.writeAt, fails]
      rfl
    · simp only [Script.runOn, Prog.call, Prog.run, Call.exec, fails, attempt]

/-! ## The items of a list -/

/-- A step for each item. -/
def Script.each (step : α → Script Name Content E Unit) : List α → Script Name Content E Unit
  | [] => return ()
  | a :: rest => do
    step a
    each step rest

end Does

/-- One partial function after the other. -/
def inTurn (f : α → Tree Name Content → Option (Tree Name Content)) :
    List α → Tree Name Content → Option (Tree Name Content)
  | [], t => some t
  | a :: rest, t => (f a t).bind (inTurn f rest)

/-- A script that goes through a list does what its steps do in turn. -/
theorem Does.each [DecidableEq Name] {root : Path Name} {step : α → Script Name Content E Unit}
    {f : α → Tree Name Content → Option (Tree Name Content)} {items : List α}
    (does : ∀ a ∈ items, Does root (step a) (f a)) :
    Does root (Script.each step items) (inTurn f items) := by
  induction items with
  | nil => exact .nothing root
  | cons a rest ih =>
    exact (does a List.mem_cons_self).bind (ih fun b mem => does b (List.mem_cons_of_mem a mem))

/-- The items of a list, each taken for another. -/
theorem inTurn_map {β : Type} {f : α → Tree Name Content → Option (Tree Name Content)}
    {g : β → Tree Name Content → Option (Tree Name Content)} {h : α → β} {items : List α}
    (same : ∀ a ∈ items, f a = g (h a)) : inTurn g (items.map h) = inTurn f items := by
  induction items with
  | nil => rfl
  | cons a rest ih =>
    funext t
    rw [List.map_cons, inTurn, inTurn, same a List.mem_cons_self,
      ih fun b mem => same b (List.mem_cons_of_mem a mem)]

/-- Steps that commute can be taken in any order. -/
theorem inTurn_perm {f : α → Tree Name Content → Option (Tree Name Content)} {items items' : List α}
    (perm : items.Perm items')
    (comm : ∀ a ∈ items, ∀ b ∈ items, ∀ t, (f a t).bind (f b) = (f b t).bind (f a)) :
    inTurn f items = inTurn f items' := by
  induction perm with
  | nil => rfl
  | cons a _ ih =>
    funext t
    rw [inTurn, inTurn, ih fun b mem c mem' =>
      comm b (List.mem_cons_of_mem a mem) c (List.mem_cons_of_mem a mem')]
  | swap a b rest =>
    funext t
    show (f b t).bind (fun t => (f a t).bind (inTurn f rest)) =
      (f a t).bind fun t => (f b t).bind (inTurn f rest)
    rw [← Option.bind_assoc, ← Option.bind_assoc]
    exact congrArg (Option.bind · (inTurn f rest))
      (comm b List.mem_cons_self a (List.mem_cons_of_mem b List.mem_cons_self) t)
  | trans first _ ih ih' =>
    exact (ih comm).trans (ih' fun a mem b mem' =>
      comm a (first.mem_iff.mpr mem) b (first.mem_iff.mpr mem'))

/-! ## Files apart -/

/-- Neither path lies below the other. -/
def Apart (path path' : Path Name) : Prop := ¬path <:+ path' ∧ ¬path' <:+ path

/-- Files at paths apart are put one after the other whenever each of them could be put first;
the directories on the way are made, and nothing else changes. -/
theorem inTurn_place [DecidableEq Name] {files : List (Path Name × Content)}
    {t : Tree Name Content} (fits : ∀ f ∈ files, t.Fits f.1)
    (apart : files.Pairwise fun f g => Apart f.1 g.1) :
    ∃ t', inTurn (fun f : Path Name × Content => Tree.place f.2 f.1) files t = some t' ∧
      (∀ f ∈ files, t'.entry f.1 = some (.file f.2)) ∧
      (∀ q, (∀ f ∈ files, ¬q <:+ f.1) → t'.entry q = t.entry q) ∧
      ∀ q, (∀ f ∈ files, q ≠ f.1) → (∃ f ∈ files, q <:+ f.1) → t'.entry q = some .dir := by
  induction files generalizing t with
  | nil =>
    refine ⟨t, rfl, fun f mem => absurd mem List.not_mem_nil, fun _ _ => rfl, ?_⟩
    rintro q - ⟨f, mem, -⟩
    exact absurd mem List.not_mem_nil
  | cons first rest ih =>
    obtain ⟨away, apart⟩ := List.pairwise_cons.mp apart
    obtain ⟨t₁, puts, entries⟩ := Tree.place_of_fits (fits first List.mem_cons_self) first.2
    have fitsNow : ∀ f ∈ rest, t₁.Fits f.1 := by
      intro f mem
      have other : first.1 ≠ f.1 := fun same => (away f mem).1 (same ▸ List.suffix_rfl)
      refine (Tree.fits_after first.2 (fits first List.mem_cons_self) other entries).mpr ?_
      exact ⟨fits f (List.mem_cons_of_mem first mem), (away f mem).1, (away f mem).2⟩
    obtain ⟨t', puts', files', frame, dirs⟩ := ih fitsNow apart
    refine ⟨t', ?_, fun f mem => ?_, fun q none => ?_, fun q other onTheWay => ?_⟩
    · rw [inTurn, puts]
      exact puts'
    · rcases List.mem_cons.mp mem with rfl | mem
      · rw [frame f.1 fun g mem => (away g mem).1, entries, if_pos rfl]
      · exact files' f mem
    · have besides : q ≠ first.1 := fun same => none first List.mem_cons_self (same ▸ List.suffix_rfl)
      rw [frame q fun f mem => none f (List.mem_cons_of_mem first mem), entries, if_neg besides,
        if_neg (none first List.mem_cons_self)]
    · by_cases later : ∃ f ∈ rest, q <:+ f.1
      · exact dirs q (fun f mem => other f (List.mem_cons_of_mem first mem)) later
      · obtain ⟨f, mem, suffix⟩ := onTheWay
        have here : q <:+ first.1 := by
          rcases List.mem_cons.mp mem with rfl | mem
          · exact suffix
          · exact absurd ⟨f, mem, suffix⟩ later
        rw [frame q fun f mem suffix => later ⟨f, mem, suffix⟩, entries,
          if_neg (other first List.mem_cons_self), if_pos here]

/-! ## Two roots -/

/-- The trees are the same below their roots. -/
structure Alike (root root' : Path Name) (t t' : Tree Name Content) : Prop where
  isDir : t.entry root = some .dir
  below : ∀ q, t.entry (q ++ root) = t'.entry (q ++ root')

theorem Alike.isDir' {root root' : Path Name} {t t' : Tree Name Content}
    (alike : Alike root root' t t') : t'.entry root' = some .dir :=
  (alike.below []).symm.trans alike.isDir

/-- From trees that are the same below their roots both functions lead to such trees, or
neither is defined. -/
def Parallel (root root' : Path Name) (f g : Tree Name Content → Option (Tree Name Content)) :
    Prop :=
  ∀ t t', Alike root root' t t' → Option.Rel (Alike root root') (f t) (g t')

section Parallel

variable {root root' : Path Name} {f f' g g' : Tree Name Content → Option (Tree Name Content)}

theorem Parallel.none : Parallel root root' (fun _ : Tree Name Content => .none) fun _ => .none :=
  fun _ _ _ => .none

/-- Steps that are parallel below two roots are so one after another. -/
theorem Parallel.bind (first : Parallel root root' f f') (second : Parallel root root' g g') :
    Parallel root root' (fun t => (f t).bind g) fun t => (f' t).bind g' := by
  intro t t' alike
  have both := first t t' alike
  dsimp only
  generalize f t = o, f' t' = o' at both ⊢
  cases both with
  | none => exact .none
  | some alike' => exact second _ _ alike'

/-- Parallel steps are parallel in turn. -/
theorem Parallel.inTurn {f g : α → Tree Name Content → Option (Tree Name Content)}
    {items : List α} (parallel : ∀ a ∈ items, Parallel root root' (f a) (g a)) :
    Parallel root root' (inTurn f items) (inTurn g items) := by
  induction items with
  | nil => exact fun _ _ alike => .some alike
  | cons a rest ih =>
    exact (parallel a List.mem_cons_self).bind
      (ih fun b mem => parallel b (List.mem_cons_of_mem a mem))

/-- What is clear below one root is clear below the other. -/
theorem Alike.clear_iff {t t' : Tree Name Content} (alike : Alike root root' t t')
    (q : Path Name) : t.Clear (q ++ root) → t'.Clear (q ++ root') := by
  intro clear above suffix content there
  rcases above_or_below suffix with higher | ⟨p, rfl, onTheWay⟩
  · rw [t'.dir_of_suffix higher alike.isDir'] at there
    cases there
  · rw [← alike.below] at there
    exact clear (p ++ root) (List.suffix_append_self_iff.mpr onTheWay) content there

theorem Alike.symm {t t' : Tree Name Content} (alike : Alike root root' t t') :
    Alike root' root t' t :=
  ⟨alike.isDir', fun q => (alike.below q).symm⟩

/-- Making them below two roots does the same to both. -/
theorem parallel_makeAll [DecidableEq Name] (root root' q : Path Name) :
    Parallel root root' (fun t : Tree Name Content => t.makeAll (q ++ root))
      fun t => t.makeAll (q ++ root') := by
  intro t t' alike
  dsimp only
  by_cases clear : t.Clear (q ++ root)
  · rw [Tree.makeAll_of_clear clear, Tree.makeAll_of_clear (alike.clear_iff q clear)]
    refine .some ⟨if_pos (List.suffix_append q root), fun p => ?_⟩
    show (if _ then _ else _) = if _ then _ else _
    rw [alike.below]
    exact if_congr (List.suffix_append_self_iff.trans List.suffix_append_self_iff.symm) rfl rfl
  · have blocked : ¬t'.Clear (q ++ root') := fun clear' => clear (alike.symm.clear_iff q clear')
    rw [Tree.makeAll_of_not_clear clear, Tree.makeAll_of_not_clear blocked]
    exact .none

/-- What can be written below one root can be written below the other. -/
theorem Alike.writable {t t' : Tree Name Content} (alike : Alike root root' t t') {q : Path Name}
    (writable : t.Writable (q ++ root)) : t'.Writable (q ++ root') := by
  obtain ⟨-, inDir, free⟩ := writable
  cases q with
  | nil => exact absurd alike.isDir free
  | cons name parent =>
    refine ⟨List.cons_ne_nil _ _, ?_, ?_⟩
    · exact (alike.below parent).symm.trans inDir
    · exact fun isDir => free ((alike.below (name :: parent)).trans isDir)

/-- The same write below two roots does the same to both. -/
theorem parallel_writeAt [DecidableEq Name] (root root' q : Path Name) (content : Content) :
    Parallel root root' (Tree.writeAt content (q ++ root)) (Tree.writeAt content (q ++ root')) := by
  intro t t' alike
  by_cases writable : t.Writable (q ++ root)
  · obtain ⟨t₁, writes, entries⟩ := Tree.write_of_writable writable content
    obtain ⟨t₂, writes', entries'⟩ := Tree.write_of_writable (alike.writable writable) content
    rw [Tree.writeAt, Tree.writeAt, writes, writes']
    refine .some ⟨?_, fun p => ?_⟩
    · have other : root ≠ q ++ root := fun same => writable.2.2 (same ▸ alike.isDir)
      rw [entries, Function.update_of_ne other, alike.isDir]
    · rw [entries, entries']
      by_cases here : p = q
      · rw [here, Function.update_self, Function.update_self]
      · rw [Function.update_of_ne (fun same => here (List.append_cancel_right same)),
          Function.update_of_ne (fun same => here (List.append_cancel_right same)), alike.below]
  · have readOnly : ¬t'.Writable (q ++ root') :=
      fun writable' => writable (alike.symm.writable writable')
    obtain ⟨e, fails⟩ := Tree.write_of_not_writable writable content
    obtain ⟨e', fails'⟩ := Tree.write_of_not_writable readOnly content
    rw [Tree.writeAt, Tree.writeAt, fails, fails']
    exact .none

end Parallel

end Posix
