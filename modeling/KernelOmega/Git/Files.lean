import Mathlib.Data.List.Infix

/-!
# Files by path

The files of a commit, of the index or of a working tree: a list of paths with their contents,
the first entry of a path counting. A path is the list of its names, outermost first. Where a
file is, no file can be above or below it, so putting a file removes those from an index.
-/

namespace Git

/-- A path below the top of a repository, outermost name first. -/
abbrev Path (Name : Type) := List Name

/-- Files by their paths. -/
abbrev Files (Name Content : Type) := List (Path Name × Content)

variable {Name Content : Type} [DecidableEq Name]

/-- One path is a directory on the way to the other. -/
def Clash (p q : Path Name) : Prop := p ≠ q ∧ (p <+: q ∨ q <+: p)

instance (p q : Path Name) : Decidable (Clash p q) := inferInstanceAs (Decidable (_ ∧ _))

namespace Files

def get (files : Files Name Content) (p : Path Name) : Option Content :=
  (files.find? fun entry => entry.1 = p).map Prod.snd

@[simp] theorem get_nil (p : Path Name) : get ([] : Files Name Content) p = none := rfl

theorem get_cons (q : Path Name) (content : Content) (rest : Files Name Content) (p : Path Name) :
    get ((q, content) :: rest) p = if q = p then some content else get rest p := by
  unfold get
  rw [List.find?_cons]
  by_cases same : q = p <;> simp [same]

/-- The files whose path is not bad. -/
def drop (bad : Path Name → Bool) (files : Files Name Content) : Files Name Content :=
  files.filter fun entry => !bad entry.1

/-- Put a file; those above and below it go. -/
def put (files : Files Name Content) (p : Path Name) (content : Content) : Files Name Content :=
  (p, content) :: files.drop fun q => decide (Clash p q)

/-- Set what is at a path. -/
def set (files : Files Name Content) (p : Path Name) : Option Content → Files Name Content
  | some content => (p, content) :: files
  | none => files.drop fun q => decide (p = q)

def paths (files : Files Name Content) : List (Path Name) := files.map Prod.fst

/-- A path without an entry has no file. -/
theorem get_eq_none_of_not_mem {files : Files Name Content} {p : Path Name} (away : p ∉ files.paths) :
    files.get p = none := by
  induction files with
  | nil => rfl
  | cons entry rest ih =>
    obtain ⟨q, content⟩ := entry
    have others := not_or.mp (mt List.mem_cons.mpr away)
    rw [get_cons, if_neg (Ne.symm others.1)]
    exact ih others.2

/-! ## Comparing files -/

variable [DecidableEq Content]

/-- The paths where two sets of files differ. -/
def differing (files files' : Files Name Content) : List (Path Name) :=
  (files.paths ++ files'.paths).filter fun p => files.get p ≠ files'.get p

/-- The paths on which two sets of files differ. -/
theorem mem_differing {files files' : Files Name Content} {p : Path Name} :
    p ∈ differing files files' ↔ files.get p ≠ files'.get p := by
  rw [differing, List.mem_filter, decide_eq_true_eq]
  constructor
  · exact And.right
  · intro differ
    refine ⟨?_, differ⟩
    by_contra away
    rw [List.mem_append, not_or] at away
    exact differ ((get_eq_none_of_not_mem away.1).trans (get_eq_none_of_not_mem away.2).symm)

/-- The same files, in whatever order they are listed. -/
def Same (files files' : Files Name Content) : Prop := ∀ p, files.get p = files'.get p

theorem same_iff {files files' : Files Name Content} :
    files.Same files' ↔ differing files files' = [] := by
  rw [List.eq_nil_iff_forall_not_mem]
  exact forall_congr' fun p => by rw [mem_differing, not_not]

instance (files files' : Files Name Content) : Decidable (files.Same files') :=
  decidable_of_iff _ same_iff.symm

omit [DecidableEq Content] in
theorem Same.refl (files : Files Name Content) : files.Same files := fun _ => rfl

/-- Files with those of another set at the given paths. -/
def overwrite (files other : Files Name Content) (there : List (Path Name)) : Files Name Content :=
  there.foldl (fun files p => files.set p (other.get p)) files

end Files

end Git
