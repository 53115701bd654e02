import KernelOmega.Posix.MakeDirs
import Mathlib.Data.List.Perm.Basic
import Mathlib.Data.Option.Basic

/-!
# Files put below a root

A file is put at a path by making the directories above it and writing it. What a script of such
steps does to a tree is a partial function of the tree; a script confined to a root changes
nothing outside it, whether it succeeds or fails half way. Two such scripts with different roots
run in parallel when the trees below the roots are the same.

Files at different paths can be put in either order: both succeed or both fail.
-/

namespace Posix

open Concurrent

variable {Name Content E : Type}

theorem suffix_tail_iff {above path : Path Name} (proper : path ≠ []) (other : above ≠ path) :
    above <:+ path.tail ↔ above <:+ path := by
  cases path with
  | nil => exact absurd rfl proper
  | cons name parent =>
    constructor
    · exact fun suffix => List.suffix_cons_iff.mpr (.inr suffix)
    · exact fun suffix => (List.suffix_cons_iff.mp suffix).resolve_left other

theorem not_suffix_tail {path : Path Name} (proper : path ≠ []) : ¬path <:+ path.tail := by
  intro suffix
  have shorter := suffix.length_le
  have positive := List.length_pos_of_ne_nil proper
  rw [List.length_tail] at shorter
  omega

variable [DecidableEq Name]

namespace Tree

/-! ## One file -/

/-- A file can be written at the path: its parent is a directory, and it is none itself. -/
def Writable (t : Tree Name Content) (path : Path Name) : Prop :=
  path ≠ [] ∧ t.entry path.tail = some .dir ∧ t.entry path ≠ some .dir

/-- The tree after a file was written, if it can be. -/
def writeAt (content : Content) (path : Path Name) (t : Tree Name Content) :
    Option (Tree Name Content) :=
  (t.write content path).toOption

/-- A file that can be written is written, and all else stays, -/
theorem write_of_writable {t : Tree Name Content} {path : Path Name}
    (writable : t.Writable path) (content : Content) :
    ∃ t', t.write content path = .ok t' ∧
      t'.entry = Function.update t.entry path (some (.file content)) := by
  obtain ⟨proper, inDir, free⟩ := writable
  cases path with
  | nil => exact absurd rfl proper
  | cons name parent =>
    rw [List.tail_cons] at inDir
    refine ⟨t.put name parent (.file content), ?_, put_entry inDir free _⟩
    rw [write, t.lookup_eq_ok_iff.mpr inDir]
    cases there : t.entry (name :: parent) with
    | none => rfl
    | some entry =>
      cases entry with
      | dir => exact absurd there free
      | file _ => rfl

/-- and one that cannot be is an error. -/
theorem write_of_not_writable {t : Tree Name Content} {path : Path Name}
    (not : ¬t.Writable path) (content : Content) : ∃ e, t.write content path = .error e := by
  cases path with
  | nil => exact ⟨.isdir, rfl⟩
  | cons name parent =>
    rw [write]
    cases walk : t.lookup parent with
    | error e => exact ⟨e, rfl⟩
    | ok above =>
      cases above with
      | file _ => exact ⟨.notdir, rfl⟩
      | dir =>
        have inDir := t.lookup_eq_ok_iff.mp walk
        have isDir : t.entry (name :: parent) = some .dir := by
          by_contra free
          exact not ⟨List.cons_ne_nil name parent, inDir, free⟩
        exact ⟨.isdir, by rw [isDir]⟩

/-- The tree after a file was put at a path with the directories above it, if it can be. -/
def place (content : Content) (path : Path Name) (t : Tree Name Content) :
    Option (Tree Name Content) :=
  (t.makeAll path.tail).bind (writeAt content path)

/-- A file can be put at the path. -/
def Fits (t : Tree Name Content) (path : Path Name) : Prop :=
  path ≠ [] ∧ t.Clear path.tail ∧ t.entry path ≠ some .dir

/-- A file that fits is placed, with the directories above it, and all else is as before. -/
theorem place_of_fits {t : Tree Name Content} {path : Path Name} (fits : t.Fits path)
    (content : Content) :
    ∃ t', place content path t = some t' ∧ ∀ q, t'.entry q =
      if q = path then some (.file content) else if q <:+ path then some .dir else t.entry q := by
  obtain ⟨proper, clear, free⟩ := fits
  have writable : (t.made path.tail).Writable path := by
    refine ⟨proper, if_pos List.suffix_rfl, ?_⟩
    show (if _ then _ else _) ≠ _
    rwa [if_neg (not_suffix_tail proper)]
  obtain ⟨t', writes, entries⟩ := write_of_writable writable content
  refine ⟨t', ?_, fun q => ?_⟩
  · rw [place, makeAll_of_clear clear]
    show (Tree.write _ _ _).toOption = _
    rw [writes]
    rfl
  · rw [entries]
    by_cases here : q = path
    · rw [here, Function.update_self, if_pos rfl]
    · rw [Function.update_of_ne here, if_neg here]
      exact if_congr (suffix_tail_iff proper here) rfl rfl

/-- What does not fit is not placed. -/
theorem place_of_not_fits {t : Tree Name Content} {path : Path Name} (not : ¬t.Fits path)
    (content : Content) : place content path t = none := by
  rw [place]
  by_cases clear : t.Clear path.tail
  · rw [makeAll_of_clear clear]
    have readOnly : ¬(t.made path.tail).Writable path := by
      rintro ⟨proper, -, free⟩
      refine not ⟨proper, clear, ?_⟩
      have same : (t.made path.tail).entry path = t.entry path := if_neg (not_suffix_tail proper)
      rwa [same] at free
    obtain ⟨e, fails⟩ := write_of_not_writable readOnly content
    show (Tree.write _ _ _).toOption = _
    rw [fails]
    rfl
  · rw [makeAll_of_not_clear clear]
    rfl

/-! ## Two files -/

/-- After one file was put, another can be when it could be before and neither lies below the
other. -/
theorem fits_after {t t' : Tree Name Content} {first second : Path Name} (content : Content)
    (fits : t.Fits first) (other : first ≠ second)
    (entries : ∀ q, t'.entry q =
      if q = first then some (.file content) else if q <:+ first then some .dir else t.entry q) :
    t'.Fits second ↔ t.Fits second ∧ ¬first <:+ second ∧ ¬second <:+ first := by
  have here : t'.entry second = if second <:+ first then some .dir else t.entry second := by
    rw [entries, if_neg other.symm]
  constructor
  · rintro ⟨proper, clear, free⟩
    have apart : ¬first <:+ second := by
      intro suffix
      refine clear first ((suffix_tail_iff proper other).mpr suffix) content ?_
      rw [entries, if_pos rfl]
    have notAbove : ¬second <:+ first := by
      intro suffix
      rw [here, if_pos suffix] at free
      exact free rfl
    refine ⟨⟨proper, fun above suffix file there => ?_, ?_⟩, apart, notAbove⟩
    · have besides : above ≠ first := by
        rintro rfl
        exact apart ((suffix_tail_iff proper other).mp suffix)
      by_cases onTheWay : above <:+ first
      · exact fits.2.1 above ((suffix_tail_iff fits.1 besides).mpr onTheWay) file there
      · refine clear above suffix file ?_
        rw [entries, if_neg besides, if_neg onTheWay, there]
    · rwa [here, if_neg notAbove] at free
  · rintro ⟨⟨proper, clear, free⟩, apart, notAbove⟩
    refine ⟨proper, fun above suffix file there => ?_, ?_⟩
    · have besides : above ≠ first := by
        rintro rfl
        exact apart ((suffix_tail_iff proper other).mp suffix)
      rw [entries, if_neg besides] at there
      split at there
      · cases there
      · exact clear above suffix file there
    · rwa [here, if_neg notAbove]

/-- Files at different paths can be put in either order. -/
theorem place_comm (t : Tree Name Content) {first second : Path Name} (other : first ≠ second)
    (content content' : Content) :
    (place content first t).bind (place content' second) =
      (place content' second t).bind (place content first) := by
  by_cases fits : t.Fits first
  · obtain ⟨t₁, puts, entries⟩ := place_of_fits fits content
    rw [puts]
    by_cases fits' : t.Fits second
    · obtain ⟨t₂, puts', entries'⟩ := place_of_fits fits' content'
      rw [puts']
      show place content' second t₁ = place content first t₂
      by_cases apart : ¬first <:+ second ∧ ¬second <:+ first
      · obtain ⟨t₁₂, both, all⟩ :=
          place_of_fits ((fits_after content fits other entries).mpr ⟨fits', apart⟩) content'
        obtain ⟨t₂₁, both', all'⟩ :=
          place_of_fits ((fits_after content' fits' other.symm entries').mpr ⟨fits, apart.symm⟩) content
        rw [both, both']
        congr 1
        ext1
        funext q
        rw [all, all', entries, entries']
        by_cases atFirst : q = first
        · rw [if_pos atFirst, if_pos atFirst, if_neg (atFirst.trans_ne other),
            if_neg (atFirst ▸ apart.1)]
        · by_cases atSecond : q = second
          · rw [if_pos atSecond, if_pos atSecond, if_neg atFirst, if_neg (atSecond ▸ apart.2)]
          · rw [if_neg atFirst, if_neg atFirst, if_neg atSecond, if_neg atSecond]
            split <;> split <;> rfl
      · have not := fun later => apart ((fits_after content fits other entries).mp later).2
        have not' := fun later =>
          apart ((fits_after content' fits' other.symm entries').mp later).2.symm
        rw [place_of_not_fits not, place_of_not_fits not']
    · have not := fun later => fits' ((fits_after content fits other entries).mp later).1
      rw [place_of_not_fits fits']
      exact place_of_not_fits not content'
  · rw [place_of_not_fits fits]
    by_cases fits' : t.Fits second
    · obtain ⟨t₂, puts', entries'⟩ := place_of_fits fits' content'
      have not := fun later => fits ((fits_after content' fits' other.symm entries').mp later).1
      rw [puts']
      exact (place_of_not_fits not content).symm
    · rw [place_of_not_fits fits']
      rfl

end Tree

end Posix
