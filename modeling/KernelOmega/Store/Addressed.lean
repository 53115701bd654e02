import Mathlib.Data.List.Infix
import Mathlib.Logic.Function.Basic

/-!
# Places with one content each

A run of writes, each of a content to a place, of which only a part may arrive. Where every write
to a place is of the same content, the place holds a beginning of it from the first write on, and
all of it as long as the writes arrive whole.
-/

namespace Addressed

/-- A write of a content to a place, of which so many items arrive. -/
structure Write (Place Item : Type) where
  place : Place
  content : List Item
  arrived : Nat

variable {Place Item : Type}

/-- All of the content arrives. -/
def Write.Whole (write : Write Place Item) : Prop := write.content.length ≤ write.arrived

/-- Every write to the place is of the content. -/
def Only (place : Place) (content : List Item) (writes : List (Write Place Item)) : Prop :=
  ∀ write ∈ writes, write.place = place → write.content = content

variable [DecidableEq Place]

/-- What is held after a write. -/
def Write.apply (held : Place → Option (List Item)) (write : Write Place Item) :
    Place → Option (List Item) :=
  Function.update held write.place (some (write.content.take write.arrived))

/-- What is held after some writes. -/
def run (held : Place → Option (List Item)) (writes : List (Write Place Item)) :
    Place → Option (List Item) :=
  writes.foldl Write.apply held

variable {held : Place → Option (List Item)} {writes : List (Write Place Item)} {place : Place}
  {content : List Item}

theorem run_append (held : Place → Option (List Item)) (writes writes' : List (Write Place Item)) :
    run held (writes ++ writes') = run (run held writes) writes' :=
  List.foldl_append

/-- A write to its place. -/
theorem Write.apply_self (held : Place → Option (List Item)) (write : Write Place Item) :
    write.apply held write.place = some (write.content.take write.arrived) :=
  Function.update_self ..

theorem Write.apply_of_ne {write : Write Place Item} (other : write.place ≠ place) :
    write.apply held place = held place :=
  Function.update_of_ne other.symm ..

/-- A place goes on holding a beginning of its content. -/
theorem run_isPrefix (only : Only place content writes)
    (starts : ∃ part, held place = some part ∧ part <+: content) :
    ∃ part, run held writes place = some part ∧ part <+: content := by
  induction writes generalizing held with
  | nil => exact starts
  | cons write writes ih =>
    refine ih (fun later mem => only later (List.mem_cons_of_mem write mem)) ?_
    by_cases here : write.place = place
    · subst here
      rw [← only write List.mem_cons_self rfl]
      exact ⟨_, write.apply_self held, List.take_prefix _ _⟩
    · rw [Write.apply_of_ne here]
      exact starts

/-- A place goes on holding all of its content, as long as what is written to it arrives whole. -/
theorem run_whole (only : Only place content writes)
    (whole : ∀ write ∈ writes, write.place = place → write.Whole)
    (starts : held place = some content) : run held writes place = some content := by
  induction writes generalizing held with
  | nil => exact starts
  | cons write writes ih =>
    refine ih (fun later mem => only later (List.mem_cons_of_mem write mem))
      (fun later mem => whole later (List.mem_cons_of_mem write mem)) ?_
    by_cases here : write.place = place
    · subst here
      rw [write.apply_self, List.take_of_length_le (whole write List.mem_cons_self rfl),
        only write List.mem_cons_self rfl]
    · rw [Write.apply_of_ne here]
      exact starts

/-- After a whole write, its place holds its content. -/
theorem run_last (held : Place → Option (List Item)) (writes : List (Write Place Item))
    {write : Write Place Item} (whole : write.Whole) :
    run held (writes ++ [write]) write.place = some write.content := by
  rw [run_append]
  exact (write.apply_self _).trans (congrArg some (List.take_of_length_le whole))

end Addressed
