import KernelOmega.Json.Members

/-!
# Dataclasses

A dataclass is called with keywords. A keyword that is no field is refused, and so is a call that
leaves out a field without a default. The instance has a value for each field, in their order; its
keywords may come in any.
-/

namespace Python

open Json

/-- A field of a dataclass, with its default if it has one. -/
structure Field (α : Type) where
  name : String
  default : Option α

/-- What the `TypeError` of a call is about. -/
inductive CallError where
  | unexpected (keyword : String)
  | missing (names : List String)
  deriving DecidableEq

variable {α : Type}

/-- The keyword's value, or else the default. -/
def Field.value (keywords : List (String × α)) (field : Field α) : Option α :=
  (lastValue field.name keywords).or field.default

/-- The attributes of the instance `cls(**keywords)`. -/
def construct (fields : List (Field α)) (keywords : List (String × α)) :
    Except CallError (List (String × α)) :=
  match keywords.find? fun keyword => keyword.1 ∉ fields.map Field.name with
  | some keyword => .error (.unexpected keyword.1)
  | none =>
    match fields.filter fun field => (field.value keywords).isNone with
    | [] => .ok (fields.filterMap fun field => (field.value keywords).map (field.name, ·))
    | missing => .error (.missing (missing.map Field.name))

section Construct

variable {fields : List (Field α)} {attributes keywords : List (String × α)}

/-- Fields that all have their attribute's value make up the attributes. -/
theorem filterMap_value (names : attributes.map Prod.fst = fields.map Field.name)
    (values : ∀ slot ∈ attributes, lastValue slot.1 keywords = some slot.2) :
    (fields.filterMap fun field => (field.value keywords).map (field.name, ·)) = attributes := by
  induction fields generalizing attributes with
  | nil => exact (List.map_eq_nil_iff.mp names).symm
  | cons field fields ih =>
    cases attributes with
    | nil => cases names
    | cons slot rest =>
      obtain ⟨name, behind⟩ := List.cons.inj names
      have here : (field.value keywords).map (field.name, ·) = some slot := by
        rw [Field.value, ← name, values slot List.mem_cons_self]
        rfl
      rw [List.filterMap_cons, here]
      exact congrArg (slot :: ·)
        (ih behind fun other mem => values other (List.mem_cons_of_mem slot mem))

/-- The attributes of an instance, as keywords in any order, make the instance again. -/
theorem construct_of_perm (names : attributes.map Prod.fst = fields.map Field.name)
    (distinct : (fields.map Field.name).Nodup) (perm : keywords.Perm attributes) :
    construct fields keywords = .ok attributes := by
  have unique : (keywords.map Prod.fst).Nodup := by
    rw [(perm.map Prod.fst).nodup_iff, names]
    exact distinct
  have values : ∀ slot ∈ attributes, lastValue slot.1 keywords = some slot.2 :=
    fun slot mem => lastValue_of_mem unique (perm.mem_iff.mpr mem)
  have expected : keywords.find? (fun keyword => keyword.1 ∉ fields.map Field.name) = none := by
    rw [List.find?_eq_none]
    intro keyword mem
    rw [decide_eq_true_eq, not_not, ← names]
    exact List.mem_map_of_mem (perm.mem_iff.mp mem)
  have complete : fields.filter (fun field => (field.value keywords).isNone) = [] := by
    rw [List.filter_eq_nil_iff]
    intro field mem
    have named : field.name ∈ attributes.map Prod.fst := by
      rw [names]
      exact List.mem_map_of_mem mem
    obtain ⟨slot, inside, same⟩ := List.mem_map.mp named
    rw [Field.value, ← same, values slot inside]
    exact Bool.false_ne_true
  rw [construct, expected, complete]
  exact congrArg Except.ok (filterMap_value names values)

end Construct

end Python
