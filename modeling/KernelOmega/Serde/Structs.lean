import KernelOmega.Json.Members
import Mathlib.Algebra.Group.Int.Defs

/-!
# Derived readers

What serde derives to read a struct from a JSON document: a field is there once, its value is of
its type, and it is left out only where it has a default. Other members are passed over. An array
in the place of the object has the fields in their order.
-/

namespace Serde

open Json

section Fields

variable {α β : Type}

/-- What stands under a name; a name that is there twice is an error. -/
def field (name : String) (members : List (String × α)) : Option (Option α) :=
  match members.filter fun member => member.1 = name with
  | [] => some none
  | [member] => some (some member.2)
  | _ => none

def required (read : α → Option β) (name : String) (members : List (String × α)) : Option β :=
  (field name members).bind fun found => found.bind read

/-- A field with `#[serde(default)]`, or of an optional type. -/
def orDefault (default : β) (read : α → Option β) (name : String) (members : List (String × α)) :
    Option β :=
  (field name members).bind fun
    | some value => read value
    | none => some default

variable {members members' : List (String × α)} {name : String} {value : α}

/-- A member that is there once is the field of its name. -/
theorem field_of_mem (distinct : (members.map Prod.fst).Nodup) (mem : (name, value) ∈ members) :
    field name members = some (some value) := by
  have alone : members.filter (fun member => member.1 = name) = [(name, value)] := by
    induction members with
    | nil => cases mem
    | cons member rest ih =>
      obtain ⟨fresh, distinct⟩ := List.nodup_cons.mp distinct
      rcases List.mem_cons.mp mem with rfl | mem
      · have nothing : rest.filter (fun member => member.1 = name) = [] := by
          rw [List.filter_eq_nil_iff]
          intro other inside same
          rw [decide_eq_true_eq] at same
          exact fresh (List.mem_map.mpr ⟨other, inside, same⟩)
        rw [List.filter_cons, nothing]
        exact if_pos (decide_eq_true rfl)
      · have other : ¬decide (member.1 = name) = true := by
          rw [decide_eq_true_eq]
          intro same
          exact fresh (List.mem_map.mpr ⟨_, mem, same.symm⟩)
        rw [List.filter_cons, if_neg other]
        exact ih distinct mem
  rw [field, alone]

section At

variable (distinct : (members.map Prod.fst).Nodup) (perm : members'.Perm members) (i : Nat)
  (here : members[i]? = some (name, value))

include distinct perm here

theorem field_at : field name members' = some (some value) :=
  field_of_mem ((perm.map Prod.fst).nodup_iff.mpr distinct)
    (perm.mem_iff.mpr (List.mem_of_getElem? here))

/-- A member is read wherever it stands. -/
theorem required_at (read : α → Option β) : required read name members' = read value := by
  rw [required, field_at distinct perm i here]
  rfl

theorem orDefault_at (default : β) (read : α → Option β) :
    orDefault default read name members' = read value := by
  rw [orDefault, field_at distinct perm i here]
  rfl

end At

end Fields

/-! ## Types -/

section Types

variable {F : Type}

/-- An unsigned integer of so many bits. -/
def unsigned (bits : Nat) : Document F → Option Nat
  | .int n => if 0 ≤ n ∧ n < 2 ^ bits then some n.toNat else none
  | _ => none

/-- An `f64`, also from an integer. -/
def float (ofInt : Int → F) : Document F → Option F
  | .int n => some (ofInt n)
  | .float x => some x
  | _ => none

/-- The entries of a `BTreeMap`: in the order of the keys, of a key that is there again the last
one. -/
def btreeMap {α : Type} : List (String × α) → List (String × α)
  | [] => []
  | entry :: rest =>
    let later := btreeMap rest
    if entry.1 ∈ later.map Prod.fst then later
    else later.orderedInsert (fun a b => a.1 ≤ b.1) entry

/-- A `BTreeMap` of strings. -/
def texts : Document F → Option (List (String × String))
  | .object members =>
    (members.mapM fun (member : String × Document F) =>
      member.2.asString.map (member.1, ·)).map btreeMap
  | _ => none

mutual

/-- A `serde_json::Value`, whose objects are `BTreeMap`s. -/
def value : Document F → Document F
  | .array items => .array (valueItems items)
  | .object members => .object (btreeMap (valueMembers members))
  | document => document

def valueItems : List (Document F) → List (Document F)
  | [] => []
  | item :: rest => value item :: valueItems rest

def valueMembers : List (String × Document F) → List (String × Document F)
  | [] => []
  | (key, inside) :: rest => (key, value inside) :: valueMembers rest

end

/-- The members of a struct with these fields. -/
def members (names : List String) : Document F → Option (List (String × Document F))
  | .object members => some members
  | .array items => if items.length ≤ names.length then some (names.zip items) else none
  | _ => none

/-- With distinct keys the map has the members in their order. -/
theorem btreeMap_of_distinct {α : Type} {entries : List (String × α)}
    (distinct : (entries.map Prod.fst).Nodup) : btreeMap entries = sortMembers entries := by
  induction entries with
  | nil => rfl
  | cons entry rest ih =>
    obtain ⟨fresh, distinct⟩ := List.nodup_cons.mp distinct
    have outside : entry.1 ∉ (sortMembers rest).map Prod.fst := by
      rwa [((sortMembers_perm rest).map Prod.fst).mem_iff]
    rw [btreeMap, ih distinct]
    exact if_neg outside

/-- The keys of a `BTreeMap` are in order, none of them twice. -/
theorem btreeMap_sorted {α : Type} (entries : List (String × α)) :
    ((btreeMap entries).map Prod.fst).Pairwise (· < ·) := by
  induction entries with
  | nil => exact .nil
  | cons entry rest ih =>
    rw [btreeMap]
    split
    · exact ih
    · next fresh =>
      have total : Std.Total fun a b : String × α => a.1 ≤ b.1 := ⟨fun a b => le_total a.1 b.1⟩
      have trans : IsTrans (String × α) fun a b => a.1 ≤ b.1 := ⟨fun a b c => le_trans⟩
      have sorted : (btreeMap rest).Pairwise fun a b => a.1 ≤ b.1 :=
        (List.pairwise_map.mp ih).imp fun less => le_of_lt less
      have inserted := sorted.orderedInsert entry
      have distinct : (((btreeMap rest).orderedInsert (fun a b => a.1 ≤ b.1) entry).map
          Prod.fst).Nodup := by
        have perm := List.perm_orderedInsert (fun a b : String × α => a.1 ≤ b.1) entry (btreeMap rest)
        rw [(perm.map Prod.fst).nodup_iff]
        exact List.nodup_cons.mpr ⟨fresh, ih.imp fun less => ne_of_lt less⟩
      exact (List.pairwise_map.mpr inserted).imp₂ (fun _ _ le other => lt_of_le_of_ne le other)
        distinct

/-- A map that was read is in order. -/
theorem texts_sorted {document : Document F} {entries : List (String × String)}
    (read : texts document = some entries) : (entries.map Prod.fst).Pairwise (· < ·) := by
  cases document with
  | object members =>
    obtain ⟨found, -, rfl⟩ := Option.map_eq_some_iff.mp read
    exact btreeMap_sorted found
  | _ => cases read

/-- So is a field of texts. -/
theorem orDefault_texts_sorted {name : String} {members : List (String × Document F)}
    {entries : List (String × String)} (read : orDefault [] texts name members = some entries) :
    (entries.map Prod.fst).Pairwise (· < ·) := by
  obtain ⟨found, -, read⟩ := Option.bind_eq_some_iff.mp read
  cases found with
  | none =>
    obtain rfl := Option.some.inj read
    exact .nil
  | some value => exact texts_sorted read

/-- A map of texts is read with its keys in order. -/
theorem texts_of_distinct {entries : List (String × String)}
    (distinct : (entries.map Prod.fst).Nodup) :
    texts (.object (entries.map fun entry => (entry.1, .string entry.2)) : Document F) =
      some (sortMembers entries) := by
  have each : (entries.map fun entry => (entry.1, (Document.string entry.2 : Document F))).mapM
      (fun member => member.2.asString.map (member.1, ·)) = some entries := by
    rw [List.mapM_map]
    induction entries with
    | nil => rfl
    | cons entry rest ih =>
      rw [List.mapM_cons, ih (List.nodup_cons.mp distinct).2]
      rfl
  rw [texts, each, Option.map_some, btreeMap_of_distinct distinct]

end Types

end Serde
