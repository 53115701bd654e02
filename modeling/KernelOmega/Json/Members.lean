import KernelOmega.Json.Document

/-!
# Members of objects

A reader keeps the members of an object in the order of the text; a key that is there again takes
the place of the one before. A writer may put them in the order of their keys, at every depth.
-/

namespace Json

/-- The value of a key: of a key that is there again, the last one. -/
def lastValue {α : Type} (key : String) : List (String × α) → Option α
  | [] => none
  | (other, value) :: rest =>
    match lastValue key rest with
    | some later => some later
    | none => if other = key then some value else none

section Lookup

variable {α β : Type} {key : String} {members members' : List (String × α)}

/-- A key has no value if it is none of the keys. -/
theorem lastValue_eq_none_iff : lastValue key members = none ↔ key ∉ members.map Prod.fst := by
  induction members with
  | nil => exact iff_of_true rfl List.not_mem_nil
  | cons member rest ih =>
    obtain ⟨other, value⟩ := member
    rw [lastValue, List.map_cons, List.mem_cons]
    cases found : lastValue key rest with
    | some later =>
      have inside : key ∈ rest.map Prod.fst := by
        by_contra outside
        rw [ih.mpr outside] at found
        cases found
      refine ⟨fun none => ?_, fun outside => absurd (.inr inside) outside⟩
      cases none
    | none =>
      have outside := ih.mp found
      by_cases same : other = key
      · simp [same]
      · simp [same, Ne.symm same, outside]

/-- Where no key is there twice, a member is the one its key leads to. -/
theorem lastValue_of_mem (distinct : (members.map Prod.fst).Nodup) {value : α}
    (mem : (key, value) ∈ members) : lastValue key members = some value := by
  induction members with
  | nil => cases mem
  | cons member rest ih =>
    obtain ⟨other, first⟩ := member
    obtain ⟨fresh, distinct⟩ := List.nodup_cons.mp distinct
    rw [lastValue]
    rcases List.mem_cons.mp mem with same | mem
    · cases same
      rw [lastValue_eq_none_iff.mpr fresh]
      exact if_pos rfl
    · rw [ih distinct mem]

end Lookup

/-! ## Types -/

namespace Document

variable {F α : Type}

def asString : Document F → Option String
  | .string s => some s
  | _ => none

def asBool : Document F → Option Bool
  | .bool b => some b
  | _ => none

def asInt : Document F → Option Int
  | .int n => some n
  | _ => none

/-- A value that may be `null`. -/
def orNull (read : Document F → Option α) : Document F → Option (Option α)
  | .null => some none
  | document => (read document).map some

end Document

/-! ## The order of the keys -/

/-- Members in the order of their keys. -/
def sortMembers {α : Type} (members : List (String × α)) : List (String × α) :=
  members.insertionSort fun a b => a.1 ≤ b.1

section Sorting

variable {α β : Type} (members : List (String × α))

theorem sortMembers_perm : (sortMembers members).Perm members := List.perm_insertionSort _ members

theorem sortMembers_map (f : α → β) :
    sortMembers (members.map fun member => (member.1, f member.2)) =
      (sortMembers members).map fun member => (member.1, f member.2) :=
  (List.map_insertionSort (fun a b : String × α => a.1 ≤ b.1) (fun a b : String × β => a.1 ≤ b.1)
    (fun member => (member.1, f member.2)) members fun _ _ _ _ => Iff.rfl).symm

theorem sortMembers_sorted : (sortMembers members).Pairwise fun a b => a.1 ≤ b.1 := by
  have total : Std.Total fun a b : String × α => a.1 ≤ b.1 := ⟨fun a b => le_total a.1 b.1⟩
  have trans : IsTrans (String × α) fun a b => a.1 ≤ b.1 := ⟨fun a b c => le_trans⟩
  exact List.pairwise_insertionSort _ members

theorem sortMembers_eq {members : List (String × α)}
    (sorted : members.Pairwise fun a b => a.1 ≤ b.1) : sortMembers members = members :=
  sorted.insertionSort_eq

theorem sortMembers_again : sortMembers (sortMembers members) = sortMembers members :=
  sortMembers_eq (sortMembers_sorted members)

end Sorting

namespace Document

variable {F G : Type}

mutual

/-- The document with the members of every object in the order of their keys. -/
def sortKeys : Document F → Document F
  | .array items => .array (sortItems items)
  | .object members => .object (sortMembers (sortInside members))
  | document => document

def sortItems : List (Document F) → List (Document F)
  | [] => []
  | item :: rest => item.sortKeys :: sortItems rest

def sortInside : List (String × Document F) → List (String × Document F)
  | [] => []
  | (key, value) :: rest => (key, value.sortKeys) :: sortInside rest

end

theorem sortKeys_array (items : List (Document F)) :
    (array items).sortKeys = .array (items.map sortKeys) := by
  have same : ∀ items : List (Document F), sortItems items = items.map sortKeys := by
    intro items
    induction items with
    | nil => rfl
    | cons item rest ih => rw [sortItems, ih, List.map_cons]
  rw [sortKeys, same]

/-- Sorting an object sorts its members, and what is inside of them. -/
theorem sortKeys_object (members : List (String × Document F)) :
    (object members).sortKeys =
      .object (sortMembers (members.map fun member => (member.1, member.2.sortKeys))) := by
  have same : ∀ members : List (String × Document F),
      sortInside members = members.map fun member => (member.1, member.2.sortKeys) := by
    intro members
    induction members with
    | nil => rfl
    | cons member rest ih => rw [sortInside, ih, List.map_cons]
  rw [sortKeys, same]

/-- The numbers have no part in the order. -/
theorem sortKeys_map (f : F → G) (document : Document F) :
    document.sortKeys.map f = (document.map f).sortKeys := by
  induction document using Document.induct with
  | array items each =>
    rw [sortKeys_array, map_array, map_array, sortKeys_array, List.map_map, List.map_map]
    exact congrArg array (List.map_congr_left each)
  | object members each =>
    have inside : members.map (fun member => (member.1, member.2.sortKeys.map f)) =
        members.map (fun member => (member.1, (member.2.map f).sortKeys)) :=
      List.map_congr_left fun member mem => Prod.ext rfl (each member mem)
    rw [sortKeys_object, map_object, map_object, sortKeys_object, ← sortMembers_map, List.map_map,
      List.map_map]
    exact congrArg (fun members => object (sortMembers members)) inside
  | _ => rfl

/-- Sorting the keys twice is sorting them once. -/
theorem sortKeys_again (document : Document F) : document.sortKeys.sortKeys = document.sortKeys := by
  induction document using Document.induct with
  | array items each =>
    rw [sortKeys_array, sortKeys_array, List.map_map]
    exact congrArg array (List.map_congr_left each)
  | object members each =>
    have inside : (members.map fun member => (member.1, member.2.sortKeys)).map
        (fun member => (member.1, member.2.sortKeys)) =
          members.map fun member => (member.1, member.2.sortKeys) := by
      rw [List.map_map]
      exact List.map_congr_left fun member mem => Prod.ext rfl (each member mem)
    rw [sortKeys_object, sortKeys_object, ← sortMembers_map, inside, sortMembers_again]
  | _ => rfl

end Document

end Json
