import Mathlib.Data.List.Sort
import Mathlib.Data.String.Basic

/-!
# JSON documents

A document with arrays and objects inside each other, and the marks its text consists of. `F` are
the numbers that are no integers. The marks of a document say which one it is: the parser reads
it back from the front of any list of marks.
-/

namespace Json

/-- What `json.loads` returns. Numbers with a fraction or an exponent are of a type `F` of their
own: nothing is said of it but what its reader and its writer have in common. -/
inductive Document (F : Type) where
  | null
  | bool (b : Bool)
  | int (n : Int)
  | float (x : F)
  | string (s : String)
  | array (items : List (Document F))
  /-- The members in their order; an object that comes from a dictionary has each key once. -/
  | object (members : List (String × Document F))

/-- What a text is made of, blanks aside. -/
inductive Mark (F : Type) where
  | openArray
  | closeArray
  | openObject
  | closeObject
  | comma
  | colon
  | null
  | bool (b : Bool)
  | int (n : Int)
  | float (x : F)
  | string (s : String)

variable {F : Type}

namespace Document

/-- What holds of a document when it holds of what is inside holds of every document. -/
theorem induct {P : Document F → Prop} (null : P .null) (bool : ∀ b, P (.bool b))
    (int : ∀ n, P (.int n)) (float : ∀ x, P (.float x)) (string : ∀ s, P (.string s))
    (array : ∀ items, (∀ item ∈ items, P item) → P (.array items))
    (object : ∀ members : List (String × Document F), (∀ member ∈ members, P member.2) →
      P (.object members)) (document : Document F) : P document := by
  refine @Document.rec F P (fun items => ∀ item ∈ items, P item)
    (fun members => ∀ member ∈ members, P member.2) (fun member => P member.2)
    null bool int float string array object ?_ ?_ ?_ ?_ ?_ document
  · exact List.forall_mem_nil _
  · exact fun _ _ first rest => List.forall_mem_cons.mpr ⟨first, rest⟩
  · exact List.forall_mem_nil _
  · exact fun _ _ first rest => List.forall_mem_cons.mpr ⟨first, rest⟩
  · exact fun _ _ value => value

/-! ## Numbers -/

section Map

variable {G : Type} (f : F → G)

mutual

/-- The document with other numbers in the place of those that are no integers. -/
def map : Document F → Document G
  | .null => .null
  | .bool b => .bool b
  | .int n => .int n
  | .float x => .float (f x)
  | .string s => .string s
  | .array items => .array (mapItems items)
  | .object members => .object (mapMembers members)

def mapItems : List (Document F) → List (Document G)
  | [] => []
  | item :: rest => item.map :: mapItems rest

def mapMembers : List (String × Document F) → List (String × Document G)
  | [] => []
  | (key, value) :: rest => (key, value.map) :: mapMembers rest

end

@[simp] theorem map_array (items : List (Document F)) :
    (array items).map f = .array (items.map (·.map f)) := by
  have same : ∀ items : List (Document F), mapItems f items = items.map (·.map f) := by
    intro items
    induction items with
    | nil => rfl
    | cons item rest ih => rw [mapItems, ih, List.map_cons]
  rw [map, same]

@[simp] theorem map_object (members : List (String × Document F)) :
    (object members).map f = .object (members.map fun member => (member.1, member.2.map f)) := by
  have same : ∀ members : List (String × Document F),
      mapMembers f members = members.map fun member => (member.1, member.2.map f) := by
    intro members
    induction members with
    | nil => rfl
    | cons member rest ih => rw [mapMembers, ih, List.map_cons]
  rw [map, same]

end Map

/-- Changing no number changes nothing. -/
theorem map_id {f : F → F} (same : ∀ x, f x = x) (document : Document F) :
    document.map f = document := by
  induction document using Document.induct with
  | float x => rw [map, same]
  | array items each =>
    rw [map_array, List.map_congr_left each, List.map_id']
  | object members each =>
    have kept : members.map (fun member => (member.1, member.2.map f)) = members.map id :=
      List.map_congr_left fun member mem => Prod.ext rfl (each member mem)
    rw [map_object, kept, List.map_id]
  | _ => rfl

/-! ## Marks -/

mutual

/-- The marks of a document, in the order of its text. -/
def marks : Document F → List (Mark F)
  | .null => [.null]
  | .bool b => [.bool b]
  | .int n => [.int n]
  | .float x => [.float x]
  | .string s => [.string s]
  | .array [] => [.openArray, .closeArray]
  | .array (item :: rest) => .openArray :: (item.marks ++ laterItems rest)
  | .object [] => [.openObject, .closeObject]
  | .object (member :: rest) => .openObject :: (memberMarks member ++ laterMembers rest)

def laterItems : List (Document F) → List (Mark F)
  | [] => [.closeArray]
  | item :: rest => .comma :: (item.marks ++ laterItems rest)

def memberMarks : String × Document F → List (Mark F)
  | (key, value) => .string key :: .colon :: value.marks

def laterMembers : List (String × Document F) → List (Mark F)
  | [] => [.closeObject]
  | member :: rest => .comma :: (memberMarks member ++ laterMembers rest)

end

/-- No document's marks begin with the end of an array. -/
theorem marks_append_ne (document : Document F) (marks marks' : List (Mark F)) :
    document.marks ++ marks ≠ .closeArray :: marks' := by
  intro same
  cases document with
  | array items => cases items <;> cases same
  | object members => cases members <;> cases same
  | _ => cases same

end Document

/-! ## Parsing -/

section Parse

mutual

/-- The document at the front of the marks, and the marks behind it. -/
def parseValue : (fuel : Nat) → List (Mark F) → Option (Document F × List (Mark F))
  | 0, _ => none
  | fuel + 1, marks =>
    match marks with
    | .null :: rest => some (.null, rest)
    | .bool b :: rest => some (.bool b, rest)
    | .int n :: rest => some (.int n, rest)
    | .float x :: rest => some (.float x, rest)
    | .string s :: rest => some (.string s, rest)
    | .openArray :: .closeArray :: rest => some (.array [], rest)
    | .openArray :: rest => do
      let item ← parseValue fuel rest
      let items ← parseItems fuel item.2
      return (.array (item.1 :: items.1), items.2)
    | .openObject :: .closeObject :: rest => some (.object [], rest)
    | .openObject :: rest => do
      let member ← parseMember fuel rest
      let members ← parseMembers fuel member.2
      return (.object (member.1 :: members.1), members.2)
    | _ => none

/-- What stands behind the first item of an array, -/
def parseItems : (fuel : Nat) → List (Mark F) → Option (List (Document F) × List (Mark F))
  | _ + 1, .closeArray :: rest => some ([], rest)
  | fuel + 1, .comma :: rest => do
    let item ← parseValue fuel rest
    let items ← parseItems fuel item.2
    return (item.1 :: items.1, items.2)
  | _, _ => none

/-- a member with its key and its colon, -/
def parseMember : (fuel : Nat) → List (Mark F) → Option ((String × Document F) × List (Mark F))
  | fuel + 1, .string key :: .colon :: rest => do
    let value ← parseValue fuel rest
    return ((key, value.1), value.2)
  | _, _ => none

/-- and what stands behind the first member of an object. -/
def parseMembers : (fuel : Nat) → List (Mark F) →
    Option (List (String × Document F) × List (Mark F))
  | _ + 1, .closeObject :: rest => some ([], rest)
  | fuel + 1, .comma :: rest => do
    let member ← parseMember fuel rest
    let members ← parseMembers fuel member.2
    return (member.1 :: members.1, members.2)
  | _, _ => none

end

/-- A document that is read from the front of its marks, with fuel for each of them. -/
def Document.Parses (document : Document F) : Prop :=
  ∀ fuel rest, document.marks.length ≤ fuel →
    parseValue fuel (document.marks ++ rest) = some (document, rest)

/-- The further items of an array are parsed back if each of them is, -/
theorem parseItems_later {items : List (Document F)} (each : ∀ item ∈ items, item.Parses)
    {fuel : Nat} (rest : List (Mark F)) (enough : (Document.laterItems items).length ≤ fuel) :
    parseItems fuel (Document.laterItems items ++ rest) = some (items, rest) := by
  induction items generalizing fuel with
  | nil =>
    obtain ⟨fuel, rfl⟩ := Nat.exists_eq_add_one_of_ne_zero (Nat.ne_of_gt enough)
    rfl
  | cons item items ih =>
    rw [Document.laterItems, List.length_cons, List.length_append] at enough
    obtain ⟨fuel, rfl⟩ := Nat.exists_eq_add_one_of_ne_zero (n := fuel) (by omega)
    rw [Document.laterItems, List.cons_append, List.append_assoc, parseItems,
      each item List.mem_cons_self fuel _ (by omega), Option.bind_eq_bind, Option.bind_some]
    dsimp only
    rw [ih (fun other mem => each other (List.mem_cons_of_mem item mem)) (by omega)]
    rfl

/-- A member is parsed back if its value is. -/
theorem parseMember_marks {member : String × Document F} (value : member.2.Parses) {fuel : Nat}
    (rest : List (Mark F)) (enough : (Document.memberMarks member).length ≤ fuel) :
    parseMember fuel (Document.memberMarks member ++ rest) = some (member, rest) := by
  obtain ⟨key, document⟩ := member
  rw [Document.memberMarks, List.length_cons, List.length_cons] at enough
  obtain ⟨fuel, rfl⟩ := Nat.exists_eq_add_one_of_ne_zero (n := fuel) (by omega)
  rw [Document.memberMarks, List.cons_append, List.cons_append, parseMember,
    value fuel rest (by dsimp only; omega)]
  rfl

/-- and so are the further members of an object. -/
theorem parseMembers_later {members : List (String × Document F)}
    (each : ∀ member ∈ members, member.2.Parses) {fuel : Nat} (rest : List (Mark F))
    (enough : (Document.laterMembers members).length ≤ fuel) :
    parseMembers fuel (Document.laterMembers members ++ rest) = some (members, rest) := by
  induction members generalizing fuel with
  | nil =>
    obtain ⟨fuel, rfl⟩ := Nat.exists_eq_add_one_of_ne_zero (Nat.ne_of_gt enough)
    rfl
  | cons member members ih =>
    rw [Document.laterMembers, List.length_cons, List.length_append] at enough
    obtain ⟨fuel, rfl⟩ := Nat.exists_eq_add_one_of_ne_zero (n := fuel) (by omega)
    rw [Document.laterMembers, List.cons_append, List.append_assoc, parseMembers,
      parseMember_marks (each member List.mem_cons_self) _ (by omega), Option.bind_eq_bind,
      Option.bind_some]
    dsimp only
    rw [ih (fun other mem => each other (List.mem_cons_of_mem member mem)) (by omega)]
    rfl

/-- The marks of a document are read back. -/
theorem Document.parses (document : Document F) : document.Parses := by
  induction document using Document.induct with
  | array items each =>
    intro fuel rest enough
    cases items with
    | nil =>
      obtain ⟨fuel, rfl⟩ := Nat.exists_eq_add_one_of_ne_zero (n := fuel)
        (Nat.ne_of_gt (Nat.lt_of_lt_of_le Nat.two_pos enough))
      rfl
    | cons item items =>
      rw [marks, List.length_cons, List.length_append] at enough
      obtain ⟨fuel, rfl⟩ := Nat.exists_eq_add_one_of_ne_zero (n := fuel) (by omega)
      rw [marks, List.cons_append, List.append_assoc, parseValue,
        each item List.mem_cons_self fuel _ (by omega), Option.bind_eq_bind, Option.bind_some]
      · dsimp only
        rw [parseItems_later (fun other mem => each other (List.mem_cons_of_mem item mem)) rest
          (by omega)]
        rfl
      · exact fun rest' same => item.marks_append_ne _ rest' same
  | object members each =>
    intro fuel rest enough
    cases members with
    | nil =>
      obtain ⟨fuel, rfl⟩ := Nat.exists_eq_add_one_of_ne_zero (n := fuel)
        (Nat.ne_of_gt (Nat.lt_of_lt_of_le Nat.two_pos enough))
      rfl
    | cons member members =>
      rw [marks, List.length_cons, List.length_append] at enough
      obtain ⟨fuel, rfl⟩ := Nat.exists_eq_add_one_of_ne_zero (n := fuel) (by omega)
      rw [marks, List.cons_append, List.append_assoc, parseValue,
        parseMember_marks (each member List.mem_cons_self) _ (by omega), Option.bind_eq_bind,
        Option.bind_some]
      · dsimp only
        rw [parseMembers_later (fun other mem => each other (List.mem_cons_of_mem member mem)) rest
          (by omega)]
        rfl
      · intro rest' same
        obtain ⟨key, value⟩ := member
        cases same
  | _ =>
    intro fuel rest enough
    obtain ⟨fuel, rfl⟩ := Nat.exists_eq_add_one_of_ne_zero (Nat.ne_of_gt enough)
    rfl

end Parse

end Json
