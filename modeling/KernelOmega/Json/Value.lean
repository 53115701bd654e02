import KernelOmega.Json.Writer

/-!
# Flat JSON objects

An object of strings, integers, booleans and nulls, written without blanks. Each value ends
where the comma or the brace behind it begins, and its first character tells what kind it is, so
two objects with the same text have the same keys and values in the same order. The text is the one
the compact layout gives the object as a document (`write_document`).
-/

namespace Json

-- A list is gone through before all of `Char` is.
attribute [local instance (high)] List.decidableBAll

/-- The values of a flat object: what a signed pack is made of. -/
inductive Value where
  | null
  | bool (b : Bool)
  | int (n : Int)
  | string (s : String)
  deriving DecidableEq

section Write

variable (e : Escaping)

/-- The text of a value, in the spelling the escaping gives its strings. -/
def Value.write : Value → List Char
  | .null => ['n', 'u', 'l', 'l']
  | .bool true => ['t', 'r', 'u', 'e']
  | .bool false => ['f', 'a', 'l', 's', 'e']
  | .int n => decimal n
  | .string s => e.quote s.toList

def member (field : String × Value) : List Char :=
  e.quote field.1.toList ++ ':' :: field.2.write e

/-- The fields behind the first one, and the closing brace. -/
def furtherMembers : List (String × Value) → List Char
  | [] => ['\x7d']
  | field :: rest => ',' :: (member e field ++ furtherMembers rest)

/-- An object in compact form, the fields in the order they are given in. -/
def object : List (String × Value) → List Char
  | [] => ['\x7b', '\x7d']
  | field :: rest => '\x7b' :: (member e field ++ furtherMembers e rest)

end Write

/-! ## The object as a document -/

section Document

variable {F : Type}

/-- The value as a document. -/
def Value.document : Value → Document F
  | .null => .null
  | .bool b => .bool b
  | .int n => .int n
  | .string s => .string s

/-- The members of the document of an object. -/
def documentOf (fields : List (String × Value)) : List (String × Document F) :=
  fields.map fun field => (field.1, field.2.document)

variable {e : Escaping} {floats : Floats F}

theorem write_value (depth : Nat) (v : Value) :
    (Layout.compact e).write floats depth v.document = v.write e := by
  cases v with
  | bool b => cases b <;> rfl
  | _ => rfl

theorem writeMember_value (depth : Nat) (field : String × Value) :
    (Layout.compact e).writeMember floats depth (field.1, field.2.document) = member e field := by
  rw [Layout.writeMember, write_value]
  rfl

/-- The fields are written as the members of their document, so both models of the compact text
agree. -/
theorem writeMembers_documentOf (depth : Nat) (fields : List (String × Value)) :
    (Layout.compact e).writeMembers floats depth (documentOf fields) = furtherMembers e fields := by
  induction fields with
  | nil => rfl
  | cons field rest ih =>
    rw [documentOf, List.map_cons, Layout.writeMembers, writeMember_value]
    exact congrArg (fun behind => ',' :: (member e field ++ behind)) ih

/-- The compact layout writes the same text. -/
theorem write_document (depth : Nat) (fields : List (String × Value)) :
    (Layout.compact e).write floats depth (.object (documentOf fields)) = object e fields := by
  cases fields with
  | nil => rfl
  | cons field rest =>
    rw [documentOf, List.map_cons, Layout.write, writeMember_value]
    exact congrArg (fun behind => '\x7b' :: (member e field ++ behind))
      (writeMembers_documentOf depth rest)

end Document

/-! ## The text determines the object -/

variable {e : Escaping}

/-- What the first character of a value says about it. -/
def kindOf (c : Char) : Nat :=
  if c = 'n' then 0 else if c = 't' then 1 else if c = 'f' then 2 else if c = '"' then 3 else 4

def Value.kind : Value → Nat
  | .null => 0
  | .bool true => 1
  | .bool false => 2
  | .string _ => 3
  | .int _ => 4

theorem kindOf_digit {c : Char} (digit : c.isDigit = true) : kindOf c = 4 := by
  have other : ∀ d : Char, d.isDigit = false → c ≠ d := by
    rintro d none rfl
    rw [none] at digit
    cases digit
  rw [kindOf, if_neg (other 'n' rfl), if_neg (other 't' rfl), if_neg (other 'f' rfl),
    if_neg (other '"' rfl)]

/-- A number begins with a digit. -/
theorem head_toDigits (n : Nat) (t : List Char) :
    (Nat.toDigits 10 n ++ t).head?.map kindOf = some 4 := by
  cases digits : Nat.toDigits 10 n with
  | nil => exact absurd digits Nat.toDigits_ne_nil
  | cons c rest =>
    have isDigit : c.isDigit = true :=
      Nat.isDigit_of_mem_toDigits (b := 10) (n := n) (by decide) (by decide)
        (by rw [digits]; exact List.mem_cons_self)
    rw [List.cons_append, List.head?_cons, Option.map_some, kindOf_digit isDigit]

/-- The first character of a value tells its kind. -/
theorem head_write (v : Value) (t : List Char) :
    (v.write e ++ t).head?.map kindOf = some v.kind := by
  cases v with
  | null => rfl
  | bool b => cases b <;> rfl
  | string s => rfl
  | int n =>
    cases n with
    | ofNat n => exact head_toDigits n t
    | negSucc n => rfl

/-- A value is read back from the front of a text. The first character tells its kind. -/
theorem write_append_inj {v v' : Value} {t t' : List Char} (ends : Ends t) (ends' : Ends t')
    (same : v.write e ++ t = v'.write e ++ t') : v = v' ∧ t = t' := by
  have kinds : v.kind = v'.kind := by
    have heads := congrArg (fun text : List Char => text.head?.map kindOf) same
    rw [head_write, head_write] at heads
    exact Option.some.inj heads
  cases v with
  | null =>
    cases v' with
    | null => exact ⟨rfl, List.append_cancel_left same⟩
    | bool b => cases b <;> cases kinds
    | _ => cases kinds
  | bool b =>
    cases v' with
    | bool b' =>
      cases b <;> cases b' <;> first
        | exact ⟨rfl, List.append_cancel_left same⟩
        | cases kinds
    | _ => cases b <;> cases kinds
  | int n =>
    cases v' with
    | int n' =>
      obtain ⟨rfl, behind⟩ := decimal_append_inj ends ends' same
      exact ⟨rfl, behind⟩
    | bool b => cases b <;> cases kinds
    | _ => cases kinds
  | string s =>
    cases v' with
    | string s' =>
      obtain ⟨chars, behind⟩ := e.quote_append_inj same
      exact ⟨congrArg Value.string (String.toList_inj.mp chars), behind⟩
    | bool b => cases b <;> cases kinds
    | _ => cases kinds

/-- Behind a value stands a comma or a brace, which are in no number. -/
theorem ends_furtherMembers (fields : List (String × Value)) : Ends (furtherMembers e fields) := by
  cases fields with
  | nil =>
    rintro c ⟨⟩
    rfl
  | cons field rest =>
    rintro c ⟨⟩
    rfl

/-- The first field is read back from the front of the text. -/
theorem member_append_inj {field field' : String × Value} {fields fields' : List (String × Value)}
    (same : member e field ++ furtherMembers e fields =
      member e field' ++ furtherMembers e fields') :
    field = field' ∧ furtherMembers e fields = furtherMembers e fields' := by
  rw [member, member, List.append_assoc, List.append_assoc] at same
  obtain ⟨keys, behind⟩ := e.quote_append_inj same
  obtain ⟨values, rest⟩ := write_append_inj (ends_furtherMembers fields)
    (ends_furtherMembers fields') (List.cons.inj behind).2
  exact ⟨Prod.ext (String.toList_inj.mp keys) values, rest⟩

/-- The fields behind the first are read back from their text. -/
theorem furtherMembers_injective : Function.Injective (furtherMembers e) := by
  intro fields fields' same
  induction fields generalizing fields' with
  | nil =>
    cases fields' with
    | nil => rfl
    | cons field' rest' => cases (List.cons.inj same).1
  | cons field rest ih =>
    cases fields' with
    | nil => cases (List.cons.inj same).1
    | cons field' rest' =>
      obtain ⟨rfl, behind⟩ := member_append_inj (List.cons.inj same).2
      rw [ih behind]

/-- Two objects with one text are one. -/
theorem object_injective : Function.Injective (object e) := by
  intro fields fields' same
  cases fields with
  | nil =>
    cases fields' with
    | nil => rfl
    | cons field' rest' =>
      have second := (List.cons.inj same).2
      cases (List.cons.inj second).1
  | cons field rest =>
    cases fields' with
    | nil =>
      have second := (List.cons.inj same).2
      cases (List.cons.inj second).1
    | cons field' rest' =>
      obtain ⟨rfl, behind⟩ := member_append_inj (List.cons.inj same).2
      rw [furtherMembers_injective behind]

/-! ## Two writers -/

/-- No string of the value has DEL or a character above it. -/
def Value.Low : Value → Prop
  | .string s => ∀ c ∈ s.toList, c.toNat < 0x7f
  | _ => True

theorem quote_eq_of_low {s : List Char} (low : ∀ c ∈ s, c.toNat < 0x7f) :
    ascii.quote s = minimal.quote s := by
  have same : s.map escapeAscii = s.map escapeMinimal :=
    List.map_congr_left fun c mem => escapeAscii_eq_escapeMinimal (low c mem)
  rw [Escaping.quote, Escaping.quote, ascii, minimal, List.flatMap_def, List.flatMap_def, same]

theorem write_eq_of_low {v : Value} (low : v.Low) : v.write ascii = v.write minimal := by
  cases v with
  | string s => exact quote_eq_of_low low
  | bool b => cases b <;> rfl
  | _ => rfl

theorem quote_ascii_low (s : List Char) : ∀ c ∈ ascii.quote s, c.toNat < 0x7f := by
  intro c mem
  rw [Escaping.quote, List.mem_cons, List.mem_append, List.mem_flatMap, List.mem_singleton] at mem
  rcases mem with rfl | ⟨d, -, mem⟩ | rfl
  · decide
  · exact toNat_escapeAscii_lt d c mem
  · decide

theorem toDigits_low (n : Nat) : ∀ c ∈ Nat.toDigits 10 n, c.toNat < 0x7f := by
  intro c mem
  have digit := Nat.isDigit_of_mem_toDigits (by decide) (by decide) mem
  rw [Char.isDigit, Bool.and_eq_true, decide_eq_true_eq, decide_eq_true_eq] at digit
  have upper : c.toNat ≤ 57 := digit.2
  omega

/-- A text with escapes is ASCII and has no `DEL`, since values have no raw characters. -/
theorem write_ascii_low (v : Value) : ∀ c ∈ v.write ascii, c.toNat < 0x7f := by
  cases v with
  | null => decide
  | bool b => cases b <;> decide
  | string s => exact quote_ascii_low s.toList
  | int n =>
    cases n with
    | ofNat n => exact toDigits_low n
    | negSucc n =>
      intro c mem
      rcases List.mem_cons.mp mem with rfl | mem
      · decide
      · exact toDigits_low (n + 1) c mem

theorem member_eq_of_low {field : String × Value} (key : ∀ c ∈ field.1.toList, c.toNat < 0x7f)
    (low : field.2.Low) : member ascii field = member minimal field := by
  rw [member, member, quote_eq_of_low key, write_eq_of_low low]

/-- Where no character needs more than ASCII both spellings agree, field by field, -/
theorem furtherMembers_eq_of_low {fields : List (String × Value)}
    (keys : ∀ field ∈ fields, ∀ c ∈ field.1.toList, c.toNat < 0x7f)
    (low : ∀ field ∈ fields, field.2.Low) :
    furtherMembers ascii fields = furtherMembers minimal fields := by
  induction fields with
  | nil => rfl
  | cons field rest ih =>
    rw [furtherMembers, furtherMembers, member_eq_of_low (keys field List.mem_cons_self)
      (low field List.mem_cons_self), ih (fun f mem => keys f (List.mem_cons_of_mem field mem))
        fun f mem => low f (List.mem_cons_of_mem field mem)]

/-- and for the object. -/
theorem object_eq_of_low {fields : List (String × Value)}
    (keys : ∀ field ∈ fields, ∀ c ∈ field.1.toList, c.toNat < 0x7f)
    (low : ∀ field ∈ fields, field.2.Low) : object ascii fields = object minimal fields := by
  cases fields with
  | nil => rfl
  | cons field rest =>
    rw [object, object, member_eq_of_low (keys field List.mem_cons_self)
      (low field List.mem_cons_self), furtherMembers_eq_of_low
        (fun f mem => keys f (List.mem_cons_of_mem field mem))
        fun f mem => low f (List.mem_cons_of_mem field mem)]

theorem member_ascii_low (field : String × Value) : ∀ c ∈ member ascii field, c.toNat < 0x7f := by
  intro c mem
  rcases List.mem_append.mp mem with mem | mem
  · exact quote_ascii_low _ c mem
  · rcases List.mem_cons.mp mem with rfl | mem
    · decide
    · exact write_ascii_low field.2 c mem

/-- The text with all escapes has no character above ASCII. -/
theorem furtherMembers_ascii_low (fields : List (String × Value)) :
    ∀ c ∈ furtherMembers ascii fields, c.toNat < 0x7f := by
  induction fields with
  | nil => decide
  | cons field rest ih =>
    intro c mem
    rcases List.mem_cons.mp mem with rfl | mem
    · decide
    · rcases List.mem_append.mp mem with mem | mem
      · exact member_ascii_low field c mem
      · exact ih c mem

/-- The text of the ASCII writer is ASCII without DEL. -/
theorem object_ascii_low (fields : List (String × Value)) :
    ∀ c ∈ object ascii fields, c.toNat < 0x7f := by
  cases fields with
  | nil => decide
  | cons field rest =>
    intro c mem
    rcases List.mem_cons.mp mem with rfl | mem
    · decide
    · rcases List.mem_append.mp mem with mem | mem
      · exact member_ascii_low field c mem
      · exact furtherMembers_ascii_low rest c mem

/-- The other writer copies every character from DEL on. -/
theorem mem_member_minimal {key s : String} {c : Char} (mem : c ∈ s.toList)
    (high : 0x7f ≤ c.toNat) : c ∈ member minimal (key, .string s) := by
  refine List.mem_append_right _ (List.mem_cons_of_mem _ (List.mem_cons_of_mem _ ?_))
  refine List.mem_append_left _ (List.mem_flatMap.mpr ⟨c, mem, ?_⟩)
  show c ∈ escapeMinimal c
  rw [escapeMinimal_of_le high]
  exact List.mem_singleton_self c

/-- What is in a field is in the text of the fields, -/
theorem mem_furtherMembers {fields : List (String × Value)} {field : String × Value}
    (mem : field ∈ fields) {c : Char} (here : c ∈ member e field) : c ∈ furtherMembers e fields := by
  induction fields with
  | nil => cases mem
  | cons first rest ih =>
    refine List.mem_cons_of_mem _ (List.mem_append.mpr ?_)
    rcases List.mem_cons.mp mem with rfl | mem
    · exact .inl here
    · exact .inr (ih mem)

/-- and in that of the object. -/
theorem mem_object {fields : List (String × Value)} {field : String × Value}
    (mem : field ∈ fields) {c : Char} (here : c ∈ member e field) : c ∈ object e fields := by
  cases fields with
  | nil => cases mem
  | cons first rest =>
    refine List.mem_cons_of_mem _ (List.mem_append.mpr ?_)
    rcases List.mem_cons.mp mem with rfl | mem
    · exact .inl here
    · exact .inr (mem_furtherMembers mem here)

/-- A text the ASCII writer also makes is of an object without such characters. -/
theorem low_of_object_ascii_eq_minimal {fields fields' : List (String × Value)}
    (same : object ascii fields = object minimal fields') : ∀ field ∈ fields', field.2.Low := by
  intro field mem
  obtain ⟨key, value⟩ := field
  cases value with
  | string s =>
    intro c here
    by_contra high
    have copied := mem_object mem (@mem_member_minimal key s c here (not_lt.mp high))
    rw [← same] at copied
    exact high (object_ascii_low fields c copied)
  | _ => trivial

/-- Both writers make the same text exactly when no string has DEL or a character above it. -/
theorem object_ascii_eq_minimal_iff {fields : List (String × Value)}
    (keys : ∀ field ∈ fields, ∀ c ∈ field.1.toList, c.toNat < 0x7f) :
    object ascii fields = object minimal fields ↔ ∀ field ∈ fields, field.2.Low :=
  ⟨low_of_object_ascii_eq_minimal, object_eq_of_low keys⟩

/-- One text of both writers is of one object. -/
theorem eq_of_object_ascii_eq_minimal {fields fields' : List (String × Value)}
    (keys : ∀ field ∈ fields', ∀ c ∈ field.1.toList, c.toNat < 0x7f)
    (same : object ascii fields = object minimal fields') : fields = fields' := by
  apply @object_injective ascii
  rw [same, object_eq_of_low keys (low_of_object_ascii_eq_minimal same)]

end Json
