import KernelOmega.Json.Writer
import KernelOmega.Python.Dataclass
import KernelOmega.Python.TextFile
import Mathlib.Data.Rat.Defs

/-!
# Payloads

A record travels as the text of a JSON object: `to_json` writes `asdict` of it with the keys in
order, `from_json` calls the class with what the text is of. `from_json` does not look at the
types, so what comes of it are the attributes as documents.
-/

namespace KernelOmega

open Json Python

-- A list is gone through before all of `Char` is.
attribute [local instance (high)] List.decidableBAll

/-- The floating-point numbers of the daemons: how Python and serde write them, and how Python
reads them. A `time.time()` is one, and so is a time span; the model counts both exactly, and
`ofRat` is the number next to an exact one. -/
structure Doubles (F : Type) where
  ofRat : Rat → F
  toRat : F → Rat
  repr : Floats F
  /-- Serde's way to write them. -/
  ryu : Floats F
  parse : List Char → F
  parse_repr : ∀ x, parse (repr.repr x) = x
  parse_ryu : ∀ x, parse (ryu.repr x) = x

theorem isFloat_two : ∀ x, IsFloat (bif x then ['1', '.', '5'] else ['0', '.', '0']) := by
  decide

theorem isNumeral_two :
    ∀ x, ∀ c ∈ (bif x then ['1', '.', '5'] else ['0', '.', '0']), isNumeral c = true := by
  decide

/-- Two of them, written as both languages write them. -/
def twoFloats : Floats Bool where
  repr x := bif x then ['1', '.', '5'] else ['0', '.', '0']
  isFloat := isFloat_two
  isNumeral := isNumeral_two

theorem parse_two : ∀ x, decide (twoFloats.repr x = ['1', '.', '5']) = x := by decide

/-- A type with two doubles, of which one is `1.5`. -/
def twoDoubles : Doubles Bool where
  ofRat x := decide (x = 3 / 2)
  toRat x := bif x then 3 / 2 else 0
  repr := twoFloats
  ryu := twoFloats
  parse text := decide (text = ['1', '.', '5'])
  parse_repr := parse_two
  parse_ryu := parse_two

/-- The bytes of a `ByteArray`, as they are written. -/
def listOf (bytes : ByteArray) : List UInt8 := bytes.data.toList

def arrayOf (bytes : List UInt8) : ByteArray := ⟨bytes.toArray⟩

@[simp] theorem arrayOf_listOf (bytes : ByteArray) : arrayOf (listOf bytes) = bytes :=
  ByteArray.ext Array.toArray_toList

@[simp] theorem length_listOf (bytes : ByteArray) : (listOf bytes).length = bytes.size :=
  Array.length_toList

/-- What `from_json` raises. -/
inductive PayloadError where
  /-- `UnicodeDecodeError` -/
  | notUtf8
  /-- `JSONDecodeError` -/
  | notJson
  /-- The `TypeError` for an argument after `**` that is no mapping. -/
  | notMapping
  | call (e : CallError)
  | keyError (key : String)

/-- The attributes of an instance, in the order of the fields. -/
abbrev Attributes (F : Type) := List (String × Document F)

section Python

variable {F : Type} (doubles : Doubles F)

/-- `json.loads` -/
def loads (text : String) : Except PayloadError (Document F) :=
  match Json.loads doubles.parse text.toList with
  | some document => .ok document
  | none => .error .notJson

/-- `json.dumps` -/
def dumps (document : Document F) : String :=
  String.ofList ((Layout.spaced ascii).write doubles.repr 0 document)

/-- `json.dumps` with `sort_keys=True` -/
def dumpsSorted (document : Document F) : String := dumps doubles document.sortKeys

/-- `json.dumps` with `sort_keys=True, separators=(",", ":")` -/
def dumpsCompact (document : Document F) : String :=
  String.ofList ((Layout.compact ascii).write doubles.repr 0 document.sortKeys)

/-- `json.dumps` with `sort_keys=True, indent=2` -/
def dumpsIndented (document : Document F) : String :=
  String.ofList ((Layout.indented ascii).write doubles.repr 0 document.sortKeys)

/-- `serde_json::to_string` -/
def toSerde (document : Document F) : String :=
  String.ofList ((Layout.compact minimal).write doubles.ryu 0 document)

/-- A document is read from each of its texts. -/
theorem loads_write (layout : Layout) {floats : Floats F}
    (parse : ∀ x, doubles.parse (floats.repr x) = x) (document : Document F) :
    loads doubles (String.ofList (layout.write floats 0 document)) = .ok document := by
  have read : Json.loads doubles.parse ([] ++ (layout.write floats 0 document ++ [])) =
      some (Layout.reread floats doubles.parse document) :=
    Layout.loads_write 0 document (List.forall_mem_nil _) (List.forall_mem_nil _)
  rw [List.nil_append, List.append_nil, Layout.reread, Document.map_id parse] at read
  rw [loads, String.toList_ofList, read]

theorem loads_dumps (document : Document F) : loads doubles (dumps doubles document) = .ok document :=
  loads_write doubles _ doubles.parse_repr document

theorem loads_dumpsSorted (document : Document F) :
    loads doubles (dumpsSorted doubles document) = .ok document.sortKeys :=
  loads_dumps doubles document.sortKeys

theorem loads_dumpsIndented (document : Document F) :
    loads doubles (dumpsIndented doubles document) = .ok document.sortKeys :=
  loads_write doubles _ doubles.parse_repr document.sortKeys

theorem loads_toSerde (document : Document F) :
    loads doubles (toSerde doubles document) = .ok document :=
  loads_write doubles _ doubles.parse_ryu document

/-! ## Instances -/

/-- What `**document` is of. -/
def keywords : Document F → Except PayloadError (Attributes F)
  | .object members => .ok members
  | _ => .error .notMapping

/-- `cls(**document)` -/
def callClass (fields : List (Python.Field (Document F))) (document : Document F) :
    Except PayloadError (Attributes F) :=
  (keywords document).bind fun members => (construct fields members).mapError .call

/-- `from_json` for a text -/
def fromJson (fields : List (Python.Field (Document F))) (text : String) :
    Except PayloadError (Attributes F) :=
  (loads doubles text).bind (callClass fields)

/-- `from_json` for bytes -/
def fromBytes (fields : List (Python.Field (Document F))) (bytes : ByteArray) :
    Except PayloadError (Attributes F) :=
  match decodeUtf8 bytes with
  | some text => fromJson doubles fields text
  | none => .error .notUtf8

/-- The attributes with every object inside them in order. -/
def sortInside (attributes : Attributes F) : Attributes F :=
  attributes.map fun member => (member.1, member.2.sortKeys)

variable {doubles} {fields : List (Python.Field (Document F))} {attributes : Attributes F}

theorem callClass_of_perm {members : Attributes F}
    (names : attributes.map Prod.fst = fields.map Field.name)
    (distinct : (fields.map Field.name).Nodup) (perm : members.Perm attributes) :
    callClass fields (.object members) = .ok attributes := by
  rw [callClass, keywords, Except.bind, construct_of_perm names distinct perm, Except.mapError]

theorem sortInside_names : (sortInside attributes).map Prod.fst = attributes.map Prod.fst := by
  rw [sortInside, List.map_map]
  rfl

/-- An instance written with its keys in order is read back with the objects inside it in order. -/
theorem fromJson_dumpsSorted (names : attributes.map Prod.fst = fields.map Field.name)
    (distinct : (fields.map Field.name).Nodup) :
    fromJson doubles fields (dumpsSorted doubles (.object attributes)) =
      .ok (sortInside attributes) := by
  rw [fromJson, loads_dumpsSorted, Except.bind, Document.sortKeys_object]
  exact callClass_of_perm (sortInside_names.trans names) distinct (sortMembers_perm _)

/-- An instance that serde wrote is read back. -/
theorem fromJson_toSerde (names : attributes.map Prod.fst = fields.map Field.name)
    (distinct : (fields.map Field.name).Nodup) :
    fromJson doubles fields (toSerde doubles (.object attributes)) = .ok attributes := by
  rw [fromJson, loads_toSerde, Except.bind]
  exact callClass_of_perm names distinct (.refl _)

theorem fromBytes_encodeUtf8 (text : String) :
    fromBytes doubles fields (encodeUtf8 text) = fromJson doubles fields text := by
  rw [fromBytes, decodeUtf8_encodeUtf8]

end Python

end KernelOmega
