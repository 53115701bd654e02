import KernelOmega.Json.Document
import KernelOmega.Json.Escape

/-!
# Reading JSON texts

A reader of JSON: it takes a text apart into marks, passing over blanks, and parses them. Strings
are of Unicode scalar values, so the escape of half a surrogate pair is refused; the numbers with
a fraction or an exponent are what the reader's language makes of them.
-/

namespace Json

/-! ## Strings -/

/-- The characters up to the closing mark, and what is behind it. -/
def readString : (fuel : Nat) → List Char → Option (List Char × List Char)
  | 0, _ => none
  | _ + 1, '"' :: rest => some ([], rest)
  | fuel + 1, text => do
    let first ← nextChar text
    let rest ← readString fuel first.2
    return (first.1 :: rest.1, rest.2)

/-! ## Numbers -/

/-- What follows one digit or more. -/
def digits (text : List Char) : Option (List Char) :=
  if text.takeWhile Char.isDigit = [] then none else some (text.dropWhile Char.isDigit)

def unsigned : List Char → List Char
  | '-' :: rest => rest
  | text => text

/-- What follows the whole part, which has no leading zero. -/
def whole : List Char → Option (List Char)
  | '0' :: rest => some rest
  | text => digits text

/-- What follows the fraction, if there is one. -/
def fraction : List Char → Option (List Char)
  | '.' :: rest => digits rest
  | text => some text

/-- What follows the exponent, if there is one. -/
def exponent : List Char → Option (List Char)
  | c :: rest =>
    if c = 'e' ∨ c = 'E' then
      match rest with
      | '+' :: rest => digits rest
      | rest => digits (unsigned rest)
    else some (c :: rest)
  | [] => some []

/-- An integer in decimal, with its sign. -/
def integer : List Char → Int
  | '-' :: rest => -Nat.ofDigitChars 10 rest 0
  | text => Nat.ofDigitChars 10 text 0

def IsInteger (text : List Char) : Prop := whole (unsigned text) = some []

instance (text : List Char) : Decidable (IsInteger text) :=
  inferInstanceAs (Decidable (_ = _))

/-- A number with a fraction or an exponent. -/
def IsFloat (text : List Char) : Prop :=
  ¬IsInteger text ∧ ((whole (unsigned text)).bind fraction).bind exponent = some []

instance (text : List Char) : Decidable (IsFloat text) := inferInstanceAs (Decidable (_ ∧ _))

/-- The characters of numbers. -/
def isNumeral (c : Char) : Bool :=
  c.isDigit || c = '-' || c = '+' || c = '.' || c = 'e' || c = 'E'

/-! ## Texts -/

section Texts

-- `value` is the number a text with a fraction or an exponent stands for.
variable {F : Type} (value : List Char → F)

/-- A numeral with a fraction or an exponent is a double, and any other an integer of any size. -/
def readNumber (text : List Char) : Option (Mark F) :=
  if IsInteger text then some (.int (integer text))
  else if IsFloat text then some (.float (value text))
  else none

def isBlank (c : Char) : Bool := c = ' ' || c = '\t' || c = '\n' || c = '\r'

/-- The mark at the front of a text, and the text behind it. -/
def nextMark : List Char → Option (Mark F × List Char)
  | '[' :: rest => some (.openArray, rest)
  | ']' :: rest => some (.closeArray, rest)
  | '\x7b' :: rest => some (.openObject, rest)
  | '\x7d' :: rest => some (.closeObject, rest)
  | ',' :: rest => some (.comma, rest)
  | ':' :: rest => some (.colon, rest)
  | '"' :: rest => (readString (rest.length + 1) rest).map fun found =>
      (.string (String.ofList found.1), found.2)
  | 'n' :: 'u' :: 'l' :: 'l' :: rest => some (.null, rest)
  | 't' :: 'r' :: 'u' :: 'e' :: rest => some (.bool true, rest)
  | 'f' :: 'a' :: 'l' :: 's' :: 'e' :: rest => some (.bool false, rest)
  | text => (readNumber value (text.takeWhile isNumeral)).map fun mark =>
      (mark, text.dropWhile isNumeral)

/-- The marks of a text. -/
def readMarks : (fuel : Nat) → List Char → Option (List (Mark F))
  | _, [] => some []
  | 0, _ :: _ => none
  | fuel + 1, c :: rest =>
    if isBlank c then readMarks fuel rest
    else do
      let first ← nextMark value (c :: rest)
      let marks ← readMarks fuel first.2
      return first.1 :: marks

/-- The document a text is of. -/
def loads (text : List Char) : Option (Document F) := do
  let marks ← readMarks value text.length text
  match parseValue marks.length marks with
  | some (document, []) => some document
  | _ => none

end Texts

end Json
