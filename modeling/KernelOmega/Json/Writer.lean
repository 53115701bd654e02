import KernelOmega.Json.Reader
import Mathlib.Data.List.TakeWhile

/-!
# Writing JSON texts

The writers differ in how they escape and in the blanks they put between the marks. Whatever the
layout, the reader comes to the document that was written.
-/

namespace Json

-- A list is gone through before all of `Char` is.
attribute [local instance (high)] List.decidableBAll

/-! ## Strings -/

section Quote

variable (e : Escaping)

theorem escape_ne_nil (c : Char) : e.escape c ≠ [] := by
  intro none
  have reads := e.read c []
  rw [none] at reads
  cases reads

/-- An escaped text is read back up to its closing quote. -/
theorem readString_escaped (s t : List Char) {fuel : Nat} (enough : s.length < fuel) :
    readString fuel (s.flatMap e.escape ++ '"' :: t) = some (s, t) := by
  induction s generalizing fuel with
  | nil =>
    obtain ⟨fuel, rfl⟩ := Nat.exists_eq_add_one_of_ne_zero (Nat.ne_of_gt enough)
    rfl
  | cons c rest ih =>
    rw [List.length_cons] at enough
    obtain ⟨fuel, rfl⟩ := Nat.exists_eq_add_one_of_ne_zero (n := fuel) (by omega)
    have reads := e.read c (rest.flatMap e.escape ++ '"' :: t)
    rw [List.flatMap_cons, List.append_assoc]
    -- What was escaped does not begin with the closing mark.
    rw [readString, reads, Option.bind_eq_bind, Option.bind_some, ih (by omega)]
    · rfl
    · intro behind same
      rw [same] at reads
      cases reads

/-- No character is escaped to nothing. -/
theorem length_le_escaped (s : List Char) : s.length ≤ (s.flatMap e.escape).length := by
  induction s with
  | nil => exact Nat.le_refl 0
  | cons c rest ih =>
    have some := List.length_pos_of_ne_nil (escape_ne_nil e c)
    rw [List.flatMap_cons, List.length_append, List.length_cons]
    omega

end Quote

/-! ## Numbers -/

theorem isDigit_toDigits (n : Nat) : ∀ c ∈ Nat.toDigits 10 n, c.isDigit = true :=
  fun _ mem => Nat.isDigit_of_mem_toDigits (by decide) (by decide) mem

/-- Only zero is written with a zero in front. -/
theorem head_toDigits_ne {n : Nat} (positive : n ≠ 0) :
    ∃ c rest, Nat.toDigits 10 n = c :: rest ∧ c ≠ '0' := by
  induction n using Nat.strongRecOn with
  | _ n ih =>
    by_cases small : n < 10
    · have digit : ∀ n < 10, n ≠ 0 → n.digitChar ≠ '0' := by decide
      exact ⟨n.digitChar, [], Nat.toDigits_of_lt_base small, digit n small positive⟩
    · obtain ⟨c, rest, front, other⟩ := ih (n / 10) (by omega) (by omega)
      refine ⟨c, rest ++ [(n % 10).digitChar], ?_, other⟩
      rw [Nat.toDigits_of_base_le (by decide) (not_lt.mp small), front, List.cons_append]

theorem digits_of_forall {text : List Char} (all : ∀ c ∈ text, c.isDigit = true)
    (some : text ≠ []) : digits text = .some [] := by
  have taken : text.takeWhile Char.isDigit = text := List.takeWhile_eq_self_iff.mpr all
  rw [digits, taken, if_neg some, List.dropWhile_eq_nil_iff.mpr all]

/-- The digits of a number are a whole numeral, -/
theorem whole_toDigits (n : Nat) : whole (Nat.toDigits 10 n) = some [] := by
  by_cases zero : n = 0
  · subst zero
    rfl
  · obtain ⟨c, rest, digits, other⟩ := head_toDigits_ne zero
    have all := isDigit_toDigits n
    rw [digits] at all ⊢
    rw [whole]
    · exact digits_of_forall all (List.cons_ne_nil c rest)
    · exact fun rest' same => other (List.cons.inj same).1

theorem unsigned_toDigits (n : Nat) : unsigned (Nat.toDigits 10 n) = Nat.toDigits 10 n := by
  rw [unsigned]
  intro rest same
  have digit := isDigit_toDigits n '-' (same ▸ List.mem_cons_self)
  cases digit

theorem isInteger_decimal (n : Int) : IsInteger (decimal n) := by
  cases n with
  | ofNat n => exact (congrArg whole (unsigned_toDigits n)).trans (whole_toDigits n)
  | negSucc n => exact whole_toDigits (n + 1)

/-- and are read as it. -/
theorem integer_decimal (n : Int) : integer (decimal n) = n := by
  cases n with
  | ofNat n =>
    rw [decimal, integer, Nat.ofDigitChars_toDigits (by decide) (by decide)]
    · rfl
    · intro rest same
      have digit := isDigit_toDigits n '-' (same ▸ List.mem_cons_self)
      cases digit
  | negSucc n =>
    rw [decimal, integer, Nat.ofDigitChars_toDigits (by decide) (by decide)]
    rfl

/-- A number is written with a sign and digits. -/
theorem isNumeral_decimal (n : Int) : ∀ c ∈ decimal n, isNumeral c = true := by
  have digits : ∀ n c, c ∈ Nat.toDigits 10 n → isNumeral c = true := by
    intro n c mem
    rw [isNumeral, isDigit_toDigits n c mem]
    rfl
  cases n with
  | ofNat n => exact digits n
  | negSucc n => exact List.forall_mem_cons.mpr ⟨rfl, digits (n + 1)⟩

/-! ## Marks -/

section Marks

variable {G : Type} {value : List Char → G}

/-- A text that does not go on with a character of a number. -/
def Stops (t : List Char) : Prop := ∀ c, t.head? = some c → isNumeral c = false

/-- A numeral in front of a text that stops it. -/
theorem nextMark_number {text t : List Char} {mark : Mark G}
    (numeral : ∀ c ∈ text, isNumeral c = true) (reads : readNumber value text = some mark) (stops : Stops t) :
    nextMark value (text ++ t) = some (mark, t) := by
  have taken : (text ++ t).takeWhile isNumeral = text ∧ (text ++ t).dropWhile isNumeral = t := by
    rw [List.takeWhile_append_of_pos numeral, List.dropWhile_append_of_pos numeral]
    cases t with
    | nil => exact ⟨by rw [List.takeWhile_nil, List.append_nil], rfl⟩
    | cons c rest =>
      have other : ¬isNumeral c = true := by
        rw [stops c rfl]
        exact Bool.false_ne_true
      rw [List.takeWhile_cons_of_neg other, List.dropWhile_cons_of_neg other, List.append_nil]
      exact ⟨rfl, rfl⟩
  cases text with
  | nil => cases reads
  | cons c rest =>
    have here := numeral c List.mem_cons_self
    -- The other marks begin with characters no number has.
    have other : ∀ d : Char, isNumeral d = false → c ≠ d := by
      rintro d none rfl
      rw [none] at here
      cases here
    obtain ⟨front, behind⟩ := taken
    rw [nextMark, front, reads, behind]
    · rfl
    all_goals exact fun _ same => other _ rfl (List.cons.inj same).1

/-- A quoted text is one mark. -/
theorem nextMark_quote (e : Escaping) (s : String) (t : List Char) :
    nextMark value (e.quote s.toList ++ t) = some (.string s, t) := by
  have behind : e.quote s.toList ++ t = '"' :: (s.toList.flatMap e.escape ++ '"' :: t) := by
    rw [Escaping.quote, List.cons_append, List.append_assoc, List.singleton_append]
  have enough := length_le_escaped e s.toList
  rw [behind, nextMark, readString_escaped e]
  · rw [Option.map_some, String.ofList_toList]
  · rw [List.length_append, List.length_cons]
    omega

/-- The reader finds these marks in the text. -/
def Reads (value : List Char → G) (text : List Char) (marks : List (Mark G)) : Prop :=
  readMarks value text.length text = some marks

/-- More fuel does not change what is read. -/
theorem readMarks_more {fuel : Nat} {text : List Char} {marks : List (Mark G)}
    (found : readMarks value fuel text = some marks) (more : Nat) :
    readMarks value (fuel + more) text = some marks := by
  induction fuel generalizing text marks with
  | zero =>
    cases text with
    | nil => rw [readMarks] at found ⊢; exact found
    | cons c rest => cases found
  | succ fuel ih =>
    cases text with
    | nil => rw [readMarks] at found ⊢; exact found
    | cons c rest =>
      rw [Nat.add_right_comm]
      rw [readMarks] at found ⊢
      split at found
      · next blank =>
        rw [if_pos blank]
        exact ih found
      · next plain =>
        rw [if_neg plain]
        obtain ⟨first, next, found⟩ := Option.bind_eq_some_iff.mp found
        obtain ⟨later, behind, found⟩ := Option.bind_eq_some_iff.mp found
        rw [next, Option.bind_eq_bind, Option.bind_some, ih behind]
        exact found

namespace Reads

variable {text : List Char} {marks : List (Mark G)}

theorem nil : Reads value [] [] := rfl

/-- Blanks are passed over. -/
theorem blanks {blanks : List Char} (blank : ∀ c ∈ blanks, isBlank c = true)
    (reads : Reads value text marks) : Reads value (blanks ++ text) marks := by
  induction blanks with
  | nil => exact reads
  | cons c rest ih =>
    have later := ih fun d mem => blank d (List.mem_cons_of_mem c mem)
    rw [Reads, List.cons_append, List.length_cons, readMarks, if_pos (blank c List.mem_cons_self)]
    exact later

/-- A mark is found in front of the others. -/
theorem mark {c : Char} {piece : List Char} {mark : Mark G} (plain : isBlank c = false)
    (next : nextMark value (c :: piece ++ text) = some (mark, text))
    (reads : Reads value text marks) : Reads value (c :: piece ++ text) (mark :: marks) := by
  have later : readMarks value (piece ++ text).length text = some marks := by
    rw [List.length_append, Nat.add_comm]
    exact readMarks_more reads _
  have blank : ¬isBlank c = true := by
    rw [plain]
    exact Bool.false_ne_true
  rw [List.cons_append] at next
  rw [Reads, List.cons_append, List.length_cons, readMarks, if_neg blank, next, Option.bind_eq_bind,
    Option.bind_some, later]
  rfl

/-- A mark of one character. -/
theorem char {c : Char} {found : Mark G} (plain : isBlank c = false)
    (next : nextMark value (c :: text) = some (found, text)) (reads : Reads value text marks) :
    Reads value (c :: text) (found :: marks) :=
  @mark G value text marks c [] found plain next reads

theorem quote (e : Escaping) (s : String) (reads : Reads value text marks) :
    Reads value (e.quote s.toList ++ text) (.string s :: marks) :=
  reads.mark rfl (nextMark_quote e s text)

/-- A numeral is found in front of a text that stops it. -/
theorem number {numeral : List Char} {mark : Mark G} (chars : ∀ c ∈ numeral, isNumeral c = true)
    (number : readNumber value numeral = some mark) (stops : Stops text)
    (reads : Reads value text marks) : Reads value (numeral ++ text) (mark :: marks) := by
  have next := nextMark_number chars number stops
  cases numeral with
  | nil => cases number
  | cons c rest =>
    refine reads.mark ?_ next
    have here := chars c List.mem_cons_self
    rw [← Bool.not_eq_true]
    intro blank
    simp only [isBlank, Bool.or_eq_true, decide_eq_true_eq] at blank
    rcases blank with ((rfl | rfl) | rfl) | rfl <;> cases here

end Reads

end Marks

/-! ## Layouts -/

/-- The numbers that are no integers, as a language writes them. -/
structure Floats (F : Type) where
  repr : F → List Char
  isFloat : ∀ x, IsFloat (repr x)
  isNumeral : ∀ x, ∀ c ∈ repr x, isNumeral c = true

/-- How a writer escapes, and the blanks it writes: behind a comma and inside the brackets of what
is not empty, both by the depth, and behind a colon. -/
structure Layout where
  escaping : Escaping
  gap : Nat → List Char
  margin : Nat → List Char
  colon : List Char
  gapBlank : ∀ depth, ∀ c ∈ gap depth, isBlank c = true
  marginBlank : ∀ depth, ∀ c ∈ margin depth, isBlank c = true
  colonBlank : ∀ c ∈ colon, isBlank c = true

namespace Layout

section Write

variable {F : Type} (layout : Layout) (floats : Floats F)

mutual

/-- The text of a document, as deep in the layout as it stands. -/
def write (depth : Nat) : Document F → List Char
  | .null => ['n', 'u', 'l', 'l']
  | .bool true => ['t', 'r', 'u', 'e']
  | .bool false => ['f', 'a', 'l', 's', 'e']
  | .int n => decimal n
  | .float x => floats.repr x
  | .string s => layout.escaping.quote s.toList
  | .array [] => ['[', ']']
  | .array (item :: rest) =>
    '[' :: (layout.margin (depth + 1) ++ (write (depth + 1) item ++ writeItems depth rest))
  | .object [] => ['\x7b', '\x7d']
  | .object (member :: rest) =>
    '\x7b' :: (layout.margin (depth + 1) ++
      (writeMember (depth + 1) member ++ writeMembers depth rest))

/-- The further items of an array, and its end, -/
def writeItems (depth : Nat) : List (Document F) → List Char
  | [] => layout.margin depth ++ [']']
  | item :: rest =>
    ',' :: (layout.gap (depth + 1) ++ (write (depth + 1) item ++ writeItems depth rest))

def writeMember (depth : Nat) : String × Document F → List Char
  | (key, value) =>
    layout.escaping.quote key.toList ++ ':' :: (layout.colon ++ write depth value)

/-- and the further members of an object. -/
def writeMembers (depth : Nat) : List (String × Document F) → List Char
  | [] => layout.margin depth ++ ['\x7d']
  | member :: rest =>
    ',' :: (layout.gap (depth + 1) ++ (writeMember (depth + 1) member ++ writeMembers depth rest))

end

end Write

/-! ## What is written is read -/

section RoundTrip

variable {layout : Layout} {F G : Type} {floats : Floats F} {value : List Char → G}

theorem isNumeral_of_isBlank {c : Char} (blank : isBlank c = true) : isNumeral c = false := by
  simp only [isBlank, Bool.or_eq_true, decide_eq_true_eq] at blank
  rcases blank with ((rfl | rfl) | rfl) | rfl <;> rfl

theorem stops_blanks {blanks text : List Char} (blank : ∀ c ∈ blanks, isBlank c = true)
    (stops : Stops text) : Stops (blanks ++ text) := by
  cases blanks with
  | nil => exact stops
  | cons c rest =>
    rintro d ⟨⟩
    exact isNumeral_of_isBlank (blank c List.mem_cons_self)

/-- Behind an item comes something that ends a number, -/
theorem stops_writeItems (depth : Nat) (items : List (Document F)) (text : List Char) :
    Stops (layout.writeItems floats depth items ++ text) := by
  cases items with
  | nil =>
    rw [writeItems, List.append_assoc]
    refine stops_blanks (layout.marginBlank depth) ?_
    rintro c ⟨⟩
    rfl
  | cons item rest =>
    rw [writeItems]
    rintro c ⟨⟩
    rfl

/-- and so it is behind a member. -/
theorem stops_writeMembers (depth : Nat) (members : List (String × Document F))
    (text : List Char) : Stops (layout.writeMembers floats depth members ++ text) := by
  cases members with
  | nil =>
    rw [writeMembers, List.append_assoc]
    refine stops_blanks (layout.marginBlank depth) ?_
    rintro c ⟨⟩
    rfl
  | cons member rest =>
    rw [writeMembers]
    rintro c ⟨⟩
    rfl

/-- What the reader makes of a document: the numbers are those of its own language. -/
def reread (floats : Floats F) (value : List Char → G) (document : Document F) : Document G :=
  document.map fun x => value (floats.repr x)

/-- What is written of the document is found in front of whatever stops a number. -/
def Legible (layout : Layout) (floats : Floats F) (value : List Char → G)
    (document : Document F) : Prop :=
  ∀ depth text marks, Stops text → Reads value text marks →
    Reads value (layout.write floats depth document ++ text)
      ((reread floats value document).marks ++ marks)

variable {text : List Char} {marks : List (Mark G)}

/-- The further items are read as their marks, whatever layout they were written in, -/
theorem reads_writeItems {items : List (Document F)}
    (each : ∀ item ∈ items, Legible layout floats value item) (depth : Nat)
    (reads : Reads value text marks) :
    Reads value (layout.writeItems floats depth items ++ text)
      (Document.laterItems (items.map (reread floats value)) ++ marks) := by
  induction items with
  | nil =>
    rw [writeItems, List.append_assoc]
    exact Reads.blanks (layout.marginBlank depth) (reads.char rfl rfl)
  | cons item rest ih =>
    have later := ih fun other mem => each other (List.mem_cons_of_mem item mem)
    have here := each item List.mem_cons_self (depth + 1) _ _
      (stops_writeItems depth rest text) later
    rw [writeItems, List.map_cons, Document.laterItems, List.cons_append, List.cons_append,
      List.append_assoc, List.append_assoc, List.append_assoc]
    exact (here.blanks (layout.gapBlank (depth + 1))).char rfl rfl

/-- What the reader makes of a member. -/
def rereadMember (floats : Floats F) (value : List Char → G) (member : String × Document F) :
    String × Document G :=
  (member.1, reread floats value member.2)

/-- A member is read as its marks. -/
theorem reads_writeMember {member : String × Document F}
    (legible : Legible layout floats value member.2) (depth : Nat) (stops : Stops text)
    (reads : Reads value text marks) :
    Reads value (layout.writeMember floats depth member ++ text)
      (Document.memberMarks (rereadMember floats value member) ++ marks) := by
  obtain ⟨key, document⟩ := member
  have here := (legible depth text marks stops reads).blanks layout.colonBlank
  rw [writeMember, rereadMember, Document.memberMarks, List.append_assoc, List.cons_append,
    List.append_assoc]
  exact (here.char rfl rfl).quote layout.escaping key

/-- and so are the further members. -/
theorem reads_writeMembers {members : List (String × Document F)}
    (each : ∀ member ∈ members, Legible layout floats value member.2) (depth : Nat)
    (reads : Reads value text marks) :
    Reads value (layout.writeMembers floats depth members ++ text)
      (Document.laterMembers (members.map (rereadMember floats value)) ++ marks) := by
  induction members with
  | nil =>
    rw [writeMembers, List.append_assoc]
    exact Reads.blanks (layout.marginBlank depth) (reads.char rfl rfl)
  | cons member rest ih =>
    have later := ih fun other mem => each other (List.mem_cons_of_mem member mem)
    have here := reads_writeMember (each member List.mem_cons_self) (depth + 1)
      (stops_writeMembers depth rest text) later
    rw [writeMembers, List.map_cons, Document.laterMembers, List.cons_append, List.cons_append,
      List.append_assoc, List.append_assoc, List.append_assoc]
    exact (here.blanks (layout.gapBlank (depth + 1))).char rfl rfl

/-- The marks of what is written are those of the document. -/
theorem legible_all (document : Document F) : Legible layout floats value document := by
  induction document using Document.induct with
  | null => exact fun _ _ _ _ reads => reads.mark rfl rfl
  | bool b =>
    cases b
    · exact fun _ _ _ _ reads => reads.mark rfl rfl
    · exact fun _ _ _ _ reads => reads.mark rfl rfl
  | int n =>
    intro depth text marks stops reads
    rw [write]
    refine reads.number (isNumeral_decimal n) ?_ stops
    rw [readNumber, if_pos (isInteger_decimal n), integer_decimal]
  | float x =>
    intro depth text marks stops reads
    rw [write]
    refine reads.number (floats.isNumeral x) ?_ stops
    rw [readNumber, if_neg (floats.isFloat x).1, if_pos (floats.isFloat x)]
  | string s => exact fun _ _ _ _ reads => reads.quote layout.escaping s
  | array items each =>
    intro depth text marks stops reads
    rw [reread, Document.map_array]
    cases items with
    | nil =>
      have closed : Reads value (']' :: text) (.closeArray :: marks) := reads.char rfl rfl
      exact closed.char rfl rfl
    | cons item rest =>
      have later := reads_writeItems
        (fun other mem => each other (List.mem_cons_of_mem item mem)) depth reads
      have here := each item List.mem_cons_self (depth + 1) _ _
        (stops_writeItems depth rest text) later
      rw [write, List.map_cons, Document.marks, List.cons_append, List.cons_append,
        List.append_assoc, List.append_assoc, List.append_assoc]
      exact (here.blanks (layout.marginBlank (depth + 1))).char rfl rfl
  | object members each =>
    intro depth text marks stops reads
    rw [reread, Document.map_object]
    cases members with
    | nil =>
      have closed : Reads value ('\x7d' :: text) (.closeObject :: marks) := reads.char rfl rfl
      exact closed.char rfl rfl
    | cons member rest =>
      have later := reads_writeMembers
        (fun other mem => each other (List.mem_cons_of_mem member mem)) depth reads
      have here := reads_writeMember (each member List.mem_cons_self) (depth + 1)
        (stops_writeMembers depth rest text) later
      rw [write, List.map_cons, Document.marks, List.cons_append, List.cons_append,
        List.append_assoc, List.append_assoc, List.append_assoc]
      exact (here.blanks (layout.marginBlank (depth + 1))).char rfl rfl

/-- The reader comes to the document that was written, in any layout, with blanks around it. -/
theorem loads_write (depth : Nat) (document : Document F) {before behind : List Char}
    (blank : ∀ c ∈ before, isBlank c = true) (blank' : ∀ c ∈ behind, isBlank c = true) :
    loads value (before ++ (layout.write floats depth document ++ behind)) =
      some (reread floats value document) := by
  have ends : Reads value behind [] := by
    have nothing : Reads value [] [] := .nil
    rw [← List.append_nil behind]
    exact nothing.blanks blank'
  have stops : Stops behind := by
    rw [← List.append_nil behind]
    exact stops_blanks blank' fun c here => by cases here
  have legible : Legible layout floats value document := legible_all document
  have marks := (legible depth behind [] stops ends).blanks blank
  have parsed := (reread floats value document).parses
    (reread floats value document).marks.length [] (Nat.le_refl _)
  rw [List.append_nil] at marks parsed
  rw [loads, marks, Option.bind_eq_bind, Option.bind_some, parsed]

end RoundTrip

/-! ## The layouts in use -/

/-- No blanks. -/
def compact (escaping : Escaping) : Layout where
  escaping := escaping
  gap _ := []
  margin _ := []
  colon := []
  gapBlank _ := List.forall_mem_nil _
  marginBlank _ := List.forall_mem_nil _
  colonBlank := List.forall_mem_nil _

theorem space_blank : ∀ c ∈ [' '], isBlank c = true := by
  intro c mem
  rw [List.mem_singleton.mp mem]
  rfl

/-- A space behind each comma and colon. -/
def spaced (escaping : Escaping) : Layout where
  escaping := escaping
  gap _ := [' ']
  margin _ := []
  colon := [' ']
  gapBlank _ := space_blank
  marginBlank _ := List.forall_mem_nil _
  colonBlank := space_blank

/-- A new line, indented by two spaces for each level. -/
def newline (depth : Nat) : List Char := '\n' :: List.replicate (2 * depth) ' '

theorem newline_blank (depth : Nat) : ∀ c ∈ newline depth, isBlank c = true := by
  intro c mem
  rcases List.mem_cons.mp mem with rfl | mem
  · rfl
  · rw [List.eq_of_mem_replicate mem]
    rfl

/-- Each item and each member on a line of its own. -/
def indented (escaping : Escaping) : Layout where
  escaping := escaping
  gap := newline
  margin := newline
  colon := [' ']
  gapBlank := newline_blank
  marginBlank := newline_blank
  colonBlank := space_blank

end Layout

end Json
