import KernelOmega.Python.Ast
import Mathlib.Data.String.Basic
import Mathlib.Order.Lattice

/-!
# Places in a source text

`ast` gives a node the line and the column where it starts and where it ends; lines count from
one and columns in bytes of UTF-8. A line ends with a newline, a carriage return, or the two
together.

When a token is replaced by one of another length, what stands behind it on its line moves by
the difference, and nothing else does. Comparisons lie apart or strictly inside one another, so
a small move never takes one comparison to the place of another.
-/

namespace Python

-- A list is gone through before all of `Char` is.
attribute [local instance (high)] List.decidableBAll

/-- A line, and a byte column in it. -/
@[ext]
structure Pos where
  line : Nat
  col : Nat
  deriving DecidableEq

namespace Pos

/-- Before, in the order of the text. -/
def Lt (p q : Pos) : Prop := p.line < q.line ∨ (p.line = q.line ∧ p.col < q.col)

def Le (p q : Pos) : Prop := p.line < q.line ∨ (p.line = q.line ∧ p.col ≤ q.col)

instance (p q : Pos) : Decidable (p.Lt q) := inferInstanceAs (Decidable (_ ∨ _))

instance (p q : Pos) : Decidable (p.Le q) := inferInstanceAs (Decidable (_ ∨ _))

theorem Le.refl (p : Pos) : p.Le p := .inr ⟨rfl, le_rfl⟩

theorem Le.trans {p q r : Pos} (first : p.Le q) (second : q.Le r) : p.Le r := by
  unfold Le at *
  omega

/-- Where a position goes when the `old` bytes before `edge` become `new` ones. -/
def movedFrom (p edge : Pos) (old new : Nat) : Pos :=
  if p.line = edge.line ∧ edge.col ≤ p.col then ⟨p.line, p.col + new - old⟩ else p

end Pos

/-- `lineno`, `col_offset`, `end_lineno` and `end_col_offset`. -/
@[ext]
structure Span where
  start : Pos
  stop : Pos
  deriving DecidableEq

/-! ## Positions in a text -/

/-- A place while the text is read; `cr` tells that a carriage return came last. -/
structure Reader where
  pos : Pos := ⟨1, 0⟩
  cr : Bool := false

namespace Reader

/-- One character. A carriage return ends a line by itself and takes a newline behind it along. -/
def next (r : Reader) (c : Char) : Reader :=
  if c = '\n' then
    if r.cr then { pos := r.pos, cr := false } else { pos := ⟨r.pos.line + 1, 0⟩, cr := false }
  else if c = '\r' then { pos := ⟨r.pos.line + 1, 0⟩, cr := true }
  else { pos := ⟨r.pos.line, r.pos.col + c.utf8Size⟩, cr := false }

def read (r : Reader) (text : List Char) : Reader := text.foldl next r

theorem read_append (r : Reader) (text text' : List Char) :
    r.read (text ++ text') = (r.read text).read text' := List.foldl_append

theorem le_next (r : Reader) (c : Char) : r.pos.Le (r.next c).pos := by
  unfold next
  split
  · split
    · exact .refl _
    · exact .inl (Nat.lt_succ_self _)
  · split
    · exact .inl (Nat.lt_succ_self _)
    · exact .inr ⟨rfl, Nat.le_add_right _ _⟩

theorem le_read (r : Reader) (text : List Char) : r.pos.Le (r.read text).pos := by
  induction text generalizing r with
  | nil => exact .refl _
  | cons c rest ih => exact (r.le_next c).trans (ih (r.next c))

end Reader

/-- The position behind a text. -/
def posAfter (text : List Char) : Pos := (({} : Reader).read text).pos

theorem posAfter_le_append (text text' : List Char) :
    (posAfter text).Le (posAfter (text ++ text')) := by
  rw [posAfter, posAfter, Reader.read_append]
  exact Reader.le_read _ _

/-- The place of a part of a text, given by the offsets of its ends. -/
def locate (text : List Char) (offsets : Nat × Nat) : Span :=
  ⟨posAfter (text.take offsets.1), posAfter (text.take offsets.2)⟩

/-- The characters of an operator: one byte each, and no line end. -/
def TokenText (token : List Char) : Prop :=
  token ≠ [] ∧ ∀ c ∈ token, c.utf8Size = 1 ∧ c ≠ '\n' ∧ c ≠ '\r'

instance (token : List Char) : Decidable (TokenText token) := inferInstanceAs (Decidable (_ ∧ _))

/-- A token on one line moves the column by its length, since it is ASCII. -/
theorem Reader.read_token (r : Reader) {token : List Char} (plain : TokenText token) :
    r.read token = { pos := ⟨r.pos.line, r.pos.col + token.length⟩, cr := false } := by
  obtain ⟨proper, plain⟩ := plain
  induction token generalizing r with
  | nil => exact absurd rfl proper
  | cons c rest ih =>
    obtain ⟨byte, noNewline, noReturn⟩ := plain c List.mem_cons_self
    have first : r.next c = { pos := ⟨r.pos.line, r.pos.col + 1⟩, cr := false } := by
      rw [next, if_neg noNewline, if_neg noReturn, byte]
    show (r.next c).read rest = _
    rw [first]
    cases rest with
    | nil => rfl
    | cons d rest =>
      rw [ih _ (List.cons_ne_nil d rest) fun c' mem => plain c' (List.mem_cons_of_mem c mem)]
      simp only [List.length_cons, Reader.mk.injEq, Pos.mk.injEq, and_true, true_and]
      omega

/-! ## A token replaced -/

/-- A text with a token in it. -/
structure Spliced where
  before : List Char
  token : List Char
  after : List Char
  deriving DecidableEq

namespace Spliced

variable (s : Spliced)

def text : List Char := s.before ++ s.token ++ s.after

/-- The same with another token. -/
def replace (token : List Char) : Spliced := { s with token := token }

/-- Where an offset goes when the token is replaced. -/
def shift (token : List Char) (offset : Nat) : Nat :=
  if offset ≤ s.before.length then offset else offset + token.length - s.token.length

/-- The offset does not lie inside the token. -/
def Uncut (offset : Nat) : Prop :=
  offset ≤ s.before.length ∨ s.before.length + s.token.length ≤ offset

/-- Where a part of the text goes when the token is replaced. -/
def shiftSpan (token : List Char) (offsets : Nat × Nat) : Nat × Nat :=
  (s.shift token offsets.1, s.shift token offsets.2)

/-- The position behind the token. -/
def edge : Pos := posAfter (s.before ++ s.token)

variable {s} {token : List Char}

theorem edge_eq (plain : TokenText s.token) :
    s.edge = ⟨(posAfter s.before).line, (posAfter s.before).col + s.token.length⟩ := by
  rw [edge, posAfter, Reader.read_append, Reader.read_token _ plain]
  rfl

theorem length_le_edge (plain : TokenText s.token) : s.token.length ≤ s.edge.col := by
  rw [edge_eq plain]
  exact Nat.le_add_left _ _

/-- How two readers compare that have read the token and the other token. -/
def Behind (edge : Pos) (old new : Nat) (r r' : Reader) : Prop :=
  r.cr = r'.cr ∧ r'.pos = r.pos.movedFrom edge old new ∧
    (edge.line < r.pos.line ∨ (r.pos.line = edge.line ∧ edge.col ≤ r.pos.col))

/-- Two readers behind the edge of a rewriting stay so, at places that differ by the shift. -/
theorem Behind.next {edge : Pos} {old new : Nat} {r r' : Reader} (bound : old ≤ edge.col)
    (behind : Behind edge old new r r') (c : Char) : Behind edge old new (r.next c) (r'.next c) := by
  obtain ⟨cr, moved, place⟩ := behind
  have line : r'.pos.line = r.pos.line := by
    rw [moved, Pos.movedFrom]
    split <;> rfl
  have newLine : Behind edge old new { pos := ⟨r.pos.line + 1, 0⟩, cr := false }
      { pos := ⟨r'.pos.line + 1, 0⟩, cr := false } := by
    have above : edge.line < r.pos.line + 1 := by omega
    refine ⟨rfl, ?_, .inl above⟩
    rw [Pos.movedFrom, if_neg fun same => by have := same.1; dsimp only at this; omega, line]
  unfold Reader.next
  by_cases newline : c = '\n'
  · rw [if_pos newline, if_pos newline, ← cr]
    cases r.cr with
    | true => exact ⟨rfl, moved, place⟩
    | false => exact newLine
  · rw [if_neg newline, if_neg newline]
    by_cases carriage : c = '\r'
    · rw [if_pos carriage, if_pos carriage]
      exact ⟨rfl, newLine.2⟩
    · rw [if_neg carriage, if_neg carriage]
      refine ⟨rfl, ?_, ?_⟩
      · rw [moved, Pos.movedFrom, Pos.movedFrom]
        dsimp only
        by_cases here : r.pos.line = edge.line ∧ edge.col ≤ r.pos.col
        · rw [if_pos here, if_pos ⟨here.1, by omega⟩]
          ext
          · rfl
          · show r.pos.col + new - old + c.utf8Size = r.pos.col + c.utf8Size + new - old
            omega
        · rw [if_neg here, if_neg]
          rintro ⟨same, -⟩
          omega
      · rcases place with later | ⟨same, reached⟩
        · exact .inl later
        · exact .inr ⟨same, by dsimp only; omega⟩

theorem Behind.read {edge : Pos} {old new : Nat} {r r' : Reader} (bound : old ≤ edge.col)
    (behind : Behind edge old new r r') (text : List Char) :
    Behind edge old new (r.read text) (r'.read text) := by
  induction text generalizing r r' with
  | nil => exact behind
  | cons c rest ih => exact ih (behind.next bound c)

/-- An offset's position moves with what stands before it. -/
theorem posAfter_shift (plain : TokenText s.token) (plain' : TokenText token) {offset : Nat}
    (uncut : s.Uncut offset) :
    posAfter ((s.replace token).text.take (s.shift token offset)) =
      (posAfter (s.text.take offset)).movedFrom s.edge s.token.length token.length := by
  have proper : 0 < s.token.length := List.length_pos_of_ne_nil plain.1
  rcases uncut with front | back
  · have early : ∀ token', (s.replace token').text.take offset = s.before.take offset := by
      intro token'
      rw [text, List.append_assoc]
      exact List.take_append_of_le_length front
    have here : s.text.take offset = s.before.take offset := early s.token
    rw [shift, if_pos front, early, here, Pos.movedFrom, if_neg]
    rintro ⟨line, col⟩
    have below := posAfter_le_append (s.before.take offset) (s.before.drop offset)
    rw [List.take_append_drop] at below
    rw [edge_eq plain] at line col
    dsimp only at line col
    unfold Pos.Le at below
    omega
  · obtain ⟨rest, rfl⟩ := Nat.exists_eq_add_of_le back
    have place : s.shift token (s.before.length + s.token.length + rest) =
        s.before.length + token.length + rest := by
      rw [shift, if_neg (by omega)]
      omega
    have taken : ∀ token' : List Char, (s.replace token').text.take
        (s.before.length + token'.length + rest) = s.before ++ token' ++ s.after.take rest := by
      intro token'
      rw [text, ← List.length_append]
      exact List.take_length_add_append rest
    have here : s.text.take (s.before.length + s.token.length + rest) =
        s.before ++ s.token ++ s.after.take rest := taken s.token
    rw [place, taken, here]
    have start : Behind s.edge s.token.length token.length
        (({} : Reader).read (s.before ++ s.token)) (({} : Reader).read (s.before ++ token)) := by
      rw [Reader.read_append, Reader.read_append, Reader.read_token _ plain,
        Reader.read_token _ plain', edge_eq plain]
      refine ⟨rfl, ?_, .inr ⟨rfl, le_rfl⟩⟩
      rw [Pos.movedFrom]
      dsimp only
      rw [if_pos ⟨rfl, le_rfl⟩]
      ext
      · rfl
      · show (posAfter s.before).col + token.length =
          (posAfter s.before).col + s.token.length + token.length - s.token.length
        omega
    have ends := (start.read (length_le_edge plain) (s.after.take rest)).2.1
    rw [← Reader.read_append, ← Reader.read_append] at ends
    exact ends

end Spliced

end Python
