import KernelOmega.Python.Position
import Mathlib

/-!
# Lines of a text

A text splits into its complete lines, each with its end, and what stands behind the last of
them. A carriage return and a newline behind it end one line. Which other characters end a line
depends on who reads: `ast` takes newlines and carriage returns, `str.splitlines` takes form
feeds, separators and a few more. The split of a text made of two parts is put together from the
splits of the parts, as long as the cut does not part a carriage return from its newline.
-/

namespace Python

/-- The complete lines of a text, and the rest. -/
@[ext]
structure Split where
  lines : List (List Char)
  rest : List Char

namespace Split

def text (s : Split) : List Char := s.lines.flatten ++ s.rest

/-- The lines, the rest included when there is one. -/
def all (s : Split) : List (List Char) := if s.rest = [] then s.lines else s.lines ++ [s.rest]

/-- The split of a text followed by another; the first line of the other ends the rest. -/
def append (s : Split) : Split → Split
  | ⟨[], rest⟩ => ⟨s.lines, s.rest ++ rest⟩
  | ⟨line :: lines, rest⟩ => ⟨s.lines ++ (s.rest ++ line) :: lines, rest⟩

theorem append_assoc (s s' s'' : Split) : (s.append s').append s'' = s.append (s'.append s'') := by
  obtain ⟨lines', rest'⟩ := s'
  obtain ⟨lines'', rest''⟩ := s''
  cases lines' <;> cases lines'' <;> simp [append]

@[simp] theorem nil_append (s : Split) : append ⟨[], []⟩ s = s := by
  obtain ⟨lines, rest⟩ := s
  cases lines <;> rfl

@[simp] theorem append_text (s s' : Split) : (s.append s').text = s.text ++ s'.text := by
  obtain ⟨lines', rest'⟩ := s'
  cases lines' <;> simp [append, text]

@[simp] theorem append_length (s s' : Split) :
    (s.append s').lines.length = s.lines.length + s'.lines.length := by
  obtain ⟨lines', rest'⟩ := s'
  cases lines' <;> simp [append]

@[simp] theorem all_flatten (s : Split) : s.all.flatten = s.text := by
  unfold all text
  split
  · next none => rw [none, List.append_nil]
  · simp

theorem length_le_all (s : Split) : s.lines.length ≤ s.all.length := by
  unfold all
  split <;> simp

/-- The line that goes on behind a split. -/
theorem all_append (s s' : Split) (more : s.rest ≠ []) :
    ∃ tail rest, (s.append s').all = s.lines ++ (s.rest ++ tail) :: rest := by
  obtain ⟨lines', rest'⟩ := s'
  cases lines' with
  | nil =>
    have proper : s.rest ++ rest' ≠ [] := fun none => more (List.append_eq_nil_iff.mp none).1
    exact ⟨rest', [], if_neg proper⟩
  | cons line lines =>
    by_cases none : rest' = []
    · exact ⟨line, lines, if_pos none⟩
    · refine ⟨line, lines ++ [rest'], ?_⟩
      simp [append, all, none]

/-- What follows is on a line as well. -/
theorem length_lt_all_append (s : Split) {s' : Split} (more : s'.text ≠ []) :
    s.lines.length < (s.append s').all.length := by
  obtain ⟨lines', rest'⟩ := s'
  cases lines' with
  | nil =>
    have proper : rest' ≠ [] := more
    simp [append, all, proper]
  | cons line lines' =>
    refine lt_of_lt_of_le ?_ (length_le_all _)
    simp [append]

end Split

/-- The split of a text into the lines that some characters end. -/
def splitEnds (ends : Char → Bool) : List Char → Split
  | [] => ⟨[], []⟩
  | '\r' :: '\n' :: rest => Split.append ⟨[['\r', '\n']], []⟩ (splitEnds ends rest)
  | c :: rest => Split.append (if ends c then ⟨[[c]], []⟩ else ⟨[], [c]⟩) (splitEnds ends rest)

/-- `splitlines(keepends=True)`, where the given characters end a line. -/
def splitlines (ends : Char → Bool) (text : List Char) : List (List Char) :=
  (splitEnds ends text).all

/-- The line ends of `ast`. -/
def isNewline (c : Char) : Bool := c = '\n' || c = '\r'

/-- The line ends of `str.splitlines`. -/
def isLineBoundary (c : Char) : Bool :=
  c ∈ ['\n', '\r', '\x0b', '\x0c', '\x1c', '\x1d', '\x1e', '\u0085', '\u2028', '\u2029']

/-- Every newline of a text file is a line boundary. -/
theorem isLineBoundary_of_isNewline {c : Char} (newline : isNewline c = true) :
    isLineBoundary c = true := by
  rcases Bool.or_eq_true_iff.mp newline with same | same
  · rw [of_decide_eq_true same]
    rfl
  · rw [of_decide_eq_true same]
    rfl

section Splitting

variable {ends : Char → Bool}

@[simp] theorem splitEnds_text (text : List Char) : (splitEnds ends text).text = text := by
  fun_induction splitEnds ends text with
  | case1 => rfl
  | case2 rest ih =>
    rw [Split.append_text, ih]
    rfl
  | case3 c rest _ ih =>
    rw [Split.append_text, ih]
    split <;> simp [Split.text]

@[simp] theorem splitlines_flatten (text : List Char) : (splitlines ends text).flatten = text := by
  rw [splitlines, Split.all_flatten, splitEnds_text]

/-- Lines are split part by part, unless a line end of two characters is cut in the middle. -/
theorem splitEnds_append {text text' : List Char}
    (uncut : text.getLast? = some '\r' → text'.head? ≠ some '\n') :
    splitEnds ends (text ++ text') = (splitEnds ends text).append (splitEnds ends text') := by
  fun_induction splitEnds ends text with
  | case1 => rw [List.nil_append, Split.nil_append]
  | case2 rest ih =>
    rw [Split.append_assoc, ← ih ?_, List.cons_append, List.cons_append, splitEnds]
    intro last
    refine uncut ?_
    cases rest with
    | nil => cases last
    | cons c rest => rwa [List.getLast?_cons_cons, List.getLast?_cons_cons]
  | case3 c rest single ih =>
    have follows : ∀ rest', c = '\r' → rest ++ text' = '\n' :: rest' → False := by
      intro rest' carriage newline
      cases rest with
      | nil =>
        rw [List.nil_append] at newline
        exact uncut (congrArg some carriage) (by rw [newline]; rfl)
      | cons d rest => exact single rest carriage (by rw [(List.cons.inj newline).1])
    rw [Split.append_assoc, ← ih ?_, List.cons_append, splitEnds]
    · exact fun rest' carriage newline => follows rest' carriage newline
    · intro last
      refine uncut ?_
      cases rest with
      | nil => cases last
      | cons d rest => rwa [List.getLast?_cons_cons]

/-- A text without a finished line has no line end. -/
theorem quiet_of_lines_eq_nil {text : List Char} (none : (splitEnds ends text).lines = []) :
    ∀ c ∈ text, ends c = false := by
  fun_induction splitEnds ends text with
  | case1 => exact fun c mem => absurd mem List.not_mem_nil
  | case2 rest ih =>
    have lengths := congrArg List.length none
    rw [Split.append_length] at lengths
    simp at lengths
  | case3 c rest single ih =>
    have lengths := congrArg List.length none
    rw [Split.append_length, List.length_nil, Nat.add_eq_zero_iff] at lengths
    intro d mem
    rcases List.mem_cons.mp mem with rfl | mem
    · by_contra newline
      rw [if_pos (Bool.eq_true_of_not_eq_false newline)] at lengths
      cases lengths.1
    · exact ih (List.eq_nil_of_length_eq_zero lengths.2) d mem

/-- The split depends on the line ends that occur. -/
theorem splitEnds_congr {ends' : Char → Bool} {text : List Char}
    (same : ∀ c ∈ text, ends c = ends' c) : splitEnds ends text = splitEnds ends' text := by
  fun_induction splitEnds ends text with
  | case1 => rfl
  | case2 rest ih =>
    rw [splitEnds, ih fun c mem => same c (List.mem_cons_of_mem _ (List.mem_cons_of_mem _ mem))]
  | case3 c rest single ih =>
    rw [splitEnds.eq_3 _ _ _ single, ih fun d mem => same d (List.mem_cons_of_mem c mem),
      same c List.mem_cons_self]

/-- More line ends make more lines. -/
theorem splitEnds_length_mono {ends' : Char → Bool} (more : ∀ c, ends c = true → ends' c = true)
    (text : List Char) : (splitEnds ends text).lines.length ≤ (splitEnds ends' text).lines.length := by
  fun_induction splitEnds ends text with
  | case1 => exact Nat.zero_le _
  | case2 rest ih =>
    rw [splitEnds, Split.append_length, Split.append_length]
    exact Nat.add_le_add_left ih _
  | case3 c rest single ih =>
    rw [splitEnds.eq_3 _ _ _ single, Split.append_length, Split.append_length]
    refine Nat.add_le_add ?_ ih
    split
    · next here => rw [if_pos (more c here)]
    · exact Nat.zero_le _

end Splitting

/-! ## Bytes -/

/-- The length of the UTF-8 encoding. -/
def bytes (text : List Char) : Nat := (text.map Char.utf8Size).sum

@[simp] theorem bytes_append (text text' : List Char) :
    bytes (text ++ text') = bytes text + bytes text' := by
  simp [bytes]

/-- `text.encode()[:n].decode()`, where `n` lies between two characters. -/
def takeBytes : Nat → List Char → List Char
  | _, [] => []
  | n, c :: rest => if c.utf8Size ≤ n then c :: takeBytes (n - c.utf8Size) rest else []

/-- `text.encode()[n:].decode()`, where `n` lies between two characters. -/
def dropBytes : Nat → List Char → List Char
  | _, [] => []
  | n, c :: rest => if c.utf8Size ≤ n then dropBytes (n - c.utf8Size) rest else c :: rest

/-- Cutting at the length of a front in bytes gives the front back, -/
theorem takeBytes_append (text text' : List Char) : takeBytes (bytes text) (text ++ text') = text := by
  induction text with
  | nil =>
    cases text' with
    | nil => rfl
    | cons c rest =>
      rw [List.nil_append, takeBytes, if_neg]
      exact Nat.not_le.mpr c.utf8Size_pos
  | cons c rest ih =>
    have size : bytes (c :: rest) = c.utf8Size + bytes rest := by simp [bytes]
    rw [List.cons_append, takeBytes, size, if_pos (Nat.le_add_right _ _), Nat.add_sub_cancel_left, ih]

/-- and leaves the rest. -/
theorem dropBytes_append (text text' : List Char) : dropBytes (bytes text) (text ++ text') = text' := by
  induction text with
  | nil =>
    cases text' with
    | nil => rfl
    | cons c rest =>
      rw [List.nil_append, dropBytes, if_neg]
      exact Nat.not_le.mpr c.utf8Size_pos
  | cons c rest ih =>
    have size : bytes (c :: rest) = c.utf8Size + bytes rest := by simp [bytes]
    rw [List.cons_append, dropBytes, size, if_pos (Nat.le_add_right _ _), Nat.add_sub_cancel_left, ih]

/-! ## Lines and positions -/

/-- The position behind a text that starts at a position. -/
def Split.advance (s : Split) (p : Pos) : Pos :=
  if s.lines = [] then ⟨p.line, p.col + bytes s.rest⟩ else ⟨p.line + s.lines.length, bytes s.rest⟩

theorem Split.advance_append (s s' : Split) (p : Pos) :
    (s.append s').advance p = s'.advance (s.advance p) := by
  obtain ⟨lines, rest⟩ := s
  obtain ⟨lines', rest'⟩ := s'
  cases lines' with
  | nil => cases lines <;> simp [append, advance, Nat.add_assoc]
  | cons line lines' =>
    simp only [append, advance, List.append_eq_nil_iff, reduceCtorEq, and_false, if_false,
      List.length_append]
    split <;> simp_all [Nat.add_assoc]

/-- Reading character by character comes to the same place as splitting into lines. -/
theorem Reader.read_pos (r : Reader) {text : List Char}
    (fresh : r.cr = true → text.head? ≠ some '\n') :
    (r.read text).pos = (splitEnds isNewline text).advance r.pos := by
  fun_induction splitEnds isNewline text generalizing r with
  | case1 => simp [read, Split.advance, bytes]
  | case2 rest ih =>
    have behind : (r.next '\r').next '\n' = { pos := ⟨r.pos.line + 1, 0⟩, cr := false } := by
      simp [next]
    show (((r.next '\r').next '\n').read rest).pos = _
    rw [behind, ih _ fun carriage => (Bool.false_ne_true carriage).elim, Split.advance_append]
    simp [Split.advance, bytes]
  | case3 c rest single ih =>
    show ((r.next c).read rest).pos = _
    rw [Split.advance_append]
    by_cases newline : c = '\n'
    · subst newline
      have plain : r.cr = false := by
        by_contra carriage
        exact fresh (Bool.eq_true_of_not_eq_false carriage) rfl
      have behind : r.next '\n' = { pos := ⟨r.pos.line + 1, 0⟩, cr := false } := by
        simp [next, plain]
      rw [behind, ih _ fun carriage => (Bool.false_ne_true carriage).elim]
      simp [Split.advance, bytes, isNewline]
    · by_cases carriage : c = '\r'
      · subst carriage
        have behind : r.next '\r' = { pos := ⟨r.pos.line + 1, 0⟩, cr := true } := by
          simp [next]
        rw [behind, ih]
        · simp [Split.advance, bytes, isNewline]
        · intro _ starts
          cases rest with
          | nil => cases starts
          | cons d rest => exact single rest rfl (by rw [Option.some.inj starts])
      · have behind : r.next c = { pos := ⟨r.pos.line, r.pos.col + c.utf8Size⟩, cr := false } := by
          simp [next, newline, carriage]
        rw [behind, ih _ fun carriage => (Bool.false_ne_true carriage).elim]
        simp [Split.advance, bytes, isNewline, newline, carriage]

/-- The line behind a text is one more than the lines before it, and the column is what has been
read of the line. -/
theorem posAfter_eq (text : List Char) :
    posAfter text = ⟨(splitEnds isNewline text).lines.length + 1,
      bytes (splitEnds isNewline text).rest⟩ := by
  rw [posAfter, Reader.read_pos {} fun carriage => (Bool.false_ne_true carriage).elim, Split.advance]
  split
  · next none =>
    rw [none]
    simp
  · rw [Nat.add_comm]

/-- A text without line ends is one unfinished line. -/
theorem splitEnds_of_quiet {text : List Char} (quiet : ∀ c ∈ text, isNewline c = false) :
    splitEnds isNewline text = ⟨[], text⟩ := by
  fun_induction splitEnds isNewline text with
  | case1 => rfl
  | case2 rest ih => cases quiet '\r' List.mem_cons_self
  | case3 c rest single ih =>
    rw [ih fun d mem => quiet d (List.mem_cons_of_mem c mem), quiet c List.mem_cons_self]
    rfl

/-- A part of a text that lies on one line has no line end in it. -/
theorem splitEnds_of_line {text part : List Char}
    (uncut : text.getLast? = some '\r' → part.head? ≠ some '\n')
    (line : (posAfter (text ++ part)).line = (posAfter text).line) :
    splitEnds isNewline part = ⟨[], part⟩ := by
  rw [posAfter_eq, posAfter_eq, splitEnds_append uncut, Split.append_length] at line
  have none : (splitEnds isNewline part).lines = [] := by
    rw [← List.length_eq_zero_iff]
    dsimp only at line
    omega
  have whole := @splitEnds_text isNewline part
  rw [Split.text, none, List.flatten_nil, List.nil_append] at whole
  exact Split.ext none whole

/-- A part of a text that lies on one line is a part of that line. -/
theorem line_of_part {text part : List Char} (after : List Char) (proper : part ≠ [])
    (uncut : text.getLast? = some '\r' → part.head? ≠ some '\n')
    (line : (posAfter (text ++ part)).line = (posAfter text).line) :
    ∃ tail, (splitlines isNewline (text ++ part ++ after))[(posAfter text).line - 1]? =
      some ((splitEnds isNewline text).rest ++ part ++ tail) := by
  have here := splitEnds_of_line uncut line
  have quiet := quiet_of_lines_eq_nil (congrArg Split.lines here)
  have last : (text ++ part).getLast? = some '\r' → after.head? ≠ some '\n' := by
    intro carriage
    rw [List.getLast?_append_of_ne_nil _ proper] at carriage
    cases quiet _ (List.mem_of_getLast? carriage)
  have split : splitEnds isNewline (text ++ part) =
      ⟨(splitEnds isNewline text).lines, (splitEnds isNewline text).rest ++ part⟩ := by
    rw [splitEnds_append uncut, here]
    rfl
  obtain ⟨tail, rest, all⟩ := Split.all_append (splitEnds isNewline (text ++ part))
    (splitEnds isNewline after) (by rw [split]; simp [proper])
  refine ⟨tail, ?_⟩
  rw [splitlines, splitEnds_append last, all, split, posAfter_eq]
  dsimp only
  rw [Nat.add_sub_cancel, List.getElem?_append_right le_rfl, Nat.sub_self]
  rfl

/-- A part of a text that lies on one line, cut out of the line by its columns. -/
theorem columns_of_part {text part : List Char} (tail : List Char)
    (uncut : text.getLast? = some '\r' → part.head? ≠ some '\n')
    (line : (posAfter (text ++ part)).line = (posAfter text).line) :
    dropBytes (posAfter text).col (takeBytes (posAfter (text ++ part)).col
      ((splitEnds isNewline text).rest ++ part ++ tail)) = part := by
  have col : (posAfter (text ++ part)).col = bytes ((splitEnds isNewline text).rest ++ part) := by
    rw [posAfter_eq, splitEnds_append uncut, splitEnds_of_line uncut line]
    rfl
  rw [col, takeBytes_append, posAfter_eq, dropBytes_append]

/-- Whoever takes more characters for line ends has the line of a position as well. -/
theorem line_lt_splitlines {ends : Char → Bool} (more : ∀ c, isNewline c = true → ends c = true)
    {text after : List Char} (uncut : text.getLast? = some '\r' → after.head? ≠ some '\n')
    (proper : after ≠ []) : (posAfter text).line - 1 < (splitlines ends (text ++ after)).length := by
  rw [splitlines, splitEnds_append uncut, posAfter_eq]
  refine lt_of_le_of_lt (splitEnds_length_mono more text) ?_
  exact Split.length_lt_all_append _ (by rwa [splitEnds_text])

end Python
