import KernelOmega.Patcher.Aim

/-!
# When the patcher hits the operator

A candidate replaces the characters at which the search for the operator and the byte column end
up. They are the operator's own when its text does not occur earlier in the comparison, the line
has the same characters as bytes before the comparison, and `str.splitlines` ends no line before
it where Python does not. Otherwise the candidate is good only where they happen to be the
operator of another comparison that can be swapped as well, or when nothing changes.
-/

namespace KernelOmega

open Python

/-! ## Texts as Python parses them -/

/-- How a comparison with one operator stands in a text. -/
structure Stands (code : List Char) (t : Ast (Nat × Nat)) (op : Comparison) (s : Spliced) :
    Prop where
  text : s.text = code
  isOp : s.token = (operatorTokens op).toList
  alone : Alone s
  /-- The operator is between the operands. -/
  operands : ∃ left right, t.children = [left, right] ∧ t.span.1 ≤ left.span.2 ∧
    left.span.2 ≤ s.before.length ∧ s.before.length + s.token.length ≤ right.span.1 ∧
    right.span.1 ≤ t.span.2
  /-- A comparison does not start inside a line end. -/
  starts : code[t.span.1]? ≠ some '\n'

/-- A text with its tree, places as offsets. -/
structure Source where
  text : List Char
  tree : Ast (Nat × Nat)
  /-- The operator token of a comparison. -/
  operator : Ast (Nat × Nat) → Spliced
  stands : ∀ t ∈ tree.nodes, ∀ op, t.kind = .compare [.plain op] → Stands text t op (operator t)

/-- A comparison to be swapped, with its operator. -/
abbrev Target := Ast (Nat × Nat) × Comparison

namespace Source

variable (source : Source)

def code : String := String.ofList source.text

/-- What `ast.parse` returns. -/
def located : Ast Span := source.tree.map (locate source.text)

def place (t : Ast (Nat × Nat)) : Span := locate source.text t.span

/-- The text of a node. -/
def segment (t : Ast (Nat × Nat)) : List Char :=
  (source.text.drop t.span.1).take (t.span.2 - t.span.1)

/-- The node is a comparison with one of the six operators that starts on a requested line and is
written on one line. -/
def target (lines : List Int) (t : Ast (Nat × Nat)) : Option Target :=
  match t.kind with
  | .compare [.plain op] =>
    if ((source.place t).start.line : Int) ∈ lines ∧
        (source.place t).stop.line = (source.place t).start.line then some (t, op) else none
  | _ => none

/-- The comparisons to be swapped, in the order of `ast.walk`. -/
def targets (lines : List Int) : List Target := source.tree.walk.filterMap (source.target lines)

/-- The source with the operator token of the comparison swapped. -/
def patched (target : Target) : String :=
  String.ofList ((source.operator target.1).replace (operatorSwaps target.2).toList).text

/-- The list holds what it should: operator swaps of comparisons that were asked for, each once. -/
structure Swaps (lines : List Int) (maxCandidates : Int) (patches : List String) : Prop where
  swaps : ∀ patch ∈ patches, ∃ target ∈ source.targets lines, patch = source.patched target
  nodup : patches.Nodup
  differ : source.code ∉ patches
  atMost : (patches.length : Int) ≤ maxCandidates

/-! ## The characters that are replaced -/

/-- The first occurrence of the operator's text in the comparison, counted from the byte column
of the comparison, in the line of `str.splitlines` with the number of its line. -/
def hit (target : Target) : Spliced :=
  let place := source.place target.1
  let originalOp := (operatorTokens target.2).toList
  let startCol := place.start.col + (find originalOp (source.segment target.1)).getD 0
  let lines := splitlines isLineBoundary source.text
  let lineIdx := place.start.line - 1
  let line := lines.getD lineIdx []
  { before := (lines.take lineIdx).flatten ++ line.take startCol
    token := (line.drop startCol).take originalOp.length
    after := (line.drop startCol).drop originalOp.length ++ (lines.drop (lineIdx + 1)).flatten }

/-- The replacement stands there already. -/
def Idle (target : Target) : Prop := (source.hit target).token = (operatorSwaps target.2).toList

instance (target : Target) : Decidable (source.Idle target) := inferInstanceAs (Decidable (_ = _))

/-- The characters are the operator token of a comparison to be swapped in the same way. -/
def Hits (lines : List Int) (target : Target) : Prop :=
  ∃ t, (t, target.2) ∈ source.targets lines ∧ source.hit target = source.operator t

/-- The different places where comparisons change the text. -/
def places (targets : List Target) : List Spliced :=
  ((targets.filter fun target => ¬source.Idle target).map source.hit).dedup

/-- Each comparison changes nothing or the operator of a comparison to be swapped, until
`maxCandidates` places are changed. -/
def OnTarget (lines : List Int) (maxCandidates : Int) : Prop :=
  ∀ front target back, source.targets lines = front ++ target :: back →
    ((source.places front).length : Int) < maxCandidates →
      source.Idle target ∨ source.Hits lines target

section Aiming

variable {source : Source} {lines : List Int} {target : Target}

/-- The text the code makes for a comparison. -/
def aim (source : Source) (target : Target) : String :=
  String.ofList ((source.hit target).replace (operatorSwaps target.2).toList).text

/-- A node is a target if it is a comparison with one plain operator that starts on a wanted line
and ends on it. -/
theorem target_eq_some_iff {t : Ast (Nat × Nat)} :
    source.target lines t = some target ↔ t = target.1 ∧ t.kind = .compare [.plain target.2] ∧
      ((source.place t).start.line : Int) ∈ lines ∧
      (source.place t).stop.line = (source.place t).start.line := by
  obtain ⟨u, op⟩ := target
  unfold Source.target
  split
  · next op' kind =>
    rw [kind]
    split
    · next asked =>
      simp only [Option.some.injEq, Prod.mk.injEq, Kind.compare.injEq, List.cons.injEq,
        CmpOp.plain.injEq, and_true]
      exact ⟨fun same => ⟨same.1, same.2, asked⟩, fun same => ⟨same.1, same.2.1⟩⟩
    · next other =>
      constructor
      · intro same
        cases same
      · exact fun same => absurd same.2.2 other
  · next other =>
    constructor
    · intro same
      cases same
    · exact fun same => absurd same.2.1 (other _)

/-- What is known of a comparison to be swapped. -/
theorem mem_targets (mem : target ∈ source.targets lines) :
    target.1 ∈ source.tree.nodes ∧ target.1.kind = .compare [.plain target.2] ∧
      ((source.place target.1).start.line : Int) ∈ lines ∧
      (source.place target.1).stop.line = (source.place target.1).start.line := by
  obtain ⟨t, inTree, found⟩ := List.mem_filterMap.mp mem
  obtain ⟨rfl, rest⟩ := target_eq_some_iff.mp found
  exact ⟨Ast.mem_walk.mp inTree, rest⟩

theorem stands_of_mem (mem : target ∈ source.targets lines) :
    Stands source.text target.1 target.2 (source.operator target.1) :=
  source.stands _ (mem_targets mem).1 _ (mem_targets mem).2.1

end Aiming

end Source

/-! ## One replacement -/

namespace Stands

variable {text : List Char} {t : Ast (Nat × Nat)} {op : Comparison} {s : Spliced}

theorem bounds (stands : Stands text t op s) :
    t.span.1 ≤ s.before.length ∧ s.before.length + s.token.length ≤ t.span.2 := by
  obtain ⟨left, right, -, start, before, after, stop⟩ := stands.operands
  exact ⟨start.trans before, after.trans stop⟩

/-- The operator is in the text of the comparison. -/
theorem segment_eq (stands : Stands text t op s) :
    (text.drop t.span.1).take (t.span.2 - t.span.1) = s.before.drop t.span.1 ++
      (operatorTokens op).toList ++ s.after.take (t.span.2 - (s.before.length + s.token.length)) := by
  obtain ⟨start, stop⟩ := stands.bounds
  rw [← stands.text, Spliced.text, List.append_assoc, List.drop_append_of_le_length start,
    List.take_append, List.length_drop, List.take_of_length_le (by rw [List.length_drop]; omega),
    List.take_append, List.take_of_length_le (by omega), List.append_assoc, stands.isOp]
  congr 3
  rw [← stands.isOp]
  omega

theorem take_eq (stands : Stands text t op s) : text.take t.span.1 = s.before.take t.span.1 := by
  rw [← stands.text, Spliced.text, List.append_assoc, List.take_append_of_le_length stands.bounds.1]

end Stands

/-- What is in the text is found, perhaps earlier. -/
theorem find_isSome {sub : List Char} (front back : List Char) :
    (find sub (front ++ sub ++ back)).isSome := by
  induction front with
  | nil =>
    cases whole : [] ++ sub ++ back with
    | nil =>
      have none : sub = [] := (List.append_eq_nil_iff.mp (List.append_eq_nil_iff.mp whole).1).2
      rw [find, if_pos none]
      rfl
    | cons c rest =>
      have starts : sub <+: c :: rest := ⟨back, whole⟩
      rw [find, if_pos starts]
      rfl
  | cons c front ih =>
    rw [List.cons_append, List.cons_append, find]
    split
    · rfl
    · rw [Option.isSome_map]
      exact ih

namespace Source

variable {source : Source} {lines : List Int} {target : Target}

/-- The text around a comparison to be swapped. -/
structure Cut (source : Source) (t : Ast (Nat × Nat)) : Prop where
  text : source.text.take t.span.1 ++ source.segment t ++ source.text.drop t.span.2 = source.text
  stop : (source.place t).stop = posAfter (source.text.take t.span.1 ++ source.segment t)
  proper : source.segment t ≠ []
  uncut : (source.text.take t.span.1).getLast? = some '\r' → (source.segment t).head? ≠ some '\n'

/-- The text of a target falls apart at its operator. -/
theorem cut_of_mem (mem : target ∈ source.targets lines) : source.Cut target.1 := by
  have stands := stands_of_mem mem
  obtain ⟨start, stop⟩ := stands.bounds
  have segment := stands.segment_eq
  have token : (operatorTokens target.2).toList ≠ [] := (operatorTokens_plain target.2).1
  have proper : source.segment target.1 ≠ [] := by
    unfold Source.segment
    rw [segment]
    simp [token]
  have upTo : source.text.take target.1.span.1 ++ source.segment target.1 =
      source.text.take target.1.span.2 := by
    have split := List.take_add (l := source.text) (i := target.1.span.1)
      (j := target.1.span.2 - target.1.span.1)
    rw [Nat.add_sub_cancel' (by omega)] at split
    exact split.symm
  refine ⟨?_, ?_, proper, fun _ newline => stands.starts ?_⟩
  · rw [upTo, List.take_append_drop]
  · rw [upTo]
    rfl
  · unfold Source.segment at newline
    rw [List.head?_take, List.head?_drop] at newline
    split at newline
    · cases newline
    · exact newline

/-- The segment of a target is the text between its ends. -/
theorem getSourceSegment_eq (mem : target ∈ source.targets lines) :
    getSourceSegment source.code.toList (source.place target.1) =
      .ok (source.segment target.1) := by
  have cut := cut_of_mem mem
  have line := (mem_targets mem).2.2.2
  rw [cut.stop] at line
  obtain ⟨tail, item⟩ := line_of_part (source.text.drop target.1.span.2) cut.proper cut.uncut line
  rw [cut.text] at item
  have columns := columns_of_part tail cut.uncut line
  rw [← cut.stop] at columns
  have found : itemAt (splitlines isNewline source.text) ((source.place target.1).start.line - 1) =
      .ok ((splitEnds isNewline (source.text.take target.1.span.1)).rest ++ source.segment target.1 ++ tail) :=
    itemAt_eq_ok item
  rw [getSourceSegment, Source.code, String.toList_ofList, found]
  exact congrArg Except.ok columns

/-- The search in a target's segment succeeds. -/
theorem find_eq (mem : target ∈ source.targets lines) :
    find (operatorTokens target.2).toList (source.segment target.1) =
      some ((find (operatorTokens target.2).toList (source.segment target.1)).getD 0) := by
  have found : (find (operatorTokens target.2).toList (source.segment target.1)).isSome = true := by
    rw [Source.segment, (stands_of_mem mem).segment_eq]
    exact find_isSome _ _
  rw [Option.isSome_iff_exists] at found
  obtain ⟨k, found⟩ := found
  rw [found, Option.getD_some]

/-- The line of the comparison is a line of `str.splitlines`. -/
theorem line_eq (mem : target ∈ source.targets lines) :
    (splitlines isLineBoundary source.text)[(source.place target.1).start.line - 1]? =
      some ((splitlines isLineBoundary source.text).getD ((source.place target.1).start.line - 1) []) := by
  have cut := cut_of_mem mem
  have inside : (posAfter (source.text.take target.1.span.1)).line - 1 <
      (splitlines isLineBoundary (source.text.take target.1.span.1 ++
        (source.segment target.1 ++ source.text.drop target.1.span.2))).length := by
    refine line_lt_splitlines (fun _ => isLineBoundary_of_isNewline) ?_ (by simp [cut.proper])
    intro carriage newline
    rw [List.head?_append_of_ne_nil _ cut.proper] at newline
    exact cut.uncut carriage newline
  rw [← List.append_assoc, cut.text] at inside
  change (source.place target.1).start.line - 1 < _ at inside
  rw [List.getElem?_eq_getElem inside, List.getD_eq_getElem _ _ inside]

/-- The place that is hit is one of the same text. -/
theorem hit_text (mem : target ∈ source.targets lines) : (source.hit target).text = source.text := by
  have item := line_eq mem
  obtain ⟨inside, -⟩ := List.getElem?_eq_some_iff.mp item
  have split : (splitlines isLineBoundary source.text).take ((source.place target.1).start.line - 1) ++
      (splitlines isLineBoundary source.text).getD ((source.place target.1).start.line - 1) [] ::
        (splitlines isLineBoundary source.text).drop ((source.place target.1).start.line - 1 + 1) =
      splitlines isLineBoundary source.text := by
    rw [List.getD_eq_getElem _ _ inside, List.getElem_cons_drop, List.take_append_drop]
  have whole := congrArg List.flatten split
  rw [splitlines_flatten, List.flatten_append, List.flatten_cons] at whole
  rw [Source.hit, Spliced.text]
  dsimp only
  rw [← List.append_assoc, List.append_assoc _ (List.take _ _) (List.drop _ _), List.take_append_drop,
    List.append_assoc _ (List.take _ _) (List.drop _ _), List.take_append_drop, List.append_assoc]
  exact whole

/-- The splice replaces what is hit, and leaves the rest of the text as it is. -/
theorem spliceLine_eq (mem : target ∈ source.targets lines) (new : List Char) :
    spliceLine source.text ((source.place target.1).start.line - 1)
      ((source.place target.1).start.col +
        (find (operatorTokens target.2).toList (source.segment target.1)).getD 0)
      ((source.place target.1).start.col +
        (find (operatorTokens target.2).toList (source.segment target.1)).getD 0 +
        (operatorTokens target.2).length) new =
      .ok ((source.hit target).replace new).text := by
  have item := line_eq mem
  obtain ⟨inside, -⟩ := List.getElem?_eq_some_iff.mp item
  rw [spliceLine, itemAt_eq_ok item]
  refine congrArg Except.ok ?_
  rw [List.set_eq_take_append_cons_drop, if_pos inside, List.flatten_append, List.flatten_cons,
    Source.hit, Spliced.replace, Spliced.text]
  dsimp only
  rw [List.drop_drop, String.length_toList]
  simp only [List.append_assoc]

/-- What the code makes of a comparison to be swapped. -/
theorem replaceOperator_eq (mem : target ∈ source.targets lines) :
    replaceOperator source.code (source.place target.1) (.plain target.2) (operatorSwaps target.2) =
      .ok (some (source.aim target)) := by
  have oneLine := (mem_targets mem).2.2.2
  rw [replaceOperator, if_neg (not_not.mpr oneLine), getSourceSegment_eq mem]
  show (if source.segment target.1 = [] then _ else _) = _
  rw [if_neg (cut_of_mem mem).proper]
  rw [find_eq mem]
  show (spliceLine source.code.toList _ _ _ _ >>= _) = _
  rw [Source.code, String.toList_ofList, spliceLine_eq mem]
  rfl

/-! ## Which candidates are good -/

/-- A target that is idle, and only such a one, aims at the code. -/
theorem aim_eq_code_iff (mem : target ∈ source.targets lines) :
    source.aim target = source.code ↔ source.Idle target := by
  have text := hit_text mem
  rw [Source.aim, Source.code, String.ofList_inj, Source.Idle]
  constructor
  · intro same
    rw [← text] at same
    exact (List.append_cancel_left (List.append_cancel_right same)).symm
  · intro same
    rw [← same]
    exact text

/-- A candidate is the swap of a comparison's operator when that operator is hit, and only then. -/
theorem aim_eq_patched_iff {target' : Target} (mem : target ∈ source.targets lines)
    (mem' : target' ∈ source.targets lines) :
    source.aim target = source.patched target' ↔
      source.hit target = source.operator target'.1 ∧ target.2 = target'.2 := by
  have stands := stands_of_mem mem'
  rw [Source.aim, Source.patched, String.ofList_inj]
  constructor
  · intro written
    rw [operatorSwaps_eq, operatorSwaps_eq] at written
    exact eq_of_written stands.alone stands.isOp ((hit_text mem).trans stands.text.symm) written
  · rintro ⟨same, op⟩
    rw [same, op]

/-- A target is hit or idle exactly when its patch, if it changes anything, is the patch of some
target. -/
theorem good_iff (mem : target ∈ source.targets lines) :
    (source.Idle target ∨ source.Hits lines target) ↔
      (source.aim target ≠ source.code →
        ∃ target' ∈ source.targets lines, source.aim target = source.patched target') := by
  rw [← aim_eq_code_iff mem]
  constructor
  · rintro (idle | ⟨t, mem', same⟩) differs
    · exact absurd idle differs
    · exact ⟨(t, target.2), mem', (aim_eq_patched_iff mem mem').mpr ⟨same, rfl⟩⟩
  · intro good
    by_cases idle : source.aim target = source.code
    · exact .inl idle
    · obtain ⟨⟨t, op⟩, mem', same⟩ := good idle
      obtain ⟨place, rfl⟩ := (aim_eq_patched_iff mem mem').mp same
      exact .inr ⟨t, mem', place⟩

/-- Good candidates are told apart by the places they change. -/
theorem aim_eq_aim_iff {target' : Target} (mem : target ∈ source.targets lines)
    (mem' : target' ∈ source.targets lines) (hits : source.Hits lines target)
    (hits' : source.Hits lines target') :
    source.aim target = source.aim target' ↔ source.hit target = source.hit target' := by
  obtain ⟨t, inTargets, same⟩ := hits
  obtain ⟨t', inTargets', same'⟩ := hits'
  have patched' := (aim_eq_patched_iff mem' inTargets').mpr ⟨same', rfl⟩
  rw [patched', aim_eq_patched_iff mem inTargets', same, same']
  constructor
  · exact fun both => both.1
  · intro place
    have isOp := (stands_of_mem inTargets).isOp
    rw [place, (stands_of_mem inTargets').isOp] at isOp
    exact ⟨place, (operatorTokens_injective (String.toList_inj.mp isOp)).symm⟩

/-! ## When the operator itself is hit -/

/-- Nothing leads the patcher astray: the operator's text occurs first at the operator, what
precedes the comparison on its line is ASCII, and up to the operator `str.splitlines` ends lines
where Python does. -/
structure Clear (source : Source) (target : Target) : Prop where
  first : find (operatorTokens target.2).toList (source.segment target.1) =
    some ((source.operator target.1).before.length - target.1.span.1)
  ascii : ∀ c ∈ (splitEnds isNewline (source.text.take target.1.span.1)).rest, c.utf8Size = 1
  lineEnds : ∀ c ∈ (source.operator target.1).before ++ (source.operator target.1).token,
    isLineBoundary c = true → isNewline c = true

/-- An ASCII text has as many bytes as characters. -/
theorem bytes_of_ascii {text : List Char} (ascii : ∀ c ∈ text, c.utf8Size = 1) :
    bytes text = text.length := by
  induction text with
  | nil => rfl
  | cons c rest ih =>
    have tail := ih fun d mem => ascii d (List.mem_cons_of_mem c mem)
    unfold bytes at *
    rw [List.map_cons, List.sum_cons, List.length_cons, ascii c List.mem_cons_self, tail, Nat.add_comm]

/-- Texts split at the same places are the same. -/
theorem Spliced.ext_length {s s' : Spliced} (text : s.text = s'.text)
    (before : s.before.length = s'.before.length) (token : s.token.length = s'.token.length) : s = s' := by
  obtain ⟨front, cut, behind⟩ := s
  obtain ⟨front', cut', behind'⟩ := s'
  have text : front ++ cut ++ behind = front' ++ cut' ++ behind' := text
  rw [List.append_assoc, List.append_assoc] at text
  obtain ⟨rfl, rest⟩ := List.append_inj text before
  obtain ⟨rfl, rfl⟩ := List.append_inj rest token
  rfl

/-- The part of the comparison up to its operator, operator included, is on one line. -/
theorem splitEnds_upTo (mem : target ∈ source.targets lines) :
    splitEnds isNewline ((source.operator target.1).before ++ (source.operator target.1).token) =
      ⟨(splitEnds isNewline (source.text.take target.1.span.1)).lines,
        (splitEnds isNewline (source.text.take target.1.span.1)).rest ++
          ((source.operator target.1).before.drop target.1.span.1 ++
            (source.operator target.1).token)⟩ := by
  have cut := cut_of_mem mem
  have stands := stands_of_mem mem
  have segment := stands.segment_eq
  change source.segment target.1 = _ at segment
  rw [← stands.isOp] at segment
  have token : (source.operator target.1).token ≠ [] := stands.isOp ▸ (operatorTokens_plain target.2).1
  have line := (mem_targets mem).2.2.2
  rw [cut.stop] at line
  have quiet := quiet_of_lines_eq_nil (congrArg Split.lines (splitEnds_of_line cut.uncut line))
  rw [segment] at quiet
  have part : splitEnds isNewline ((source.operator target.1).before.drop target.1.span.1 ++
      (source.operator target.1).token) = ⟨[], _⟩ :=
    splitEnds_of_quiet fun c mem => quiet c (List.mem_append_left _ mem)
  have uncut : (source.text.take target.1.span.1).getLast? = some '\r' →
      ((source.operator target.1).before.drop target.1.span.1 ++
        (source.operator target.1).token).head? ≠ some '\n' := by
    intro carriage newline
    refine cut.uncut carriage ?_
    rw [segment, List.head?_append_of_ne_nil _ (by simp [token])]
    exact newline
  have front : (source.operator target.1).before ++ (source.operator target.1).token =
      source.text.take target.1.span.1 ++ ((source.operator target.1).before.drop target.1.span.1 ++
        (source.operator target.1).token) := by
    rw [stands.take_eq, ← List.append_assoc, List.take_append_drop]
  rw [front, splitEnds_append uncut, part]
  rfl

/-- The line `str.splitlines` has for a clear comparison. -/
theorem splitlines_of_clear (mem : target ∈ source.targets lines) (clear : source.Clear target) :
    ∃ tail rest, splitlines isLineBoundary source.text =
      (splitEnds isNewline (source.text.take target.1.span.1)).lines ++
        ((splitEnds isNewline (source.text.take target.1.span.1)).rest ++
          ((source.operator target.1).before.drop target.1.span.1 ++ (source.operator target.1).token) ++
            tail) :: rest := by
  have stands := stands_of_mem mem
  have plain := stands.isOp ▸ operatorTokens_plain target.2
  have same : splitEnds isLineBoundary ((source.operator target.1).before ++
      (source.operator target.1).token) =
      splitEnds isNewline ((source.operator target.1).before ++ (source.operator target.1).token) := by
    refine splitEnds_congr fun c mem => ?_
    cases newline : isNewline c with
    | true => exact isLineBoundary_of_isNewline newline
    | false =>
      by_contra boundary
      rw [clear.lineEnds c mem (Bool.eq_true_of_not_eq_false boundary)] at newline
      cases newline
  have last : ((source.operator target.1).before ++ (source.operator target.1).token).getLast? =
      some '\r' → (source.operator target.1).after.head? ≠ some '\n' := by
    intro carriage
    rw [List.getLast?_append_of_ne_nil _ plain.1] at carriage
    exact absurd rfl (plain.2 _ (List.mem_of_getLast? carriage)).2.2
  have whole : splitEnds isLineBoundary (source.operator target.1).text = _ := splitEnds_append last
  rw [stands.text, same, splitEnds_upTo mem] at whole
  rw [splitlines, whole]
  exact Split.all_append ⟨_, _⟩ _ (by simp [plain.1])

/-- With nothing in the way, the first occurrence of the operator's text is the operator. -/
theorem hit_eq_operator (mem : target ∈ source.targets lines) (clear : source.Clear target) :
    source.hit target = source.operator target.1 := by
  obtain ⟨tail, rest, split⟩ := splitlines_of_clear mem clear
  have stands := stands_of_mem mem
  have flat := @splitEnds_text isNewline (source.text.take target.1.span.1)
  rw [Split.text] at flat
  have idx : (source.place target.1).start.line - 1 =
      (splitEnds isNewline (source.text.take target.1.span.1)).lines.length := by
    show (posAfter (source.text.take target.1.span.1)).line - 1 = _
    rw [posAfter_eq, Nat.add_sub_cancel]
  have col : (source.place target.1).start.col =
      (splitEnds isNewline (source.text.take target.1.span.1)).rest.length := by
    show (posAfter (source.text.take target.1.span.1)).col = _
    rw [posAfter_eq, bytes_of_ascii clear.ascii]
  have start : (splitEnds isNewline (source.text.take target.1.span.1)).rest.length +
      ((source.operator target.1).before.length - target.1.span.1) =
      ((splitEnds isNewline (source.text.take target.1.span.1)).rest ++
        (source.operator target.1).before.drop target.1.span.1).length := by
    rw [List.length_append, List.length_drop]
  have before : (source.hit target).before = (source.operator target.1).before := by
    rw [Source.hit]
    dsimp only
    rw [clear.first, Option.getD_some, idx, col, split, start, List.take_left, List.getD_eq_getElem?_getD,
      List.getElem?_append_right le_rfl, Nat.sub_self]
    show _ ++ List.take _ (_ ++ (_ ++ _) ++ tail) = _
    rw [← List.append_assoc _ _ (source.operator target.1).token, List.append_assoc _ _ tail,
      List.take_left, ← List.append_assoc, flat, stands.take_eq, List.take_append_drop]
  have token : (source.hit target).token = (source.operator target.1).token := by
    rw [Source.hit]
    dsimp only
    rw [clear.first, Option.getD_some, idx, col, split, start, List.getD_eq_getElem?_getD,
      List.getElem?_append_right le_rfl, Nat.sub_self]
    show List.take _ (List.drop _ (_ ++ (_ ++ _) ++ tail)) = _
    rw [← List.append_assoc _ _ (source.operator target.1).token, List.append_assoc _ _ tail,
      List.drop_left, ← stands.isOp, List.take_left]
  exact Spliced.ext_length ((hit_text mem).trans stands.text.symm) (congrArg List.length before)
    (congrArg List.length token)

/-- Where nothing leads it astray, the patcher hits. -/
theorem onTarget_of_clear {maxCandidates : Int}
    (clear : ∀ target ∈ source.targets lines, source.Clear target) :
    source.OnTarget lines maxCandidates := by
  intro front target back split few
  have mem : target ∈ source.targets lines := split ▸ List.mem_append_right _ List.mem_cons_self
  exact .inr ⟨target.1, mem, hit_eq_operator mem (clear target mem)⟩

end Source

end KernelOmega
