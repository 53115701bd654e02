import KernelOmega.Distance.Changes
import KernelOmega.Python.Lines

/-!
# Rewriting a part of one line

A text of which a part of one line is replaced by characters that end no line. Two things can
happen to the lines around it: the end of the line goes with the part, so that the next line
joins it, or the replacement comes to stand behind the end and joins the next line itself. In
either case the texts are within two lines of each other.
-/

namespace Python

open Distance

variable {ends : Char → Bool}

/-- A complete line is characters that end none, and an end. -/
theorem exists_end {line : List Char} (whole : splitEnds ends line = ⟨[line], []⟩) :
    ∃ front stop, line = front ++ stop ∧ (∀ c ∈ front, ends c = false) ∧
      (stop = ['\r', '\n'] ∨ ∃ c, stop = [c]) := by
  have text : ∀ l : List Char, splitEnds ends line = ⟨[l], []⟩ → ∃ front stop, l = front ++ stop ∧
      (∀ c ∈ front, ends c = false) ∧ (stop = ['\r', '\n'] ∨ ∃ c, stop = [c]) := by
    clear whole
    fun_induction splitEnds ends line with
    | case1 =>
      intro l whole
      cases whole
    | case2 rest ih =>
      intro l whole
      cases split : splitEnds ends rest with
      | mk lines left =>
        rw [split] at whole
        cases lines with
        | nil =>
          obtain ⟨rfl, -⟩ := List.cons.inj (Split.mk.inj whole).1
          exact ⟨[], ['\r', '\n'], rfl, by simp, .inl rfl⟩
        | cons first lines => cases (List.cons.inj (Split.mk.inj whole).1).2
    | case3 c rest single ih =>
      intro l whole
      cases split : splitEnds ends rest with
      | mk lines left =>
        rw [split] at whole ih
        by_cases here : ends c = true
        · rw [if_pos here] at whole
          cases lines with
          | nil =>
            obtain ⟨rfl, -⟩ := List.cons.inj (Split.mk.inj whole).1
            exact ⟨[], [c], rfl, by simp, .inr ⟨c, rfl⟩⟩
          | cons first lines => cases (List.cons.inj (Split.mk.inj whole).1).2
        · rw [if_neg here] at whole
          cases lines with
          | nil => cases (Split.mk.inj whole).1
          | cons first lines =>
            obtain ⟨rfl, rfl⟩ := List.cons.inj (Split.mk.inj whole).1
            obtain rfl : left = [] := (Split.mk.inj whole).2
            obtain ⟨front, stop, rfl, quiet, form⟩ := ih first rfl
            refine ⟨c :: front, stop, rfl, fun d mem => ?_, form⟩
            rcases List.mem_cons.mp mem with rfl | mem
            · exact Bool.not_eq_true _ ▸ here
            · exact quiet d mem
  exact text line whole

/-- The first line of a text can be cut off. -/
theorem splitEnds_cons {text line rest : List Char} {lines : List (List Char)}
    (split : splitEnds ends text = ⟨line :: lines, rest⟩) :
    ∃ after, text = line ++ after ∧ splitEnds ends line = ⟨[line], []⟩ ∧
      splitEnds ends after = ⟨lines, rest⟩ ∧
      (line.getLast? = some '\r' → after.head? ≠ some '\n') := by
  fun_induction splitEnds ends text generalizing line lines with
  | case1 => cases split
  | case2 after ih =>
    cases later : splitEnds ends after with
    | mk more left =>
      rw [later] at split
      cases more with
      | nil =>
        obtain ⟨rfl, rfl⟩ := List.cons.inj (Split.mk.inj split).1
        obtain rfl : left = rest := (Split.mk.inj split).2
        exact ⟨after, rfl, rfl, later, fun carriage => by cases carriage⟩
      | cons first more =>
        obtain ⟨rfl, rfl⟩ := List.cons.inj (Split.mk.inj split).1
        obtain rfl : left = rest := (Split.mk.inj split).2
        exact ⟨after, rfl, rfl, later, fun carriage => by cases carriage⟩
  | case3 c after single ih =>
    cases later : splitEnds ends after with
    | mk more left =>
      rw [later] at split ih
      by_cases here : ends c = true
      · rw [if_pos here] at split
        obtain ⟨rfl, rfl⟩ : [c] = line ∧ more = lines := by
          cases more with
          | nil => exact List.cons.inj (Split.mk.inj split).1
          | cons first more => exact List.cons.inj (Split.mk.inj split).1
        obtain rfl : left = rest := by
          cases more <;> exact (Split.mk.inj split).2
        refine ⟨after, rfl, ?_, later, fun carriage newline => ?_⟩
        · rw [splitEnds.eq_3 _ _ _ (by intro r _ same; cases same), if_pos here]
          rfl
        · obtain rfl : c = '\r' := Option.some.inj carriage
          cases after with
          | nil => cases newline
          | cons d after =>
            obtain rfl : d = '\n' := Option.some.inj newline
            exact single after rfl rfl
      · rw [if_neg here] at split
        cases more with
        | nil => cases (Split.mk.inj split).1
        | cons first more =>
          obtain ⟨rfl, rfl⟩ := List.cons.inj (Split.mk.inj split).1
          obtain rfl : left = rest := (Split.mk.inj split).2
          obtain ⟨after', rfl, whole, later', uncut⟩ := ih rfl
          have proper : first ≠ [] := by
            rintro rfl
            cases whole
          have single' : ∀ r, c = '\r' → first = '\n' :: r → False := by
            rintro r rfl rfl
            exact single (r ++ after') rfl rfl
          refine ⟨after', rfl, ?_, later', fun carriage => uncut ?_⟩
          · show splitEnds ends (c :: first) = _
            rw [splitEnds.eq_3 _ _ _ single', if_neg here, whole]
            rfl
          · show first.getLast? = some '\r'
            have last : (c :: first).getLast? = some '\r' := carriage
            cases first with
            | nil => exact absurd rfl proper
            | cons d first => rwa [List.getLast?_cons_cons] at last

/-- A text without a complete line is one line, if it is anything. -/
theorem splitlines_rest {text rest : List Char} (split : splitEnds ends text = ⟨[], rest⟩) :
    rest = text ∧ splitlines ends text = if text = [] then [] else [text] := by
  have whole := @splitEnds_text ends text
  rw [split] at whole
  obtain rfl : rest = text := whole
  exact ⟨rfl, by rw [splitlines, split]; rfl⟩

/-- The first line is split off, and the rest is split by itself. -/
theorem splitlines_cons {text line rest : List Char} {lines : List (List Char)}
    (split : splitEnds ends text = ⟨line :: lines, rest⟩) :
    ∃ after, text = line ++ after ∧ splitEnds ends line = ⟨[line], []⟩ ∧
      (line.getLast? = some '\r' → after.head? ≠ some '\n') ∧
      splitlines ends text = line :: splitlines ends after := by
  obtain ⟨after, same, whole, later, uncut⟩ := splitEnds_cons split
  refine ⟨after, same, whole, uncut, ?_⟩
  rw [splitlines, splitlines, split, later, Split.all, Split.all]
  dsimp only
  split <;> rfl

/-- A line of a text: what stands before it is complete lines, and it is complete itself or the
end of the text. -/
theorem exists_line {text line : List Char} {index : Nat}
    (there : (splitlines ends text)[index]? = some line) :
    ∃ before after lines, text = before ++ (line ++ after) ∧ line ≠ [] ∧ lines.length = index ∧
      splitEnds ends before = ⟨lines, []⟩ ∧
      (before.getLast? = some '\r' → line.head? ≠ some '\n') ∧
      (line.getLast? = some '\r' → after.head? ≠ some '\n') ∧
      (splitEnds ends line = ⟨[line], []⟩ ∨ splitEnds ends line = ⟨[], line⟩ ∧ after = []) ∧
      splitlines ends text = lines ++ line :: splitlines ends after := by
  induction index generalizing text with
  | zero =>
    cases split : splitEnds ends text with
    | mk lines rest =>
      cases lines with
      | nil =>
        obtain ⟨rfl, all⟩ := splitlines_rest split
        rw [all] at there ⊢
        split at there
        · cases there
        · next proper =>
          obtain rfl := Option.some.inj there
          refine ⟨[], [], [], (List.append_nil rest).symm, proper, rfl, rfl, ?_, ?_,
            .inr ⟨split, rfl⟩, if_neg proper⟩
          · exact fun last => by cases last
          · exact fun _ head => by cases head
      | cons first lines =>
        obtain ⟨after, rfl, whole, uncut, all⟩ := splitlines_cons split
        rw [all] at there
        obtain rfl := Option.some.inj there
        have proper : first ≠ [] := by
          rintro rfl
          cases whole
        refine ⟨[], after, [], rfl, proper, rfl, rfl, ?_, uncut, .inl whole, all⟩
        exact fun last => by cases last
  | succ index ih =>
    cases split : splitEnds ends text with
    | mk lines rest =>
      cases lines with
      | nil =>
        obtain ⟨rfl, all⟩ := splitlines_rest split
        rw [all] at there
        split at there <;> cases there
      | cons first lines =>
        obtain ⟨tail, rfl, whole, uncut, all⟩ := splitlines_cons split
        rw [all] at there
        obtain ⟨before, after, lines', rfl, proper, length, complete, front, back, form, behind⟩ :=
          ih there
        have first_uncut : first.getLast? = some '\r' → before.head? ≠ some '\n' := by
          intro last head
          refine uncut last ?_
          cases before with
          | nil => cases head
          | cons d before => exact head
        refine ⟨first ++ before, after, first :: lines', (List.append_assoc ..).symm, proper,
          congrArg Nat.succ length, ?_, fun last => ?_, back, form, ?_⟩
        · rw [splitEnds_append first_uncut, whole, complete]
          cases lines' <;> rfl
        · cases before with
          | nil =>
            rw [List.append_nil] at last
            intro head
            refine uncut last ?_
            rw [List.nil_append, List.head?_append, head]
            rfl
          | cons d before =>
            rw [List.getLast?_append_of_ne_nil _ (List.cons_ne_nil d before)] at last
            exact front last
        · rw [all, behind]
          rfl

namespace Split

theorem all_eq (s : Split) : s.all = s.lines ++ if s.rest = [] then [] else [s.rest] := by
  unfold all
  split
  · rw [List.append_nil]
  · rfl

theorem all_length_le (s : Split) : s.all.length ≤ s.lines.length + 1 := by
  rw [all_eq, List.length_append]
  split
  · exact Nat.le_succ _
  · exact Nat.le_refl _

theorem all_cons (line rest : List Char) (lines : List (List Char)) :
    (Split.mk (line :: lines) rest).all = line :: (Split.mk lines rest).all := by
  rw [all_eq, all_eq]
  rfl

/-- Complete lines stay what they are. -/
theorem all_complete (lines : List (List Char)) (s : Split) :
    (append ⟨lines, []⟩ s).all = lines ++ s.all := by
  obtain ⟨lines', rest⟩ := s
  cases lines' with
  | nil => rw [append, all_eq, all_eq, List.nil_append, List.nil_append]
  | cons line lines' => rw [append, all_eq, all_eq, List.nil_append, List.append_assoc]

/-- The first line of the second part ends what the first part has left open. -/
theorem all_append_cons (s : Split) (line rest : List Char) (lines : List (List Char)) :
    (s.append ⟨line :: lines, rest⟩).all =
      (s.lines ++ [s.rest ++ line]) ++ (Split.mk lines rest).all := by
  rw [append, all_eq, all_eq, List.append_assoc, List.append_assoc]
  rfl

end Split

/-! ## The rewritten line -/

/-- A text has no more line ends than characters. -/
theorem lines_length_le (text : List Char) : (splitEnds ends text).lines.length ≤ text.length := by
  fun_induction splitEnds ends text with
  | case1 => exact Nat.le_refl 0
  | case2 rest ih =>
    rw [Split.append_length, List.length_cons, List.length_cons]
    dsimp only [List.length_cons, List.length_nil]
    omega
  | case3 c rest single ih =>
    rw [Split.append_length, List.length_cons]
    split
    · dsimp only [List.length_cons, List.length_nil]
      omega
    · dsimp only [List.length_nil]
      omega

section Rewriting

variable (carriage : ends '\r' = true)

include carriage

/-- Characters that end no line make none. -/
theorem splitEnds_still {text : List Char} (still : ∀ c ∈ text, ends c = false) :
    splitEnds ends text = ⟨[], text⟩ := by
  fun_induction splitEnds ends text with
  | case1 => rfl
  | case2 rest ih => cases carriage.symm.trans (still '\r' List.mem_cons_self)
  | case3 c rest single ih =>
    rw [ih fun d mem => still d (List.mem_cons_of_mem c mem), still c List.mem_cons_self]
    rfl

/-- They can be cut off whatever they stand behind or in front of. -/
theorem splitEnds_still_append {text : List Char} (still : ∀ c ∈ text, ends c = false)
    (after : List Char) :
    splitEnds ends (text ++ after) = Split.append ⟨[], text⟩ (splitEnds ends after) := by
  rw [splitEnds_append, splitEnds_still carriage still]
  intro last
  cases carriage.symm.trans (still '\r' (List.mem_of_getLast? last))

/-- A line of which a part is replaced has one end at most. -/
theorem rewritten_lines (newline : ends '\n' = true) {line op : List Char} {a b : Nat} (forward : a < b)
    (still : ∀ c ∈ op, ends c = false)
    (one : splitEnds ends line = ⟨[line], []⟩ ∨ splitEnds ends line = ⟨[], line⟩) :
    (splitEnds ends (line.take a ++ op ++ line.drop b)).lines.length ≤ 1 := by
  -- The line is characters that end none, and at most one end of it.
  obtain ⟨front, stop, rfl, quiet, form⟩ : ∃ front stop, line = front ++ stop ∧
      (∀ c ∈ front, ends c = false) ∧ (stop = ['\r', '\n'] ∨ stop.length ≤ 1) := by
    rcases one with whole | open'
    · obtain ⟨front, stop, same, quiet, form⟩ := exists_end whole
      refine ⟨front, stop, same, quiet, form.imp_right ?_⟩
      rintro ⟨c, rfl⟩
      exact Nat.le_refl 1
    · exact ⟨line, [], (List.append_nil line).symm,
        quiet_of_lines_eq_nil (congrArg Split.lines open'), .inr (Nat.zero_le 1)⟩
  have few : ∀ k, (splitEnds ends (stop.drop k)).lines.length ≤ 1 := by
    intro k
    rcases form with rfl | short
    · match k with
      | 0 => rfl
      | 1 => exact lines_length_le ['\n']
      | k + 2 =>
        rw [List.drop_eq_nil_of_le (Nat.le_add_left 2 k)]
        exact Nat.zero_le 1
    · refine (lines_length_le _).trans ?_
      rw [List.length_drop]
      omega
  by_cases within : a ≤ front.length
  · -- The end is behind the part, if it is kept.
    have kept : (front ++ stop).take a = front.take a := by
      rw [List.take_append_of_le_length within]
    have quiet' : ∀ c ∈ front.take a ++ op ++ front.drop b, ends c = false := by
      intro c mem
      simp only [List.mem_append] at mem
      rcases mem with (mem | mem) | mem
      · exact quiet c (List.mem_of_mem_take mem)
      · exact still c mem
      · exact quiet c (List.mem_of_mem_drop mem)
    rw [kept, List.drop_append, ← List.append_assoc, splitEnds_still_append carriage quiet',
      Split.append_length]
    have last := few (b - front.length)
    dsimp only [List.length_nil]
    omega
  · -- The part begins behind the first character of the end.
    have gone : (front ++ stop).drop b = [] := by
      refine List.drop_eq_nil_of_le ?_
      rw [List.length_append]
      rcases form with rfl | short
      · dsimp only [List.length_cons, List.length_nil]
        omega
      · omega
    have first : (splitEnds ends (stop.take (a - front.length))).lines.length ≤ 1 := by
      rcases form with rfl | short
      · match a - front.length with
        | 0 => exact Nat.zero_le 1
        | 1 => exact lines_length_le ['\r']
        | k + 2 =>
          rw [List.take_of_length_le (Nat.le_add_left 2 k)]
          exact Nat.le_refl 1
      · refine (lines_length_le _).trans ?_
        rw [List.length_take]
        omega
    have start : (front ++ stop).take a = front ++ stop.take (a - front.length) := by
      rw [List.take_append, List.take_of_length_le (by omega)]
    have uncut : (front ++ stop.take (a - front.length)).getLast? = some '\r' →
        op.head? ≠ some '\n' := by
      intro _ head
      cases newline.symm.trans (still '\n' (List.mem_of_head? head))
    rw [gone, List.append_nil, start, splitEnds_append uncut, splitEnds_still carriage still,
      splitEnds_still_append carriage quiet, Split.append_length, Split.append_length]
    dsimp only [List.length_nil]
    omega

/-- A part of a line is replaced by characters that end no line: the texts are within two lines
of each other. -/
theorem within_two (newline : ends '\n' = true) {text line op : List Char} {index a b : Nat}
    (there : (splitlines ends text)[index]? = some line) (forward : a < b)
    (still : ∀ c ∈ op, ends c = false) (proper : op ≠ []) :
    Within 2 (splitlines ends text) (splitlines ends
      ((splitlines ends text).set index (line.take a ++ op ++ line.drop b)).flatten) := by
  obtain ⟨before, after, lines, rfl, nonempty, rfl, complete, front, back, form, behind⟩ :=
    exists_line there
  have flat : lines.flatten = before := by
    have whole := @splitEnds_text ends before
    rwa [complete, Split.text, List.append_nil] at whole
  have one := rewritten_lines carriage newline (a := a) (b := b) forward still
    (form.imp_right And.left)
  obtain ⟨piece, pieceEq⟩ : ∃ piece, piece = line.take a ++ op ++ line.drop b := ⟨_, rfl⟩
  rw [← pieceEq] at one ⊢
  rw [behind, List.set_append_right _ _ (Nat.le_refl _), Nat.sub_self, List.set_cons_zero,
    List.flatten_append, List.flatten_cons, splitlines_flatten, flat]
  -- No line end is cut in two.
  have ahead : before.getLast? = some '\r' → (piece ++ after).head? ≠ some '\n' := by
    intro last head
    rw [pieceEq, List.append_assoc, List.append_assoc] at head
    cases a with
    | zero =>
      rw [List.take_zero, List.nil_append, List.head?_append_of_ne_nil _ proper] at head
      cases newline.symm.trans (still '\n' (List.mem_of_head? head))
    | succ a =>
      cases line with
      | nil => exact nonempty rfl
      | cons c line => exact front last head
  have behind' : piece.getLast? = some '\r' → after.head? ≠ some '\n' := by
    intro last
    rw [pieceEq] at last
    by_cases gone : line.drop b = []
    · rw [gone, List.append_nil, List.getLast?_append_of_ne_nil _ proper] at last
      cases carriage.symm.trans (still '\r' (List.mem_of_getLast? last))
    · rw [List.getLast?_append_of_ne_nil _ gone] at last
      rw [List.getLast?_drop, if_neg (mt List.drop_eq_nil_of_le gone)] at last
      exact back last
  have whole : splitlines ends (before ++ (piece ++ after)) =
      lines ++ ((splitEnds ends piece).append (splitEnds ends after)).all := by
    rw [splitlines, splitEnds_append ahead, splitEnds_append behind', complete,
      Split.all_complete]
  rw [whole, splitlines]
  cases split : splitEnds ends after with
  | mk more rest =>
    cases more with
    | nil =>
      have old := (Split.mk [] rest).all_length_le
      have new := ((splitEnds ends piece).append ⟨[], rest⟩).all_length_le
      rw [Split.append_length] at new
      have close : Within 2 (lines ++ (line :: (Split.mk [] rest).all ++ []))
          (lines ++ (((splitEnds ends piece).append ⟨[], rest⟩).all ++ [])) :=
        Within.middle lines [] (Nat.succ_le_succ old) (new.trans (Nat.succ_le_succ one))
      simpa only [List.append_nil] using close
    | cons first more =>
      rw [Split.all_append_cons, Split.all_cons]
      have old : [line, first].length ≤ 2 := Nat.le_refl 2
      refine Within.middle lines (Split.mk more rest).all old ?_
      rw [List.length_append, List.length_singleton]
      exact Nat.succ_le_succ one

end Rewriting

end Python
