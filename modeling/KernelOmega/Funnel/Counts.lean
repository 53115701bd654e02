import KernelOmega.Python.Findall
import KernelOmega.Python.Unicode

/-!
# Counts in test output

`parse_pytest_counts` of `guest_agent/funnel.py` finds every number that stands before
blanks and one of the words passed, failed, error or errors, anywhere in an output, and
adds up what it finds. `Counts` says that an output has such a place; the places found
are those, up to the choice of the longest run of digits (`counts_of_mem` and
`mem_of_counts`).
-/

namespace KernelOmega

open Python

-- A list is gone through before all of `Char` is.
attribute [local instance (high)] List.decidableBAll

namespace Funnel

def passedWord : List Char := "passed".toList

/-- `(passed|failed|error|errors)`, in the order they are tried. -/
def countWords : List (List Char) :=
  [passedWord, "failed".toList, "error".toList, "errors".toList]

/-- `(\d+)\s+(passed|failed|error|errors)` at the front of a text. The digits and the
blanks are taken as far as they go: with fewer of them a digit or a blank would have to
match what comes next. -/
def countAt : Matcher (List Char × List Char) := fun text =>
  let digits := text.takeWhile isDecimal
  let behind := text.dropWhile isDecimal
  let blanks := behind.takeWhile isBlank
  let word := behind.dropWhile isBlank
  if digits = [] ∨ blanks = [] then none
  else
    (countWords.find? fun label => label.isPrefixOf word).map fun label =>
      ((digits, label), digits.length + blanks.length + label.length)

/-- The body of the loop of `parse_pytest_counts`, with the error of `int`. -/
def addCount : Nat × Nat → List Char × List Char → Except PyError (Nat × Nat)
  | (passed, failed), (count, label) =>
    match int count with
    | .error e => .error e
    | .ok value =>
      if label = passedWord then .ok (passed + value, failed) else .ok (passed, failed + value)

/-- `parse_pytest_counts`: every match of the output is counted, wherever it stands. -/
def parsePytestCounts (output : List Char) : Except PyError (Nat × Nat) :=
  (findall countAt output).foldlM addCount (0, 0)

/-! ## The places the pattern matches -/

/-- The text has these digits, blanks and this word in a row. -/
def Counts (text digits label : List Char) : Prop :=
  ∃ before blanks after, text = before ++ (digits ++ (blanks ++ (label ++ after))) ∧
    digits ≠ [] ∧ (∀ c ∈ digits, isDecimal c = true) ∧
    blanks ≠ [] ∧ (∀ c ∈ blanks, isBlank c = true) ∧ label ∈ countWords

/-- The text does not go on with a character of the class. -/
def Stops (p : Char → Bool) (text : List Char) : Prop := ∀ c ∈ text.head?, p c = false

theorem Stops.append {p : Char → Bool} {text : List Char} (stops : Stops p text)
    (nonempty : text ≠ []) (more : List Char) : Stops p (text ++ more) := by
  cases text with
  | nil => exact absurd rfl nonempty
  | cons c text => exact stops

/-- A scan stops where it stops. -/
theorem stops_dropWhile (p : Char → Bool) (text : List Char) : Stops p (text.dropWhile p) := by
  induction text with
  | nil => exact fun c none => absurd none (Option.not_mem_none c)
  | cons c text ih =>
    rw [List.dropWhile_cons]
    split
    · exact ih
    · next other =>
      intro c' head
      rw [← Option.some.inj head]
      exact Bool.eq_false_of_not_eq_true other

theorem takeWhile_append_of_stops {p : Char → Bool} {part text : List Char}
    (all : ∀ c ∈ part, p c = true) (stops : Stops p text) :
    (part ++ text).takeWhile p = part ∧ (part ++ text).dropWhile p = text := by
  induction part with
  | nil =>
    cases text with
    | nil => exact ⟨rfl, rfl⟩
    | cons c text =>
      have other := stops c rfl
      simp [other]
  | cons c part ih =>
    obtain ⟨taken, dropped⟩ := ih fun c member => all c (List.mem_cons_of_mem _ member)
    have here := all c List.mem_cons_self
    simp [here, taken, dropped]

theorem all_takeWhile (p : Char → Bool) (text : List Char) :
    ∀ c ∈ text.takeWhile p, p c = true :=
  fun _ member => List.mem_takeWhile_imp member

/-- The digits, the blanks and the rest of a text. -/
structure Parts (text digits blanks word : List Char) : Prop where
  split : text = digits ++ (blanks ++ word)
  digits : ∀ c ∈ digits, isDecimal c = true
  digitsStop : Stops isDecimal (blanks ++ word)
  blanks : ∀ c ∈ blanks, isBlank c = true
  blanksStop : Stops isBlank word

/-- Every text falls apart into digits, blanks and a word, each of which may be empty. -/
theorem exists_parts (text : List Char) : ∃ digits blanks word, Parts text digits blanks word := by
  have behind := stops_dropWhile isDecimal text
  have word := stops_dropWhile isBlank (text.dropWhile isDecimal)
  refine ⟨text.takeWhile isDecimal, (text.dropWhile isDecimal).takeWhile isBlank,
    (text.dropWhile isDecimal).dropWhile isBlank, ?_, all_takeWhile _ _, ?_,
    all_takeWhile _ _, word⟩
  · rw [List.takeWhile_append_dropWhile, List.takeWhile_append_dropWhile]
  · rw [List.takeWhile_append_dropWhile]
    exact behind

section Parts

variable {text digits blanks word : List Char}

/-- The pattern matches if there are digits and blanks, and takes the first label the word begins
with. -/
theorem Parts.countAt_eq (parts : Parts text digits blanks word) :
    countAt text =
      if digits = [] ∨ blanks = [] then none
      else
        (countWords.find? fun label => label.isPrefixOf word).map fun label =>
          ((digits, label), digits.length + blanks.length + label.length) := by
  obtain ⟨taken, dropped⟩ := takeWhile_append_of_stops parts.digits parts.digitsStop
  obtain ⟨taken', dropped'⟩ := takeWhile_append_of_stops parts.blanks parts.blanksStop
  rw [parts.split, countAt, taken, dropped, taken', dropped']

/-- What a match consists of. -/
theorem Parts.of_countAt (parts : Parts text digits blanks word) {found : List Char × List Char}
    {taken : Nat} (matched : countAt text = some (found, taken)) :
    digits ≠ [] ∧ blanks ≠ [] ∧ found.1 = digits ∧ found.2 ∈ countWords ∧
      found.2 <+: word ∧ taken = digits.length + blanks.length + found.2.length := by
  rw [parts.countAt_eq] at matched
  split at matched
  · cases matched
  · next some =>
    obtain ⟨label, first, same⟩ := Option.map_eq_some_iff.mp matched
    obtain ⟨rfl, rfl⟩ := Prod.mk.inj same
    have front : label.isPrefixOf word = true := by
      have holds := List.find?_some first
      exact holds
    exact ⟨fun none => some (.inl none), fun none => some (.inr none), rfl,
      List.mem_of_find?_eq_some first, List.isPrefixOf_iff_prefix.mp front, rfl⟩

/-- A match is no longer than the text. -/
theorem taken_le {found : List Char × List Char} {taken : Nat}
    (matched : countAt text = some (found, taken)) : taken ≤ text.length := by
  obtain ⟨digits, blanks, word, parts⟩ := exists_parts text
  obtain ⟨_, _, _, _, front, rfl⟩ := parts.of_countAt matched
  have lengths := congrArg List.length parts.split
  have label := front.length_le
  simp only [List.length_append] at lengths
  omega

/-- A text that does not start with a digit matches nothing. -/
theorem countAt_of_stops (stops : Stops isDecimal text) : countAt text = none := by
  have taken : text.takeWhile isDecimal = [] :=
    (takeWhile_append_of_stops (fun c none => absurd none List.not_mem_nil) stops).1
  rw [countAt, taken, if_pos (.inl rfl)]

end Parts

/-! ## What is found -/

theorem word_plain : ∀ label ∈ countWords,
    label ≠ [] ∧ ∀ c ∈ label, isDecimal c = false ∧ isBlank c = false := by
  decide

/-- Behind blanks and a word, a text is stopped from going on with digits or blanks. -/
theorem parts_of_count {digits blanks label after : List Char}
    (digital : ∀ c ∈ digits, isDecimal c = true) (blank : ∀ c ∈ blanks, isBlank c = true)
    (some : blanks ≠ []) (word : label ∈ countWords) :
    Parts (digits ++ (blanks ++ (label ++ after))) digits blanks (label ++ after) where
  split := rfl
  digits := digital
  digitsStop := by
    apply Stops.append _ some
    intro c head
    exact isDecimal_of_isBlank (blank c (List.mem_of_mem_head? head))
  blanks := blank
  blanksStop := by
    obtain ⟨nonempty, plain⟩ := word_plain label word
    apply Stops.append _ nonempty
    intro c head
    exact (plain c (List.mem_of_mem_head? head)).2

/-- A word of another count is no prefix of a text that starts with a word. -/
theorem passedWord_iff {label found after : List Char} (word : label ∈ countWords)
    (word' : found ∈ countWords) (front : found <+: label ++ after) :
    found = passedWord ↔ label = passedWord := by
  have heads : ∀ label ∈ countWords, label.head? = some 'p' ↔ label = passedWord := by
    decide
  have nonempty := (word_plain label word).1
  have nonempty' := (word_plain found word').1
  have same : found.head? = label.head? := by
    obtain ⟨rest, split⟩ := front
    rw [← List.head?_append_of_ne_nil found nonempty', split,
      List.head?_append_of_ne_nil label nonempty]
  rw [← heads label word, ← heads found word', same]

/-- Everything found is one of the counts of the text. -/
theorem counts_of_mem {text : List Char} {found : List Char × List Char}
    (listed : found ∈ findall countAt text) : Counts text found.1 found.2 := by
  obtain ⟨before, rest, taken, rfl, _, matched⟩ := matched_of_mem_findall listed
  obtain ⟨digits, blanks, word, parts⟩ := exists_parts rest
  obtain ⟨digital, blank, same, label, ⟨after, rfl⟩, _⟩ := parts.of_countAt matched
  refine ⟨before, blanks, after, ?_, same ▸ digital, same ▸ parts.digits, blank, parts.blanks,
    label⟩
  rw [same, parts.split]

/-- A text ends with a longest run of digits. -/
theorem exists_run (text : List Char) : ∃ front run, text = front ++ run ∧
    (∀ c ∈ run, isDecimal c = true) ∧ ∀ c ∈ front.getLast?, isDecimal c = false := by
  induction text using List.reverseRecOn with
  | nil =>
    exact ⟨[], [], rfl, fun c none => absurd none List.not_mem_nil,
      fun c none => absurd none (Option.not_mem_none c)⟩
  | append_singleton text c ih =>
    by_cases digit : isDecimal c = true
    · obtain ⟨front, run, rfl, digital, stopped⟩ := ih
      refine ⟨front, run ++ [c], List.append_assoc front run [c], ?_, stopped⟩
      intro c' member
      rcases List.mem_append.mp member with before | last
      · exact digital c' before
      · rw [List.mem_singleton.mp last]
        exact digit
    · refine ⟨text ++ [c], [], (List.append_nil _).symm,
        fun c' none => absurd none List.not_mem_nil, ?_⟩
      intro c' last
      rw [List.getLast?_concat] at last
      rw [← Option.some.inj last]
      exact Bool.eq_false_of_not_eq_true digit

/-- No match from before a run of digits reaches into it, unless it starts with it. -/
theorem apart_of_run {back rest : List Char} {d : Char} (some : back ≠ [])
    (stopped : ∀ c ∈ back.getLast?, isDecimal c = false) (starts : rest.head? = Option.some d)
    (digit : isDecimal d = true) {found : List Char × List Char} {size : Nat}
    (matched : countAt (back ++ rest) = Option.some (found, size)) : size ≤ back.length := by
  obtain ⟨digits, blanks, word, parts⟩ := exists_parts (back ++ rest)
  obtain ⟨_, _, _, label, ⟨after, rfl⟩, rfl⟩ := parts.of_countAt matched
  have length := List.length_pos_of_ne_nil some
  have here : (digits ++ (blanks ++ (found.2 ++ after)))[back.length]? = Option.some d := by
    rw [← parts.split, List.getElem?_append_right (le_refl _), Nat.sub_self, ← starts,
      List.head?_eq_getElem?]
  by_contra beyond
  by_cases inside : back.length < digits.length
  · -- the character before the run would be a digit of the match
    have last : (digits ++ (blanks ++ (found.2 ++ after)))[back.length - 1]? = back.getLast? := by
      rw [← parts.split, List.getElem?_append_left (by omega), List.getLast?_eq_getElem?]
    rw [List.getElem?_append_left (by omega), List.getElem?_eq_getElem (by omega)] at last
    have stop := stopped _ last.symm
    rw [parts.digits _ (List.getElem_mem _)] at stop
    cases stop
  · -- the run would start within the blanks or the word of the match
    rw [List.getElem?_append_right (by omega), ← List.append_assoc, List.getElem?_append_left (by
      rw [List.length_append]
      omega)] at here
    have plain : isDecimal d = false := by
      rcases List.mem_append.mp (List.mem_of_getElem? here) with blank | letter
      · exact isDecimal_of_isBlank (parts.blanks d blank)
      · exact ((word_plain found.2 label).2 d letter).1
    rw [digit] at plain
    cases plain

/-- Every count of a text is found, with all of its digits. -/
theorem mem_of_counts {text digits label : List Char} (counts : Counts text digits label) :
    ∃ run found, (run ++ digits, found) ∈ findall countAt text ∧
      (found = passedWord ↔ label = passedWord) := by
  obtain ⟨before, blanks, after, rfl, some, digital, nonempty, blank, word⟩ := counts
  obtain ⟨front, run, rfl, runDigital, stopped⟩ := exists_run before
  have all : ∀ c ∈ run ++ digits, isDecimal c = true := by
    intro c member
    rcases List.mem_append.mp member with inRun | inDigits
    · exact runDigital c inRun
    · exact digital c inDigits
  have long : run ++ digits ≠ [] := fun none => some (List.append_eq_nil_iff.mp none).2
  have parts : Parts (run ++ digits ++ (blanks ++ (label ++ after))) (run ++ digits) blanks
      (label ++ after) := parts_of_count all blank nonempty word
  obtain ⟨found, tried⟩ : ∃ found,
      (countWords.find? fun w => w.isPrefixOf (label ++ after)) = Option.some found := by
    apply Option.isSome_iff_exists.mp
    rw [List.find?_isSome]
    exact ⟨label, word, List.isPrefixOf_iff_prefix.mpr (List.prefix_append label after)⟩
  have matched := parts.countAt_eq
  rw [if_neg (not_or.mpr ⟨long, nonempty⟩), tried, Option.map_some] at matched
  refine ⟨run, found, ?_, ?_⟩
  · have listed : (run ++ digits, found) ∈
        findall countAt (front ++ (run ++ digits ++ (blanks ++ (label ++ after)))) := by
      apply mem_findall _ matched
      · intro before' back split more other size matched'
        refine apart_of_run more ?_ ((List.head?_append_of_ne_nil _ long).trans
          (List.head?_eq_some_head long)) (all _ (List.head_mem long)) matched'
        rw [split, List.getLast?_append_of_ne_nil _ more] at stopped
        exact stopped
      · intro none
        exact long (List.append_eq_nil_iff.mp none).1
    simpa only [List.append_assoc] using listed
  · have front := List.find?_some tried
    exact passedWord_iff word (List.mem_of_find?_eq_some tried)
      (List.isPrefixOf_iff_prefix.mp front)

/-! ## What is added up -/

/-- The sums over what was found, of the passed counts and of the others. -/
def tally (found : List (List Char × List Char)) : Nat × Nat :=
  found.foldr (fun (count, label) (passed, failed) =>
    if label = passedWord then (valueOf count + passed, failed)
    else (passed, valueOf count + failed)) (0, 0)

/-- The counts of two texts are added. -/
theorem tally_append (first second : List (List Char × List Char)) :
    tally (first ++ second) =
      ((tally first).1 + (tally second).1, (tally first).2 + (tally second).2) := by
  induction first with
  | nil => simp [tally]
  | cons found first ih =>
    obtain ⟨count, label⟩ := found
    unfold tally at ih ⊢
    rw [List.cons_append, List.foldr_cons, List.foldr_cons, ih]
    dsimp only
    split
    · simp only [Nat.add_assoc]
    · simp only [Nat.add_assoc]

/-- The sum of the failed counts is zero when each of them is. -/
theorem tally_failed_eq_zero {found : List (List Char × List Char)} :
    (tally found).2 = 0 ↔ ∀ one ∈ found, one.2 ≠ passedWord → valueOf one.1 = 0 := by
  induction found with
  | nil => simp [tally]
  | cons one found ih =>
    obtain ⟨count, label⟩ := one
    rw [List.forall_mem_cons, ← ih]
    unfold tally
    rw [List.foldr_cons]
    dsimp only
    by_cases passed : label = passedWord
    · simp [passed]
    · simp [passed]

/-- Nothing passed if every number in front of `passed` is zero. -/
theorem tally_passed_eq_zero {found : List (List Char × List Char)} :
    (tally found).1 = 0 ↔ ∀ one ∈ found, one.2 = passedWord → valueOf one.1 = 0 := by
  induction found with
  | nil => simp [tally]
  | cons one found ih =>
    obtain ⟨count, label⟩ := one
    rw [List.forall_mem_cons, ← ih]
    unfold tally
    rw [List.foldr_cons]
    dsimp only
    by_cases passed : label = passedWord
    · simp [passed]
    · simp [passed]

/-- The loop of `parse_pytest_counts` from any sums on. -/
theorem foldlM_addCount (found : List (List Char × List Char)) (sums : Nat × Nat) :
    found.foldlM addCount sums =
      if ∀ one ∈ found, one.1.length ≤ maxStrDigits then
        .ok (sums.1 + (tally found).1, sums.2 + (tally found).2)
      else .error tooManyDigits := by
  induction found generalizing sums with
  | nil => rfl
  | cons one found ih =>
    obtain ⟨count, label⟩ := one
    rw [List.foldlM_cons]
    by_cases long : maxStrDigits < count.length
    · have refused : ¬∀ one ∈ (count, label) :: found, one.1.length ≤ maxStrDigits := by
        intro all
        exact Nat.not_le_of_lt long (all _ List.mem_cons_self)
      have raised : addCount sums (count, label) = .error tooManyDigits := by
        simp only [addCount, Python.int, if_pos long]
      rw [if_neg refused, raised]
      rfl
    · have short : count.length ≤ maxStrDigits := Nat.le_of_not_lt long
      have whole : (∀ one ∈ (count, label) :: found, one.1.length ≤ maxStrDigits) ↔
          ∀ one ∈ found, one.1.length ≤ maxStrDigits := by
        rw [List.forall_mem_cons]
        exact and_iff_right short
      by_cases passed : label = passedWord
      · have added : addCount sums (count, label) = .ok (sums.1 + valueOf count, sums.2) := by
          simp only [addCount, Python.int, if_neg long, if_pos passed]
        have sum : tally ((count, label) :: found) =
            (valueOf count + (tally found).1, (tally found).2) := if_pos passed
        rw [added, sum, if_congr whole rfl rfl, ← Nat.add_assoc]
        exact ih _
      · have added : addCount sums (count, label) = .ok (sums.1, sums.2 + valueOf count) := by
          simp only [addCount, Python.int, if_neg long, if_neg passed]
        have sum : tally ((count, label) :: found) =
            ((tally found).1, valueOf count + (tally found).2) := if_neg passed
        rw [added, sum, if_congr whole rfl rfl, ← Nat.add_assoc]
        exact ih _

/-- The counts of an output, if none of them is too long a number. -/
theorem parsePytestCounts_eq (output : List Char) :
    parsePytestCounts output =
      if ∀ one ∈ findall countAt output, one.1.length ≤ maxStrDigits then
        .ok (tally (findall countAt output))
      else .error tooManyDigits := by
  rw [parsePytestCounts, foldlM_addCount, Nat.zero_add, Nat.zero_add]

/-- No number of more than 4300 digits is counted in the text. -/
def Countable (text : List Char) : Prop :=
  ∀ digits label, Counts text digits label → digits.length ≤ maxStrDigits

/-- Counting raises only at a number that is too long for `int`. -/
theorem countable_iff {text : List Char} :
    Countable text ↔ ∀ one ∈ findall countAt text, one.1.length ≤ maxStrDigits := by
  constructor
  · intro countable one listed
    exact countable one.1 one.2 (counts_of_mem listed)
  · intro short digits label counts
    obtain ⟨run, found, listed, _⟩ := mem_of_counts counts
    have bound := short _ listed
    rw [List.length_append] at bound
    omega

theorem parsePytestCounts_of_countable {output : List Char} (countable : Countable output) :
    parsePytestCounts output = .ok (tally (findall countAt output)) := by
  rw [parsePytestCounts_eq, if_pos (countable_iff.mp countable)]

theorem parsePytestCounts_of_not_countable {output : List Char}
    (uncountable : ¬Countable output) : ∃ e, parsePytestCounts output = .error e := by
  rw [parsePytestCounts_eq, if_neg (fun short => uncountable (countable_iff.mpr short))]
  exact ⟨_, rfl⟩

/-- The failed count is zero when every number before a word of failure is. -/
theorem failed_eq_zero_iff {text : List Char} :
    (tally (findall countAt text)).2 = 0 ↔
      ∀ digits label, Counts text digits label → label ≠ passedWord → valueOf digits = 0 := by
  rw [tally_failed_eq_zero]
  constructor
  · intro zero digits label counts failure
    obtain ⟨run, found, listed, same⟩ := mem_of_counts counts
    have all := zero _ listed (mt same.mp failure)
    exact Nat.le_zero.mp (all ▸ valueOf_le_append run digits)
  · intro zero one listed failure
    exact zero one.1 one.2 (counts_of_mem listed) failure

/-- No test is counted as passed when each number in front of the word is zero. -/
theorem passed_eq_zero_iff {text : List Char} :
    (tally (findall countAt text)).1 = 0 ↔
      ∀ digits, Counts text digits passedWord → valueOf digits = 0 := by
  rw [tally_passed_eq_zero]
  constructor
  · intro zero digits counts
    obtain ⟨run, found, listed, same⟩ := mem_of_counts counts
    have all := zero _ listed (same.mpr rfl)
    exact Nat.le_zero.mp (all ▸ valueOf_le_append run digits)
  · intro zero one listed passed
    exact zero one.1 (passed ▸ counts_of_mem listed)

end Funnel

end KernelOmega
