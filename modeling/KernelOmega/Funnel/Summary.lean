import KernelOmega.Funnel.Counts
import Mathlib.Data.List.Find

/-!
# Counts and the summary line

The output of a test run is lines of any text and then pytest's summary, a list of
counts by label. `parse_pytest_counts` adds up the whole output, so it returns the
summary's counts exactly when the lines have no count of their own: one reported by the
program under test, or quoted in an assertion message, is added to them.
-/

namespace KernelOmega

open Python

-- A list is gone through before all of `Char` is.
attribute [local instance (high)] List.decidableBAll

namespace Funnel

/-- The labels of the pattern that reads pytest's summary. -/
inductive SummaryLabel where
  | passed
  | failed
  | error
  | errors
  | skipped
  | xfailed
  | xpassed
  | deselected
  | warning
  | warnings
  deriving DecidableEq

namespace SummaryLabel

/-- The label as pytest writes it. -/
def text : SummaryLabel → List Char
  | passed => "passed".toList
  | failed => "failed".toList
  | error => "error".toList
  | errors => "errors".toList
  | skipped => "skipped".toList
  | xfailed => "xfailed".toList
  | xpassed => "xpassed".toList
  | deselected => "deselected".toList
  | warning => "warning".toList
  | warnings => "warnings".toList

/-- The labels of tests that ran and did not pass. -/
def isFailure : SummaryLabel → Bool
  | failed | error | errors => true
  | _ => false

/-- The word the pattern finds in a label, if any: the singular of `errors`. -/
def found : SummaryLabel → Option (List Char)
  | passed => some "passed".toList
  | failed => some "failed".toList
  | error | errors => some "error".toList
  | _ => none

end SummaryLabel

/-- A count of the summary. -/
structure SummaryItem where
  count : Nat
  label : SummaryLabel
  deriving DecidableEq

def SummaryItem.text (item : SummaryItem) : List Char :=
  Nat.toDigits 10 item.count ++ (' ' :: item.label.text)

/-- A summary line: at least one count, and the seconds with two decimals. -/
structure Summary where
  first : SummaryItem
  others : List SummaryItem
  seconds : Nat
  hundredths : Fin 100
  deriving DecidableEq

namespace Summary

def items (summary : Summary) : List SummaryItem := summary.first :: summary.others

/-- What follows the counts: `" in S.SSs"`. -/
def duration (summary : Summary) : List Char :=
  " in ".toList ++ (Nat.toDigits 10 summary.seconds ++ (['.'] ++
    ([Nat.digitChar (summary.hundredths / 10), Nat.digitChar (summary.hundredths % 10)] ++ ['s'])))

/-- The rest of the line after a count. -/
def textAfter (duration : List Char) : List SummaryItem → List Char
  | [] => duration
  | item :: items => ", ".toList ++ (item.text ++ textAfter duration items)

def text (summary : Summary) : List Char :=
  summary.first.text ++ textAfter summary.duration summary.others

/-- The count of `passed` in the summary. -/
def passed (summary : Summary) : Nat :=
  ((summary.items.filter fun item => item.label = .passed).map SummaryItem.count).sum

/-- The counts of `failed`, `error` and `errors` in the summary. -/
def failed (summary : Summary) : Nat :=
  ((summary.items.filter fun item => item.label.isFailure).map SummaryItem.count).sum

end Summary

/-- Lines, each with its newline. -/
def linesText (lines : List (List Char)) : List Char := lines.flatMap (· ++ ['\n'])

/-! ## Scanning the summary -/

section Scanning

/-- Nothing is found before the first digit. -/
theorem findall_of_no_digit {part : List Char} (plain : ∀ c ∈ part, isDecimal c = false)
    (text : List Char) : findall countAt (part ++ text) = findall countAt text := by
  apply findall_of_quiet
  intro before after split nonempty
  apply countAt_of_stops
  apply Stops.append _ nonempty
  intro c head
  exact plain c (by rw [split]; exact List.mem_append_right _ (List.mem_of_mem_head? head))

/-- A number that no blank follows is not a count. -/
theorem findall_of_number {digits text : List Char} (digital : ∀ c ∈ digits, isDecimal c = true)
    (stops : Stops isDecimal text) (tight : Stops isBlank text) :
    findall countAt (digits ++ text) = findall countAt text := by
  apply findall_of_quiet
  intro before after split _
  have parts : Parts (after ++ text) after [] text :=
    { split := rfl
      digits := fun c member => digital c (by rw [split]; exact List.mem_append_right _ member)
      digitsStop := stops
      blanks := fun c none => absurd none List.not_mem_nil
      blanksStop := tight }
  rw [parts.countAt_eq, if_pos (.inr rfl)]

theorem toDigits_digital (n : Nat) : ∀ c ∈ Nat.toDigits 10 n, isDecimal c = true := fun _ member =>
  isDecimal_of_isDigit (Nat.isDigit_of_mem_toDigits (by decide) (by decide) member)

/-- No label has a digit or starts with a blank. -/
theorem label_plain (label : SummaryLabel) :
    label.text ≠ [] ∧ ∀ c ∈ label.text, isDecimal c = false ∧ isBlank c = false := by
  cases label <;> decide

/-- The parts the pattern splits an item into. -/
theorem parts_of_item {digits : List Char} (digital : ∀ c ∈ digits, isDecimal c = true)
    (label : SummaryLabel) (text : List Char) :
    Parts (digits ++ ([' '] ++ (label.text ++ text))) digits [' '] (label.text ++ text) where
  split := rfl
  digits := digital
  digitsStop := by
    intro c head
    rw [← Option.some.inj head]
    decide
  blanks := by decide
  blanksStop := by
    obtain ⟨nonempty, plain⟩ := label_plain label
    apply Stops.append _ nonempty
    intro c head
    exact (plain c (List.mem_of_mem_head? head)).2

/-- The word found in a label stands at its front. -/
theorem found_split {label : SummaryLabel} {word : List Char} (found : label.found = some word) :
    ∃ suffix, label.text = word ++ suffix ∧ ∀ c ∈ suffix, isDecimal c = false := by
  cases label with
  | passed => exact ⟨[], by rw [← Option.some.inj found]; rfl, by simp⟩
  | failed => exact ⟨[], by rw [← Option.some.inj found]; rfl, by simp⟩
  | error => exact ⟨[], by rw [← Option.some.inj found]; rfl, by simp⟩
  | errors => exact ⟨['s'], by rw [← Option.some.inj found]; rfl, by decide⟩
  | skipped => cases found
  | xfailed => cases found
  | xpassed => cases found
  | deselected => cases found
  | warning => cases found
  | warnings => cases found

/-- The alternatives tried on a label. -/
theorem find_label (label : SummaryLabel) (text : List Char) :
    (countWords.find? fun word => word.isPrefixOf (label.text ++ text)) = label.found := by
  cases label <;> rfl

/-- What the pattern finds in a count of the summary. -/
def itemFound (item : SummaryItem) : List (List Char × List Char) :=
  match item.label.found with
  | some word => [(Nat.toDigits 10 item.count, word)]
  | none => []

/-- The pattern finds the item at the front of a text, and goes on behind it. -/
theorem findall_item (item : SummaryItem) (text : List Char) :
    findall countAt (item.text ++ text) = itemFound item ++ findall countAt text := by
  have digital := toDigits_digital item.count
  have whole : item.text ++ text =
      Nat.toDigits 10 item.count ++ ([' '] ++ (item.label.text ++ text)) := by
    simp [SummaryItem.text]
  rw [whole, itemFound]
  cases found : item.label.found with
  | some word =>
    obtain ⟨suffix, split, plain⟩ := found_split found
    have matched := (parts_of_item digital item.label text).countAt_eq
    rw [find_label, found, if_neg (not_or.mpr ⟨Nat.toDigits_ne_nil, List.cons_ne_nil _ _⟩),
      Option.map_some] at matched
    -- the match ends with the word, a plural's last letter is stepped over
    have reach : Nat.toDigits 10 item.count ++ ([' '] ++ (item.label.text ++ text)) =
        (Nat.toDigits 10 item.count ++ ([' '] ++ word)) ++ (suffix ++ text) := by
      simp [split]
    have length : (Nat.toDigits 10 item.count ++ ([' '] ++ word)).length =
        (Nat.toDigits 10 item.count).length + [' '].length + word.length := by
      rw [List.length_append, List.length_append, Nat.add_assoc]
    rw [reach, ← length] at matched
    rw [reach, findall_of_match (by simp) matched, findall_of_no_digit plain]
    rfl
  | none =>
    have skipped : findall countAt
        (Nat.toDigits 10 item.count ++ ([' '] ++ (item.label.text ++ text))) =
          findall countAt ([' '] ++ (item.label.text ++ text)) := by
      apply findall_of_quiet
      intro before after split _
      have later : ∀ c ∈ after, isDecimal c = true := by
        intro c member
        apply digital
        rw [split]
        exact List.mem_append_right before member
      rw [(parts_of_item later item.label text).countAt_eq, find_label, found, Option.map_none, ite_self]
    rw [skipped, findall_of_no_digit (by decide),
      findall_of_no_digit fun c member => ((label_plain item.label).2 c member).1]
    rfl

/-- The duration at the end of the summary has a number in it and no label, so it counts for
nothing. -/
theorem findall_duration (summary : Summary) : findall countAt summary.duration = [] := by
  have tens : ∀ n < 10, isDecimal (Nat.digitChar n) = true := by decide
  have dot : Stops isDecimal ['.'] ∧ Stops isBlank ['.'] := by
    constructor
    · intro c head
      rw [← Option.some.inj head]
      decide
    · intro c head
      rw [← Option.some.inj head]
      decide
  have last : Stops isDecimal ['s'] ∧ Stops isBlank ['s'] := by
    constructor
    · intro c head
      rw [← Option.some.inj head]
      decide
    · intro c head
      rw [← Option.some.inj head]
      decide
  have decimals : ∀ c ∈ [Nat.digitChar (summary.hundredths / 10),
      Nat.digitChar (summary.hundredths % 10)], isDecimal c = true := by
    have bound := summary.hundredths.isLt
    intro c member
    rcases List.mem_cons.mp member with rfl | member
    · exact tens _ (by omega)
    · rw [List.mem_singleton.mp member]
      exact tens _ (by omega)
  rw [Summary.duration, findall_of_no_digit (by decide),
    findall_of_number (toDigits_digital _) (dot.1.append (by simp) _) (dot.2.append (by simp) _)]
  rw [findall_of_no_digit (by decide), findall_of_number decimals last.1 last.2]
  rfl

/-- The pattern finds the items of the summary, in their order. -/
theorem findall_summary (summary : Summary) :
    findall countAt summary.text = summary.items.flatMap itemFound := by
  have after : ∀ items, findall countAt (Summary.textAfter summary.duration items) =
      items.flatMap itemFound := by
    intro items
    induction items with
    | nil => exact findall_duration summary
    | cons item items ih =>
      rw [Summary.textAfter, findall_of_no_digit (by decide), findall_item, ih,
        List.flatMap_cons]
  rw [Summary.text, findall_item, after]
  rfl

/-- What is found in the summary adds up to its counts. -/
theorem tally_summary (summary : Summary) :
    tally (summary.items.flatMap itemFound) = (summary.passed, summary.failed) := by
  unfold Summary.passed Summary.failed
  induction summary.items with
  | nil => rfl
  | cons item items ih =>
    rw [List.flatMap_cons, tally_append, ih]
    obtain ⟨count, label⟩ := item
    have value := valueOf_toDigits count
    cases label <;> simp [itemFound, SummaryLabel.found, SummaryLabel.isFailure, tally,
      passedWord, value]

end Scanning

/-! ## Scanning the lines -/

section Lines

/-- A word is found in a text with a newline at its end as in the text with more behind it. -/
theorem isPrefixOf_append_of_newline {word text : List Char} (plain : '\n' ∉ word)
    (ends : text.getLast? = some '\n') (more : List Char) :
    word.isPrefixOf (text ++ more) = word.isPrefixOf text := by
  rw [Bool.eq_iff_iff, List.isPrefixOf_iff_prefix, List.isPrefixOf_iff_prefix]
  constructor
  · intro front
    rcases List.prefix_or_prefix_of_prefix front (List.prefix_append text more) with inside | around
    · exact inside
    · exact absurd (around.subset (List.mem_of_getLast? ends)) plain
  · intro front
    exact front.trans (List.prefix_append text more)

/-- What stands behind a newline changes no match before it, unless it goes on with a word. -/
theorem countAt_append {text more : List Char} (ends : text.getLast? = some '\n') {d : Char}
    (starts : more.head? = some d) (digit : isDecimal d = true) :
    countAt (text ++ more) = countAt text := by
  obtain ⟨digits, blanks, word, parts⟩ := exists_parts text
  have tail : more ≠ [] := by
    intro none
    rw [none] at starts
    cases starts
  -- the newline is no digit, so the digits end in the text
  have behind : blanks ++ word ≠ [] := by
    intro none
    have last := List.mem_of_getLast? ends
    rw [parts.split, none, List.append_nil] at last
    have newline := parts.digits _ last
    revert newline
    decide
  have stopsMore : Stops isBlank more := by
    intro c head
    rw [starts] at head
    rw [← Option.some.inj head]
    by_contra blank
    rw [isDecimal_of_isBlank (Bool.eq_true_of_not_eq_false blank)] at digit
    cases digit
  have whole : Parts (text ++ more) digits blanks (word ++ more) := by
    refine
      { split := ?_, digits := parts.digits, digitsStop := ?_, blanks := parts.blanks,
        blanksStop := ?_ }
    · rw [parts.split]
      simp only [List.append_assoc]
    · rw [← List.append_assoc]
      exact parts.digitsStop.append behind more
    · cases word with
      | nil => exact stopsMore
      | cons c word => exact parts.blanksStop.append (List.cons_ne_nil c word) more
  rw [whole.countAt_eq, parts.countAt_eq]
  -- the same words are tried with the same success
  have same : (countWords.find? fun label => label.isPrefixOf (word ++ more)) =
      countWords.find? fun label => label.isPrefixOf word := by
    by_cases exhausted : word = []
    · subst exhausted
      have none : ∀ label ∈ countWords, ¬label <+: more ∧ ¬label <+: [] := by
        intro label listed
        obtain ⟨nonempty, plain⟩ := word_plain label listed
        constructor
        · rintro ⟨rest, split⟩
          have head : label.head? = some d := by
            rw [← starts, ← split, List.head?_append_of_ne_nil label nonempty]
          rw [(plain d (List.mem_of_mem_head? head)).1] at digit
          cases digit
        · intro empty
          exact nonempty (List.prefix_nil.mp empty)
      rw [List.nil_append, List.find?_eq_none.mpr fun label listed front =>
          (none label listed).1 (List.isPrefixOf_iff_prefix.mp front),
        List.find?_eq_none.mpr fun label listed front =>
          (none label listed).2 (List.isPrefixOf_iff_prefix.mp front)]
    · have ends' : word.getLast? = some '\n' := by
        rw [parts.split, ← List.append_assoc, List.getLast?_append_of_ne_nil _ exhausted] at ends
        exact ends
      have plain : ∀ label ∈ countWords, '\n' ∉ label := by decide
      apply List.find?_congr
      intro label listed
      exact isPrefixOf_append_of_newline (plain label listed) ends' more
  rw [same]

theorem getLast?_linesText {lines : List (List Char)} (nonempty : linesText lines ≠ []) :
    (linesText lines).getLast? = some '\n' := by
  rcases List.eq_nil_or_concat lines with rfl | ⟨front, line, rfl⟩
  · exact absurd rfl nonempty
  · rw [linesText, List.concat_eq_append, List.flatMap_append, List.flatMap_singleton,
      ← List.append_assoc, List.getLast?_concat]

/-- The lines and the summary are scanned each for itself. -/
theorem findall_output (lines : List (List Char)) (summary : Summary) :
    findall countAt (linesText lines ++ summary.text) =
      findall countAt (linesText lines) ++ summary.items.flatMap itemFound := by
  rw [← findall_summary]
  apply findall_append
  intro before after split nonempty
  have some : Nat.toDigits 10 summary.first.count ≠ [] := Nat.toDigits_ne_nil
  have ends : after.getLast? = Option.some '\n' := by
    have lines' : linesText lines ≠ [] := by
      rw [split]
      exact List.append_ne_nil_of_right_ne_nil before nonempty
    have last := getLast?_linesText lines'
    rw [split, List.getLast?_append_of_ne_nil before nonempty] at last
    exact last
  have starts : summary.text.head? =
      Option.some ((Nat.toDigits 10 summary.first.count).head some) := by
    rw [Summary.text, SummaryItem.text, List.append_assoc,
      List.head?_append_of_ne_nil _ some, List.head?_eq_some_head some]
  constructor
  · exact countAt_append ends starts (toDigits_digital _ _ (List.head_mem some))
  · intro found taken matched
    exact taken_le matched

end Lines

/-! ## When the summary is what is counted -/

/-- The text has a count of its own: a number that is not zero, or too long for `int`, with
blanks and one of the words behind it. -/
def Spoils (text : List Char) : Prop :=
  ∃ digits label, Counts text digits label ∧
    (valueOf digits ≠ 0 ∨ maxStrDigits < digits.length)

/-- `int` takes the numbers of the summary that are counted. -/
def Summary.Short (summary : Summary) : Prop :=
  ∀ item ∈ summary.items, item.label = .passed ∨ item.label.isFailure = true →
    item.count < 10 ^ maxStrDigits

/-- A summary is short when every number the pattern finds in it is within the limit of `int`. -/
theorem short_iff (summary : Summary) :
    summary.Short ↔ ∀ one ∈ summary.items.flatMap itemFound, one.1.length ≤ maxStrDigits := by
  have counted : ∀ label : SummaryLabel,
      (label = .passed ∨ label.isFailure = true) ↔ label.found.isSome = true := by
    intro label
    cases label <;> decide
  have digits : ∀ item : SummaryItem, (Nat.toDigits 10 item.count).length ≤ maxStrDigits ↔
      item.count < 10 ^ maxStrDigits := fun item =>
    Nat.length_toDigits_le_iff (by decide) (by decide)
  constructor
  · intro short one listed
    obtain ⟨item, member, found⟩ := List.mem_flatMap.mp listed
    unfold itemFound at found
    split at found
    · next word is =>
      rw [List.mem_singleton.mp found]
      exact (digits item).mpr (short item member ((counted item.label).mpr (by rw [is]; rfl)))
    · exact absurd found List.not_mem_nil
  · intro short item member label
    obtain ⟨word, found⟩ := Option.isSome_iff_exists.mp ((counted item.label).mp label)
    apply (digits item).mp
    apply short (Nat.toDigits 10 item.count, word)
    apply List.mem_flatMap.mpr
    refine ⟨item, member, ?_⟩
    rw [itemFound, found]
    exact List.mem_singleton.mpr rfl

/-- A text without a count of its own has nothing to add up. -/
theorem not_spoils_iff {text : List Char} :
    ¬Spoils text ↔ Countable text ∧ tally (findall countAt text) = (0, 0) := by
  rw [Prod.ext_iff, passed_eq_zero_iff, failed_eq_zero_iff]
  constructor
  · intro clean
    have zero : ∀ digits label, Counts text digits label → valueOf digits = 0 := by
      intro digits label counts
      by_contra value
      exact clean ⟨digits, label, counts, .inl value⟩
    refine ⟨?_, fun digits counts => zero digits _ counts,
      fun digits label counts _ => zero digits label counts⟩
    intro digits label counts
    by_contra long
    exact clean ⟨digits, label, counts, .inr (Nat.lt_of_not_le long)⟩
  · rintro ⟨countable, passed, failed⟩ ⟨digits, label, counts, value | long⟩
    · by_cases same : label = passedWord
      · exact value (passed digits (same ▸ counts))
      · exact value (failed digits label counts same)
    · exact Nat.not_le_of_lt long (countable digits label counts)

end Funnel

open Funnel in
/-- The counts of an output are the summary's exactly when its lines have no count of their
own, and the numbers of the summary are not too long. -/
theorem counts_of_summary_iff (lines : List (List Char)) (summary : Summary) :
    parsePytestCounts (linesText lines ++ summary.text) = .ok (summary.passed, summary.failed) ↔
      ¬Spoils (linesText lines) ∧ summary.Short := by
  rw [parsePytestCounts_eq, findall_output, tally_append, tally_summary, not_spoils_iff,
    countable_iff, short_iff]
  simp only [List.forall_mem_append]
  constructor
  · intro returns
    split at returns
    · next short =>
      have sums := Except.ok.inj returns
      obtain ⟨passed, failed⟩ := Prod.mk.inj sums
      refine ⟨⟨short.1, ?_⟩, short.2⟩
      exact Prod.ext (Nat.add_eq_right.mp passed) (Nat.add_eq_right.mp failed)
    · cases returns
  · rintro ⟨⟨short, zero⟩, short'⟩
    rw [if_pos ⟨short, short'⟩, zero, Nat.zero_add, Nat.zero_add]

open Funnel in
/-- One failure, and an assertion message that speaks of two. -/
theorem not_counts_of_summary :
    ¬∀ (lines : List (List Char)) (summary : Summary),
      parsePytestCounts (linesText lines ++ summary.text) =
        .ok (summary.passed, summary.failed) := by
  intro holds
  have counts := holds ["E   assert 2 failed".toList]
    { first := { count := 1, label := .failed }, others := [], seconds := 0, hundredths := 1 }
  revert counts
  decide

end KernelOmega
