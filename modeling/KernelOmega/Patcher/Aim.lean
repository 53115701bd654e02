import KernelOmega.Patcher.Targeted
import Mathlib.Data.List.DropRight
import Mathlib.Tactic.IntervalCases

/-!
# Where a swap lands

A text with an operator swapped tells which operator that was: an operator token has no operator
character next to it, so writing another operator over any other characters gives another text.
-/

namespace KernelOmega

open Python

-- What is there is gone through before all of `Char` is.
attribute [local instance (high)] List.decidableBAll Option.decidableForallMem

/-- The characters operators are written with. -/
def isOperatorChar (c : Char) : Bool := c = '<' || c = '>' || c = '=' || c = '!'

theorem operatorTokens_chars (op : Comparison) :
    ∀ c ∈ (operatorTokens op).toList, isOperatorChar c = true := by
  cases op <;> decide

/-- The token stands alone: no operator character is next to it. -/
def Alone (s : Spliced) : Prop :=
  (∀ c ∈ s.before.getLast?, isOperatorChar c = false) ∧
    ∀ c ∈ s.after.head?, isOperatorChar c = false

instance (s : Spliced) : Decidable (Alone s) := inferInstanceAs (Decidable (_ ∧ _))

/-- The operator characters at the end of a text that goes on with some. -/
theorem trailing {front token : List Char} (plain : ∀ c ∈ front.getLast?, isOperatorChar c = false)
    (chars : ∀ c ∈ token, isOperatorChar c = true) :
    (front ++ token).rtakeWhile isOperatorChar = token := by
  have nothing : front.reverse.takeWhile isOperatorChar = [] := by
    rw [List.takeWhile_eq_nil_iff]
    intro proper op
    rw [List.get_eq_getElem, List.getElem_zero, List.head_reverse] at op
    have last := plain _ (List.getLast_mem_getLast? (List.reverse_ne_nil_iff.mp
      (List.ne_nil_of_length_pos proper)))
    rw [last] at op
    cases op
  rw [List.rtakeWhile, List.reverse_append, List.takeWhile_append_of_pos
    fun c mem => chars c (List.mem_reverse.mp mem), nothing, List.append_nil, List.reverse_reverse]

/-- The operator characters at the front of a text that goes on with something else. -/
theorem leading {token back : List Char} {c : Char} (plain : isOperatorChar c = false)
    (chars : ∀ c ∈ token, isOperatorChar c = true) :
    (token ++ c :: back).takeWhile isOperatorChar = token := by
  rw [List.takeWhile_append_of_pos chars, List.takeWhile_cons_of_neg (by simp [plain]),
    List.append_nil]

/-- A text that ends plainly does so behind any front. -/
theorem getLast?_append_plain {front back : List Char}
    (plain : ∀ c ∈ (front ++ back).getLast?, isOperatorChar c = false) :
    ∀ c ∈ back.getLast?, isOperatorChar c = false := by
  intro c last
  refine plain c ?_
  rw [List.getLast?_append]
  exact Option.mem_def.mpr (by rw [Option.mem_def.mp last]; rfl)

/-! ## Two operators written into one text -/

/-- What an operator and its swap end with in common, and what is before that. -/
theorem swap_ends (op op' : Comparison) {k : Nat}
    (bound : k ≤ (operatorTokens (swapped op')).toList.length)
    (front : (operatorTokens (swapped op)).toList <:+ (operatorTokens (swapped op')).toList.take k)
    (back : (operatorTokens (swapped op')).toList.drop k <:+ (operatorTokens op').toList) :
    op = op' ∧ k = (operatorTokens (swapped op')).toList.length := by
  have small : k ≤ 2 := bound.trans (by cases op' <;> decide)
  revert bound front back
  cases op <;> cases op' <;> interval_cases k <;> decide

theorem swap_not_suffix (op : Comparison) :
    ¬(operatorTokens op).toList <:+ (operatorTokens (swapped op)).toList ∧
      ¬(operatorTokens (swapped op)).toList <:+ (operatorTokens op).toList := by
  cases op <;> decide

theorem tokens_ne (op : Comparison) :
    (operatorTokens (swapped op)).toList ≠ (operatorTokens op).toList :=
  fun same => swapped_ne op (operatorTokens_injective (String.toList_inj.mp same))

section Written

variable {s s' : Spliced} {op op' : Comparison}

/-- The other characters end inside the token, or before it. -/
theorem written_before {front cut behind before : List Char}
    (plain : ∀ c ∈ before.getLast?, isOperatorChar c = false)
    (same : front ++ cut ++ behind = before ++ (operatorTokens op').toList)
    (written : front ++ (operatorTokens (swapped op)).toList ++ behind =
      before ++ (operatorTokens (swapped op')).toList) :
    front = before ∧ cut = (operatorTokens op').toList ∧ behind = [] ∧ op = op' := by
  have chars := operatorTokens_chars op'
  have chars' := operatorTokens_chars (swapped op')
  rcases List.append_eq_append_iff.mp same with ⟨between, split, whole⟩ | ⟨inner, split, whole⟩ <;>
    rcases List.append_eq_append_iff.mp written with ⟨between', split', whole'⟩ | ⟨inner', split', whole'⟩
  · have ends := trailing (getLast?_append_plain (split ▸ plain)) chars
    have ends' := trailing (getLast?_append_plain (split' ▸ plain)) chars'
    rw [← whole] at ends
    rw [← whole', ends] at ends'
    exact absurd ends'.symm (tokens_ne op')
  · have ends := trailing (getLast?_append_plain (split ▸ plain)) chars
    have inside : behind.rtakeWhile isOperatorChar = behind :=
      List.rtakeWhile_eq_self_iff.mpr fun c mem =>
        chars' c (whole' ▸ List.mem_append_right inner' mem)
    rw [← whole, inside] at ends
    exact absurd ⟨inner', ends ▸ whole'.symm⟩ (swap_not_suffix op').1
  · have ends := trailing (getLast?_append_plain (split' ▸ plain)) chars'
    have inside : behind.rtakeWhile isOperatorChar = behind :=
      List.rtakeWhile_eq_self_iff.mpr fun c mem =>
        chars c (whole ▸ List.mem_append_right inner mem)
    rw [← whole', inside] at ends
    exact absurd ⟨inner, ends ▸ whole.symm⟩ (swap_not_suffix op').2
  · -- Both end inside: what is written ends with what the swap of the token has before the rest.
    have ends := trailing plain fun c mem => chars' c (whole' ▸ List.mem_append_left behind mem)
    have suffix : (operatorTokens (swapped op)).toList <:+ inner' := by
      rw [← ends, ← split', List.rtakeWhile, List.reverse_append, List.takeWhile_append_of_pos
        fun c mem => operatorTokens_chars (swapped op) c (List.mem_reverse.mp mem),
        List.reverse_append, List.reverse_reverse]
      exact List.suffix_append _ _
    have lengths := congrArg List.length whole'
    rw [List.length_append] at lengths
    have taken : (operatorTokens (swapped op')).toList.take inner'.length = inner' := by
      rw [whole', List.take_left]
    have dropped : (operatorTokens (swapped op')).toList.drop inner'.length = behind := by
      rw [whole', List.drop_left]
    obtain ⟨rfl, all⟩ := swap_ends op op' (lengths ▸ Nat.le_add_right _ _) (taken.symm ▸ suffix)
      (dropped.symm ▸ ⟨inner, whole.symm⟩)
    have none : behind = [] := List.eq_nil_of_length_eq_zero (by omega)
    subst none
    rw [List.append_nil] at whole whole'
    rw [← whole'] at split'
    have fronts := List.append_cancel_right split'
    subst fronts
    exact ⟨rfl, whole ▸ List.append_cancel_left split, rfl, rfl⟩

/-- Writing another operator elsewhere gives another text. -/
theorem eq_of_written (alone : Alone s') (isOp : s'.token = (operatorTokens op').toList)
    (same : s.text = s'.text)
    (written : (s.replace (operatorTokens (swapped op)).toList).text =
      (s'.replace (operatorTokens (swapped op')).toList).text) : s = s' ∧ op = op' := by
  obtain ⟨before, token, after⟩ := s'
  obtain ⟨front, cut, behind⟩ := s
  obtain rfl : token = (operatorTokens op').toList := isOp
  obtain ⟨plain, plain'⟩ := alone
  have same : front ++ cut ++ behind = before ++ (operatorTokens op').toList ++ after := same
  have written : front ++ (operatorTokens (swapped op)).toList ++ behind =
    before ++ (operatorTokens (swapped op')).toList ++ after := written
  have suffix : behind <:+ after ∨ after <:+ behind :=
    List.suffix_or_suffix_of_suffix ⟨_, same⟩ (List.suffix_append _ _)
  rcases suffix with ⟨between, rfl⟩ | ⟨between, rfl⟩
  · cases between with
    | nil =>
      obtain ⟨rfl, rfl, -, rfl⟩ := @written_before op op' front cut [] before plain
        (by rw [List.append_nil]; exact List.append_cancel_right same)
        (by rw [List.append_nil]; exact List.append_cancel_right written)
      exact ⟨rfl, rfl⟩
    | cons c between =>
      -- The other operator stands behind the token, and behind the character next to it.
      have next : isOperatorChar c = false := plain' c rfl
      rw [← List.append_assoc, List.append_cancel_right_eq] at same written
      have there : c ∈ (operatorTokens (swapped op)).toList → False := by
        intro mem
        rw [operatorTokens_chars (swapped op) c mem] at next
        cases next
      rcases List.append_eq_append_iff.mp written with ⟨inner, -, whole⟩ | ⟨inner, split, whole⟩
      · exact (there (whole ▸ List.mem_append_right inner List.mem_cons_self)).elim
      · cases inner with
        | nil =>
          rw [List.nil_append] at whole
          exact (there (whole ▸ List.mem_cons_self)).elim
        | cons d inner =>
          obtain ⟨rfl, -⟩ := List.cons.inj whole
          rw [split, List.append_assoc, List.append_assoc, List.append_assoc,
            List.append_cancel_left_eq, List.cons_append] at same
          have heads := congrArg (List.takeWhile isOperatorChar) same
          rw [leading next (operatorTokens_chars (swapped op')), leading next (operatorTokens_chars op')]
            at heads
          exact absurd heads (tokens_ne op')
  · rw [← List.append_assoc, List.append_cancel_right_eq] at same written
    obtain ⟨rfl, rfl, rfl, rfl⟩ := written_before plain same written
    exact ⟨rfl, rfl⟩

end Written

end KernelOmega
