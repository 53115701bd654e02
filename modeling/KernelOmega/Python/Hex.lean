import Mathlib.Data.List.GetD

/-!
# Hexadecimal digits

The lower-case digits, as digests and the escapes of JSON are written with.
-/

namespace Hex

def digits : List Char := "0123456789abcdef".toList

/-- The digit of a number below sixteen. -/
def digit (n : Nat) : Char := digits.getD n '0'

theorem digit_mem (n : Nat) : digit n ∈ digits := by
  by_cases inside : n < digits.length
  · rw [digit, List.getD_eq_getElem _ _ inside]
    exact List.getElem_mem inside
  · rw [digit, List.getD_eq_default _ _ (Nat.le_of_not_lt inside)]
    decide

theorem digit_inj {m n : Nat} (hm : m < 16) (hn : n < 16) (same : digit m = digit n) : m = n := by
  have all : ∀ a < 16, ∀ b < 16, digit a = digit b → a = b := by decide
  exact all m hm n hn same

/-- The number of a digit of either case. -/
def value (c : Char) : Option Nat := digits.idxOf? c.toLower

theorem value_digit {n : Nat} (small : n < 16) : value (digit n) = some n := by
  have all : ∀ n < 16, value (digit n) = some n := by decide
  exact all n small

end Hex
