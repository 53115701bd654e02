import KernelOmega.Contracts
import Mathlib.Data.List.DropRight
import Mathlib.Tactic.Ring

/-!
# Digits and spaces

What `\d` and `\s` match in a pattern over text, what `str.strip` takes off, and what
`int` makes of a run of digits: the decimal digits (category `Nd`) and the whitespace
of Unicode 14, which Python 3.11 carries. Every script's digits stand in a row from zero
to nine, so the table lists the zeros.
-/

namespace KernelOmega

/-- The characters `str.strip` takes for blanks. -/
def isBlank (c : Char) : Bool :=
  let n := c.toNat
  decide ((9 ≤ n ∧ n ≤ 13) ∨ (28 ≤ n ∧ n ≤ 32) ∨ n = 0x85 ∨ n = 0xA0 ∨ n = 0x1680 ∨
    (0x2000 ≤ n ∧ n ≤ 0x200A) ∨ n = 0x2028 ∨ n = 0x2029 ∨ n = 0x202F ∨ n = 0x205F ∨ n = 0x3000)

/-- `text.strip()` -/
def strip (text : List Char) : List Char := (text.dropWhile isBlank).rdropWhile isBlank

end KernelOmega

namespace Python

open KernelOmega (isBlank)

/-- The code points of the digits zero. -/
def decimalZeros : List Nat :=
  [0x30, 0x660, 0x6f0, 0x7c0, 0x966, 0x9e6, 0xa66, 0xae6, 0xb66, 0xbe6, 0xc66, 0xce6, 0xd66,
    0xde6, 0xe50, 0xed0, 0xf20, 0x1040, 0x1090, 0x17e0, 0x1810, 0x1946, 0x19d0, 0x1a80, 0x1a90,
    0x1b50, 0x1bb0, 0x1c40, 0x1c50, 0xa620, 0xa8d0, 0xa900, 0xa9d0, 0xa9f0, 0xaa50, 0xabf0,
    0xff10, 0x104a0, 0x10d30, 0x11066, 0x110f0, 0x11136, 0x111d0, 0x112f0, 0x11450, 0x114d0,
    0x11650, 0x116c0, 0x11730, 0x118e0, 0x11950, 0x11c50, 0x11d50, 0x11da0, 0x16a60, 0x16ac0,
    0x16b50, 0x1d7ce, 0x1d7d8, 0x1d7e2, 0x1d7ec, 0x1d7f6, 0x1e140, 0x1e2f0, 0x1e950, 0x1fbf0]

/-- `unicodedata.decimal`, on a code point. -/
def decimalOf (code : Nat) : Option Nat :=
  decimalZeros.findSome? fun start =>
    if start ≤ code ∧ code < start + 10 then some (code - start) else none

def decimalValue (c : Char) : Nat := (decimalOf c.toNat).getD 0

/-- `\d` -/
def isDecimal (c : Char) : Bool := (decimalOf c.toNat).isSome

/-- No blank is a digit. -/
theorem isDecimal_of_isBlank {c : Char} (blank : isBlank c = true) : isDecimal c = false := by
  have apart : ∀ start ∈ decimalZeros, ∀ k < 10, ¬((9 ≤ start + k ∧ start + k ≤ 13) ∨
      (28 ≤ start + k ∧ start + k ≤ 32) ∨ start + k = 0x85 ∨ start + k = 0xA0 ∨
      start + k = 0x1680 ∨ (0x2000 ≤ start + k ∧ start + k ≤ 0x200A) ∨ start + k = 0x2028 ∨
      start + k = 0x2029 ∨ start + k = 0x202F ∨ start + k = 0x205F ∨ start + k = 0x3000) := by
    decide
  by_contra digit
  rw [Bool.not_eq_false, isDecimal, decimalOf, List.isSome_findSome?] at digit
  obtain ⟨start, listed, inside⟩ := List.any_eq_true.mp digit
  split at inside
  · next bounds =>
    have code : start + (c.toNat - start) = c.toNat := by omega
    have away := apart start listed (c.toNat - start) (by omega)
    rw [code] at away
    exact away (of_decide_eq_true blank)
  · cases inside

/-- The digits of ASCII are digits, and have their values. -/
theorem decimalOf_ascii {c : Char} (digit : c.isDigit = true) :
    decimalOf c.toNat = some (c.toNat - 48) := by
  have bounds : 48 ≤ c.toNat ∧ c.toNat < 58 := by
    simp only [Char.isDigit, Bool.and_eq_true, decide_eq_true_eq] at digit
    have low := UInt32.le_iff_toNat_le.mp digit.1
    have high := UInt32.le_iff_toNat_le.mp digit.2
    exact ⟨low, Nat.lt_succ_of_le high⟩
  rw [decimalOf, decimalZeros, List.findSome?_cons, if_pos bounds]

theorem isDecimal_of_isDigit {c : Char} (digit : c.isDigit = true) : isDecimal c = true := by
  rw [isDecimal, decimalOf_ascii digit]
  rfl

theorem decimalValue_of_isDigit {c : Char} (digit : c.isDigit = true) :
    decimalValue c = c.toNat - 48 := by
  rw [decimalValue, decimalOf_ascii digit]
  rfl

/-! ## Integers -/

/-- The value of a run of digits. -/
def valueOf (digits : List Char) : Nat := digits.foldl (fun n c => 10 * n + decimalValue c) 0

/-- `sys.get_int_max_str_digits()`, its default. -/
def maxStrDigits : Nat := 4300

def tooManyDigits : KernelOmega.PyError :=
  .valueError "Exceeds the limit (4300 digits) for integer string conversion"

/-- `int` of a run of digits: more than the limit are refused, leading zeros counted. -/
def int (digits : List Char) : Except KernelOmega.PyError Nat :=
  if maxStrDigits < digits.length then .error tooManyDigits else .ok (valueOf digits)

/-- The value of digits put one behind the other. -/
theorem valueOf_append (digits more : List Char) :
    valueOf (digits ++ more) = valueOf digits * 10 ^ more.length + valueOf more := by
  suffices general : ∀ (text : List Char) (n : Nat),
      text.foldl (fun n c => 10 * n + decimalValue c) n = n * 10 ^ text.length + valueOf text by
    rw [valueOf, List.foldl_append, general]
    rfl
  intro text
  induction text with
  | nil => intro n; simp [valueOf]
  | cons c text ih =>
    intro n
    have here : valueOf (c :: text) = decimalValue c * 10 ^ text.length + valueOf text := by
      rw [valueOf, List.foldl_cons, Nat.mul_zero, Nat.zero_add, ih]
    rw [List.foldl_cons, ih, here, List.length_cons, Nat.pow_succ]
    ring

/-- Digits in front do not make the value smaller. -/
theorem valueOf_le_append (digits more : List Char) : valueOf more ≤ valueOf (digits ++ more) := by
  rw [valueOf_append]
  exact Nat.le_add_left _ _

/-- The decimal digits of a number have its value. -/
theorem valueOf_toDigits (n : Nat) : valueOf (Nat.toDigits 10 n) = n := by
  have read : ∀ (digits : List Char) (start : Nat), (∀ c ∈ digits, c.isDigit = true) →
      digits.foldl (fun n c => 10 * n + decimalValue c) start =
        Nat.ofDigitChars 10 digits start := by
    intro digits
    induction digits with
    | nil => intro start _; rfl
    | cons c digits ih =>
      intro start ascii
      have here := decimalValue_of_isDigit (ascii c List.mem_cons_self)
      rw [List.foldl_cons, ih _ fun c member => ascii c (List.mem_cons_of_mem _ member), here]
      rfl
  have ascii : ∀ c ∈ Nat.toDigits 10 n, c.isDigit = true := fun c member =>
    Nat.isDigit_of_mem_toDigits (by decide) (by decide) member
  rw [valueOf, read _ 0 ascii, Nat.ofDigitChars_ten_toDigits]

end Python
