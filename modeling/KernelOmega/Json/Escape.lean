import KernelOmega.Python.Hex
import Mathlib.Data.Char

/-!
# Strings in JSON

A JSON string is written character by character between quotation marks. Writers differ in what
they escape: one keeps to printable ASCII and spells everything else by its code, another only
escapes what it must. One reader inverts both, so each writer's code of a character can be told
apart at the front of any text, and a quoted string from whatever follows it.
-/

namespace Json

/-- `\u` and four digits. -/
def codeUnit (n : Nat) : List Char :=
  ['\\', 'u', Hex.digit (n / 4096 % 16), Hex.digit (n / 256 % 16), Hex.digit (n / 16 % 16),
    Hex.digit (n % 16)]

/-- The characters with an escape of one letter. -/
def short : Char → Option Char
  | '"' => some '"'
  | '\\' => some '\\'
  | '\n' => some 'n'
  | '\r' => some 'r'
  | '\t' => some 't'
  | '\x0c' => some 'f'
  | '\x08' => some 'b'
  | _ => none

/-- What is left of printable ASCII stands for itself; the rest is spelled in UTF-16. -/
def escapeAscii (c : Char) : List Char :=
  match short c with
  | some letter => ['\\', letter]
  | none =>
    if 0x20 ≤ c.toNat ∧ c.toNat < 0x7f then [c]
    else if c.toNat < 0x10000 then codeUnit c.toNat
    else codeUnit (0xd800 + (c.toNat - 0x10000) / 0x400) ++
      codeUnit (0xdc00 + (c.toNat - 0x10000) % 0x400)

/-- Only quotation marks, backslashes and control characters are escaped. -/
def escapeMinimal (c : Char) : List Char :=
  match short c with
  | some letter => ['\\', letter]
  | none => if c.toNat < 0x20 then codeUnit c.toNat else [c]

/-! ## Reading -/

/-- Four hexadecimal digits. -/
def readUnit : List Char → Option (Nat × List Char)
  | a :: b :: c :: d :: rest => do
    let a ← Hex.value a
    let b ← Hex.value b
    let c ← Hex.value c
    let d ← Hex.value d
    return (a * 4096 + b * 256 + c * 16 + d, rest)
  | _ => none

/-- The second half of a surrogate pair. -/
def readLow (high : Nat) : List Char → Option (Char × List Char)
  | '\\' :: 'u' :: rest => do
    let low ← readUnit rest
    if 0xdc00 ≤ low.1 ∧ low.1 < 0xe000 then
      return (Char.ofNat (0x10000 + (high - 0xd800) * 0x400 + (low.1 - 0xdc00)), low.2)
    else none
  | _ => none

/-- The character a one-letter escape stands for. -/
def long : Char → Option Char
  | '"' => some '"'
  | '\\' => some '\\'
  | 'n' => some '\n'
  | 'r' => some '\r'
  | 't' => some '\t'
  | 'f' => some '\x0c'
  | 'b' => some '\x08'
  | _ => none

/-- The first character of a string, and the rest of the text; none at the closing mark. -/
def nextChar : List Char → Option (Char × List Char)
  | '\\' :: '/' :: rest => some ('/', rest)
  | '\\' :: 'u' :: rest => do
    let unit ← readUnit rest
    if 0xd800 ≤ unit.1 ∧ unit.1 < 0xdc00 then readLow unit.1 unit.2
    else if 0xdc00 ≤ unit.1 ∧ unit.1 < 0xe000 then none
    else return (Char.ofNat unit.1, unit.2)
  | '\\' :: letter :: rest => (long letter).map fun c => (c, rest)
  | '"' :: _ => none
  | c :: rest => if c.toNat < 0x20 then none else some (c, rest)
  | [] => none

/-- Four hexadecimal digits are read back. -/
theorem readUnit_codeUnit {n : Nat} (unit : n < 0x10000) (t : List Char) :
    readUnit ((codeUnit n).drop 2 ++ t) = some (n, t) := by
  have digits : ∀ k, Hex.value (Hex.digit (k % 16)) = some (k % 16) :=
    fun k => Hex.value_digit (Nat.mod_lt k (by decide))
  simp only [codeUnit, List.drop_succ_cons, List.drop_zero, List.cons_append, List.nil_append,
    readUnit, digits, Option.bind_eq_bind, Option.bind_some, Option.pure_def, Option.some.injEq,
    Prod.mk.injEq, and_true]
  omega

/-- An escaped unit outside of the surrogates is its character, -/
theorem nextChar_codeUnit {n : Nat} (unit : n < 0x10000) (t : List Char)
    (scalar : n < 0xd800 ∨ 0xdfff < n) :
    nextChar (codeUnit n ++ t) = some (Char.ofNat n, t) := by
  have reads := readUnit_codeUnit unit t
  simp only [codeUnit, List.drop_succ_cons, List.drop_zero, List.cons_append,
    List.nil_append] at reads
  simp only [codeUnit, List.cons_append, List.nil_append, nextChar]
  rw [reads, Option.bind_eq_bind, Option.bind_some, if_neg (by dsimp only; omega),
    if_neg (by dsimp only; omega)]
  rfl

/-- and two surrogates in a row are one. -/
theorem nextChar_pair {high low : Nat} (isHigh : 0xd800 ≤ high ∧ high < 0xdc00)
    (isLow : 0xdc00 ≤ low ∧ low < 0xe000) (t : List Char) :
    nextChar (codeUnit high ++ (codeUnit low ++ t)) =
      some (Char.ofNat (0x10000 + (high - 0xd800) * 0x400 + (low - 0xdc00)), t) := by
  have first := readUnit_codeUnit (n := high) (by omega) (codeUnit low ++ t)
  have second := readUnit_codeUnit (n := low) (by omega) t
  simp only [codeUnit, List.drop_succ_cons, List.drop_zero, List.cons_append,
    List.nil_append] at first second
  simp only [codeUnit, List.cons_append, List.nil_append, nextChar]
  rw [first, Option.bind_eq_bind, Option.bind_some, if_pos isHigh, readLow, second,
    Option.bind_eq_bind, Option.bind_some, if_pos isLow]
  rfl

theorem nextChar_short {c letter : Char} (escaped : short c = some letter) (t : List Char) :
    nextChar ('\\' :: letter :: t) = some (c, t) := by
  unfold short at escaped
  split at escaped <;> first
    | (obtain rfl := Option.some.inj escaped; rfl)
    | cases escaped

theorem ne_of_short_none {c : Char} (plain : short c = none) : c ≠ '\\' ∧ c ≠ '"' := by
  constructor
  · rintro rfl
    cases plain
  · rintro rfl
    cases plain

/-- A character that needs no escape is read as itself. -/
theorem nextChar_plain {c : Char} (plain : short c = none) (printable : 0x20 ≤ c.toNat)
    (t : List Char) : nextChar (c :: t) = some (c, t) := by
  obtain ⟨noBackslash, noQuote⟩ := ne_of_short_none plain
  unfold nextChar
  split
  · next same => exact absurd (List.cons.inj same).1 noBackslash
  · next same => exact absurd (List.cons.inj same).1 noBackslash
  · next same => exact absurd (List.cons.inj same).1 noBackslash
  · next same => exact absurd (List.cons.inj same).1 noQuote
  · next same =>
    obtain ⟨rfl, rfl⟩ := List.cons.inj same
    exact if_neg (by omega)
  · next same => cases same

theorem scalar (c : Char) : c.toNat < 0xd800 ∨ 0xdfff < c.toNat ∧ c.toNat < 0x110000 := c.valid

/-- A character escaped to ASCII is read back, as two units when it is beyond the first plane. -/
theorem nextChar_escapeAscii (c : Char) (t : List Char) :
    nextChar (escapeAscii c ++ t) = some (c, t) := by
  have valid := scalar c
  unfold escapeAscii
  split
  · next letter escaped => exact nextChar_short escaped t
  · next plain =>
    split
    · next printable => exact nextChar_plain plain printable.1 t
    · split
      · next unit => rw [nextChar_codeUnit unit t (by omega), Char.ofNat_toNat]
      · next astral =>
        have whole : 0x10000 + (0xd800 + (c.toNat - 0x10000) / 0x400 - 0xd800) * 0x400 +
            (0xdc00 + (c.toNat - 0x10000) % 0x400 - 0xdc00) = c.toNat := by
          omega
        rw [List.append_assoc, nextChar_pair (by omega) (by omega), whole, Char.ofNat_toNat]

/-- A character is read back from the escapes JSON cannot do without. -/
theorem nextChar_escapeMinimal (c : Char) (t : List Char) :
    nextChar (escapeMinimal c ++ t) = some (c, t) := by
  unfold escapeMinimal
  split
  · next letter escaped => exact nextChar_short escaped t
  · next plain =>
    split
    · next control => rw [nextChar_codeUnit (by omega) t (by omega), Char.ofNat_toNat]
    · next printable => exact nextChar_plain plain (by omega) t

/-! ## What the writers share -/

/-- A way to escape that the reader inverts. -/
structure Escaping where
  escape : Char → List Char
  read : ∀ c t, nextChar (escape c ++ t) = some (c, t)

def ascii : Escaping := ⟨escapeAscii, nextChar_escapeAscii⟩

def minimal : Escaping := ⟨escapeMinimal, nextChar_escapeMinimal⟩

namespace Escaping

variable (e : Escaping)

/-- A string between quotation marks. -/
def quote (s : List Char) : List Char := '"' :: (s.flatMap e.escape ++ ['"'])

/-- Two quoted strings with something behind them are the same texts only when both parts are. -/
theorem quote_append_inj {s s' t t' : List Char} (same : e.quote s ++ t = e.quote s' ++ t') :
    s = s' ∧ t = t' := by
  have closing : ∀ c u u', e.escape c ++ u ≠ '"' :: u' := by
    intro c u u' same
    have reads := e.read c u
    rw [same] at reads
    cases reads
  have inside : ∀ s s' : List Char, s.flatMap e.escape ++ '"' :: t = s'.flatMap e.escape ++ '"' :: t' →
      s = s' ∧ t = t' := by
    intro s
    induction s with
    | nil =>
      intro s' same
      cases s' with
      | nil => exact ⟨rfl, (List.cons.inj same).2⟩
      | cons c rest =>
        rw [List.flatMap_cons, List.append_assoc] at same
        exact absurd same.symm (closing c _ _)
    | cons c rest ih =>
      intro s' same
      rw [List.flatMap_cons, List.append_assoc] at same
      cases s' with
      | nil => exact absurd same (closing c _ _)
      | cons d rest' =>
        rw [List.flatMap_cons, List.append_assoc] at same
        have reads := e.read c (rest.flatMap e.escape ++ '"' :: t)
        rw [same, e.read d] at reads
        obtain ⟨rfl, behind⟩ := Prod.mk.inj (Option.some.inj reads)
        obtain ⟨rfl, rfl⟩ := ih rest' behind.symm
        exact ⟨rfl, rfl⟩
  refine inside s s' ?_
  simpa only [quote, List.cons_append, List.append_assoc, List.nil_append, List.cons.injEq,
    true_and] using same

end Escaping

/-- The writers agree on every character below DEL. -/
theorem escapeAscii_eq_escapeMinimal {c : Char} (low : c.toNat < 0x7f) :
    escapeAscii c = escapeMinimal c := by
  unfold escapeAscii escapeMinimal
  split
  · rfl
  · split
    · next printable => rw [if_neg (by omega)]
    · next control => rw [if_pos (by omega), if_pos (by omega)]

theorem toNat_digit_lt (n : Nat) : (Hex.digit n).toNat < 0x7f := by
  have all : Hex.digits.all (fun d => decide (d.toNat < 0x7f)) = true := by decide
  exact of_decide_eq_true (List.all_eq_true.mp all _ (Hex.digit_mem n))

/-- An escape is ASCII. -/
theorem toNat_codeUnit_lt (n : Nat) : ∀ d ∈ codeUnit n, d.toNat < 0x7f := by
  intro d mem
  simp only [codeUnit, List.mem_cons, List.not_mem_nil, or_false] at mem
  rcases mem with rfl | rfl | rfl | rfl | rfl | rfl
  · decide
  · decide
  all_goals exact toNat_digit_lt _

/-- Whatever is escaped to ASCII has no DEL and nothing above it. -/
theorem toNat_escapeAscii_lt (c : Char) : ∀ d ∈ escapeAscii c, d.toNat < 0x7f := by
  unfold escapeAscii
  split
  · next letter escaped =>
    intro d mem
    simp only [List.mem_cons, List.not_mem_nil, or_false] at mem
    rcases mem with rfl | rfl
    · decide
    · unfold short at escaped
      split at escaped <;> first
        | (obtain rfl := Option.some.inj escaped; decide)
        | cases escaped
  · split
    · next printable =>
      intro d mem
      rw [List.mem_singleton.mp mem]
      exact printable.2
    · split
      · exact toNat_codeUnit_lt _
      · intro d mem
        rcases List.mem_append.mp mem with mem | mem
        · exact toNat_codeUnit_lt _ d mem
        · exact toNat_codeUnit_lt _ d mem

/-- From DEL on, a character that need not be escaped is left as it is. -/
theorem escapeMinimal_of_le {c : Char} (high : 0x7f ≤ c.toNat) : escapeMinimal c = [c] := by
  have plain : short c = none := by
    unfold short
    split <;> first
      | rfl
      | exact absurd high (by decide)
  rw [escapeMinimal, plain]
  exact if_neg (by omega)

/-! ## Numbers -/

/-- An integer in decimal. -/
def decimal : Int → List Char
  | .ofNat n => Nat.toDigits 10 n
  | .negSucc n => '-' :: Nat.toDigits 10 (n + 1)

/-- A text that does not go on with a digit. -/
def Ends (t : List Char) : Prop := ∀ c, t.head? = some c → c.isDigit = false

/-- The digits of a number are read back from the front of a text that goes on with no digit. -/
theorem toDigits_append_inj {m n : Nat} {t t' : List Char} (ends : Ends t) (ends' : Ends t')
    (same : Nat.toDigits 10 m ++ t = Nat.toDigits 10 n ++ t') : m = n ∧ t = t' := by
  have digits : ∀ k, ∀ c ∈ Nat.toDigits 10 k, c.isDigit = true :=
    fun k c mem => Nat.isDigit_of_mem_toDigits (by decide) (by decide) mem
  have taken : ∀ k u, Ends u → (Nat.toDigits 10 k ++ u).takeWhile Char.isDigit = Nat.toDigits 10 k := by
    intro k u ends
    rw [List.takeWhile_append_of_pos (digits k)]
    cases u with
    | nil => rw [List.takeWhile_nil, List.append_nil]
    | cons c rest =>
      rw [List.takeWhile_cons_of_neg (by rw [ends c rfl]; exact Bool.false_ne_true),
        List.append_nil]
  have front := congrArg (List.takeWhile Char.isDigit) same
  rw [taken m t ends, taken n t' ends'] at front
  rw [front] at same
  refine ⟨?_, List.append_cancel_left same⟩
  rw [← Nat.ofDigitChars_toDigits (b := 10) (n := m) (by decide) (by decide), front,
    Nat.ofDigitChars_toDigits (by decide) (by decide)]

/-- A number is read back from the front of a text: a sign or a digit ends no number. -/
theorem decimal_append_inj {m n : Int} {t t' : List Char} (ends : Ends t) (ends' : Ends t')
    (same : decimal m ++ t = decimal n ++ t') : m = n ∧ t = t' := by
  have sign : ∀ k l u u', Nat.toDigits 10 k ++ u ≠ '-' :: Nat.toDigits 10 l ++ u' := by
    intro k l u u' same
    cases digits : Nat.toDigits 10 k with
    | nil => exact absurd digits Nat.toDigits_ne_nil
    | cons c rest =>
      rw [digits] at same
      have isDigit := Nat.isDigit_of_mem_toDigits (b := 10) (n := k) (c := c) (by decide)
        (by decide) (by rw [digits]; exact List.mem_cons_self)
      rw [(List.cons.inj same).1] at isDigit
      exact absurd isDigit (by decide)
  cases m with
  | ofNat m =>
    cases n with
    | ofNat n =>
      obtain ⟨rfl, behind⟩ := toDigits_append_inj ends ends' same
      exact ⟨rfl, behind⟩
    | negSucc n => exact absurd same (sign m (n + 1) t t')
  | negSucc m =>
    cases n with
    | ofNat n => exact absurd same.symm (sign n (m + 1) t' t)
    | negSucc n =>
      obtain ⟨number, behind⟩ := toDigits_append_inj ends ends' (List.cons.inj same).2
      exact ⟨congrArg Int.negSucc (Nat.succ.inj number), behind⟩

end Json
