import Mathlib.Data.List.Basic

/-!
# Base64

`base64.b64encode` and `base64.b64decode` as CPython has them. The decoder is the lenient one: it
skips every character outside the alphabet, stops at the padding that completes a group of four,
and fails on text that is not ASCII or ends inside a group. What was encoded is decoded again.
-/

namespace Python

/-- What `b64decode` raises: a `ValueError`, or `binascii.Error`, which is one. -/
inductive Base64Error where
  | nonAscii
  | oneDataCharacter (characters : Nat)
  | incorrectPadding
  deriving DecidableEq

/-- The texts of the `binascii.Error`s. -/
def Base64Error.message : Base64Error → String
  | .nonAscii => "string argument should contain only ASCII characters"
  | .oneDataCharacter characters =>
    "Invalid base64-encoded string: number of data characters (" ++ toString characters ++
      ") cannot be 1 more than a multiple of 4"
  | .incorrectPadding => "Incorrect padding"

def base64Alphabet : List Char :=
  "ABCDEFGHIJKLMNOPQRSTUVWXYZabcdefghijklmnopqrstuvwxyz0123456789+/".toList

/-- The six bits a character of the alphabet stands for. -/
def base64Value (c : Char) : Option Nat := base64Alphabet.idxOf? c

def base64Char (n : Nat) : Char := base64Alphabet.getD n 'A'

/-! ## Decoding -/

/-- The state of `binascii.a2b_base64`: where in a group of four it is, the bits left of the last
character, the padding characters since, and the bytes so far. -/
structure Quad where
  quadPos : Nat := 0
  leftchar : Nat := 0
  pads : Nat := 0
  binData : List UInt8 := []

/-- The loop takes six more bits. -/
def Quad.take (quad : Quad) (thisCh : Nat) : Quad :=
  match quad.quadPos with
  | 0 => { quad with quadPos := 1, leftchar := thisCh, pads := 0 }
  | 1 => {
      quadPos := 2
      leftchar := thisCh % 16
      pads := 0
      binData := quad.binData ++ [UInt8.ofNat (quad.leftchar * 4 + thisCh / 16)] }
  | 2 => {
      quadPos := 3
      leftchar := thisCh % 4
      pads := 0
      binData := quad.binData ++ [UInt8.ofNat (quad.leftchar * 16 + thisCh / 4)] }
  | _ => {
      quadPos := 0
      leftchar := 0
      pads := 0
      binData := quad.binData ++ [UInt8.ofNat (quad.leftchar * 64 + thisCh)] }

/-- The input ends. -/
def Quad.finish (quad : Quad) : Except Base64Error (List UInt8) :=
  if quad.quadPos = 0 then
    .ok quad.binData
  else if quad.quadPos = 1 then
    .error (.oneDataCharacter (quad.binData.length / 3 * 4 + 1))
  else
    .error .incorrectPadding

/-- The loop of `binascii.a2b_base64`. -/
def a2bBase64 : List Char → Quad → Except Base64Error (List UInt8)
  | [], quad => quad.finish
  | c :: rest, quad =>
    if c = '=' then
      if 2 ≤ quad.quadPos then
        -- The group is complete: what stands behind it is not read.
        if 4 ≤ quad.quadPos + (quad.pads + 1) then
          .ok quad.binData
        else
          a2bBase64 rest { quad with pads := quad.pads + 1 }
      else
        a2bBase64 rest quad
    else
      match base64Value c with
      | none => a2bBase64 rest quad
      | some thisCh => a2bBase64 rest (quad.take thisCh)

/-- `base64.b64decode` of a text. -/
def b64decode (text : String) : Except Base64Error (List UInt8) :=
  if text.toList.all fun c => decide (c.toNat < 0x80) then
    a2bBase64 text.toList {}
  else
    .error .nonAscii

/-! ## Encoding -/

/-- `base64.b64encode` -/
def b2aBase64 : List UInt8 → List Char
  | [] => []
  | [a] => [base64Char (a.toNat / 4), base64Char (a.toNat % 4 * 16), '=', '=']
  | [a, b] =>
    [base64Char (a.toNat / 4), base64Char (a.toNat % 4 * 16 + b.toNat / 16),
      base64Char (b.toNat % 16 * 4), '=']
  | a :: b :: c :: rest =>
    base64Char (a.toNat / 4) :: base64Char (a.toNat % 4 * 16 + b.toNat / 16) ::
      base64Char (b.toNat % 16 * 4 + c.toNat / 64) :: base64Char (c.toNat % 64) :: b2aBase64 rest

def b64encode (bytes : List UInt8) : String := String.ofList (b2aBase64 bytes)

/-! ## The round trip -/

set_option maxRecDepth 20000 in
theorem base64Char_spec {n : Nat} (bits : n < 64) :
    base64Char n ≠ '=' ∧ (base64Char n).toNat < 0x80 ∧ base64Value (base64Char n) = some n := by
  have all : ∀ m < 64, base64Char m ≠ '=' ∧ (base64Char m).toNat < 0x80 ∧
      base64Value (base64Char m) = some m := by
    decide
  exact all n bits

/-- The decoder takes a character of the encoding. -/
theorem a2bBase64_base64Char {n : Nat} (bits : n < 64) (rest : List Char) (quad : Quad) :
    a2bBase64 (base64Char n :: rest) quad = a2bBase64 rest (quad.take n) := by
  obtain ⟨data, -, value⟩ := base64Char_spec bits
  rw [a2bBase64, if_neg data, value]

theorem ofNat_join {a high low : Nat} {byte : UInt8} (value : byte.toNat = a)
    (joined : high + low = a) : UInt8.ofNat (high + low) = byte := by
  rw [joined, ← value, UInt8.ofNat_toNat]

/-- A group of four characters is three bytes. -/
theorem a2bBase64_group (a b c : UInt8) (rest : List Char) (quad : Quad)
    (start : quad.quadPos = 0) :
    a2bBase64 (base64Char (a.toNat / 4) :: base64Char (a.toNat % 4 * 16 + b.toNat / 16) ::
        base64Char (b.toNat % 16 * 4 + c.toNat / 64) :: base64Char (c.toNat % 64) :: rest) quad =
      a2bBase64 rest { binData := quad.binData ++ [a, b, c] } := by
  have ha := a.toNat_lt
  have hb := b.toNat_lt
  have hc := c.toNat_lt
  rw [a2bBase64_base64Char (by omega), a2bBase64_base64Char (by omega),
    a2bBase64_base64Char (by omega), a2bBase64_base64Char (by omega)]
  have first : UInt8.ofNat (a.toNat / 4 * 4 + (a.toNat % 4 * 16 + b.toNat / 16) / 16) = a :=
    ofNat_join rfl (by omega)
  have second : UInt8.ofNat ((a.toNat % 4 * 16 + b.toNat / 16) % 16 * 16 +
      (b.toNat % 16 * 4 + c.toNat / 64) / 4) = b :=
    ofNat_join rfl (by omega)
  have third : UInt8.ofNat ((b.toNat % 16 * 4 + c.toNat / 64) % 4 * 64 + c.toNat % 64) = c :=
    ofNat_join rfl (by omega)
  simp only [Quad.take, start, first, second, third, List.append_assoc, List.cons_append,
    List.nil_append]

/-- What was encoded is decoded, also behind other data, as long as that ends with a whole group. -/
theorem a2bBase64_b2aBase64 (bytes : List UInt8) (quad : Quad) (start : quad.quadPos = 0) :
    a2bBase64 (b2aBase64 bytes) quad = .ok (quad.binData ++ bytes) := by
  fun_induction b2aBase64 bytes generalizing quad with
  | case1 =>
    rw [a2bBase64, Quad.finish, if_pos start, List.append_nil]
  | case2 a =>
    have ha := a.toNat_lt
    rw [a2bBase64_base64Char (by omega), a2bBase64_base64Char (by omega)]
    have byte : UInt8.ofNat (a.toNat / 4 * 4 + a.toNat % 4 * 16 / 16) = a :=
      ofNat_join rfl (by omega)
    simp only [Quad.take, start, byte, a2bBase64]
    rfl
  | case3 a b =>
    have ha := a.toNat_lt
    have hb := b.toNat_lt
    rw [a2bBase64_base64Char (by omega), a2bBase64_base64Char (by omega),
      a2bBase64_base64Char (by omega)]
    have first : UInt8.ofNat (a.toNat / 4 * 4 + (a.toNat % 4 * 16 + b.toNat / 16) / 16) = a :=
      ofNat_join rfl (by omega)
    have second : UInt8.ofNat ((a.toNat % 4 * 16 + b.toNat / 16) % 16 * 16 +
        b.toNat % 16 * 4 / 4) = b :=
      ofNat_join rfl (by omega)
    simp only [Quad.take, start, first, second, a2bBase64, List.append_assoc, List.cons_append,
      List.nil_append]
    rfl
  | case4 a b c rest ih =>
    rw [a2bBase64_group a b c _ quad start, ih _ rfl, List.append_assoc]
    rfl

/-- The code is ASCII. -/
theorem b2aBase64_ascii (bytes : List UInt8) : ∀ c ∈ b2aBase64 bytes, c.toNat < 0x80 := by
  have digit : ∀ {n}, n < 64 → (base64Char n).toNat < 0x80 := fun bits => (base64Char_spec bits).2.1
  have pad : '='.toNat < 0x80 := by decide
  fun_induction b2aBase64 bytes with
  | case1 => exact List.forall_mem_nil _
  | case2 a =>
    have ha := a.toNat_lt
    simp only [List.forall_mem_cons]
    exact ⟨digit (by omega), digit (by omega), pad, pad, List.forall_mem_nil _⟩
  | case3 a b =>
    have ha := a.toNat_lt
    have hb := b.toNat_lt
    simp only [List.forall_mem_cons]
    exact ⟨digit (by omega), digit (by omega), digit (by omega), pad, List.forall_mem_nil _⟩
  | case4 a b c rest ih =>
    have ha := a.toNat_lt
    have hb := b.toNat_lt
    have hc := c.toNat_lt
    simp only [List.forall_mem_cons]
    exact ⟨digit (by omega), digit (by omega), digit (by omega), digit (by omega), ih⟩

/-- What was encoded is decoded again. -/
theorem b64decode_b64encode (bytes : List UInt8) : b64decode (b64encode bytes) = .ok bytes := by
  have ascii : ((b64encode bytes).toList.all fun c => decide (c.toNat < 0x80)) = true := by
    rw [b64encode, String.toList_ofList, List.all_eq_true]
    exact fun c mem => decide_eq_true (b2aBase64_ascii bytes c mem)
  rw [b64decode, if_pos ascii, b64encode, String.toList_ofList, a2bBase64_b2aBase64 bytes {} rfl]
  rfl

/-- Only no bytes at all are written as no text. -/
theorem b64encode_ne_empty {bytes : List UInt8} (nonempty : bytes ≠ []) :
    b64encode bytes ≠ "" := by
  intro empty
  have decodes := b64decode_b64encode bytes
  rw [empty] at decodes
  exact nonempty (Except.ok.inj decodes).symm

end Python
