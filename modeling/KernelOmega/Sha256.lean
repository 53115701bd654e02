import KernelOmega.Python.Hex
import Mathlib.Data.List.Nodup
import Mathlib.Data.String.Basic

/-!
# SHA-256 digests of texts

`runtime.sha256_text` is a parameter of the development: a function into hexadecimal
texts, which the results that need it assume free of collisions. The length of a
digest is not part of `Sha256`, since with it no function could be.

`Sha256.ofTable` shows that the assumption can be met by a function that agrees with
the real digest wherever a table says what that is: elsewhere a text is spelled out,
six digits for each character, and a real digest has sixty-four.
-/

namespace KernelOmega

/-- `runtime.sha256_text`: the hexadecimal SHA-256 digest of a text. -/
structure Sha256 where
  text : String → String
  hex : ∀ s, ∀ c ∈ (text s).toList, c ∈ Hex.digits

namespace Sha256

/-- No two texts have the same digest. -/
def CollisionFree (sha256 : Sha256) : Prop := Function.Injective sha256.text

/-- A digest ends in no letter that is not a hexadecimal digit. -/
theorem not_mem_text (sha256 : Sha256) (s : String) {c : Char} (other : c ∉ Hex.digits) :
    c ∉ (sha256.text s).toList :=
  fun mem => other (sha256.hex s c mem)

/-! ## A digest without collisions -/

/-- The six hexadecimal digits of a character's code, lowest first. -/
def spellChar (c : Char) : List Char :=
  (List.range 6).map fun k => Hex.digit (c.toNat / 16 ^ k % 16)

def spell (s : String) : String := String.ofList (s.toList.flatMap spellChar)

theorem spellChar_length (c : Char) : (spellChar c).length = 6 := by
  simp [spellChar]

theorem spellChar_hex (c : Char) : ∀ d ∈ spellChar c, d ∈ Hex.digits := by
  intro d mem
  obtain ⟨k, -, rfl⟩ := List.mem_map.mp mem
  exact Hex.digit_mem _

theorem toNat_lt (c : Char) : c.toNat < 0x110000 := by
  have valid : c.toNat < 0xd800 ∨ (0xdfff < c.toNat ∧ c.toNat < 0x110000) := c.valid
  omega

/-- No two characters are spelled alike. -/
theorem spellChar_injective : Function.Injective spellChar := by
  intro c d same
  have digit : ∀ k < 6, c.toNat / 16 ^ k % 16 = d.toNat / 16 ^ k % 16 := by
    intro k bound
    have entries := List.map_inj_left.mp same k (List.mem_range.mpr bound)
    exact Hex.digit_inj (Nat.mod_lt _ (by decide)) (Nat.mod_lt _ (by decide)) entries
  have c_lt := toNat_lt c
  have d_lt := toNat_lt d
  have h0 := digit 0 (by decide)
  have h1 := digit 1 (by decide)
  have h2 := digit 2 (by decide)
  have h3 := digit 3 (by decide)
  have h4 := digit 4 (by decide)
  have h5 := digit 5 (by decide)
  apply Char.toNat_inj.mp
  simp only [Nat.reducePow] at h0 h1 h2 h3 h4 h5
  omega

/-- Texts that are spelled alike are the same. -/
theorem flatMap_spellChar_injective :
    Function.Injective fun cs : List Char => cs.flatMap spellChar := by
  intro cs ds same
  induction cs generalizing ds with
  | nil =>
    cases ds with
    | nil => rfl
    | cons d ds =>
      have lengths := congrArg List.length same
      simp only [List.flatMap_nil, List.length_nil, List.flatMap_cons, List.length_append,
        spellChar_length] at lengths
      omega
  | cons c cs ih =>
    cases ds with
    | nil =>
      have lengths := congrArg List.length same
      simp only [List.flatMap_nil, List.length_nil, List.flatMap_cons, List.length_append,
        spellChar_length] at lengths
      omega
    | cons d ds =>
      simp only [List.flatMap_cons] at same
      obtain ⟨heads, tails⟩ :=
        List.append_inj same ((spellChar_length c).trans (spellChar_length d).symm)
      rw [spellChar_injective heads, ih tails]

theorem spell_injective : Function.Injective spell := by
  intro s t same
  have chars := String.ofList_injective same
  exact String.toList_inj.mp (flatMap_spellChar_injective chars)

theorem spell_length (s : String) : (spell s).toList.length % 6 = 0 := by
  simp only [spell, String.toList_ofList, List.length_flatMap, spellChar_length]
  simp

/-- In a table of distinct values a value stands at one key. -/
theorem lookup_inj {table : List (String × String)} (distinct : (table.map Prod.snd).Nodup)
    {s t d : String} (foundS : table.lookup s = some d) (foundT : table.lookup t = some d) :
    s = t := by
  obtain ⟨beforeS, afterS, splitS, -⟩ := List.lookup_eq_some_iff.mp foundS
  obtain ⟨beforeT, afterT, splitT, -⟩ := List.lookup_eq_some_iff.mp foundT
  have memS : (s, d) ∈ table := by simp [splitS]
  have memT : (t, d) ∈ table := by simp [splitT]
  have pairs := List.inj_on_of_nodup_map distinct memS memT rfl
  exact congrArg Prod.fst pairs

theorem hex_nil : ∀ e ∈ ([] : List (String × String)), ∀ c ∈ e.2.toList, c ∈ Hex.digits :=
  List.forall_mem_nil _

/-- The digits of a table's digests, as a test that runs. -/
theorem hex_of_all {table : List (String × String)}
    (all : table.all (fun e => e.2.toList.all Hex.digits.contains) = true) :
    ∀ e ∈ table, ∀ c ∈ e.2.toList, c ∈ Hex.digits := by
  intro e entry c mem
  have inside := List.all_eq_true.mp (List.all_eq_true.mp all e entry) c mem
  exact List.contains_iff_mem.mp inside

/-- The digest a table gives, and the spelling of a text that is not in the table. -/
def ofTable (table : List (String × String))
    (hex : ∀ e ∈ table, ∀ c ∈ e.2.toList, c ∈ Hex.digits) : Sha256 where
  text := fun s => (table.lookup s).getD (spell s)
  hex := by
    intro s
    cases found : table.lookup s with
    | none =>
      intro c mem
      rw [Option.getD_none, spell, String.toList_ofList] at mem
      obtain ⟨d, -, mem⟩ := List.mem_flatMap.mp mem
      exact spellChar_hex d c mem
    | some digest =>
      obtain ⟨before, after, rfl, -⟩ := List.lookup_eq_some_iff.mp found
      exact hex (s, digest) (by simp)

/-- A table of distinct digests of the real length has no collisions. -/
theorem ofTable_collisionFree {table : List (String × String)}
    (hex : ∀ e ∈ table, ∀ c ∈ e.2.toList, c ∈ Hex.digits)
    (distinct : (table.map Prod.snd).Nodup) (length : ∀ e ∈ table, e.2.toList.length = 64) :
    (ofTable table hex).CollisionFree := by
  intro s t same
  have digest_length : ∀ u d, table.lookup u = some d → d.toList.length = 64 := by
    intro u d found
    obtain ⟨before, after, split, -⟩ := List.lookup_eq_some_iff.mp found
    exact length (u, d) (by simp [split])
  simp only [ofTable] at same
  cases foundS : table.lookup s with
  | none =>
    cases foundT : table.lookup t with
    | none =>
      rw [foundS, foundT] at same
      exact spell_injective same
    | some d =>
      rw [foundS, foundT, Option.getD_none, Option.getD_some] at same
      have long := digest_length t d foundT
      rw [← same] at long
      have short := spell_length s
      omega
  | some d =>
    cases foundT : table.lookup t with
    | none =>
      rw [foundS, foundT, Option.getD_none, Option.getD_some] at same
      have long := digest_length s d foundS
      rw [same] at long
      have short := spell_length t
      omega
    | some e =>
      rw [foundS, foundT, Option.getD_some, Option.getD_some] at same
      subst same
      exact lookup_inj distinct foundS foundT

end Sha256

end KernelOmega
