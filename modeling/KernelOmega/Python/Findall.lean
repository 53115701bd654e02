import Mathlib.Data.List.Basic

/-!
# Finding every match

`re.findall` for a pattern given by what it matches at the front of a text: a match is
a value and the number of characters it takes. The scan goes from left to right, steps
over a match and lets none overlap. Two facts carry everything said about a scan: a
text in which no match reaches from one part into the next is scanned part by part
(`findall_append`), and a match that no other match can reach into is found
(`mem_findall`).
-/

namespace Python

variable {β : Type}

/-- What a pattern matches at the front of a text, and how much of it. -/
abbrev Matcher (β : Type) := List Char → Option (β × Nat)

/-- The scan, with `skip` characters of the last match still to step over. -/
def scan (matchAt : Matcher β) : Nat → List Char → List β
  | _, [] => []
  | skip + 1, _ :: text => scan matchAt skip text
  | 0, c :: text =>
    match matchAt (c :: text) with
    | some (found, taken) => found :: scan matchAt (taken - 1) text
    | none => scan matchAt 0 text

/-- `re.findall` -/
def findall (matchAt : Matcher β) (text : List Char) : List β := scan matchAt 0 text

variable {matchAt : Matcher β}

theorem scan_of_none {text : List Char} {c : Char} (none : matchAt (c :: text) = none) :
    scan matchAt 0 (c :: text) = scan matchAt 0 text := by
  rw [scan, none]

theorem scan_of_some {text : List Char} {c : Char} {found : β} {taken : Nat}
    (some : matchAt (c :: text) = some (found, taken)) :
    scan matchAt 0 (c :: text) = found :: scan matchAt (taken - 1) text := by
  rw [scan, some]

/-- Stepping over a part. -/
theorem scan_skip (part text : List Char) :
    scan matchAt part.length (part ++ text) = scan matchAt 0 text := by
  induction part with
  | nil => rfl
  | cons c part ih =>
    rw [List.length_cons, List.cons_append, scan]
    exact ih

/-- A match of a whole part is found, and the scan goes on behind it. -/
theorem findall_of_match {part text : List Char} {found : β} (nonempty : part ≠ [])
    (matched : matchAt (part ++ text) = some (found, part.length)) :
    findall matchAt (part ++ text) = found :: findall matchAt text := by
  cases part with
  | nil => exact absurd rfl nonempty
  | cons c part =>
    rw [List.cons_append] at matched ⊢
    rw [findall, scan_of_some matched, List.length_cons, Nat.add_sub_cancel,
      scan_skip]
    rfl

/-- A part at none of whose characters anything matches is stepped over. -/
theorem findall_of_quiet {part text : List Char}
    (quiet : ∀ before after, part = before ++ after → after ≠ [] →
      matchAt (after ++ text) = none) :
    findall matchAt (part ++ text) = findall matchAt text := by
  induction part with
  | nil => rfl
  | cons c part ih =>
    have here := quiet [] (c :: part) rfl (List.cons_ne_nil c part)
    rw [List.cons_append] at here ⊢
    rw [findall, scan_of_none here]
    apply ih
    intro before after split some
    exact quiet (c :: before) after (by rw [split, List.cons_append]) some

/-- If at every place of `part` the text behind it changes nothing, and every match ends
within `part`, the scan of both is the scan of each. -/
theorem findall_append {part text : List Char}
    (same : ∀ before after, part = before ++ after → after ≠ [] →
      matchAt (after ++ text) = matchAt after ∧
        ∀ found taken, matchAt after = some (found, taken) → taken ≤ after.length) :
    findall matchAt (part ++ text) = findall matchAt part ++ findall matchAt text := by
  suffices general : ∀ (after : List Char), (∃ before, part = before ++ after) →
      ∀ skip ≤ after.length,
        scan matchAt skip (after ++ text) = scan matchAt skip after ++ scan matchAt 0 text from
    general part ⟨[], rfl⟩ 0 (Nat.zero_le _)
  intro after
  induction after with
  | nil =>
    intro _ skip within
    obtain rfl : skip = 0 := Nat.le_zero.mp within
    rfl
  | cons c after ih =>
    rintro ⟨before, split⟩ skip within
    have later := ih ⟨before ++ [c], by rw [split, List.append_assoc, List.singleton_append]⟩
    cases skip with
    | succ skip =>
      rw [List.cons_append, scan, scan]
      exact later skip (Nat.le_of_succ_le_succ within)
    | zero =>
      obtain ⟨equal, inside⟩ := same before (c :: after) split (List.cons_ne_nil c after)
      rw [List.cons_append] at equal ⊢
      cases matched : matchAt (c :: after) with
      | none =>
        rw [scan_of_none matched, scan_of_none (equal.trans matched)]
        exact later 0 (Nat.zero_le _)
      | some result =>
        obtain ⟨found, taken⟩ := result
        have bound := inside found taken matched
        rw [List.length_cons] at bound
        rw [scan_of_some matched, scan_of_some (equal.trans matched), List.cons_append,
          later (taken - 1) (by omega)]

/-- Everything found is matched somewhere. -/
theorem matched_of_mem_findall {text : List Char} {found : β}
    (listed : found ∈ findall matchAt text) :
    ∃ before after taken, text = before ++ after ∧ after ≠ [] ∧
      matchAt after = some (found, taken) := by
  suffices general : ∀ (text : List Char) (skip : Nat), found ∈ scan matchAt skip text →
      ∃ before after taken, text = before ++ after ∧ after ≠ [] ∧
        matchAt after = some (found, taken) from general text 0 listed
  intro text
  induction text with
  | nil => exact fun skip none => absurd none List.not_mem_nil
  | cons c text ih =>
    have shift : ∀ skip, found ∈ scan matchAt skip text →
        ∃ before after taken, c :: text = before ++ after ∧ after ≠ [] ∧
          matchAt after = some (found, taken) := by
      intro skip later
      obtain ⟨before, after, taken, split, some, matched⟩ := ih skip later
      exact ⟨c :: before, after, taken, by rw [split, List.cons_append], some, matched⟩
    intro skip listed
    cases skip with
    | succ skip => exact shift skip listed
    | zero =>
      cases matched : matchAt (c :: text) with
      | none =>
        rw [scan_of_none matched] at listed
        exact shift 0 listed
      | some result =>
        obtain ⟨first, taken⟩ := result
        rw [scan_of_some matched] at listed
        rcases List.mem_cons.mp listed with rfl | later
        · exact ⟨[], c :: text, taken, rfl, List.cons_ne_nil c text, matched⟩
        · exact shift (taken - 1) later

/-- A match that no match from before it reaches into is found. -/
theorem mem_findall {before after : List Char} {found : β} {taken : Nat} (nonempty : after ≠ [])
    (matched : matchAt after = some (found, taken))
    (apart : ∀ front back, before = front ++ back → back ≠ [] →
      ∀ other size, matchAt (back ++ after) = some (other, size) → size ≤ back.length) :
    found ∈ findall matchAt (before ++ after) := by
  suffices general : ∀ (back : List Char), (∃ front, before = front ++ back) →
      ∀ skip ≤ back.length, found ∈ scan matchAt skip (back ++ after) from
    general before ⟨[], rfl⟩ 0 (Nat.zero_le _)
  intro back
  induction back with
  | nil =>
    intro _ skip within
    obtain rfl : skip = 0 := Nat.le_zero.mp within
    cases after with
    | nil => exact absurd rfl nonempty
    | cons c after =>
      rw [List.nil_append, scan_of_some matched]
      exact List.mem_cons_self
  | cons c back ih =>
    rintro ⟨front, split⟩ skip within
    have later := ih ⟨front ++ [c], by rw [split, List.append_assoc, List.singleton_append]⟩
    cases skip with
    | succ skip =>
      rw [List.cons_append, scan]
      exact later skip (Nat.le_of_succ_le_succ within)
    | zero =>
      cases here : matchAt (c :: back ++ after) with
      | none =>
        rw [List.cons_append] at here ⊢
        rw [scan_of_none here]
        exact later 0 (Nat.zero_le _)
      | some result =>
        obtain ⟨other, size⟩ := result
        have bound := apart front (c :: back) split (List.cons_ne_nil c back) other size here
        rw [List.length_cons] at bound
        rw [List.cons_append] at here ⊢
        rw [scan_of_some here]
        exact List.mem_cons_of_mem other (later (size - 1) (by omega))

end Python
