import Mathlib.Tactic.Basic

/-!
# Code that may raise

A sequence returns when its first part does and the second part returns on its value.
-/

namespace Python

variable {ε α β : Type}

theorem bind_eq_ok_iff {x : Except ε α} {f : α → Except ε β} {b : β} :
    (x >>= f) = .ok b ↔ ∃ a, x = .ok a ∧ f a = .ok b := by
  constructor
  · intro returns
    cases x with
    | error e => cases returns
    | ok a => exact ⟨a, rfl, returns⟩
  · rintro ⟨a, rfl, returns⟩
    exact returns

end Python
