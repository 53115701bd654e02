import KernelOmega.Python.Layout

/-!
# Operator swaps

`OPERATOR_SWAPS` of `control_plane/tree_sitter_engine.py`: a candidate repair writes `<=` for
`<`, `==` for `!=` and so on. Going back is a swap too.
-/

namespace KernelOmega

open Python

/-- `_operator_tokens` -/
def operatorTokens : Comparison → String
  | .lt => "<"
  | .ltE => "<="
  | .gt => ">"
  | .gtE => ">="
  | .eq => "=="
  | .notEq => "!="

/-- `OPERATOR_SWAPS` -/
def operatorSwaps : Comparison → String
  | .lt => "<="
  | .ltE => "<"
  | .gt => ">="
  | .gtE => ">"
  | .eq => "!="
  | .notEq => "=="

/-- The operator a swap writes. -/
def swapped : Comparison → Comparison
  | .lt => .ltE
  | .ltE => .lt
  | .gt => .gtE
  | .gtE => .gt
  | .eq => .notEq
  | .notEq => .eq

theorem operatorSwaps_eq (op : Comparison) : operatorSwaps op = operatorTokens (swapped op) := by
  cases op <;> rfl

theorem swapped_ne (op : Comparison) : swapped op ≠ op := by
  cases op <;> exact nofun

theorem operatorTokens_plain (op : Comparison) : TokenText (operatorTokens op).toList := by
  cases op <;> decide

theorem operatorTokens_injective {op op' : Comparison} (same : operatorTokens op = operatorTokens op') :
    op = op' := by
  cases op <;> cases op' <;> first | rfl | exact absurd same (by decide)

/-- A swap changes the length by a byte at most. -/
theorem operatorTokens_length (op : Comparison) :
    (operatorTokens (swapped op)).toList.length ≤ (operatorTokens op).toList.length + 1 ∧
      (operatorTokens op).toList.length ≤ (operatorTokens (swapped op)).toList.length + 1 := by
  cases op <;> decide

end KernelOmega
