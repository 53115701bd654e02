import KernelOmega.ForestWorker
import KernelOmega.Patcher.Swaps
import KernelOmega.Python.Lines

/-!
# The patcher

`TargetedTreeSitterPatcher` of `control_plane/tree_sitter_engine.py`. For each comparison with
one operator on a requested line it writes the swapped operator into the source. Where the
operator stands is found by a search for its text in the text of the whole comparison, and the
byte column of the comparison is taken for a number of characters.
-/

namespace KernelOmega

open Python

/-- The patcher with Python's parser. It collects its patches in a set, so the order in which they
come out belongs to the interpreter; a permutation is all that is said of it. -/
structure TargetedTreeSitterPatcher where
  /-- `ast.parse` -/
  astParse : String → Except PyError (Ast Span)
  /-- `list` of a set, in the order the interpreter has it. -/
  listOfSet : List String → List String
  listOfSet_perm : ∀ candidates, (listOfSet candidates).Perm candidates

/-- `OPERATOR_SWAPS.get` -/
def swapsGet : CmpOp → Option String
  | .plain op => some (operatorSwaps op)
  | .other _ => none

/-- The search in `_operator_tokens()`. -/
def tokensGet : CmpOp → Option String
  | .plain op => some (operatorTokens op)
  | .other _ => none

/-- `text.find(sub)`; `none` stands for -1. -/
def find (sub : List Char) : List Char → Option Nat
  | [] => if sub = [] then some 0 else none
  | c :: rest => if sub <+: c :: rest then some 0 else (find sub rest).map (· + 1)

/-- A subscript of a list. -/
def itemAt {α : Type} (items : List α) (index : Nat) : Except PyError α :=
  match items[index]? with
  | some a => .ok a
  | none => .error .indexError

theorem itemAt_eq_ok {α : Type} {items : List α} {index : Nat} {a : α}
    (there : items[index]? = some a) : itemAt items index = .ok a := by
  rw [itemAt, there]

/-- `ast.get_source_segment`, for a node on one line. -/
def getSourceSegment (code : List Char) (node : Span) : Except PyError (List Char) := do
  let line ← itemAt (splitlines isNewline code) (node.start.line - 1)
  return dropBytes node.start.col (takeBytes node.stop.col line)

/-- The code with `newOpText` written over the characters of a line from `startCol` to `endCol`. -/
def spliceLine (code : List Char) (lineIdx startCol endCol : Nat) (newOpText : List Char) :
    Except PyError (List Char) := do
  let lines := splitlines isLineBoundary code
  let line ← itemAt lines lineIdx
  return (lines.set lineIdx (line.take startCol ++ newOpText ++ line.drop endCol)).flatten

/-- `_replace_operator`, for a node with the one operator `op`. -/
def replaceOperator (code : String) (node : Span) (op : CmpOp) (newOpText : String) :
    Except PyError (Option String) :=
  if node.stop.line ≠ node.start.line then return none
  else do
    let segment ← getSourceSegment code.toList node
    if segment = [] then return none
    match tokensGet op with
    | none => return none
    | some originalOp =>
      match find originalOp.toList segment with
      | none => return none
      | some relativeIdx =>
        let startCol := node.start.col + relativeIdx
        let candidate ← spliceLine code.toList (node.start.line - 1) startCol
          (startCol + originalOp.length) newOpText.toList
        return some (String.ofList candidate)

/-- The operator and its replacement, when the loop does not pass over the node. -/
def targetOf (lineFilter : List Int) (node : Ast Span) : Option (CmpOp × String) :=
  match node.kind with
  | .compare [op] =>
    if (node.span.start.line : Int) ∈ lineFilter then (swapsGet op).map fun text => (op, text)
    else none
  | _ => none

/-- `candidates.add(candidate)`, when there is one and it is not the code itself. -/
def addCandidate (code : String) (candidates : List String) : Option String → List String
  | none => candidates
  | some candidate =>
    if candidate ≠ "" ∧ candidate ≠ code then candidates.insert candidate else candidates

/-- The loop of `generate_targeted_patches`. -/
def collectPatches (code : String) (lineFilter : List Int) (maxCandidates : Int) :
    List (Ast Span) → List String → Except PyError (List String)
  | [], candidates => return candidates
  | node :: rest, candidates =>
    match targetOf lineFilter node with
    | none => collectPatches code lineFilter maxCandidates rest candidates
    | some (op, replacement) => do
      let candidate ← replaceOperator code node.span op replacement
      let candidates := addCandidate code candidates candidate
      if maxCandidates ≤ candidates.length then return candidates
      else collectPatches code lineFilter maxCandidates rest candidates

/-- A candidate is added once. -/
theorem addCandidate_nodup {code : String} {candidates : List String} (nodup : candidates.Nodup)
    (candidate : Option String) : (addCandidate code candidates candidate).Nodup := by
  unfold addCandidate
  split
  · exact nodup
  · split
    · exact nodup.insert
    · exact nodup

/-- No patch is collected twice: one that is there already is not added again. -/
theorem collectPatches_nodup {code : String} {lineFilter : List Int} {maxCandidates : Int}
    {nodes : List (Ast Span)} {candidates patches : List String} (nodup : candidates.Nodup)
    (done : collectPatches code lineFilter maxCandidates nodes candidates = .ok patches) :
    patches.Nodup := by
  induction nodes generalizing candidates with
  | nil => exact Except.ok.inj done ▸ nodup
  | cons node rest ih =>
    rw [collectPatches] at done
    split at done
    · exact ih nodup done
    · next op replacement _ =>
      cases replaced : replaceOperator code node.span op replacement with
      | error e =>
        rw [replaced] at done
        cases done
      | ok candidate =>
        have added := @addCandidate_nodup code candidates nodup candidate
        rw [replaced] at done
        change (if maxCandidates ≤ _ then Except.ok _ else _) = _ at done
        split at done
        · exact Except.ok.inj done ▸ added
        · exact ih added done

namespace TargetedTreeSitterPatcher

variable (self : TargetedTreeSitterPatcher)

/-- `comparison_lines` -/
def comparisonLines (code : String) : Except PyError (List Int) := do
  let tree ← self.astParse code
  let lines := ((tree.walk.filter Ast.isCompare).map fun node => (node.span.start.line : Int)).dedup
  return (lines.filter (0 < ·)).mergeSort

/-- `generate_targeted_patches` -/
def generateTargetedPatches (code : String) (suspiciousLines : List Int) (maxCandidates : Int) :
    Except PyError (List String) := do
  let tree ← self.astParse code
  let candidates ← collectPatches code suspiciousLines maxCandidates tree.walk []
  return self.listOfSet candidates

/-- The patcher as a worker uses it. -/
def patcher : Patcher where
  generateTargetedPatches := self.generateTargetedPatches
  comparisonLines := self.comparisonLines
  nodup code lines n candidates listed := by
    unfold generateTargetedPatches at listed
    cases parsed : self.astParse code with
    | error e =>
      rw [parsed] at listed
      cases listed
    | ok tree =>
      cases collected : collectPatches code lines n tree.walk [] with
      | error e =>
        rw [parsed] at listed
        change (collectPatches code lines n tree.walk [] >>= _) = _ at listed
        rw [collected] at listed
        cases listed
      | ok found =>
        rw [parsed] at listed
        change (collectPatches code lines n tree.walk [] >>= _) = _ at listed
        rw [collected] at listed
        rw [← Except.ok.inj listed]
        exact (self.listOfSet_perm found).nodup_iff.mpr (collectPatches_nodup List.nodup_nil collected)

end TargetedTreeSitterPatcher

end KernelOmega
