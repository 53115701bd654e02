import KernelOmega.Patcher.Targeted
import KernelOmega.Python.Raising
import KernelOmega.Python.Splice

/-!
# How far a patch reaches

A patch replaces characters of one line, and the operator it writes ends no line. Wherever the
search has found the operator, and whatever the columns of the comparison count, the patch is
within two lines of the code.
-/

namespace KernelOmega

open Python Distance

-- A list is gone through before all of `Char` is.
attribute [local instance (high)] List.decidableBAll

/-- The lines of a text, as the patcher takes it apart. -/
def sourceLines (code : String) : List (List Char) := splitlines isLineBoundary code.toList

/-- An index that raises nothing is in the list. -/
theorem of_itemAt {α : Type} {items : List α} {index : Nat} {a : α}
    (there : itemAt items index = .ok a) : items[index]? = some a := by
  unfold itemAt at there
  cases found : items[index]? with
  | none =>
    rw [found] at there
    cases there
  | some b =>
    rw [found] at there
    rw [Except.ok.inj there]

/-- A spliced line stays one, or takes one neighbour with it. -/
theorem spliceLine_within {code new spliced : List Char} {index a b : Nat}
    (done : spliceLine code index a b new = .ok spliced) (forward : a < b)
    (still : ∀ c ∈ new, isLineBoundary c = false) (proper : new ≠ []) :
    Within 2 (splitlines isLineBoundary code) (splitlines isLineBoundary spliced) := by
  obtain ⟨line, there, made⟩ := bind_eq_ok_iff.mp done
  rw [← Except.ok.inj made]
  exact within_two rfl rfl (of_itemAt there) forward still proper

theorem operatorSwaps_still (op : Comparison) :
    ∀ c ∈ (operatorSwaps op).toList, isLineBoundary c = false := by
  cases op <;> decide

theorem operatorSwaps_proper (op : Comparison) : (operatorSwaps op).toList ≠ [] := by
  cases op <;> decide

theorem operatorTokens_pos (op : Comparison) : 0 < (operatorTokens op).length := by
  cases op <;> decide

/-- A replaced operator. -/
theorem replaceOperator_within {code candidate replacement : String} {node : Span} {op : CmpOp}
    (swap : swapsGet op = some replacement)
    (done : replaceOperator code node op replacement = .ok (some candidate)) :
    Within 2 (sourceLines code) (sourceLines candidate) := by
  cases op with
  | other _ => cases swap
  | plain op =>
    obtain rfl := Option.some.inj swap
    rw [replaceOperator] at done
    split at done
    · cases done
    · obtain ⟨segment, -, done⟩ := bind_eq_ok_iff.mp done
      split at done
      · cases done
      · simp only [tokensGet] at done
        split at done
        · cases done
        · obtain ⟨spliced, made, done⟩ := bind_eq_ok_iff.mp done
          obtain rfl := Option.some.inj (Except.ok.inj done)
          rw [sourceLines, sourceLines, String.toList_ofList]
          exact spliceLine_within made (Nat.lt_add_of_pos_right (operatorTokens_pos op))
            (operatorSwaps_still op) (operatorSwaps_proper op)

theorem swapsGet_of_targetOf {lines : List Int} {node : Ast Span} {op : CmpOp} {replacement : String}
    (target : targetOf lines node = some (op, replacement)) : swapsGet op = some replacement := by
  unfold targetOf at target
  split at target
  · split at target
    · obtain ⟨text, swap, same⟩ := Option.map_eq_some_iff.mp target
      obtain ⟨rfl, rfl⟩ := Prod.mk.inj same
      exact swap
    · cases target
  · cases target

/-- The loop adds texts that are close to the code. -/
theorem collectPatches_within {code : String} {lines : List Int} {maxCandidates : Int}
    {nodes : List (Ast Span)} {candidates patches : List String}
    (before : ∀ candidate ∈ candidates, Within 2 (sourceLines code) (sourceLines candidate))
    (done : collectPatches code lines maxCandidates nodes candidates = .ok patches) :
    ∀ patch ∈ patches, Within 2 (sourceLines code) (sourceLines patch) := by
  induction nodes generalizing candidates with
  | nil => exact Except.ok.inj done ▸ before
  | cons node rest ih =>
    rw [collectPatches] at done
    split at done
    · exact ih before done
    · next op replacement target =>
      obtain ⟨candidate, replaced, done⟩ := bind_eq_ok_iff.mp done
      have after : ∀ text ∈ addCandidate code candidates candidate,
          Within 2 (sourceLines code) (sourceLines text) := by
        intro text mem
        unfold addCandidate at mem
        split at mem
        · exact before text mem
        · split at mem
          · rcases List.mem_insert_iff.mp mem with rfl | old
            · exact replaceOperator_within (swapsGet_of_targetOf target) replaced
            · exact before text old
          · exact before text mem
      dsimp only at done
      split at done
      · exact Except.ok.inj done ▸ after
      · exact ih after done

/-- Every patch is within two lines of the code it is made of. -/
theorem TargetedTreeSitterPatcher.patch_within {self : TargetedTreeSitterPatcher} {code : String}
    {lines : List Int} {maxCandidates : Int} {patches : List String}
    (listed : self.generateTargetedPatches code lines maxCandidates = .ok patches) :
    ∀ patch ∈ patches, Within 2 (sourceLines code) (sourceLines patch) := by
  obtain ⟨tree, -, collected⟩ := bind_eq_ok_iff.mp listed
  obtain ⟨candidates, collected, listed⟩ := bind_eq_ok_iff.mp collected
  intro patch mem
  rw [← Except.ok.inj listed, (self.listOfSet_perm candidates).mem_iff] at mem
  exact collectPatches_within (List.forall_mem_nil _) collected patch mem

end KernelOmega
