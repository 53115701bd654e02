import KernelOmega.Python.Position
import Mathlib.Data.List.Pairwise

/-!
# How comparisons lie in a text

An operand of a comparison binds tighter than a comparison, so a comparison inside another one
stands in brackets there: it starts later and ends earlier. Comparisons in different children of
a node do not overlap. A comparison has two operands and an operator, at least three characters.
These are the laws of the positions `ast` gives; when a token is replaced by one a byte longer
or shorter, no comparison comes to stand where another one stood.
-/

namespace Python

namespace Span

/-- Long enough for two operands and an operator. -/
def Wide (s : Span) : Prop :=
  s.start.line < s.stop.line ∨ (s.start.line = s.stop.line ∧ s.start.col + 3 ≤ s.stop.col)

def Apart (s s' : Span) : Prop := s.stop.Le s'.start ∨ s'.stop.Le s.start

/-- Strictly inside. -/
def Inside (s s' : Span) : Prop := s'.start.Lt s.start ∧ s.stop.Lt s'.stop

instance (s : Span) : Decidable s.Wide := inferInstanceAs (Decidable (_ ∨ _))

instance (s s' : Span) : Decidable (s.Apart s') := inferInstanceAs (Decidable (_ ∨ _))

instance (s s' : Span) : Decidable (s.Inside s') := inferInstanceAs (Decidable (_ ∧ _))

theorem Apart.symm {s s' : Span} (apart : s.Apart s') : s'.Apart s := Or.symm apart

/-- Where a span goes when the `old` bytes before `edge` become `new` ones. -/
def movedFrom (s : Span) (edge : Pos) (old new : Nat) : Span :=
  ⟨s.start.movedFrom edge old new, s.stop.movedFrom edge old new⟩

/-- A part of the text is found where the token before it has moved it. -/
theorem locate_shiftSpan {s : Spliced} {token : List Char} (plain : TokenText s.token)
    (plain' : TokenText token) {offsets : Nat × Nat} (start : s.Uncut offsets.1)
    (stop : s.Uncut offsets.2) :
    locate (s.replace token).text (s.shiftSpan token offsets) =
      (locate s.text offsets).movedFrom s.edge s.token.length token.length :=
  Span.ext (Spliced.posAfter_shift plain plain' start) (Spliced.posAfter_shift plain plain' stop)

/-- A move by a byte does not take a comparison to the place of another one. -/
theorem ne_movedFrom {s s' : Span} {edge : Pos} {old new : Nat} (bound : old ≤ edge.col)
    (grows : new ≤ old + 1) (shrinks : old ≤ new + 1) (wide : s.Wide)
    (other : s.Apart s' ∨ s.Inside s' ∨ s'.Inside s) : s ≠ s'.movedFrom edge old new := by
  intro same
  have start : s.start = s'.start.movedFrom edge old new := congrArg Span.start same
  have stop : s.stop = s'.stop.movedFrom edge old new := congrArg Span.stop same
  unfold Pos.movedFrom at start stop
  unfold Wide at wide
  unfold Apart Inside Pos.Le Pos.Lt at other
  split at start <;> split at stop <;> simp only [start, stop] at wide other <;> omega

end Span

abbrev Ast.isCompare {S : Type} (t : Ast S) : Bool := t.kind.isCompare

/-- The comparisons of one tree do not overlap with those of the other. -/
def Beside (c d : Ast Span) : Prop :=
  ∀ t ∈ c.nodes, ∀ u ∈ d.nodes, t.isCompare → u.isCompare → t.span.Apart u.span

instance besideSymm : Std.Symm Beside where
  symm _ _ beside t mem u mem' compare compare' := (beside u mem' t mem compare' compare).symm

/-- The comparisons of the tree lie as they do in a text. -/
inductive Laid : Ast Span → Prop
  | node {kind : Kind} {span : Span} {children : List (Ast Span)}
    (inside : kind.isCompare → span.Wide ∧
      ∀ c ∈ children, ∀ t ∈ c.nodes, t.isCompare → t.span.Inside span)
    (apart : children.Pairwise Beside)
    (all : ∀ c ∈ children, Laid c) : Laid (.node kind span children)

namespace Laid

variable {root t u : Ast Span}

/-- A node of a laid tree is laid. -/
theorem of_mem (laid : Laid root) (mem : t ∈ root.nodes) : Laid t := by
  induction root using Ast.induct with
  | node kind span children ih =>
    obtain ⟨_, _, all⟩ := laid
    rcases Ast.mem_nodes.mp mem with rfl | ⟨c, child, mem⟩
    · exact .node ‹_› ‹_› all
    · exact ih c child (all c child) mem

theorem wide (laid : Laid root) (mem : t ∈ root.nodes) (compare : t.isCompare) : t.span.Wide := by
  cases laid.of_mem mem with
  | node inside _ _ => exact (inside compare).1

/-- What is below a comparison lies strictly inside it. -/
theorem inside (laid : Laid root) (compare : root.isCompare) {c : Ast Span}
    (child : c ∈ root.children) (mem : t ∈ c.nodes) (compare' : t.isCompare) :
    t.span.Inside root.span := by
  cases laid with
  | node inside _ _ => exact (inside compare).2 c child t mem compare'

/-- Two comparisons lie apart or one inside the other. -/
theorem trichotomy (laid : Laid root) (mem : t ∈ root.nodes) (mem' : u ∈ root.nodes)
    (compare : t.isCompare) (compare' : u.isCompare) :
    t = u ∨ t.span.Apart u.span ∨ t.span.Inside u.span ∨ u.span.Inside t.span := by
  induction root using Ast.induct with
  | node kind span children ih =>
    rcases Ast.mem_nodes.mp mem with rfl | ⟨c, child, inner⟩
    · rcases Ast.mem_nodes.mp mem' with rfl | ⟨d, child', inner'⟩
      · exact .inl rfl
      · exact .inr (.inr (.inr (laid.inside compare child' inner' compare')))
    · rcases Ast.mem_nodes.mp mem' with rfl | ⟨d, child', inner'⟩
      · exact .inr (.inr (.inl (laid.inside compare' child inner compare)))
      · obtain ⟨_, apart, all⟩ := laid
        by_cases same : c = d
        · subst same
          exact ih c child (all c child) inner inner'
        · exact .inr (.inl (apart.forall child child' same t inner u inner' compare compare'))

/-- A place has one comparison at most. -/
theorem eq_of_span (laid : Laid root) (mem : t ∈ root.nodes) (mem' : u ∈ root.nodes)
    (compare : t.isCompare) (compare' : u.isCompare) (place : t.span = u.span) : t = u := by
  have wide := laid.wide mem compare
  rcases laid.trichotomy mem mem' compare compare' with same | other
  · exact same
  · unfold Span.Wide at wide
    unfold Span.Apart Span.Inside Pos.Le Pos.Lt at other
    rw [← place] at other
    omega

/-- A tree without comparisons. -/
theorem of_quiet {t : Ast Span} (quiet : ∀ u ∈ t.nodes, u.isCompare = false) : Laid t := by
  induction t using Ast.induct with
  | node kind span children ih =>
    have inner : ∀ c ∈ children, ∀ u ∈ c.nodes, u.isCompare = false :=
      fun c child u mem => quiet u (Ast.mem_nodes.mpr (.inr ⟨c, child, mem⟩))
    have here : kind.isCompare = false := quiet _ (Ast.self_mem_nodes _)
    refine .node (fun compare => ?_) ?_ fun c child => ih c child (inner c child)
    · rw [here] at compare
      cases compare
    · refine List.pairwise_of_forall_mem_list fun c child d _ t mem u _ compare => ?_
      rw [inner c child t mem] at compare
      cases compare

/-- A comparison without others in its operands. -/
theorem compare {ops : List CmpOp} {span : Span} {children : List (Ast Span)} (wide : span.Wide)
    (quiet : ∀ c ∈ children, ∀ u ∈ c.nodes, u.isCompare = false) :
    Laid (.node (.compare ops) span children) := by
  refine .node (fun _ => ⟨wide, fun c child t mem compare => ?_⟩) ?_
    fun c child => .of_quiet (quiet c child)
  · rw [quiet c child t mem] at compare
    cases compare
  · refine List.pairwise_of_forall_mem_list fun c child d _ t mem u _ compare => ?_
    rw [quiet c child t mem] at compare
    cases compare

/-- A construct around one other. -/
theorem around {kind : Kind} {span : Span} {c : Ast Span} (other : kind.isCompare = false)
    (laid : Laid c) : Laid (.node kind span [c]) := by
  refine .node (fun compare => ?_) (List.pairwise_singleton _ _) fun d child => ?_
  · rw [other] at compare
    cases compare
  · exact List.mem_singleton.mp child ▸ laid

end Laid

end Python
