import Mathlib.Data.List.Infix

/-!
# Syntax trees of Python

The trees `ast.parse` returns, as far as comparisons and integer expressions are concerned: a
node has a kind, a place and its children in the order of the fields. What tells other nodes
apart is in their label. `S` is the type of places.

`ast.dump` without attributes shows everything but the places, so two trees have the same dump
when they are the same up to places. `ast.walk` goes through a tree level by level.

A node inside a tree is given by the frames around it, outermost first.
-/

namespace Python

/-- The operators that compare values. -/
inductive Comparison where
  | lt
  | ltE
  | gt
  | gtE
  | eq
  | notEq
  deriving DecidableEq

/-- An operator of a `Compare` node; the others are `is`, `in` and their negations. -/
inductive CmpOp where
  | plain (op : Comparison)
  | other (name : String)
  deriving DecidableEq

/-- The class of a node, with the fields that are no nodes. The classes that nothing here tells
apart are `other`. -/
inductive Kind where
  | name (id : String)
  | int (n : Int)
  | bool (b : Bool)
  /-- `UnaryOp` with `USub` -/
  | neg
  /-- `BinOp` with `Add` -/
  | add
  /-- `BinOp` with `Sub` -/
  | sub
  /-- `Compare`; the children are `left` and the `comparators`. -/
  | compare (ops : List CmpOp)
  | other (label : String)
  deriving DecidableEq

def Kind.isCompare : Kind → Bool
  | .compare _ => true
  | _ => false

/-- A tree of `ast.parse`, with the spans of its nodes of any type: as positions for the code, as
places in the text for what is said about it. -/
inductive Ast (S : Type) where
  | node (kind : Kind) (span : S) (children : List (Ast S))

namespace Ast

variable {S S' S'' : Type}

def kind : Ast S → Kind
  | node kind _ _ => kind

def span : Ast S → S
  | node _ span _ => span

def children : Ast S → List (Ast S)
  | node _ _ children => children

/-- What holds of a node when it holds of its children holds of every tree. -/
theorem induct {P : Ast S → Prop}
    (node : ∀ kind span children, (∀ c ∈ children, P c) → P (.node kind span children))
    (t : Ast S) : P t :=
  @Ast.rec S P (fun children => ∀ c ∈ children, P c) node
    (fun _ mem => absurd mem List.not_mem_nil)
    (fun _ _ first rest c mem => (List.mem_cons.mp mem).elim (fun same => same ▸ first) (rest c)) t

/-! ## Places and dumps -/

mutual
/-- The tree with its places changed. -/
def map (f : S → S') : Ast S → Ast S'
  | node kind span children => node kind (f span) (mapAll f children)

/-- The same for the children, -/
def mapAll (f : S → S') : List (Ast S) → List (Ast S')
  | [] => []
  | c :: rest => c.map f :: mapAll f rest
end

theorem mapAll_eq (f : S → S') (children : List (Ast S)) :
    mapAll f children = children.map (map f) := by
  induction children with
  | nil => rfl
  | cons c rest ih => rw [mapAll, ih, List.map_cons]

theorem map_node (f : S → S') (kind : Kind) (span : S) (children : List (Ast S)) :
    (node kind span children).map f = node kind (f span) (children.map (map f)) := by
  rw [map, mapAll_eq]

@[simp] theorem kind_map (f : S → S') (t : Ast S) : (t.map f).kind = t.kind := by
  cases t
  rfl

@[simp] theorem span_map (f : S → S') (t : Ast S) : (t.map f).span = f t.span := by
  cases t
  rfl

@[simp] theorem children_map (f : S → S') (t : Ast S) :
    (t.map f).children = t.children.map (map f) := by
  cases t
  rw [map_node]
  rfl

theorem map_map (f : S → S') (g : S' → S'') (t : Ast S) :
    (t.map f).map g = t.map fun span => g (f span) := by
  induction t using induct with
  | node kind span children ih =>
    rw [map_node, map_node, map_node, List.map_map]
    exact congrArg _ (List.map_congr_left ih)

mutual
/-- `ast.dump` gives the same text. -/
def same : Ast S → Ast S' → Bool
  | node kind _ children, node kind' _ children' => decide (kind = kind') && sameAll children children'

/-- Two lists of children are the same one by one. -/
def sameAll : List (Ast S) → List (Ast S') → Bool
  | [], [] => true
  | c :: rest, c' :: rest' => c.same c' && sameAll rest rest'
  | _, _ => false
end

/-- A tree without its places. -/
def dump (t : Ast S) : Ast Unit := t.map fun _ => ()

theorem dump_map (f : S → S') (t : Ast S) : (t.map f).dump = t.dump := map_map f _ t

/-- Two trees are the same if `ast.dump` prints the same for both. -/
theorem same_iff (t : Ast S) (t' : Ast S') : t.same t' = true ↔ t.dump = t'.dump := by
  induction t using induct generalizing t' with
  | node kind span children ih =>
    obtain ⟨kind', span', children'⟩ := t'
    have all : ∀ (cs : List (Ast S)), (∀ c ∈ cs, ∀ t' : Ast S', c.same t' = true ↔ c.dump = t'.dump) →
        ∀ cs' : List (Ast S'), sameAll cs cs' = true ↔ cs.map dump = cs'.map dump := by
      intro cs
      induction cs with
      | nil =>
        intro _ cs'
        cases cs' <;> simp [sameAll]
      | cons c rest ih =>
        intro each cs'
        cases cs' with
        | nil => simp [sameAll]
        | cons c' rest' =>
          rw [sameAll, Bool.and_eq_true, each c List.mem_cons_self,
            ih (fun d mem => each d (List.mem_cons_of_mem c mem)), List.map_cons, List.map_cons,
            List.cons.injEq]
    rw [same, Bool.and_eq_true, decide_eq_true_eq, all children ih, dump, dump, map_node, map_node]
    constructor
    · rintro ⟨rfl, children⟩
      exact congrArg _ children
    · intro whole
      injection whole with kinds _ children
      exact ⟨kinds, children⟩

/-! ## The nodes of a tree -/

mutual
/-- The nodes of a tree, a node before its children. -/
def nodes : Ast S → List (Ast S)
  | node kind span children => node kind span children :: nodesOf children

/-- The nodes of all trees of a list. -/
def nodesOf : List (Ast S) → List (Ast S)
  | [] => []
  | c :: rest => c.nodes ++ nodesOf rest
end

theorem mem_nodesOf {children : List (Ast S)} {t : Ast S} :
    t ∈ nodesOf children ↔ ∃ c ∈ children, t ∈ c.nodes := by
  induction children with
  | nil => simp [nodesOf]
  | cons c rest ih => simp [nodesOf, ih]

theorem mem_nodes {t root : Ast S} :
    t ∈ root.nodes ↔ t = root ∨ ∃ c ∈ root.children, t ∈ c.nodes := by
  obtain ⟨kind, span, children⟩ := root
  rw [nodes, List.mem_cons, mem_nodesOf]
  rfl

theorem self_mem_nodes (t : Ast S) : t ∈ t.nodes := mem_nodes.mpr (.inl rfl)

/-- The nodes of a mapped tree are the nodes mapped, -/
theorem nodes_map (f : S → S') (t : Ast S) : (t.map f).nodes = t.nodes.map (map f) := by
  induction t using induct with
  | node kind span children ih =>
    have all : ∀ cs : List (Ast S), (∀ c ∈ cs, (c.map f).nodes = c.nodes.map (map f)) →
        nodesOf (cs.map (map f)) = (nodesOf cs).map (map f) := by
      intro cs
      induction cs with
      | nil => exact fun _ => rfl
      | cons c rest ih =>
        intro each
        rw [List.map_cons, nodesOf, nodesOf, each c List.mem_cons_self,
          ih (fun d mem => each d (List.mem_cons_of_mem c mem)), List.map_append]
    rw [map_node, nodes, nodes, all children ih, List.map_cons, map_node]

/-- A change of places is told by the places of the nodes. -/
theorem map_congr {f g : S → S'} {t : Ast S} (same : ∀ u ∈ t.nodes, f u.span = g u.span) :
    t.map f = t.map g := by
  induction t using induct with
  | node kind span children ih =>
    have here : f span = g span := same _ (self_mem_nodes _)
    rw [map_node, map_node, here]
    refine congrArg _ (List.map_congr_left fun c mem => ih c mem fun u inside => ?_)
    exact same u (mem_nodes.mpr (.inr ⟨c, mem, inside⟩))

mutual
/-- The number of levels. -/
def height : Ast S → Nat
  | node _ _ children => heightOf children + 1

/-- The height of the highest tree of a list. -/
def heightOf : List (Ast S) → Nat
  | [] => 0
  | c :: rest => max c.height (heightOf rest)
end

/-- The first levels below and including a level. -/
def levels : Nat → List (Ast S) → List (Ast S)
  | 0, _ => []
  | n + 1, level => level ++ levels n (level.flatMap children)

/-- `ast.walk` -/
def walk (t : Ast S) : List (Ast S) := levels t.height [t]

theorem height_le_heightOf {children : List (Ast S)} {c : Ast S} (mem : c ∈ children) :
    c.height ≤ heightOf children := by
  induction children with
  | nil => cases mem
  | cons d rest ih =>
    rw [heightOf]
    rcases List.mem_cons.mp mem with rfl | mem
    · exact le_max_left _ _
    · exact (ih mem).trans (le_max_right _ _)

theorem height_lt {t c : Ast S} (mem : c ∈ t.children) : c.height < t.height := by
  obtain ⟨kind, span, children⟩ := t
  rw [height]
  exact Nat.lt_succ_of_le (height_le_heightOf mem)

/-- A walk level by level meets every node below the first level. -/
theorem mem_levels {n : Nat} {level : List (Ast S)} (deep : ∀ c ∈ level, c.height ≤ n) {t : Ast S} :
    t ∈ levels n level ↔ ∃ c ∈ level, t ∈ c.nodes := by
  induction n generalizing level with
  | zero =>
    have none : level = [] := by
      refine List.eq_nil_iff_forall_not_mem.mpr fun c mem => ?_
      obtain ⟨kind, span, children⟩ := c
      have positive := deep _ mem
      rw [height] at positive
      omega
    simp [levels, none]
  | succ n ih =>
    have below : ∀ c ∈ level.flatMap children, c.height ≤ n := by
      intro c mem
      obtain ⟨parent, above, mem⟩ := List.mem_flatMap.mp mem
      have lower := height_lt mem
      have bound := deep parent above
      omega
    rw [levels, List.mem_append, ih below]
    constructor
    · rintro (mem | ⟨c, mem, inside⟩)
      · exact ⟨t, mem, t.self_mem_nodes⟩
      · obtain ⟨parent, above, mem⟩ := List.mem_flatMap.mp mem
        exact ⟨parent, above, mem_nodes.mpr (.inr ⟨c, mem, inside⟩)⟩
    · rintro ⟨parent, above, inside⟩
      rcases mem_nodes.mp inside with rfl | ⟨c, mem, inside⟩
      · exact .inl above
      · exact .inr ⟨c, List.mem_flatMap.mpr ⟨parent, above, mem⟩, inside⟩

theorem mem_walk {t root : Ast S} : t ∈ root.walk ↔ t ∈ root.nodes := by
  have deep : ∀ c ∈ [root], c.height ≤ root.height := by
    intro c mem
    rw [List.mem_singleton.mp mem]
  rw [walk, mem_levels deep]
  simp

/-- and it is as high. -/
theorem height_map (f : S → S') (t : Ast S) : (t.map f).height = t.height := by
  induction t using induct with
  | node kind span children ih =>
    have all : ∀ cs : List (Ast S), (∀ c ∈ cs, (c.map f).height = c.height) →
        heightOf (cs.map (map f)) = heightOf cs := by
      intro cs
      induction cs with
      | nil => exact fun _ => rfl
      | cons c rest ih =>
        intro each
        rw [List.map_cons, heightOf, heightOf, each c List.mem_cons_self,
          ih fun d mem => each d (List.mem_cons_of_mem c mem)]
    rw [map_node, height, height, all children ih]

theorem levels_map (f : S → S') (n : Nat) (level : List (Ast S)) :
    levels n (level.map (map f)) = (levels n level).map (map f) := by
  induction n generalizing level with
  | zero => rfl
  | succ n ih =>
    have below : (level.map (map f)).flatMap children = (level.flatMap children).map (map f) := by
      rw [List.flatMap_map, List.map_flatMap]
      simp only [children_map]
    rw [levels, levels, below, ih, List.map_append]

theorem walk_map (f : S → S') (t : Ast S) : (t.map f).walk = t.walk.map (map f) := by
  rw [walk, walk, height_map, ← levels_map, List.map_singleton]

end Ast

/-! ## A node in its surroundings -/

/-- A node with a child missing. -/
structure Frame (S : Type) where
  kind : Kind
  span : S
  before : List (Ast S)
  after : List (Ast S)

variable {S S' : Type}

namespace Frame

def fill (frame : Frame S) (t : Ast S) : Ast S :=
  .node frame.kind frame.span (frame.before ++ t :: frame.after)

/-- A frame with its spans mapped. -/
def map (f : S → S') (frame : Frame S) : Frame S' where
  kind := frame.kind
  span := f frame.span
  before := frame.before.map (Ast.map f)
  after := frame.after.map (Ast.map f)

end Frame

/-- The tree around a node, from the frames, outermost first. -/
def plug : List (Frame S) → Ast S → Ast S
  | [], t => t
  | frame :: inner, t => frame.fill (plug inner t)

/-- A mapped tree is the mapped frames around the mapped node. -/
theorem map_plug (f : S → S') (frames : List (Frame S)) (t : Ast S) :
    (plug frames t).map f = plug (frames.map (Frame.map f)) (t.map f) := by
  induction frames with
  | nil => rfl
  | cons frame inner ih =>
    rw [plug, Frame.fill, Ast.map_node, List.map_append, List.map_cons, ih]
    rfl

/-- The nodes of a tree are those around a node, those inside it and those beside it. -/
theorem mem_nodes_plug {frames : List (Frame S)} {t c : Ast S} :
    t ∈ (plug frames c).nodes ↔
      (∃ inner, inner <:+ frames ∧ inner ≠ [] ∧ t = plug inner c) ∨ t ∈ c.nodes ∨
        ∃ frame ∈ frames, ∃ beside ∈ frame.before ++ frame.after, t ∈ beside.nodes := by
  induction frames with
  | nil =>
    constructor
    · exact fun mem => .inr (.inl mem)
    · rintro (⟨inner, suffix, proper, -⟩ | mem | ⟨frame, mem, -⟩)
      · exact absurd (List.suffix_nil.mp suffix) proper
      · exact mem
      · cases mem
  | cons frame inner ih =>
    rw [plug, Ast.mem_nodes]
    constructor
    · rintro (rfl | ⟨child, mem, inside⟩)
      · exact .inl ⟨frame :: inner, List.suffix_rfl, List.cons_ne_nil _ _, rfl⟩
      · have mem : child ∈ frame.before ++ plug inner c :: frame.after := mem
        rcases List.mem_append.mp mem with mem | mem
        · exact .inr (.inr ⟨frame, List.mem_cons_self, child, List.mem_append_left _ mem, inside⟩)
        · rcases List.mem_cons.mp mem with rfl | mem
          · rcases ih.mp inside with ⟨deeper, suffix, proper, same⟩ | mem | ⟨frame', mem, beside⟩
            · exact .inl ⟨deeper, suffix.trans (List.suffix_cons _ _), proper, same⟩
            · exact .inr (.inl mem)
            · exact .inr (.inr ⟨frame', List.mem_cons_of_mem _ mem, beside⟩)
          · exact .inr (.inr ⟨frame, List.mem_cons_self, child, List.mem_append_right _ mem,
              inside⟩)
    · have whole : plug inner c ∈ (frame.fill (plug inner c)).children :=
        List.mem_append_right _ List.mem_cons_self
      rintro (⟨deeper, suffix, proper, rfl⟩ | mem | ⟨frame', mem, beside, besideMem, inside⟩)
      · rcases List.suffix_cons_iff.mp suffix with rfl | suffix
        · exact .inl rfl
        · exact .inr ⟨_, whole, ih.mpr (.inl ⟨deeper, suffix, proper, rfl⟩)⟩
      · exact .inr ⟨_, whole, ih.mpr (.inr (.inl mem))⟩
      · rcases List.mem_cons.mp mem with rfl | mem
        · refine .inr ⟨beside, ?_, inside⟩
          rcases List.mem_append.mp besideMem with front | back
          · exact List.mem_append_left _ front
          · exact List.mem_append_right _ (List.mem_cons_of_mem _ back)
        · exact .inr ⟨_, whole, ih.mpr (.inr (.inr ⟨frame', mem, beside, besideMem, inside⟩))⟩

/-- Trees around nodes with different dumps have different dumps. -/
theorem dump_plug_injective {frames : List (Frame S)} {t t' : Ast S}
    (same : (plug frames t).dump = (plug frames t').dump) : t.dump = t'.dump := by
  induction frames with
  | nil => exact same
  | cons frame inner ih =>
    refine ih ?_
    rw [plug, plug, Frame.fill, Frame.fill, Ast.dump, Ast.dump, Ast.map_node, Ast.map_node] at same
    injection same with _ _ children
    rw [List.map_append, List.map_append, List.map_cons, List.map_cons] at children
    exact (List.cons.inj (List.append_cancel_left children)).1

end Python
