import KernelOmega.Patcher.OnTarget
import Mathlib.Data.List.Dedup

/-!
# When the patches are operator swaps

The loop takes a candidate for each comparison until it has as many as it may. The patches are
operator swaps of the comparisons asked for exactly when every comparison the loop comes to is on
target.
-/

namespace KernelOmega

open Python

-- A list is gone through before all of `Char` is.
attribute [local instance (high)] List.decidableBAll

/-! ## The loop -/

/-- The loop over the candidates it comes to. -/
def gather (code : String) (maxCandidates : Int) : List String → List String → List String
  | [], candidates => candidates
  | a :: rest, candidates =>
    let candidates := addCandidate code candidates (some a)
    if maxCandidates ≤ candidates.length then candidates
    else gather code maxCandidates rest candidates

/-- The candidates when all are taken. -/
def gathered (code : String) (front candidates : List String) : List String :=
  front.foldl (fun candidates a => addCandidate code candidates (some a)) candidates

section Gathering

variable {code : String} {maxCandidates : Int}

/-- A text is added unless it is empty or the code itself. -/
theorem mem_addCandidate {candidates : List String} {a b : String} :
    a ∈ addCandidate code candidates (some b) ↔ a ∈ candidates ∨ (a = b ∧ b ≠ "" ∧ b ≠ code) := by
  unfold addCandidate
  dsimp only
  split
  · next good =>
    rw [List.mem_insert_iff]
    exact ⟨fun mem => mem.elim (fun same => .inr ⟨same, good⟩) .inl,
      fun mem => mem.elim .inr fun same => .inl same.1⟩
  · next other => exact ⟨.inl, fun mem => mem.elim id fun same => absurd same.2 other⟩

/-- What is gathered are the texts that change something. -/
theorem mem_gathered {front candidates : List String} {a : String} :
    a ∈ gathered code front candidates ↔ a ∈ candidates ∨ (a ∈ front ∧ a ≠ "" ∧ a ≠ code) := by
  induction front generalizing candidates with
  | nil => simp [gathered]
  | cons b front ih =>
    show a ∈ gathered code front (addCandidate code candidates (some b)) ↔ _
    rw [ih, mem_addCandidate, List.mem_cons]
    constructor
    · rintro ((mem | ⟨rfl, good⟩) | ⟨mem, good⟩)
      · exact .inl mem
      · exact .inr ⟨.inl rfl, good⟩
      · exact .inr ⟨.inr mem, good⟩
    · rintro (mem | ⟨rfl | mem, good⟩)
      · exact .inl (.inl mem)
      · exact .inl (.inr ⟨rfl, good⟩)
      · exact .inr ⟨mem, good⟩

theorem gathered_nodup {front candidates : List String} (nodup : candidates.Nodup) :
    (gathered code front candidates).Nodup := by
  induction front generalizing candidates with
  | nil => exact nodup
  | cons b front ih => exact ih (addCandidate_nodup nodup _)

/-- Gathering takes nothing away. -/
theorem length_le_gathered {front candidates : List String} :
    candidates.length ≤ (gathered code front candidates).length := by
  induction front generalizing candidates with
  | nil => exact le_rfl
  | cons b front ih =>
    refine le_trans ?_ (@ih (addCandidate code candidates (some b)))
    unfold addCandidate
    dsimp only
    split
    · exact (List.sublist_insert _ _).length_le
    · exact le_rfl

/-- A candidate is taken when fewer than `maxCandidates` others come before it. -/
theorem mem_gather {texts candidates : List String} {a : String}
    (room : (candidates.length : Int) < maxCandidates) :
    a ∈ gather code maxCandidates texts candidates ↔ a ∈ candidates ∨
      ((a ≠ "" ∧ a ≠ code) ∧ ∃ front back, texts = front ++ a :: back ∧
        ((gathered code front candidates).length : Int) < maxCandidates) := by
  induction texts generalizing candidates with
  | nil =>
    rw [gather]
    constructor
    · exact .inl
    · rintro (mem | ⟨-, front, back, split, -⟩)
      · exact mem
      · cases front <;> cases split
  | cons b rest ih =>
    rw [gather]
    split
    · next full =>
      rw [mem_addCandidate]
      constructor
      · rintro (mem | ⟨rfl, good⟩)
        · exact .inl mem
        · exact .inr ⟨good, [], rest, rfl, room⟩
      · rintro (mem | ⟨good, front, back, split, few⟩)
        · exact .inl mem
        · cases front with
          | nil =>
            obtain ⟨rfl, -⟩ := List.cons.inj split
            exact .inr ⟨rfl, good⟩
          | cons c front =>
            obtain ⟨rfl, -⟩ := List.cons.inj split
            have grows := @length_le_gathered code front (addCandidate code candidates (some b))
            change ((gathered code front (addCandidate code candidates (some b))).length : Int) < _ at few
            omega
    · next more =>
      rw [ih (not_le.mp more), mem_addCandidate]
      constructor
      · rintro ((mem | ⟨rfl, good⟩) | ⟨good, front, back, split, few⟩)
        · exact .inl mem
        · exact .inr ⟨good, [], rest, rfl, room⟩
        · exact .inr ⟨good, b :: front, back, by rw [split]; rfl, few⟩
      · rintro (mem | ⟨good, front, back, split, few⟩)
        · exact .inl (.inl mem)
        · cases front with
          | nil =>
            obtain ⟨rfl, -⟩ := List.cons.inj split
            exact .inl (.inr ⟨rfl, good⟩)
          | cons c front =>
            obtain ⟨rfl, tails⟩ := List.cons.inj split
            exact .inr ⟨good, front, back, tails, few⟩

/-- What is gathered is distinct. -/
theorem gather_nodup {texts candidates : List String} (nodup : candidates.Nodup) :
    (gather code maxCandidates texts candidates).Nodup := by
  induction texts generalizing candidates with
  | nil => exact nodup
  | cons b rest ih =>
    rw [gather]
    split
    · exact addCandidate_nodup nodup _
    · exact ih (addCandidate_nodup nodup _)

/-- Never more than the bound is gathered. -/
theorem length_gather {texts candidates : List String}
    (room : (candidates.length : Int) < maxCandidates) :
    ((gather code maxCandidates texts candidates).length : Int) ≤ maxCandidates := by
  induction texts generalizing candidates with
  | nil => exact room.le
  | cons b rest ih =>
    have one : (addCandidate code candidates (some b)).length ≤ candidates.length + 1 := by
      unfold addCandidate
      dsimp only
      split
      · rw [List.length_insert]
        split <;> omega
      · exact Nat.le_succ _
    rw [gather]
    split
    · omega
    · next more => exact ih (not_le.mp more)

end Gathering

/-! ## From the nodes to the candidates -/

namespace Source

variable {source : Source} {lines : List Int} {maxCandidates : Int}

/-- A target of the source is one the patcher sees, -/
theorem targetOf_of_target {t : Ast (Nat × Nat)} {target : Target}
    (found : source.target lines t = some target) :
    targetOf lines (t.map (locate source.text)) =
      some (.plain target.2, operatorSwaps target.2) := by
  obtain ⟨-, kind, asked, -⟩ := target_eq_some_iff.mp found
  rw [targetOf, Ast.kind_map, kind, Ast.span_map]
  exact if_pos asked

/-- A node that is no target is passed over, or nothing is made of it. -/
theorem passed_of_target {t : Ast (Nat × Nat)} (none : source.target lines t = none) :
    targetOf lines (t.map (locate source.text)) = Option.none ∨
      ∃ op text, targetOf lines (t.map (locate source.text)) = some (op, text) ∧
        replaceOperator source.code (t.map (locate source.text)).span op text = .ok Option.none := by
  cases found : targetOf lines (t.map (locate source.text)) with
  | none => exact .inl rfl
  | some asked =>
    obtain ⟨op, text⟩ := asked
    refine .inr ⟨op, text, rfl, ?_⟩
    rw [replaceOperator]
    split
    · rfl
    · next oneLine =>
      have oneLine := not_not.mp oneLine
      rw [Ast.span_map] at oneLine
      unfold targetOf at found
      rw [Ast.kind_map, Ast.span_map] at found
      split at found
      · next only kind =>
        split at found
        · next inLines =>
          cases only with
          | other name => cases found
          | plain op' =>
            rw [Source.target, kind] at none
            change (if _ then some (t, op') else Option.none) = Option.none at none
            rw [if_pos ⟨inLines, oneLine⟩] at none
            cases none
        · cases found
      · cases found

/-- The walk collects the aims of the targets, in the order of the walk, up to the bound. -/
theorem collectPatches_eq {nodes : List (Ast (Nat × Nat))} {candidates : List String}
    (inTree : ∀ t ∈ nodes, t ∈ source.tree.walk) (room : (candidates.length : Int) < maxCandidates) :
    collectPatches source.code lines maxCandidates (nodes.map (Ast.map (locate source.text))) candidates =
      .ok (gather source.code maxCandidates ((nodes.filterMap (source.target lines)).map source.aim)
        candidates) := by
  induction nodes generalizing candidates with
  | nil => rfl
  | cons t rest ih =>
    have inRest : ∀ u ∈ rest, u ∈ source.tree.walk := fun u mem => inTree u (List.mem_cons_of_mem t mem)
    rw [List.map_cons, collectPatches]
    cases found : source.target lines t with
    | none =>
      rw [List.filterMap_cons_none found]
      rcases passed_of_target found with skipped | ⟨op, text, asked, nothing⟩
      · rw [skipped]
        exact ih inRest room
      · rw [asked]
        dsimp only
        rw [nothing]
        show (if maxCandidates ≤ (candidates.length : Int) then _ else _) = _
        rw [if_neg (not_le.mpr room)]
        exact ih inRest room
    | some target =>
      have mem : target ∈ source.targets lines :=
        List.mem_filterMap.mpr ⟨t, inTree t List.mem_cons_self, found⟩
      have place : (t.map (locate source.text)).span = source.place target.1 := by
        rw [Ast.span_map, (target_eq_some_iff.mp found).1]
        rfl
      rw [List.filterMap_cons_some found, List.map_cons, targetOf_of_target found]
      dsimp only
      rw [place, replaceOperator_eq mem, gather]
      show (if maxCandidates ≤ _ then _ else _) = _
      split
      · rfl
      · next more => exact ih inRest (not_le.mp more)

/-- The patches are the candidates gathered, in some order. -/
theorem generateTargetedPatches_eq {self : TargetedTreeSitterPatcher}
    (parsed : self.astParse source.code = .ok source.located) (some : 1 ≤ maxCandidates) :
    self.generateTargetedPatches source.code lines maxCandidates =
      .ok (self.listOfSet (gather source.code maxCandidates
        ((source.targets lines).map source.aim) [])) := by
  have collected := @collectPatches_eq source lines maxCandidates source.tree.walk []
    (fun t mem => mem) some
  rw [TargetedTreeSitterPatcher.generateTargetedPatches, parsed]
  show (collectPatches _ _ _ source.located.walk [] >>= _) = _
  rw [Source.located, Ast.walk_map, collected]
  rfl

/-! ## Counting -/

/-- How many different texts other than the source the comparisons are made into. -/
def texts (source : Source) (front : List Target) : List String :=
  gathered source.code (front.map source.aim) []

/-- Two maps that confuse the same elements have as many values. -/
theorem dedup_map_length {α β γ : Type} [DecidableEq β] [DecidableEq γ] {f : α → β} {g : α → γ}
    {l : List α} (same : ∀ x ∈ l, ∀ y ∈ l, f x = f y ↔ g x = g y) :
    (l.map f).dedup.length = (l.map g).dedup.length := by
  induction l with
  | nil => rfl
  | cons x l ih =>
    have rest := ih fun y mem z mem' => same y (List.mem_cons_of_mem x mem) z (List.mem_cons_of_mem x mem')
    have seen : f x ∈ l.map f ↔ g x ∈ l.map g := by
      rw [List.mem_map, List.mem_map]
      refine exists_congr fun y => and_congr_right fun mem => ?_
      exact same y (List.mem_cons_of_mem x mem) x List.mem_cons_self
    rw [List.map_cons, List.map_cons]
    by_cases again : f x ∈ l.map f
    · rw [List.dedup_cons_of_mem again, List.dedup_cons_of_mem (seen.mp again), rest]
    · rw [List.dedup_cons_of_notMem again, List.dedup_cons_of_notMem (mt seen.mpr again),
        List.length_cons, List.length_cons, rest]

/-- and its patch is never empty. -/
theorem aim_ne_empty (target : Target) : source.aim target ≠ "" := by
  intro empty
  have none := congrArg String.toList empty
  rw [Source.aim, String.toList_ofList] at none
  have token := (List.append_eq_nil_iff.mp (List.append_eq_nil_iff.mp none).1).2
  rw [Spliced.replace, operatorSwaps_eq] at token
  exact (operatorTokens_plain (swapped target.2)).1 token

/-- The texts of targets are what they aim at, the code aside. -/
theorem mem_texts {front : List Target} {a : String} :
    a ∈ source.texts front ↔ ∃ target ∈ front, source.aim target = a ∧ a ≠ source.code := by
  rw [Source.texts, mem_gathered, List.mem_map]
  constructor
  · rintro (mem | ⟨⟨target, mem, same⟩, -, other⟩)
    · cases mem
    · exact ⟨target, mem, same, other⟩
  · rintro ⟨target, mem, rfl, other⟩
    exact .inr ⟨⟨target, mem, rfl⟩, aim_ne_empty target, other⟩

/-- As long as all are on target, there are as many texts as places. -/
theorem texts_length {front : List Target} (inTargets : ∀ target ∈ front, target ∈ source.targets lines)
    (good : ∀ target ∈ front, source.Idle target ∨ source.Hits lines target) :
    (source.texts front).length = (source.places front).length := by
  have active : ∀ target ∈ front.filter fun target => ¬source.Idle target,
      target ∈ source.targets lines ∧ source.Hits lines target := by
    intro target mem
    obtain ⟨mem, busy⟩ := List.mem_filter.mp mem
    exact ⟨inTargets target mem, (good target mem).resolve_left (of_decide_eq_true busy)⟩
  have listed : (source.texts front).Perm
      ((front.filter fun target => ¬source.Idle target).map source.aim).dedup := by
    refine (List.perm_ext_iff_of_nodup (gathered_nodup List.nodup_nil) (List.nodup_dedup _)).mpr fun a => ?_
    rw [← Source.texts, mem_texts, List.mem_dedup, List.mem_map]
    constructor
    · rintro ⟨target, mem, rfl, other⟩
      refine ⟨target, List.mem_filter.mpr ⟨mem, decide_eq_true ?_⟩, rfl⟩
      exact mt (aim_eq_code_iff (inTargets target mem)).mpr other
    · rintro ⟨target, mem, rfl⟩
      obtain ⟨mem, busy⟩ := List.mem_filter.mp mem
      exact ⟨target, mem, rfl,
        mt (aim_eq_code_iff (inTargets target mem)).mp (of_decide_eq_true busy)⟩
  rw [listed.length_eq, Source.places]
  refine dedup_map_length fun x mem y mem' => ?_
  exact aim_eq_aim_iff (active x mem).1 (active y mem').1 (active x mem).2 (active y mem').2

theorem texts_mono (front back : List Target) :
    (source.texts front).length ≤ (source.texts (front ++ back)).length := by
  refine (List.subperm_of_subset (gathered_nodup List.nodup_nil) fun a mem => ?_).length_le
  obtain ⟨target, mem, same⟩ := mem_texts.mp mem
  exact mem_texts.mpr ⟨target, List.mem_append_left back mem, same⟩

theorem places_mono (front back : List Target) :
    (source.places front).length ≤ (source.places (front ++ back)).length := by
  refine (List.subperm_of_subset (List.nodup_dedup _) fun place mem => ?_).length_le
  rw [Source.places, List.filter_append, List.map_append, List.mem_dedup]
  exact List.mem_append_left _ (List.mem_dedup.mp mem)

/-- When each item before is good, two ways of counting agree; so the first item that is not good
comes early by one way when it does by the other. -/
theorem forall_split {α : Type} {l : List α} {Good : α → Prop} {count count' : List α → Nat}
    {limit : Int} (mono : ∀ front back, count front ≤ count (front ++ back))
    (agree : ∀ front, (∀ x ∈ front, x ∈ l) → (∀ x ∈ front, Good x) → count' front = count front)
    (all : ∀ front x back, l = front ++ x :: back → (count' front : Int) < limit → Good x) :
    ∀ front x back, l = front ++ x :: back → (count front : Int) < limit → Good x := by
  have early : ∀ n, ∀ front x back, front.length = n → l = front ++ x :: back →
      (count front : Int) < limit → Good x := by
    intro n
    induction n using Nat.strong_induction_on with
    | _ n ih =>
      intro front x back length split few
      have before : ∀ y ∈ front, Good y := by
        intro y mem
        obtain ⟨front', back', rfl⟩ := List.append_of_mem mem
        have fewer := mono front' (y :: back')
        refine ih front'.length ?_ front' y (back' ++ x :: back) rfl ?_ (by omega)
        · rw [← length, List.length_append, List.length_cons]
          omega
        · rw [split, List.append_assoc, List.cons_append]
      have inside : ∀ y ∈ front, y ∈ l := fun y mem => split ▸ List.mem_append_left _ mem
      exact all front x back split (by rwa [agree front inside before])
  exact fun front x back => early front.length front x back rfl

/-- Counting texts or places makes no difference. -/
theorem onTarget_iff : source.OnTarget lines maxCandidates ↔
    ∀ front target back, source.targets lines = front ++ target :: back →
      ((source.texts front).length : Int) < maxCandidates →
        source.Idle target ∨ source.Hits lines target :=
  ⟨forall_split texts_mono fun _ inside good => (texts_length inside good).symm,
    forall_split places_mono fun _ inside good => texts_length inside good⟩

/-- A text is gathered if some target aims at it before the list is full. -/
theorem mem_gather_iff (some : 1 ≤ maxCandidates) {a : String} :
    a ∈ gather source.code maxCandidates ((source.targets lines).map source.aim) [] ↔
      ∃ front target back, source.targets lines = front ++ target :: back ∧
        ((source.texts front).length : Int) < maxCandidates ∧ source.aim target = a ∧ a ≠ source.code := by
  rw [mem_gather some]
  constructor
  · rintro (mem | ⟨⟨-, other⟩, front, back, split, few⟩)
    · cases mem
    · obtain ⟨front', rest, whole, rfl, tail⟩ := List.map_eq_append_iff.mp split
      obtain ⟨target, back', rfl, rfl, rfl⟩ := List.map_eq_cons_iff.mp tail
      exact ⟨front', target, back', whole, few, rfl, other⟩
  · rintro ⟨front, target, back, split, few, rfl, other⟩
    refine .inr ⟨⟨aim_ne_empty target, other⟩, front.map source.aim, back.map source.aim, ?_, few⟩
    rw [split, List.map_append, List.map_cons]

/-- The candidates are swaps when the comparisons the loop comes to are on target. -/
theorem gathered_swaps_iff (some : 1 ≤ maxCandidates) :
    (∀ patch ∈ gather source.code maxCandidates ((source.targets lines).map source.aim) [],
        ∃ target ∈ source.targets lines, patch = source.patched target) ↔
      source.OnTarget lines maxCandidates := by
  rw [onTarget_iff]
  constructor
  · intro all front target back split few
    have mem : target ∈ source.targets lines := split ▸ List.mem_append_right _ List.mem_cons_self
    exact (good_iff mem).mpr fun other =>
      all _ ((mem_gather_iff some).mpr ⟨front, target, back, split, few, rfl, other⟩)
  · intro onTarget patch mem
    obtain ⟨front, target, back, split, few, rfl, other⟩ := (mem_gather_iff some).mp mem
    have mem : target ∈ source.targets lines := split ▸ List.mem_append_right _ List.mem_cons_self
    exact (good_iff mem).mp (onTarget front target back split few) other

/-- The patches are all that was gathered. -/
theorem swaps_gathered_iff {self : TargetedTreeSitterPatcher}
    (parsed : self.astParse source.code = .ok source.located) (some : 1 ≤ maxCandidates) :
    (∃ patches, self.generateTargetedPatches source.code lines maxCandidates = .ok patches ∧
        source.Swaps lines maxCandidates patches) ↔
      ∀ patch ∈ gather source.code maxCandidates ((source.targets lines).map source.aim) [],
        ∃ target ∈ source.targets lines, patch = source.patched target := by
  rw [generateTargetedPatches_eq parsed some]
  have perm := self.listOfSet_perm
    (gather source.code maxCandidates ((source.targets lines).map source.aim) [])
  constructor
  · rintro ⟨patches, listed, swaps⟩ patch mem
    obtain rfl := Except.ok.inj listed
    exact swaps.swaps patch (perm.mem_iff.mpr mem)
  · intro swaps
    refine ⟨_, rfl, fun patch mem => swaps patch (perm.mem_iff.mp mem), ?_, ?_, ?_⟩
    · exact perm.nodup_iff.mpr (gather_nodup List.nodup_nil)
    · intro mem
      obtain ⟨-, -, -, -, -, -, other⟩ := (mem_gather_iff some).mp (perm.mem_iff.mp mem)
      exact other rfl
    · rw [perm.length_eq]
      exact length_gather some

end Source

/-! ## The patches of a text -/

/-- The patcher returns what it is to return exactly when every target it comes to before its list
is full is hit where it stands, or is one whose patch changes nothing. -/
theorem patches_swap_iff {self : TargetedTreeSitterPatcher} {source : Source} (lines : List Int)
    {maxCandidates : Int} (parsed : self.astParse source.code = .ok source.located)
    (some : 1 ≤ maxCandidates) :
    (∃ patches, self.generateTargetedPatches source.code lines maxCandidates = .ok patches ∧
        source.Swaps lines maxCandidates patches) ↔ source.OnTarget lines maxCandidates := by
  rw [Source.swaps_gathered_iff parsed some, Source.gathered_swaps_iff some]

namespace SmallPatcher

/-- The tree of a text that is one comparison. -/
def tree (op : Comparison) (left right : Ast (Nat × Nat)) (length : Nat) : Ast (Nat × Nat) :=
  .node (.other "Module") (0, length)
    [.node (.other "Expr") (0, length) [.node (.compare [.plain op]) (0, length) [left, right]]]

/-- With no comparison in the operands there is no other. -/
theorem eq_of_mem_tree {op op' : Comparison} {left right t : Ast (Nat × Nat)} {length : Nat}
    (mem : t ∈ (tree op left right length).nodes) (kind : t.kind = .compare [.plain op'])
    (quiet : ∀ u ∈ left.nodes ++ right.nodes, u.isCompare = false) :
    t = .node (.compare [.plain op]) (0, length) [left, right] ∧ op' = op := by
  have compare : t.isCompare = true := by
    rw [Ast.isCompare, kind]
    rfl
  simp only [tree, Ast.nodes, Ast.nodesOf, List.append_nil, List.mem_cons] at mem
  rcases mem with rfl | rfl | rfl | inside
  · cases compare
  · cases compare
  · injection kind with ops
    injection (List.cons.inj ops).1 with same
    exact ⟨rfl, same.symm⟩
  · rw [quiet t inside] at compare
    cases compare

/-- `low < high` -/
def plain : Source where
  text := "low < high".toList
  tree := tree .lt (.node (.name "low") (0, 3) []) (.node (.name "high") (6, 10) []) 10
  operator _ := { before := "low ".toList, token := "<".toList, after := " high".toList }
  stands t mem op kind := by
    obtain ⟨rfl, rfl⟩ := eq_of_mem_tree mem kind (by decide)
    exact ⟨rfl, rfl, by decide, ⟨_, _, rfl, by decide⟩, by decide⟩

/-- `x << 1 < y` -/
def shifted : Source where
  text := "x << 1 < y".toList
  tree := tree .lt (.node (.other "LShift") (0, 6) [.node (.name "x") (0, 1) [], .node (.int 1) (5, 6) []])
    (.node (.name "y") (9, 10) []) 10
  operator _ := { before := "x << 1 ".toList, token := "<".toList, after := " y".toList }
  stands t mem op kind := by
    obtain ⟨rfl, rfl⟩ := eq_of_mem_tree mem kind (by decide)
    exact ⟨rfl, rfl, by decide, ⟨_, _, rfl, by decide⟩, by decide⟩

/-- A parser that reads one text. -/
def reads (source : Source) : TargetedTreeSitterPatcher where
  astParse _ := .ok source.located
  listOfSet candidates := candidates
  listOfSet_perm _ := .refl _

/-- The search finds the shift. -/
theorem shifted_hit :
    ∃ target, shifted.targets [1] = [target] ∧ ¬shifted.Idle target ∧
      shifted.hit target ≠ shifted.operator target.1 :=
  ⟨(.node (.compare [.plain .lt]) (0, 10) [.node (.other "LShift") (0, 6)
    [.node (.name "x") (0, 1) [], .node (.int 1) (5, 6) []], .node (.name "y") (9, 10) []], .lt),
    rfl, by decide⟩

end SmallPatcher

open SmallPatcher in
/-- A text with one plain comparison. -/
theorem patches_swap_iff_plain :
    (∃ patches, (reads plain).generateTargetedPatches plain.code [1] 4 = .ok patches ∧
      plain.Swaps [1] 4 patches) ↔ plain.OnTarget [1] 4 :=
  patches_swap_iff [1] rfl (by decide)

open SmallPatcher in
/-- In `x << 1 < y` the patcher writes `<=` over a part of the shift. -/
theorem not_patches_swap :
    ¬ ∀ (self : TargetedTreeSitterPatcher) (source : Source) (lines : List Int)
      (maxCandidates : Int), self.astParse source.code = .ok source.located → 1 ≤ maxCandidates →
        ∃ patches, self.generateTargetedPatches source.code lines maxCandidates = .ok patches ∧
          source.Swaps lines maxCandidates patches := by
  intro swaps
  have gathered := (Source.swaps_gathered_iff rfl (by decide)).mp
    (swaps (reads shifted) shifted [1] 4 rfl (by decide))
  obtain ⟨target, only, busy, elsewhere⟩ := shifted_hit
  have onTarget := (Source.gathered_swaps_iff (by decide)).mp gathered [] target [] only (by decide)
  obtain ⟨t, mem, same⟩ := onTarget.resolve_left busy
  rw [only, List.mem_singleton] at mem
  exact elsewhere (same.trans (congrArg (fun found => shifted.operator found.1) mem))

end KernelOmega
