import KernelOmega.Python.Dict

/-!
# Settings

`control_plane/settings.py`: the items of a profile are merged into those of `omega.toml`. A
profile speaks for a path where it has a value, except that two dictionaries are merged item by
item.
-/

namespace KernelOmega

open Python

section Merge

variable {Key Leaf : Type} [DecidableEq Key]

mutual

/-- The loop of `_merge_dicts`, with `merged` so far. -/
def mergeItems (merged : Items Key Leaf) : Items Key Leaf → Items Key Leaf
  | .nil => merged
  | .cons key value rest => mergeItems (merged.put key (mergeValue (merged.get key) value)) rest

/-- The value a key gets: two dictionaries are merged, anything else is replaced. -/
def mergeValue (present : Option (DictValue Key Leaf)) : DictValue Key Leaf → DictValue Key Leaf
  | .leaf value => .leaf value
  | .dict value =>
    match present with
    | some (.dict items) => .dict (mergeItems items value)
    | _ => .dict value

end

mutual

/-- Merging dictionaries keeps their keys distinct, -/
theorem mergeItems_distinct : ∀ {merged override : Items Key Leaf}, merged.Distinct →
    override.Distinct → (mergeItems merged override).Distinct
  | _, .nil, distinct, _ => distinct
  | _, .cons _ _ _, distinct, ⟨_, inValue, inRest⟩ => by
    rw [mergeItems]
    apply mergeItems_distinct _ inRest
    exact distinct.put (mergeValue_distinct (fun _ here => distinct.get here) inValue)

/-- inside of their values as well. -/
theorem mergeValue_distinct : ∀ {present : Option (DictValue Key Leaf)}
    {value : DictValue Key Leaf}, (∀ node, present = some node → node.Distinct) → value.Distinct →
      (mergeValue present value).Distinct
  | _, .leaf _, _, _ => trivial
  | none, .dict _, _, distinct => distinct
  | some (.leaf _), .dict _, _, distinct => distinct
  | some (.dict items), .dict _, present, distinct =>
    mergeItems_distinct (present (.dict items) rfl) distinct

end

/-- `_merge_dicts` -/
def mergeDicts (base override : Dict Key Leaf) : Dict Key Leaf where
  items := mergeItems base.items override.items
  distinct := mergeItems_distinct base.distinct override.distinct

/-! ## One key -/

/-- What a key of the merged dictionary stands for. -/
theorem get_mergeItems {override : Items Key Leaf} (distinct : override.Distinct)
    (merged : Items Key Leaf) (key : Key) :
    (mergeItems merged override).get key =
      match override.get key with
      | none => merged.get key
      | some value => some (mergeValue (merged.get key) value) := by
  induction override generalizing merged with
  | nil => rfl
  | cons other value rest ih =>
    obtain ⟨fresh, -, inRest⟩ := distinct
    rw [mergeItems, ih inRest, Items.get]
    by_cases same : other = key
    · subst same
      rw [if_pos rfl, Items.get_eq_none.mpr fresh]
      exact merged.get_put_self other _
    · rw [if_neg same, Items.get_put_ne (Ne.symm same)]

theorem mem_keys_mergeItems {override : Items Key Leaf} (distinct : override.Distinct)
    (merged : Items Key Leaf) (key : Key) :
    key ∈ (mergeItems merged override).keys ↔ key ∈ merged.keys ∨ key ∈ override.keys := by
  simp only [Items.mem_keys, get_mergeItems distinct]
  cases override.get key <;> simp

/-! ## The same override again -/

mutual

/-- Items whose every key was merged already change nothing. -/
theorem mergeItems_merged : ∀ {override merged : Items Key Leaf}, override.Distinct →
    (∀ key value, override.get key = some value →
      ∃ present, merged.get key = some (mergeValue present value)) →
    mergeItems merged override = merged
  | .nil, _, _, _ => rfl
  | .cons key value rest, merged, ⟨fresh, inValue, inRest⟩, already => by
    obtain ⟨present, here⟩ := already key value (by simp [Items.get])
    rw [mergeItems, here, mergeValue_merged inValue present, Items.put_get here]
    refine mergeItems_merged inRest ?_
    intro other value' there
    have differ : key ≠ other := by
      rintro rfl
      exact fresh (Items.mem_keys.mpr ⟨value', there⟩)
    exact already other value' (by rw [Items.get, if_neg differ, there])

theorem mergeValue_merged : ∀ {value : DictValue Key Leaf}, value.Distinct →
    ∀ present : Option (DictValue Key Leaf),
      mergeValue (some (mergeValue present value)) value = mergeValue present value
  | .leaf _, _, _ => rfl
  | .dict items, distinct, present => by
    match present with
    | some (.dict merged) =>
      refine congrArg DictValue.dict (mergeItems_merged distinct ?_)
      intro key value here
      exact ⟨merged.get key, by rw [get_mergeItems distinct, here]⟩
    | some (.leaf _) | none =>
      refine congrArg DictValue.dict (mergeItems_merged distinct ?_)
      intro key value here
      exact ⟨none, by rw [here]; cases value <;> rfl⟩

end

theorem mergeDicts_again (base override : Dict Key Leaf) :
    mergeDicts (mergeDicts base override) override = mergeDicts base override := by
  have distinct : (DictValue.dict override.items).Distinct := override.distinct
  have again := mergeValue_merged distinct (some (.dict base.items))
  exact Dict.ext (DictValue.dict.inj again)

/-! ## A path of keys -/

/-- Both hold a dictionary at the path. -/
def BothHold (base override : Items Key Leaf) (path : List Key) : Prop :=
  (∃ items, (DictValue.dict base).at path = some (.dict items)) ∧
    ∃ items, (DictValue.dict override).at path = some (.dict items)

theorem bothHold_nil (base override : Items Key Leaf) : BothHold base override [] :=
  ⟨⟨base, rfl⟩, override, rfl⟩

/-- Behind a key they both hold a dictionary at, the same question is asked of the two. -/
theorem bothHold_cons {base override inBase inOverride : Items Key Leaf} {key : Key}
    (here : base.get key = some (.dict inBase)) (there : override.get key = some (.dict inOverride))
    (path : List Key) : BothHold base override (key :: path) ↔ BothHold inBase inOverride path := by
  simp only [BothHold, DictValue.dict_at_cons, here, there, Option.bind_some]

/-- Where both hold a dictionary, the merged one is the merge of the two. -/
theorem mergeItems_at_both {override : Items Key Leaf} (distinct : override.Distinct)
    {base inBase inOverride : Items Key Leaf} {path : List Key}
    (here : (DictValue.dict base).at path = some (.dict inBase))
    (there : (DictValue.dict override).at path = some (.dict inOverride)) :
    (DictValue.dict (mergeItems base override)).at path =
        some (.dict (mergeItems inBase inOverride)) ∧ inOverride.Distinct := by
  induction path generalizing base override with
  | nil =>
    obtain rfl := DictValue.dict.inj (Option.some.inj here)
    obtain rfl := DictValue.dict.inj (Option.some.inj there)
    exact ⟨rfl, distinct⟩
  | cons key path ih =>
    rw [DictValue.dict_at_cons] at here there ⊢
    obtain ⟨node, atBase, here⟩ := Option.bind_eq_some_iff.mp here
    obtain ⟨node', atOverride, there⟩ := Option.bind_eq_some_iff.mp there
    obtain ⟨items, rfl⟩ := DictValue.eq_dict_of_at here
    obtain ⟨items', rfl⟩ := DictValue.eq_dict_of_at there
    rw [get_mergeItems distinct, atOverride, atBase]
    exact ih (distinct.get atOverride) here there

/-- The first place on a path where they do not both hold a dictionary decides whose value it is. -/
theorem mergeItems_at_first {override : Items Key Leaf} (distinct : override.Distinct)
    {base : Items Key Leaf} {first path : List Key} (within : first <+: path)
    (differ : ¬ BothHold base override first)
    (before : ∀ shorter, shorter <+: first → shorter ≠ first → BothHold base override shorter) :
    (DictValue.dict (mergeItems base override)).at path =
      if ((DictValue.dict override).at first).isSome then (DictValue.dict override).at path
      else (DictValue.dict base).at path := by
  induction first generalizing base override path with
  | nil => exact absurd (bothHold_nil base override) differ
  | cons key first ih =>
    obtain ⟨rest, rfl⟩ := within
    rw [List.cons_append]
    cases first with
    | nil =>
      -- the first key already: the override's value, if it has one, is taken as it is
      cases atOverride : override.get key with
      | none => simp [get_mergeItems distinct, atOverride]
      | some value =>
        have replaced : mergeValue (base.get key) value = value := by
          cases value with
          | leaf value => rfl
          | dict inOverride =>
            match atBase : base.get key with
            | some (.dict inBase) =>
              exact absurd ((bothHold_cons atBase atOverride []).mpr (bothHold_nil _ _)) differ
            | some (.leaf _) | none => rfl
        simp [get_mergeItems distinct, atOverride, replaced]
    | cons next first =>
      obtain ⟨⟨inBase, atBase⟩, inOverride, atOverride⟩ :=
        before [key] ⟨next :: first, rfl⟩ (by simp)
      have atBase : base.get key = some (.dict inBase) := by simpa using atBase
      have atOverride : override.get key = some (.dict inOverride) := by simpa using atOverride
      have deeper := ih (distinct.get atOverride) (List.prefix_append (next :: first) rest)
        (by rwa [bothHold_cons atBase atOverride] at differ)
        (by
          intro shorter within other
          rw [← bothHold_cons atBase atOverride]
          refine before (key :: shorter) ?_ (by simpa using other)
          exact List.cons_prefix_cons.mpr ⟨rfl, within⟩)
      simp only [DictValue.dict_at_cons, get_mergeItems distinct, atBase, atOverride,
        Option.bind_some]
      exact deeper

/-- A merge, path by path: where both hold a dictionary all along, the merged one has the keys of
both, and the first place where they do not decides between the override and the base. Merging the
same override again changes nothing. -/
theorem mergeDicts_path_by_path (base override : Dict Key Leaf) (path : List Key) :
    ((∀ along, along <+: path → BothHold base.items override.items along) →
      ∃ inBase inOverride merged, base.at path = some (.dict inBase) ∧
        override.at path = some (.dict inOverride) ∧
        (mergeDicts base override).at path = some (.dict merged) ∧
        ∀ key, key ∈ merged.keys ↔ key ∈ inBase.keys ∨ key ∈ inOverride.keys) ∧
    (∀ first, first <+: path → ¬ BothHold base.items override.items first →
      (∀ shorter, shorter <+: first → shorter ≠ first →
        BothHold base.items override.items shorter) →
      (mergeDicts base override).at path =
        if (override.at first).isSome then override.at path else base.at path) ∧
    mergeDicts (mergeDicts base override) override = mergeDicts base override := by
  refine ⟨?_, ?_, mergeDicts_again base override⟩
  · intro both
    obtain ⟨⟨inBase, here⟩, inOverride, there⟩ := both path List.prefix_rfl
    obtain ⟨merged, distinct⟩ := mergeItems_at_both override.distinct here there
    exact ⟨inBase, inOverride, _, here, there, merged, mem_keys_mergeItems distinct inBase⟩
  · intro first within differ before
    exact mergeItems_at_first override.distinct within differ before

/-- A profile that speaks of other policies leaves this one. -/
example : ((DictValue.dict (mergeItems
    (.cons "policy" (.dict (.cons "require_hardware_isolation" (.leaf true) .nil)) .nil)
    (.cons "policy" (.dict (.cons "deny_edit_tests" (.leaf false) .nil)) .nil))).at
      ["policy", "require_hardware_isolation"]) = some (.leaf true) := rfl

end Merge

end KernelOmega
