import Mathlib.Data.List.Basic

/-!
# Nested dictionaries

A dictionary keeps its items in the order the keys came in: assigning to a key that is there
replaces its value in place, and a new key goes to the end. A value is a dictionary again or
something else, whose inside does not matter here.
-/

namespace Python

mutual

/-- What a key stands for. -/
inductive DictValue (Key Leaf : Type) where
  | leaf (value : Leaf)
  | dict (items : Items Key Leaf)

/-- The items of a dictionary, in order. -/
inductive Items (Key Leaf : Type) where
  | nil
  | cons (key : Key) (value : DictValue Key Leaf) (rest : Items Key Leaf)

end

variable {Key Leaf : Type}

def Items.keys : Items Key Leaf → List Key
  | .nil => []
  | .cons key _ rest => key :: rest.keys

mutual

/-- No dictionary inside the value has a key twice. -/
def DictValue.Distinct : DictValue Key Leaf → Prop
  | .leaf _ => True
  | .dict items => items.Distinct

/-- Neither the items nor a dictionary inside them has a key twice. -/
def Items.Distinct : Items Key Leaf → Prop
  | .nil => True
  | .cons key value rest => key ∉ rest.keys ∧ value.Distinct ∧ rest.Distinct

end

/-- A dictionary: no key is there twice, at any depth. -/
@[ext] structure Dict (Key Leaf : Type) where
  items : Items Key Leaf
  distinct : items.Distinct

@[simp] theorem Items.keys_nil : (Items.nil : Items Key Leaf).keys = [] := rfl

@[simp] theorem Items.keys_cons (key : Key) (value : DictValue Key Leaf) (rest : Items Key Leaf) :
    (Items.cons key value rest).keys = key :: rest.keys := rfl

section Access

variable [DecidableEq Key]

/-- `dict.get(key)`, where `none` is an absent key. -/
def Items.get (key : Key) : Items Key Leaf → Option (DictValue Key Leaf)
  | .nil => none
  | .cons other value rest => if other = key then some value else rest.get key

/-- `dict[key] = value`. -/
def Items.put (key : Key) (value : DictValue Key Leaf) : Items Key Leaf → Items Key Leaf
  | .nil => .cons key value .nil
  | .cons other old rest =>
    if other = key then .cons other value rest else .cons other old (rest.put key value)

/-- What a path of keys leads to. -/
def DictValue.at : DictValue Key Leaf → List Key → Option (DictValue Key Leaf)
  | node, [] => some node
  | .leaf _, _ :: _ => none
  | .dict items, key :: path => (items.get key).bind (·.at path)

/-- What a path of keys leads to, from the dictionary itself. -/
def Dict.at (dict : Dict Key Leaf) (path : List Key) : Option (DictValue Key Leaf) :=
  (DictValue.dict dict.items).at path

@[simp] theorem DictValue.at_nil (node : DictValue Key Leaf) : node.at [] = some node := by
  cases node <;> rfl

@[simp] theorem DictValue.dict_at_cons (items : Items Key Leaf) (key : Key) (path : List Key) :
    (DictValue.dict items).at (key :: path) = (items.get key).bind (·.at path) := rfl

end Access

/-- Along the items of one dictionary, whatever is inside them. -/
@[elab_as_elim, induction_eliminator]
theorem Items.along {motive : Items Key Leaf → Prop} (nil : motive .nil)
    (cons : ∀ key value rest, motive rest → motive (.cons key value rest)) :
    ∀ items, motive items
  | .nil => nil
  | .cons key value rest => cons key value rest (Items.along nil cons rest)

variable [DecidableEq Key]

/-- Only a dictionary leads to a dictionary. -/
theorem DictValue.eq_dict_of_at {node : DictValue Key Leaf} {path : List Key}
    {items : Items Key Leaf} (leads : node.at path = some (.dict items)) :
    ∃ here, node = .dict here := by
  cases node with
  | dict here => exact ⟨here, rfl⟩
  | leaf value => cases path <;> exact nomatch leads

/-! ## Reading back what was put -/

theorem Items.get_eq_none {key : Key} {items : Items Key Leaf} :
    items.get key = none ↔ key ∉ items.keys := by
  induction items with
  | nil => simp [Items.get]
  | cons other value rest ih =>
    by_cases same : other = key
    · simp [Items.get, same]
    · simp [Items.get, same, ih, Ne.symm same]

theorem Items.mem_keys {key : Key} {items : Items Key Leaf} :
    key ∈ items.keys ↔ ∃ value, items.get key = some value := by
  rw [← Option.ne_none_iff_exists', ne_eq, Items.get_eq_none, not_not]

theorem Items.get_put_self (key : Key) (value : DictValue Key Leaf) (items : Items Key Leaf) :
    (items.put key value).get key = some value := by
  induction items with
  | nil => simp [Items.put, Items.get]
  | cons other old rest ih =>
    by_cases same : other = key
    · simp [Items.put, Items.get, same]
    · simp [Items.put, Items.get, same, ih]

theorem Items.get_put_ne {key other : Key} (differ : other ≠ key) (value : DictValue Key Leaf)
    (items : Items Key Leaf) : (items.put key value).get other = items.get other := by
  induction items with
  | nil => simp [Items.put, Items.get, differ.symm]
  | cons first old rest ih =>
    by_cases same : first = key
    · simp [Items.put, Items.get, same, differ.symm]
    · simp [Items.put, Items.get, same, ih]

/-- Assigning the value a key already has changes nothing, not even the order. -/
theorem Items.put_get {key : Key} {value : DictValue Key Leaf} {items : Items Key Leaf}
    (here : items.get key = some value) : items.put key value = items := by
  induction items with
  | nil => exact nomatch here
  | cons other old rest ih =>
    by_cases same : other = key
    · rw [Items.get, if_pos same] at here
      rw [Items.put, if_pos same, Option.some.inj here]
    · rw [Items.get, if_neg same] at here
      rw [Items.put, if_neg same, ih here]

theorem Items.mem_keys_put {key other : Key} {value : DictValue Key Leaf} {items : Items Key Leaf} :
    other ∈ (items.put key value).keys ↔ other = key ∨ other ∈ items.keys := by
  by_cases same : other = key
  · simp [Items.mem_keys, same, Items.get_put_self]
  · simp [Items.mem_keys, same, Items.get_put_ne same]

/-- Putting a value keeps the keys distinct. -/
theorem Items.Distinct.put {key : Key} {value : DictValue Key Leaf} {items : Items Key Leaf}
    (distinct : items.Distinct) (within : value.Distinct) : (items.put key value).Distinct := by
  induction items with
  | nil => exact ⟨List.not_mem_nil, within, trivial⟩
  | cons other old rest ih =>
    obtain ⟨fresh, inOld, inRest⟩ := distinct
    by_cases same : other = key
    · rw [Items.put, if_pos same]
      exact ⟨fresh, within, inRest⟩
    · rw [Items.put, if_neg same]
      refine ⟨?_, inOld, ih inRest⟩
      rw [Items.mem_keys_put]
      exact not_or.mpr ⟨same, fresh⟩

/-- The values of a dictionary with distinct keys have distinct keys inside. -/
theorem Items.Distinct.get {key : Key} {value : DictValue Key Leaf} {items : Items Key Leaf}
    (distinct : items.Distinct) (here : items.get key = some value) : value.Distinct := by
  induction items with
  | nil => exact nomatch here
  | cons other old rest ih =>
    obtain ⟨-, inOld, inRest⟩ := distinct
    rw [Items.get] at here
    split at here
    · exact Option.some.inj here ▸ inOld
    · exact ih inRest here

end Python
