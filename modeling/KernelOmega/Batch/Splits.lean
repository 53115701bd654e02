import KernelOmega.Batch.Sequence
import KernelOmega.Search.System
import Mathlib.Tactic.Linarith

/-!
# Where the batches are cut

A result earns a bonus for every test fewer that fails than failed at its parent. The parent
is read from the store, so a result of the parent counts only if it came in an earlier batch:
what a result earns depends on where the sequence is cut. The visits and the reported tests
do not.
-/

namespace KernelOmega

open Concurrent

/-! ## What a result earns -/

/-- The part of a reward that does not look at the parent. -/
def baseReward (pack : VerificationPack) : Rat :=
  100 * pack.testsPassed - 200 * pack.testsFailed - pack.runtime / 100

/-- The bonus for failing fewer tests than the parent. -/
def bonus (pack : VerificationPack) (parentFailed : Int) : Rat :=
  if pack.testsFailed < parentFailed then 500 * ((parentFailed - pack.testsFailed : Int) : Rat) else 0

/-- The reward is that of the pack alone and a bonus for what it improves on its parent. -/
theorem computeReward_eq (pack : VerificationPack) (parentData : Option NodeHash) :
    GlobalMemory.computeReward pack parentData =
      baseReward pack + bonus pack ((parentData.bind (·.testsFailed)).getD 999) := by
  have improves : ∀ parentFailed : Int,
      (if pack.testsFailed < parentFailed then
        baseReward pack + 500 * ((parentFailed - pack.testsFailed : Int) : Rat)
      else baseReward pack) = baseReward pack + bonus pack parentFailed := by
    intro parentFailed
    unfold bonus
    split
    · rfl
    · rw [add_zero]
  cases parentData with
  | none => exact improves 999
  | some parent => exact improves (parent.testsFailed.getD 999)

/-- What a field holds after the results of `packs`, when it held what the store says. -/
def reported {α : Type} (field : HashField α) (value : VerificationPack → α) (r : Redis)
    (packs : List VerificationPack) (id : String) : Option α :=
  ((packs.filter (·.capsuleId = id)).getLast?.map value <|> field.of r id)

/-- The failed tests of a result's parent after the results of `packs`. -/
def parentFailed (r : Redis) (packs : List VerificationPack) (pack : VerificationPack) : Int :=
  match HashField.parent.of r pack.capsuleId with
  | none => 999
  | some p =>
    if p = "" then 999 else (reported .testsFailed VerificationPack.testsFailed r packs p).getD 999

/-- What is reported last counts, so a second batch speaks first. -/
theorem reported_append {α : Type} (field : HashField α) (value : VerificationPack → α) (r : Redis)
    (xs ys : List VerificationPack) (id : String) :
    reported field value r (xs ++ ys) id =
      ((ys.filter (·.capsuleId = id)).getLast?.map value <|> reported field value r xs id) := by
  unfold reported
  rw [List.filter_append, List.getLast?_append]
  cases (ys.filter (·.capsuleId = id)).getLast? <;> rfl

/-- The results of the sequence belong to the tree: each names a node, and its walk to the root
ends. -/
structure Belongs (fuel : Nat) (r : Redis) (pack : VerificationPack) : Prop where
  named : pack.capsuleId ≠ ""
  treeId : ∃ taskId, HashField.treeId.of r pack.capsuleId = some taskId
  walk : ∃ path, GlobalMemory.walk r fuel pack.capsuleId = .ok path

/-- The nodes a result counts at. -/
def pathOf (fuel : Nat) (r : Redis) (pack : VerificationPack) : List String :=
  (GlobalMemory.walk r fuel pack.capsuleId).toOption.getD []

section Links

variable {fuel : Nat} {r r' : Redis} {pack : VerificationPack}

/-- The walk follows the links. -/
theorem SameLinks.walk (same : SameLinks r r') (fuel : Nat) (current : String) :
    GlobalMemory.walk r' fuel current = GlobalMemory.walk r fuel current := by
  induction fuel generalizing current with
  | zero => rfl
  | succ fuel ih =>
    have link : (r'.hashes current).bind (·.parent) = (r.hashes current).bind (·.parent) :=
      same.parent current
    rw [GlobalMemory.walk, GlobalMemory.walk, link, ih]

theorem SameLinks.pathOf (same : SameLinks r r') : pathOf fuel r' pack = pathOf fuel r pack := by
  rw [KernelOmega.pathOf, KernelOmega.pathOf, same.walk]

/-- Whether a pack belongs to the tree is a matter of the links. -/
theorem Belongs.congr (belongs : Belongs fuel r pack) (same : SameLinks r r') :
    Belongs fuel r' pack where
  named := belongs.named
  treeId := by
    rw [same.treeId]
    exact belongs.treeId
  walk := by
    rw [same.walk]
    exact belongs.walk

/-- A walk starts at its node. -/
theorem Belongs.count_pos (belongs : Belongs fuel r pack) :
    0 < (pathOf fuel r pack).count pack.capsuleId := by
  obtain ⟨path, walked⟩ := belongs.walk
  rw [pathOf, walked]
  cases fuel with
  | zero =>
    rw [GlobalMemory.walk, if_neg belongs.named] at walked
    cases walked
  | succ fuel =>
    rw [GlobalMemory.walk, if_neg belongs.named] at walked
    cases rest : GlobalMemory.walk r fuel (((r.hashes pack.capsuleId).bind (·.parent)).getD "") with
    | error e =>
      rw [rest] at walked
      cases walked
    | ok above =>
      rw [rest] at walked
      obtain rfl := Except.ok.inj walked
      exact List.count_pos_iff.mpr List.mem_cons_self

/-- What a result of the tree queues. -/
theorem Belongs.queued (belongs : Belongs fuel r pack) (now : Nat) :
    ∃ node taskId, r.hashes pack.capsuleId = some node ∧
      GlobalMemory.queued fuel now r pack =
        .ok (GlobalMemory.resultOps now r pack node taskId (pathOf fuel r pack)) := by
  obtain ⟨taskId, treeId⟩ := belongs.treeId
  obtain ⟨path, walked⟩ := belongs.walk
  obtain ⟨node, found, named⟩ := Option.bind_eq_some_iff.mp treeId
  refine ⟨node, taskId, found, ?_⟩
  have named : node.treeId = some taskId := named
  rw [GlobalMemory.queued, found]
  dsimp only
  rw [named, pathOf, walked]
  rfl

/-- What a result earns against a store in which the results of `packs` are reported. -/
theorem reward_eq {packs : List VerificationPack} {node : NodeHash} (same : SameLinks r r')
    (holds : ∀ id, HashField.testsFailed.of r' id =
      reported .testsFailed VerificationPack.testsFailed r packs id)
    (found : r'.hashes pack.capsuleId = some node) :
    GlobalMemory.reward r' pack node = baseReward pack + bonus pack (parentFailed r packs pack) := by
  have link : HashField.parent.of r pack.capsuleId = node.parent := by
    rw [← same.parent, HashField.of, found]
    rfl
  have failed : ((GlobalMemory.parentHash r' node).bind (·.testsFailed)).getD 999 =
      parentFailed r packs pack := by
    rw [parentFailed, link, GlobalMemory.parentHash]
    cases node.parent with
    | none => rfl
    | some p =>
      by_cases top : p = ""
      · rw [Option.getD_some, if_pos top]
        exact (if_pos top).symm
      · rw [Option.getD_some, if_neg top]
        refine Eq.trans ?_ (if_neg top).symm
        rw [← holds p, HashField.of]
        rfl
  rw [GlobalMemory.reward, computeReward_eq, failed]

end Links

/-! ## Runs over a cut -/

/-- What a result adds to a node's value, when the results of `seen` are in the store. -/
def credit (fuel : Nat) (r : Redis) (id : String) (seen : List VerificationPack)
    (pack : VerificationPack) : Rat :=
  (pathOf fuel r pack).count id • (baseReward pack + bonus pack (parentFailed r seen pack))

/-- What the results of a cut add to a node's value, each against the batches before its own. -/
def credits (fuel : Nat) (r : Redis) (id : String) :
    (seen : List VerificationPack) → List (List VerificationPack) → List Rat
  | _, [] => []
  | seen, batch :: rest =>
    batch.map (credit fuel r id seen) ++ credits fuel r id (seen ++ batch) rest

/-- The store after the results of `seen`, and nothing else, since `r`. -/
structure After (fuel : Nat) (r : Redis) (seen : List VerificationPack) (w : World) : Prop where
  links : SameLinks r w.redis
  failed : ∀ id, HashField.testsFailed.of w.redis id =
    reported .testsFailed VerificationPack.testsFailed r seen id
  passed : ∀ id, HashField.testsPassed.of w.redis id =
    reported .testsPassed VerificationPack.testsPassed r seen id
  visits : ∀ id, visitsOf w.redis id =
    visitsOf r id + (seen.map fun pack => ((pathOf fuel r pack).count id : Int)).sum
  drained : w.redis.Drained

section Cut

variable {fuel : Nat} {r : Redis} {seen : List VerificationPack} {w w' : World}
  {batch : List VerificationPack}

/-- The operations of a pack that belongs to the tree, after other results: its path is that of the
first store, as no result moves a node. -/
theorem opsOf_belongs {pack : VerificationPack} (belongs : Belongs fuel r pack)
    (after : After fuel r seen w) :
    ∃ node taskId, w.redis.hashes pack.capsuleId = some node ∧
      GlobalMemory.opsOf fuel w.clock w.redis pack =
        GlobalMemory.resultOps w.clock w.redis pack node taskId (pathOf fuel r pack) := by
  obtain ⟨node, taskId, found, queues⟩ := (belongs.congr after.links).queued w.clock
  refine ⟨node, taskId, found, ?_⟩
  rw [GlobalMemory.opsOf, queues, after.links.pathOf]

/-- A turn on results of the tree returns. -/
theorem turnOn_returns (after : After fuel r seen w) (short : batch.length ≤ 50)
    (belong : ∀ pack ∈ batch, Belongs fuel r pack) :
    ∃ w', w.turnOn fuel batch = (.ok (), w') := by
  obtain ⟨messages, decoded, r', pg, -, -, runs⟩ :=
    GlobalMemory.turnOn_alone fuel after.drained short
  have queues : ∀ (messages : List ResultMessage) (batch : List VerificationPack),
      messages.map (·.pack) = batch.map .ok → (∀ pack ∈ batch, Belongs fuel r pack) →
      ∃ ops, GlobalMemory.queuedBatch fuel w.clock w.redis messages = .ok ops := by
    intro messages
    induction messages with
    | nil => exact fun _ _ _ => ⟨[], rfl⟩
    | cons message rest ih =>
      intro batch decoded belong
      cases batch with
      | nil => cases decoded
      | cons pack batch =>
        obtain ⟨first, later⟩ := List.cons.inj decoded
        dsimp only at first
        obtain ⟨node, taskId, -, own⟩ :=
          ((belong pack List.mem_cons_self).congr after.links).queued w.clock
        obtain ⟨more, others⟩ := ih batch later fun p mem => belong p (List.mem_cons_of_mem pack mem)
        rw [GlobalMemory.queuedBatch, first]
        dsimp only
        rw [own, others]
        exact ⟨_, rfl⟩
  obtain ⟨ops, queued⟩ := queues messages batch decoded belong
  rw [queued] at runs
  exact ⟨_, runs⟩

/-- The last of the fields a batch sets. -/
theorem reports_batch {α : Type} {field : HashField α} {value : VerificationPack → α}
    (reports : GlobalMemory.Reports field value) (after : After fuel r seen w)
    (belong : ∀ pack ∈ batch, Belongs fuel r pack) (id : String) :
    (batch.flatMap fun pack => (GlobalMemory.opsOf fuel w.clock w.redis pack).filterMap
      (field.set id)).getLast? = (batch.filter (·.capsuleId = id)).getLast?.map value := by
  induction batch with
  | nil => rfl
  | cons pack rest ih =>
    obtain ⟨node, taskId, -, own⟩ := opsOf_belongs (belong pack List.mem_cons_self) after
    rw [List.flatMap_cons, List.getLast?_append,
      ih fun p mem => belong p (List.mem_cons_of_mem pack mem), own,
      GlobalMemory.resultOps_reports reports, List.filter_cons]
    by_cases here : pack.capsuleId = id
    · subst here
      have counted := (belong pack List.mem_cons_self).count_pos
      obtain ⟨n, times⟩ := Nat.exists_eq_add_of_lt counted
      rw [if_pos rfl, if_pos (by exact decide_eq_true rfl), times, List.getLast?_cons,
        List.getLast?_replicate]
      cases (rest.filter (·.capsuleId = pack.capsuleId)).getLast? with
      | none => simp
      | some last => rfl
    · rw [if_neg here, if_neg (by simpa using here), List.getLast?_nil, Option.or_none]

/-- What a turn adds, against the results before it. -/
theorem After.turn (linked : Linked r) (after : After fuel r seen w) (short : batch.length ≤ 50)
    (belong : ∀ pack ∈ batch, Belongs fuel r pack)
    (returns : w.turnOn fuel batch = (.ok (), w')) :
    After fuel r (seen ++ batch) w' ∧ ∀ id, valueOf w'.redis id =
      valueOf w.redis id + (batch.map (credit fuel r id seen)).sum := by
  have turned := GlobalMemory.turnOn_turned after.drained short returns
  refine ⟨⟨?_, ?_, ?_, ?_, turned.drained⟩, ?_⟩
  · exact after.links.trans (turned.links (linked.congr after.links))
  · intro id
    rw [turned.field, reports_batch GlobalMemory.reports_testsFailed after belong,
      reported_append, after.failed]
  · intro id
    rw [turned.field, reports_batch GlobalMemory.reports_testsPassed after belong,
      reported_append, after.passed]
  · intro id
    rw [turned.visits, after.visits, List.map_append, List.sum_append, add_assoc]
    refine congrArg (fun n => visitsOf r id + (_ + n)) (congrArg List.sum ?_)
    refine List.map_congr_left fun pack mem => ?_
    obtain ⟨node, taskId, -, own⟩ := opsOf_belongs (belong pack mem) after
    rw [own, GlobalMemory.resultOps_visitsAdded]
  · intro id
    rw [turned.values]
    refine congrArg (valueOf w.redis id + ·) (congrArg List.sum ?_)
    refine List.map_congr_left fun pack mem => ?_
    obtain ⟨node, taskId, found, own⟩ := opsOf_belongs (belong pack mem) after
    rw [own, GlobalMemory.resultOps_valueAdded, credit,
      reward_eq after.links after.failed found]

/-- The runs over a cut of results of the tree return, and what they leave. -/
theorem After.run (linked : Linked r) {cut : List (List VerificationPack)}
    (after : After fuel r seen w) (short : ∀ batch ∈ cut, batch.length ≤ 50)
    (belong : ∀ pack ∈ cut.flatten, Belongs fuel r pack) :
    ∃ w', w.rememberAll fuel cut = .ok w' ∧ After fuel r (seen ++ cut.flatten) w' ∧
      ∀ id, valueOf w'.redis id = valueOf w.redis id + (credits fuel r id seen cut).sum := by
  induction cut generalizing seen w with
  | nil =>
    refine ⟨w, rfl, ?_, fun id => (add_zero _).symm⟩
    rw [List.flatten_nil, List.append_nil]
    exact after
  | cons batch rest ih =>
    rw [List.flatten_cons] at belong ⊢
    have first : ∀ pack ∈ batch, Belongs fuel r pack :=
      fun pack mem => belong pack (List.mem_append_left _ mem)
    have shortFirst := short batch List.mem_cons_self
    obtain ⟨between, turn⟩ := turnOn_returns after shortFirst first
    obtain ⟨after', values⟩ := after.turn linked shortFirst first turn
    obtain ⟨w', runs, last, values'⟩ := ih after'
      (fun b mem => short b (List.mem_cons_of_mem batch mem))
      fun pack mem => belong pack (List.mem_append_right _ mem)
    refine ⟨w', ?_, ?_, fun id => ?_⟩
    · rw [World.rememberAll, turn]
      exact runs
    · rw [← List.append_assoc]
      exact last
    · rw [values', values, credits, List.sum_append, add_assoc]

end Cut

/-! ## One result at a time -/

/-- What the results add when every batch is a single one. -/
def singly (fuel : Nat) (r : Redis) (id : String) :
    (seen : List VerificationPack) → List VerificationPack → List Rat
  | _, [] => []
  | seen, pack :: rest => credit fuel r id seen pack :: singly fuel r id (seen ++ [pack]) rest

/-- Against every count of its parent's failed tests that a batch with it can find, from the
results before it and at most fifty results back, the result earns the same bonus. -/
def SteadyAt (r : Redis) (before : List VerificationPack) (pack : VerificationPack) : Prop :=
  ∀ seen, seen <+: before → before.length < seen.length + 50 →
    bonus pack (parentFailed r seen pack) = bonus pack (parentFailed r before pack)

/-- Every result of the sequence earns the same bonus wherever the batches are cut. -/
def Steady (r : Redis) (packs : List VerificationPack) : Prop :=
  ∀ before pack rest, packs = before ++ pack :: rest → SteadyAt r before pack

section Singly

variable {fuel : Nat} {r : Redis} {id : String} {seen : List VerificationPack}

theorem credit_of_bonus {seen' : List VerificationPack} {pack : VerificationPack}
    (same : bonus pack (parentFailed r seen pack) = bonus pack (parentFailed r seen' pack)) :
    credit fuel r id seen pack = credit fuel r id seen' pack := by
  rw [credit, credit, same]

/-- The credits of results one at a time, part by part, -/
theorem singly_append (xs ys : List VerificationPack) :
    singly fuel r id seen (xs ++ ys) = singly fuel r id seen xs ++ singly fuel r id (seen ++ xs) ys := by
  induction xs generalizing seen with
  | nil => rw [List.append_nil]; rfl
  | cons pack rest ih =>
    rw [List.cons_append, singly, singly, ih, List.cons_append, List.append_assoc,
      List.singleton_append]

/-- A batch of steady results adds what its results add one at a time. -/
theorem batch_eq_singly {batch : List VerificationPack}
    (steady : ∀ before pack rest, batch = before ++ pack :: rest →
      bonus pack (parentFailed r seen pack) = bonus pack (parentFailed r (seen ++ before) pack)) :
    batch.map (credit fuel r id seen) = singly fuel r id seen batch := by
  suffices split : ∀ done todo, batch = done ++ todo →
      todo.map (credit fuel r id seen) = singly fuel r id (seen ++ done) todo by
    have whole := split [] batch rfl
    rwa [List.append_nil] at whole
  intro done todo
  induction todo generalizing done with
  | nil => exact fun _ => rfl
  | cons pack rest ih =>
    intro whole
    have later := ih (done ++ [pack]) (by rw [whole, List.append_assoc, List.singleton_append])
    rw [List.map_cons, singly, later, credit_of_bonus (steady done pack rest whole),
      List.append_assoc]

/-- and those of batches. -/
theorem credits_append (xs ys : List (List VerificationPack)) :
    credits fuel r id seen (xs ++ ys) =
      credits fuel r id seen xs ++ credits fuel r id (seen ++ xs.flatten) ys := by
  induction xs generalizing seen with
  | nil => rw [List.flatten_nil, List.append_nil]; rfl
  | cons batch rest ih =>
    rw [List.cons_append, credits, credits, ih, List.flatten_cons, List.append_assoc,
      List.append_assoc]

/-- One result at a time is a cut into batches of one. -/
theorem credits_singletons (packs : List VerificationPack) :
    credits fuel r id seen (packs.map ([·])) = singly fuel r id seen packs := by
  induction packs generalizing seen with
  | nil => rfl
  | cons pack rest ih =>
    rw [List.map_cons, credits, ih, singly]
    rfl

/-- Any cut of a steady sequence adds what its results add one at a time. -/
theorem credits_eq_singly {cut : List (List VerificationPack)}
    (short : ∀ batch ∈ cut, batch.length ≤ 50)
    (steady : Steady r (seen ++ cut.flatten)) :
    credits fuel r id seen cut = singly fuel r id seen cut.flatten := by
  induction cut generalizing seen with
  | nil => rfl
  | cons batch rest ih =>
    rw [List.flatten_cons] at steady ⊢
    have first : batch.map (credit fuel r id seen) = singly fuel r id seen batch := by
      refine batch_eq_singly fun before pack tail whole => ?_
      have within := short batch List.mem_cons_self
      refine steady (seen ++ before) pack (tail ++ rest.flatten) ?_ seen
        (List.prefix_append seen before) ?_
      · rw [whole]
        simp only [List.append_assoc, List.cons_append]
      · have length := congrArg List.length whole
        rw [List.length_append, List.length_cons] at length
        rw [List.length_append]
        omega
    rw [credits, first, singly_append,
      ih (fun b mem => short b (List.mem_cons_of_mem batch mem))
        (by rwa [List.append_assoc])]

end Singly

/-! ## Cuts of one sequence -/

/-- A way in which `xreadgroup` can cut the sequence, at most fifty results at a time. -/
structure Cut (packs : List VerificationPack) (cut : List (List VerificationPack)) : Prop where
  flatten : cut.flatten = packs
  short : ∀ batch ∈ cut, batch.length ≤ 50

theorem flatten_singletons {α : Type} (xs : List α) : (xs.map ([·])).flatten = xs := by
  induction xs with
  | nil => rfl
  | cons x xs ih => rw [List.map_cons, List.flatten_cons, ih, List.singleton_append]

theorem singletons_short {α : Type} (xs : List α) : ∀ batch ∈ xs.map ([·]), batch.length ≤ 50 := by
  intro batch mem
  obtain ⟨x, -, rfl⟩ := List.mem_map.mp mem
  exact Nat.le_of_ble_eq_true rfl

theorem cut_singletons (packs : List VerificationPack) : Cut packs (packs.map ([·])) :=
  ⟨flatten_singletons packs, singletons_short packs⟩

/-- One result at a time, but for a result that shares its batch with those just before it. -/
def widened (seen between : List VerificationPack) (pack : VerificationPack)
    (rest : List VerificationPack) : List (List VerificationPack) :=
  seen.map ([·]) ++ ((between ++ [pack]) :: rest.map ([·]))

section Widened

variable {seen between rest : List VerificationPack} {pack : VerificationPack}

/-- A result and those just before it fit into one batch, if they are fifty at most. -/
theorem cut_widened (room : between.length < 50) :
    Cut (seen ++ between ++ pack :: rest) (widened seen between pack rest) where
  flatten := by
    rw [widened, List.flatten_append, List.flatten_cons, flatten_singletons, flatten_singletons]
    simp only [List.append_assoc, List.singleton_append]
  short := by
    intro batch mem
    rcases List.mem_append.mp mem with mem | mem
    · exact singletons_short seen batch mem
    · rcases List.mem_cons.mp mem with rfl | mem
      · rw [List.length_append, List.length_singleton]
        omega
      · exact singletons_short rest batch mem

/-- The credits when a result shares its batch with those before it: it is measured against what was
seen before all of them. -/
theorem credits_widened (fuel : Nat) (r : Redis) (id : String) :
    (credits fuel r id [] (widened seen between pack rest)).sum =
      (singly fuel r id [] seen).sum + ((between.map (credit fuel r id seen)).sum +
        (credit fuel r id seen pack +
          (singly fuel r id (seen ++ (between ++ [pack])) rest).sum)) := by
  rw [widened, credits_append, credits_singletons, flatten_singletons, List.nil_append, credits,
    credits_singletons, List.map_append, List.sum_append, List.sum_append, List.sum_append,
    List.map_singleton, List.sum_singleton, add_assoc]

/-- The credits of the same results one at a time. -/
theorem singly_split (fuel : Nat) (r : Redis) (id : String) :
    (singly fuel r id [] (seen ++ between ++ pack :: rest)).sum =
      (singly fuel r id [] seen).sum + ((singly fuel r id seen between).sum +
        (credit fuel r id (seen ++ between) pack +
          (singly fuel r id (seen ++ (between ++ [pack])) rest).sum)) := by
  rw [List.append_assoc, singly_append, singly_append, singly, List.nil_append, List.sum_append,
    List.sum_append, List.sum_cons, List.append_assoc]

end Widened

/-- A sequence whose values do not depend on the cut is steady: a result that is not steady is
put into a batch of its own, and into one that starts further back. -/
theorem steady_of_credits {fuel : Nat} {r : Redis} {packs : List VerificationPack}
    (belong : ∀ pack ∈ packs, Belongs fuel r pack)
    (agree : ∀ cut cut', Cut packs cut → Cut packs cut' → ∀ id,
      (credits fuel r id [] cut).sum = (credits fuel r id [] cut').sum) : Steady r packs := by
  intro before
  -- The results before this one are steady already, so the two cuts differ in nothing else.
  induction size : before.length using Nat.strong_induction_on generalizing before with
  | _ n ih =>
    intro pack rest whole seen back window
    obtain ⟨between, rfl⟩ := back
    rw [List.length_append] at size window
    have same := agree _ _ (whole ▸ cut_widened (by omega)) (cut_singletons packs) pack.capsuleId
    have steadyBetween : between.map (credit fuel r pack.capsuleId seen) =
        singly fuel r pack.capsuleId seen between := by
      refine batch_eq_singly fun before' pack' rest' inside => ?_
      have lengths := congrArg List.length inside
      rw [List.length_append, List.length_cons] at lengths
      refine ih (seen ++ before').length ?_ (seen ++ before') rfl pack' (rest' ++ pack :: rest) ?_
        seen (List.prefix_append seen before') ?_
      · rw [List.length_append]
        omega
      · rw [whole, inside]
        simp only [List.append_assoc, List.cons_append]
      · rw [List.length_append]
        omega
    rw [credits_singletons, credits_widened, whole, singly_split, steadyBetween] at same
    have credited : credit fuel r pack.capsuleId seen pack =
        credit fuel r pack.capsuleId (seen ++ between) pack := by
      linarith
    have counted := (belong pack (by rw [whole]; simp)).count_pos
    have positive : ((pathOf fuel r pack).count pack.capsuleId : Rat) ≠ 0 := by
      exact_mod_cast counted.ne'
    rw [credit, credit, nsmul_eq_mul, nsmul_eq_mul] at credited
    exact add_left_cancel (mul_left_cancel₀ positive credited)

/-! ## What depends on the cut -/

/-- The statistics of every node are the same. -/
structure SameStatistics (r r' : Redis) : Prop where
  visits : ∀ id, visitsOf r id = visitsOf r' id
  values : ∀ id, valueOf r id = valueOf r' id
  testsFailed : ∀ id, HashField.testsFailed.of r id = HashField.testsFailed.of r' id
  testsPassed : ∀ id, HashField.testsPassed.of r id = HashField.testsPassed.of r' id

/-- For every linked tree and every sequence of results for its nodes, the visits and the
reported tests do not depend on how the sequence is cut into batches, and all statistics are
independent of the cut exactly when every result earns the same bonus wherever it is cut. -/
theorem cuts_agree_iff (fuel : Nat) (w : World) (packs : List VerificationPack)
    (drained : w.redis.Drained) (linked : Linked w.redis)
    (belong : ∀ pack ∈ packs, Belongs fuel w.redis pack) :
    (∀ cut cut', Cut packs cut → Cut packs cut' → ∀ w₁ w₂, w.rememberAll fuel cut = .ok w₁ →
      w.rememberAll fuel cut' = .ok w₂ →
        (∀ id, visitsOf w₁.redis id = visitsOf w₂.redis id) ∧
        (∀ id, HashField.testsFailed.of w₁.redis id = HashField.testsFailed.of w₂.redis id) ∧
        ∀ id, HashField.testsPassed.of w₁.redis id = HashField.testsPassed.of w₂.redis id) ∧
    ((∀ cut cut', Cut packs cut → Cut packs cut' → ∀ w₁ w₂, w.rememberAll fuel cut = .ok w₁ →
      w.rememberAll fuel cut' = .ok w₂ → SameStatistics w₁.redis w₂.redis) ↔
        Steady w.redis packs) := by
  have start : After fuel w.redis [] w :=
    ⟨.refl _, fun _ => rfl, fun _ => rfl, fun _ => (add_zero _).symm, drained⟩
  have runs : ∀ cut, Cut packs cut → ∃ w', w.rememberAll fuel cut = .ok w' ∧
      After fuel w.redis packs w' ∧
        ∀ id, valueOf w'.redis id = valueOf w.redis id + (credits fuel w.redis id [] cut).sum := by
    intro cut isCut
    obtain ⟨w', run, after, values⟩ := start.run linked isCut.short (by rwa [isCut.flatten])
    rw [List.nil_append, isCut.flatten] at after
    exact ⟨w', run, after, values⟩
  have returned : ∀ cut, Cut packs cut → ∀ w', w.rememberAll fuel cut = .ok w' →
      After fuel w.redis packs w' ∧
        ∀ id, valueOf w'.redis id = valueOf w.redis id + (credits fuel w.redis id [] cut).sum := by
    intro cut isCut w' run
    obtain ⟨w'', run', after, values⟩ := runs cut isCut
    obtain rfl := Except.ok.inj (run.symm.trans run')
    exact ⟨after, values⟩
  have common : ∀ cut cut', Cut packs cut → Cut packs cut' → ∀ w₁ w₂,
      w.rememberAll fuel cut = .ok w₁ → w.rememberAll fuel cut' = .ok w₂ →
        (∀ id, visitsOf w₁.redis id = visitsOf w₂.redis id) ∧
        (∀ id, HashField.testsFailed.of w₁.redis id = HashField.testsFailed.of w₂.redis id) ∧
        ∀ id, HashField.testsPassed.of w₁.redis id = HashField.testsPassed.of w₂.redis id := by
    intro cut cut' isCut isCut' w₁ w₂ run run'
    obtain ⟨first, -⟩ := returned cut isCut w₁ run
    obtain ⟨second, -⟩ := returned cut' isCut' w₂ run'
    exact ⟨fun id => (first.visits id).trans (second.visits id).symm,
      fun id => (first.failed id).trans (second.failed id).symm,
      fun id => (first.passed id).trans (second.passed id).symm⟩
  refine ⟨common, ?_, ?_⟩
  · intro agree
    refine steady_of_credits belong fun cut cut' isCut isCut' id => ?_
    obtain ⟨w₁, run, -, values⟩ := runs cut isCut
    obtain ⟨w₂, run', -, values'⟩ := runs cut' isCut'
    have same := (agree cut cut' isCut isCut' w₁ w₂ run run').values id
    rw [values, values'] at same
    exact add_left_cancel same
  · intro steady cut cut' isCut isCut' w₁ w₂ run run'
    obtain ⟨visits, failed, passed⟩ := common cut cut' isCut isCut' w₁ w₂ run run'
    refine ⟨visits, fun id => ?_, failed, passed⟩
    obtain ⟨-, values⟩ := returned cut isCut w₁ run
    obtain ⟨-, values'⟩ := returned cut' isCut' w₂ run'
    have steady₁ : Steady w.redis ([] ++ cut.flatten) := by rwa [List.nil_append, isCut.flatten]
    have steady₂ : Steady w.redis ([] ++ cut'.flatten) := by rwa [List.nil_append, isCut'.flatten]
    rw [values, values', credits_eq_singly isCut.short steady₁,
      credits_eq_singly isCut'.short steady₂, isCut.flatten, isCut'.flatten]

/-! ## A node and its child -/

namespace SmallSearch

/-- A root, its child and its grandchild. -/
def chain : World where
  redis :=
    { hashes := fun id =>
        if id = rootNodeId "t" then some { treeId := some "t", depth := some 0 }
        else if id = "a" then
          some { treeId := some "t", parent := some (rootNodeId "t"), testsFailed := some 10
                 depth := some 1 }
        else if id = "c" then
          some { treeId := some "t", parent := some "a", testsFailed := some 10, depth := some 2 }
        else none }

/-- The parents of the chain's nodes are nodes of the chain. -/
theorem chain_linked : Linked chain.redis := by
  constructor
  · intro id p link
    simp only [HashField.of, chain] at link
    split at link
    · cases link
    · split at link
      · obtain rfl := Option.some.inj link
        exact .inr (by decide)
      · split at link
        · obtain rfl := Option.some.inj link
          exact .inr (by decide)
        · cases link
  · intro id taskId named
    have root : (chain.redis.hashes (rootNodeId "t")).isSome := by decide
    simp only [HashField.of, chain] at named
    split at named
    · obtain rfl := Option.some.inj named
      exact root
    · split at named
      · obtain rfl := Option.some.inj named
        exact root
      · split at named
        · obtain rfl := Option.some.inj named
          exact root
        · cases named

/-- The child fails five tests and the grandchild three. -/
def improving : List VerificationPack := [result "a" 0 5, result "c" 0 3]

theorem improving_belongs : ∀ pack ∈ improving, Belongs 3 chain.redis pack := by
  have walks : ∀ pack ∈ improving, pack.capsuleId ≠ "" ∧
      HashField.treeId.of chain.redis pack.capsuleId = some "t" ∧
      (GlobalMemory.walk chain.redis 3 pack.capsuleId).isOk = true := by
    decide
  intro pack mem
  obtain ⟨named, treeId, ends⟩ := walks pack mem
  refine ⟨named, ⟨"t", treeId⟩, ?_⟩
  cases walked : GlobalMemory.walk chain.redis 3 pack.capsuleId with
  | ok path => exact ⟨path, rfl⟩
  | error e =>
    rw [walked] at ends
    cases ends

/-- In one batch the grandchild is measured against what its parent had before. -/
theorem improving_values :
    chain.redis.Drained ∧
    (chain.rememberAll 3 [improving]).toOption.map (fun w => valueOf w.redis "c") = some 2900 ∧
    (chain.rememberAll 3 (improving.map ([·]))).toOption.map (fun w => valueOf w.redis "c") =
      some 400 := by
  decide +kernel

end SmallSearch

open SmallSearch in
/-- A node's child and grandchild improve on it in one batch, so the cut decides whether the
grandchild is compared with what its parent had before. -/
theorem cuts_agree_iff_improving :
    (∀ cut cut', Cut improving cut → Cut improving cut' → ∀ w₁ w₂,
      chain.rememberAll 3 cut = .ok w₁ → chain.rememberAll 3 cut' = .ok w₂ →
        SameStatistics w₁.redis w₂.redis) ↔ Steady chain.redis improving :=
  (cuts_agree_iff 3 chain improving improving_values.1 chain_linked improving_belongs).2

open SmallSearch in
/-- Two cuts of one batch leave different statistics. -/
theorem not_cuts_agree :
    ¬ ∀ (fuel : Nat) (w : World) (packs : List VerificationPack), w.redis.Drained →
      Linked w.redis → (∀ pack ∈ packs, Belongs fuel w.redis pack) →
      ∀ cut cut', Cut packs cut → Cut packs cut' → ∀ w₁ w₂, w.rememberAll fuel cut = .ok w₁ →
        w.rememberAll fuel cut' = .ok w₂ → SameStatistics w₁.redis w₂.redis := by
  intro agree
  obtain ⟨drained, together, apart⟩ := improving_values
  cases run : chain.rememberAll 3 [improving] with
  | error e =>
    rw [run] at together
    cases together
  | ok w₁ =>
    cases run' : chain.rememberAll 3 (improving.map ([·])) with
    | error e =>
      rw [run'] at apart
      cases apart
    | ok w₂ =>
      rw [run] at together
      rw [run'] at apart
      have oneBatch : Cut improving [improving] := ⟨by simp, by decide⟩
      have same := (agree 3 chain improving drained chain_linked improving_belongs _ _ oneBatch
        (cut_singletons improving) w₁ w₂ run run').values "c"
      have before : valueOf w₁.redis "c" = 2900 := Option.some.inj together
      have after : valueOf w₂.redis "c" = 400 := Option.some.inj apart
      rw [before, after] at same
      exact absurd same (by norm_num)

end KernelOmega
