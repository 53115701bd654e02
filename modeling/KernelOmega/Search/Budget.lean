import KernelOmega.Search.Issued
import KernelOmega.Search.System
import Mathlib.Data.Finset.Card

/-!
# The capsule budget

The budget counter of a task is not the number of reservations granted: a refused
worker has incremented it and not yet decremented it. `owing` is the set of
processes in that position, read off the history, and the invariant is

  counter = granted + number of processes owing.

Once a process owes, every reservation is granted that ever will be, which is what
makes both the refusal and the early exit on a racy read of the counter exact.
-/

namespace KernelOmega

open Concurrent

/-- What a command does to the budget of a task. A reservation is granted or refused
by the reply of its `INCR`. -/
inductive BudgetEvent where
  | granted
  | refused
  | givenBack
  | other
  deriving DecidableEq

section Events

variable {ι : Type}

/-- What an event does to the budget of a task. -/
def budgetEvent (key : String) (limit : Int) : Event ι Cmd Cmd.Reply PyError → BudgetEvent
  | ⟨_, .redis (.incr k), .ok n⟩ =>
    if k = key then (if n ≤ limit then .granted else .refused) else .other
  | ⟨_, .redis (.decr k), .ok _⟩ => if k = key then .givenBack else .other
  | _ => .other

theorem budgetEvent_incr (i : ι) (key : String) (limit n : Int) :
    budgetEvent key limit ⟨i, .redis (.incr key), .ok n⟩ =
      if n ≤ limit then .granted else .refused := by
  simp only [budgetEvent, ↓reduceIte]

theorem budgetEvent_decr (i : ι) (key : String) (limit n : Int) :
    budgetEvent key limit ⟨i, .redis (.decr key), .ok n⟩ = .givenBack := by
  simp only [budgetEvent, ↓reduceIte]

/-- The number of reservations granted so far. -/
def granted (key : String) (limit : Int) (history : History ι) : Nat :=
  history.countP fun e => budgetEvent key limit e = .granted

/-- The processes that have been refused and have not yet given their increment back. -/
def owing [DecidableEq ι] (key : String) (limit : Int) : History ι → Finset ι
  | [] => ∅
  | e :: earlier =>
    match budgetEvent key limit e with
    | .refused => insert e.thread (owing key limit earlier)
    | .givenBack => (owing key limit earlier).erase e.thread
    | _ => owing key limit earlier

variable {key : String} {limit : Int} {e : Event ι Cmd Cmd.Reply PyError} {h : History ι}

theorem granted_cons_of_ne (kind : budgetEvent key limit e ≠ .granted) :
    granted key limit (e :: h) = granted key limit h := by
  simp [granted, kind]

theorem granted_cons_granted (kind : budgetEvent key limit e = .granted) :
    granted key limit (e :: h) = granted key limit h + 1 := by
  simp [granted, kind]

/-- The snapshot after the counter of the task changes by `n` in a reply `v`. -/
def counted (task : SeedTask) (t : Snap ι) (i : ι) (c : RedisCmd) (v : c.Reply) (n : Int) :
    Snap ι where
  world := { t.world with redis := t.world.redis.addToCounter (taskBudgetKey task.taskId) n }
  history := ⟨i, .redis c, .ok v⟩ :: t.history

theorem counted_counter (task : SeedTask) (t : Snap ι) (i : ι) (c : RedisCmd) (v : c.Reply)
    (n : Int) :
    (counted task t i c v n).world.redis.counters (taskBudgetKey task.taskId) =
      some ((t.world.redis.counters (taskBudgetKey task.taskId)).getD 0 + n) := by
  simp only [counted, Redis.addToCounter, Function.update_self]

variable [DecidableEq ι]

theorem owing_cons_other (kind : budgetEvent key limit e = .other) :
    owing key limit (e :: h) = owing key limit h := by
  simp only [owing, kind]

theorem owing_cons_granted (kind : budgetEvent key limit e = .granted) :
    owing key limit (e :: h) = owing key limit h := by
  simp only [owing, kind]

theorem owing_cons_refused (kind : budgetEvent key limit e = .refused) :
    owing key limit (e :: h) = insert e.thread (owing key limit h) := by
  simp only [owing, kind]

theorem owing_cons_givenBack (kind : budgetEvent key limit e = .givenBack) :
    owing key limit (e :: h) = (owing key limit h).erase e.thread := by
  simp only [owing, kind]

end Events

/-! ## Commands that leave the budget alone -/

/-- An operation that leaves the budget of a task and what mirrors it alone, -/
def RedisOp.BudgetQuiet (taskId : String) : RedisOp → Prop
  | .hset _ mapping => mapping.planJson = none ∧ mapping.generatedCapsules = none
  | .incr key => key ≠ taskBudgetKey taskId
  | .set key _ => key ≠ treeBudgetExhaustedKey taskId
  | _ => True

/-- and a command that does. -/
def RedisCmd.BudgetQuiet (taskId : String) : RedisCmd → Prop
  | .hset _ mapping => mapping.planJson = none ∧ mapping.generatedCapsules = none
  | .set key _ _ _ => key ≠ treeBudgetExhaustedKey taskId
  | .incr _ => False
  | .decr _ => False
  | .pipeline ops => ∀ op ∈ ops, op.BudgetQuiet taskId
  | _ => True

def Cmd.BudgetQuiet (taskId : String) : Cmd → Prop
  | .redis c => c.BudgetQuiet taskId
  | _ => True

/-- What of a store the budget argument reads: the plan and the mirrored count of the
root, the counter, and whether the exhausted key is set. -/
structure BudgetView (taskId : String) (r r' : Redis) : Prop where
  root : ∀ root, r.hashes (rootNodeId taskId) = some root →
    ∃ root', r'.hashes (rootNodeId taskId) = some root' ∧ root'.planJson = root.planJson ∧
      root'.generatedCapsules = root.generatedCapsules
  counter : r'.counters (taskBudgetKey taskId) = r.counters (taskBudgetKey taskId)
  exhausted : (r'.strings (treeBudgetExhaustedKey taskId)).isSome →
    (r.strings (treeBudgetExhaustedKey taskId)).isSome

namespace BudgetView

variable {taskId : String} {r r' r'' : Redis}

theorem refl (taskId : String) (r : Redis) : BudgetView taskId r r :=
  ⟨fun root h => ⟨root, h, rfl, rfl⟩, rfl, id⟩

theorem trans (first : BudgetView taskId r r') (last : BudgetView taskId r' r'') :
    BudgetView taskId r r'' := by
  refine ⟨fun root h => ?_, last.counter.trans first.counter, first.exhausted ∘ last.exhausted⟩
  obtain ⟨root', h', plan, count⟩ := first.root root h
  obtain ⟨root'', h'', plan', count'⟩ := last.root root' h'
  exact ⟨root'', h'', plan'.trans plan, count'.trans count⟩

/-- A change of one hash that leaves its plan and its mirrored count alone. -/
theorem modifyHash (taskId : String) (r : Redis) (key : String) {f : NodeHash → NodeHash}
    (plan : ∀ h, (f h).planJson = h.planJson)
    (count : ∀ h, (f h).generatedCapsules = h.generatedCapsules) :
    BudgetView taskId r (r.modifyHash key f) := by
  refine ⟨fun root h => ?_, rfl, id⟩
  by_cases same : rootNodeId taskId = key
  · subst same
    refine ⟨f root, ?_, plan root, count root⟩
    simp only [Redis.modifyHash, Function.update_self, h, Option.getD_some]
  · refine ⟨root, ?_, rfl, rfl⟩
    simp only [Redis.modifyHash, Function.update_of_ne same, h]

theorem hset (taskId : String) (r : Redis) (key : String) {mapping : NodeHash}
    (plan : mapping.planJson = none) (count : mapping.generatedCapsules = none) :
    BudgetView taskId r (r.modifyHash key mapping.update) :=
  modifyHash taskId r key (fun h => by simp [NodeHash.update, plan])
    fun h => by simp [NodeHash.update, count]

theorem putString (taskId : String) (r : Redis) {key : String} (entry : Option StringEntry)
    (other : key ≠ treeBudgetExhaustedKey taskId) :
    BudgetView taskId r (r.putString key entry) := by
  refine ⟨fun root h => ⟨root, h, rfl, rfl⟩, rfl, fun set => ?_⟩
  simpa only [Redis.putString, Function.update_of_ne (Ne.symm other)] using set

/-- An expiry leaves the budget's view as it is, -/
theorem removeString (taskId : String) (r : Redis) (key : String) :
    BudgetView taskId r (r.putString key none) := by
  by_cases same : key = treeBudgetExhaustedKey taskId
  · subst same
    refine ⟨fun root h => ⟨root, h, rfl, rfl⟩, rfl, fun set => ?_⟩
    simp only [Redis.putString, Function.update_self, Option.isSome_none, Bool.false_eq_true] at set
  · exact putString taskId r none same

theorem addToCounter (taskId : String) (r : Redis) {key : String} (n : Int)
    (other : key ≠ taskBudgetKey taskId) : BudgetView taskId r (r.addToCounter key n) := by
  refine ⟨fun root h => ⟨root, h, rfl, rfl⟩, ?_, id⟩
  simp only [Redis.addToCounter, Function.update_of_ne (Ne.symm other)]

/-- A store that differs elsewhere only. -/
theorem of_eq (hashes : r'.hashes = r.hashes) (counters : r'.counters = r.counters)
    (strings : r'.strings = r.strings) : BudgetView taskId r r' := by
  refine ⟨fun root h => ⟨root, ?_, rfl, rfl⟩, ?_, ?_⟩
  · rw [hashes, h]
  · rw [counters]
  · rw [strings]
    exact id

/-- An operation that is quiet leaves the budget's view as it is. -/
theorem apply {op : RedisOp} (quiet : op.BudgetQuiet taskId) (r : Redis) :
    BudgetView taskId r (r.apply op) := by
  cases op with
  | hset key mapping => exact hset taskId r key quiet.1 quiet.2
  | hincrbyVisits key =>
    exact modifyHash taskId r key (f := NodeHash.addVisit) (fun _ => rfl) fun _ => rfl
  | hincrbyfloatValueSum key reward =>
    exact modifyHash taskId r key (f := NodeHash.addValue reward) (fun _ => rfl) fun _ => rfl
  | incr key => exact addToCounter taskId r 1 quiet
  | set key value => exact putString taskId r _ quiet
  | _ => exact of_eq rfl rfl rfl

/-- and a quiet pipeline does. -/
theorem applyAll {ops : List RedisOp} (quiet : ∀ op ∈ ops, op.BudgetQuiet taskId) (r : Redis) :
    BudgetView taskId r (r.applyAll ops) := by
  induction ops generalizing r with
  | nil => exact refl taskId r
  | cons op rest ih =>
    have first := apply (quiet op List.mem_cons_self) r
    exact first.trans (ih (fun o mem => quiet o (List.mem_cons_of_mem op mem)) (r.apply op))

/-- A quiet command leaves the budget's view as it is. -/
theorem exec {c : RedisCmd} (quiet : c.BudgetQuiet taskId) (now : Nat) (r : Redis) :
    BudgetView taskId r (r.exec now c).2 := by
  cases c with
  | hset key mapping => exact hset taskId r key quiet.1 quiet.2
  | set key value nx ex =>
    simp only [Redis.exec]
    split
    · exact refl taskId r
    · exact putString taskId r _ quiet
  | delete key => exact removeString taskId r key
  | incr key => exact quiet.elim
  | decr key => exact quiet.elim
  | pipeline ops => exact applyAll quiet r
  | _ => exact of_eq rfl rfl rfl

end BudgetView

theorem RedisCmd.BudgetQuiet.of_passive {taskId : String} {c : RedisCmd} (passive : c.Passive) :
    c.BudgetQuiet taskId := by
  cases c with
  | incr key => exact passive.elim
  | decr key => exact passive.elim
  | hset key mapping => exact passive.elim
  | set key value nx ex => exact passive.elim
  | pipeline ops => exact passive.elim
  | _ => trivial

theorem Cmd.BudgetQuiet.of_passive {taskId : String} {c : Cmd} (passive : c.Passive) :
    c.BudgetQuiet taskId := by
  cases c with
  | redis c => exact RedisCmd.BudgetQuiet.of_passive passive
  | _ => trivial

/-- A quiet command changes nothing the budget argument reads. -/
theorem BudgetView.world {taskId : String} {c : Cmd} (quiet : c.BudgetQuiet taskId) (x : Choice)
    (w : World) : BudgetView taskId w.redis (World.exec x c w).2.redis := by
  rcases World.exec_redis_cases x c w with same | ⟨command, rfl, after⟩
  · rw [same]
    exact refl taskId _
  · rw [after]
    exact exec quiet w.clock w.redis

/-- A quiet command is no event of the budget. -/
theorem budgetEvent_of_quiet {ι : Type} {taskId : String} {c : Cmd}
    (quiet : c.BudgetQuiet taskId) (i : ι) (reply : Except PyError c.Reply) (key : String)
    (limit : Int) : budgetEvent key limit ⟨i, c, reply⟩ = .other := by
  cases c with
  | redis c =>
    cases c with
    | incr key => exact quiet.elim
    | decr key => exact quiet.elim
    | _ => rfl
  | _ => rfl

/-! ## The invariant -/

section Discipline

variable {ι S : Type} [DecidableEq ι] [LinearOrder S]

/-- The budget invariant of a task: the counter is the grants and the debts, and debts,
refusals and the exhausted key all mean that the budget is used up. -/
structure BudgetInv (task : SeedTask) (s : Snap ι) : Prop where
  root : ∃ root, s.world.redis.hashes (rootNodeId task.taskId) = some root ∧
    root.planJson = some task.plan ∧
      (s.world.redis.counters (taskBudgetKey task.taskId) = none → root.generatedCapsules = some 0)
  counter : (s.world.redis.counters (taskBudgetKey task.taskId)).getD 0 =
    granted (taskBudgetKey task.taskId) task.plan.maxCapsules s.history +
      (owing (taskBudgetKey task.taskId) task.plan.maxCapsules s.history).card
  le : granted (taskBudgetKey task.taskId) task.plan.maxCapsules s.history ≤ task.plan.maxCapsules
  full : (owing (taskBudgetKey task.taskId) task.plan.maxCapsules s.history).Nonempty →
    granted (taskBudgetKey task.taskId) task.plan.maxCapsules s.history = task.plan.maxCapsules
  refused : ∀ later e earlier, s.history = later ++ e :: earlier →
    budgetEvent (taskBudgetKey task.taskId) task.plan.maxCapsules e = .refused →
      granted (taskBudgetKey task.taskId) task.plan.maxCapsules earlier = task.plan.maxCapsules
  exhausted : (s.world.redis.strings (treeBudgetExhaustedKey task.taskId)).isSome →
    granted (taskBudgetKey task.taskId) task.plan.maxCapsules s.history = task.plan.maxCapsules

namespace BudgetInv

variable {task : SeedTask} {s : Snap ι}

/-- Whoever counts the whole budget in the counter finds it granted. -/
theorem granted_eq_of_le_counter (inv : BudgetInv task s)
    (spent : task.plan.maxCapsules ≤ (s.world.redis.counters (taskBudgetKey task.taskId)).getD 0) :
    granted (taskBudgetKey task.taskId) task.plan.maxCapsules s.history =
      task.plan.maxCapsules := by
  by_cases owed : (owing (taskBudgetKey task.taskId) task.plan.maxCapsules s.history).Nonempty
  · exact inv.full owed
  · rw [Finset.not_nonempty_iff_eq_empty] at owed
    have counter := inv.counter
    rw [owed, Finset.card_empty] at counter
    have le := inv.le
    omega

/-- A refusal in a longer history is the newest event or one of the older ones. -/
theorem refused_cons {e : Event ι Cmd Cmd.Reply PyError} (inv : BudgetInv task s)
    (newest : budgetEvent (taskBudgetKey task.taskId) task.plan.maxCapsules e = .refused →
      granted (taskBudgetKey task.taskId) task.plan.maxCapsules s.history =
        task.plan.maxCapsules) :
    ∀ later e' earlier, e :: s.history = later ++ e' :: earlier →
      budgetEvent (taskBudgetKey task.taskId) task.plan.maxCapsules e' = .refused →
        granted (taskBudgetKey task.taskId) task.plan.maxCapsules earlier =
          task.plan.maxCapsules := by
  intro later e' earlier split refused
  cases later with
  | nil =>
    obtain ⟨rfl, rfl⟩ := List.cons.inj split
    exact newest refused
  | cons head later =>
    obtain ⟨rfl, older⟩ := List.cons.inj split
    exact inv.refused later e' earlier older refused

/-- A change outside the budget's view keeps the invariant. -/
theorem of_view (inv : BudgetInv task s) {w : World}
    (view : BudgetView task.taskId s.world.redis w.redis) : BudgetInv task ⟨w, s.history⟩ := by
  obtain ⟨root, found, plan, fresh⟩ := inv.root
  obtain ⟨root', found', plan', count'⟩ := view.root root found
  refine ⟨⟨root', found', plan'.trans plan, fun none => ?_⟩, ?_, inv.le, inv.full, inv.refused,
    fun set => inv.exhausted (view.exhausted set)⟩
  · rw [count']
    exact fresh (view.counter ▸ none)
  · rw [view.counter]
    exact inv.counter

/-- An event that is none of the budget's keeps the invariant. -/
theorem of_other {w : World} (inv : BudgetInv task ⟨w, s.history⟩)
    {e : Event ι Cmd Cmd.Reply PyError}
    (other : budgetEvent (taskBudgetKey task.taskId) task.plan.maxCapsules e = .other) :
    BudgetInv task ⟨w, e :: s.history⟩ := by
  have same : granted (taskBudgetKey task.taskId) task.plan.maxCapsules (e :: s.history) = _ :=
    granted_cons_of_ne (by rw [other]; decide)
  have owed : owing (taskBudgetKey task.taskId) task.plan.maxCapsules (e :: s.history) = _ :=
    owing_cons_other other
  refine ⟨inv.root, ?_, ?_, ?_, inv.refused_cons fun refused => ?_, ?_⟩
  · rw [same, owed]
    exact inv.counter
  · rw [same]
    exact inv.le
  · rw [same, owed]
    exact inv.full
  · rw [other] at refused
    cases refused
  · rw [same]
    exact inv.exhausted

end BudgetInv

/-- What a process knows of the budget between its commands: whether it owes, how much
was granted at least, and that the counter exists once it does. -/
structure BudgetRely (task : SeedTask) (i : ι) (s t : Snap ι) : Prop where
  owes : i ∈ owing (taskBudgetKey task.taskId) task.plan.maxCapsules t.history ↔
    i ∈ owing (taskBudgetKey task.taskId) task.plan.maxCapsules s.history
  granted : granted (taskBudgetKey task.taskId) task.plan.maxCapsules s.history ≤
    granted (taskBudgetKey task.taskId) task.plan.maxCapsules t.history
  counter : s.world.redis.counters (taskBudgetKey task.taskId) ≠ none →
    t.world.redis.counters (taskBudgetKey task.taskId) ≠ none

namespace BudgetRely

variable {task : SeedTask} {i : ι} {s t u : Snap ι}

theorem refl (task : SeedTask) (i : ι) (s : Snap ι) : BudgetRely task i s s :=
  ⟨Iff.rfl, le_refl _, id⟩

theorem trans (first : BudgetRely task i s t) (last : BudgetRely task i t u) :
    BudgetRely task i s u :=
  ⟨last.owes.trans first.owes, first.granted.trans last.granted, last.counter ∘ first.counter⟩

end BudgetRely

/-- The budget discipline: a process touches no other process's debt. -/
def budgetDiscipline (ι : Type) [DecidableEq ι] (task : SeedTask) :
    Discipline ι Cmd Cmd.Reply PyError World where
  known := fun _ => True
  inv := BudgetInv task
  rely := BudgetRely task
  guar := fun i s t => ∀ j, j ≠ i → BudgetRely task j s t
  idle := fun i s => i ∉ owing (taskBudgetKey task.taskId) task.plan.maxCapsules s.history
  rely_refl := BudgetRely.refl task
  rely_trans := fun _ _ _ _ => BudgetRely.trans

variable {setup : SearchSetup ι S} {i : ι}

/-- A step outside the budget's view with an event that is none of the budget's. -/
theorem BudgetInv.step_other {task : SeedTask} {t : Snap ι} (inv : BudgetInv task t) {w : World}
    (view : BudgetView task.taskId t.world.redis w.redis) {e : Event ι Cmd Cmd.Reply PyError}
    (other : budgetEvent (taskBudgetKey task.taskId) task.plan.maxCapsules e = .other) :
    BudgetInv task ⟨w, e :: t.history⟩ ∧ ∀ j, BudgetRely task j t ⟨w, e :: t.history⟩ := by
  refine ⟨(inv.of_view view).of_other other, fun j => ⟨?_, ?_, fun some => ?_⟩⟩
  · rw [owing_cons_other other]
  · rw [granted_cons_of_ne (by rw [other]; decide)]
  · rw [view.counter]
    exact some

/-- A quiet command can be issued anywhere. -/
theorem budget_quiet {c : Cmd} (quiet : c.BudgetQuiet setup.taskId) :
    Quiet setup.system (budgetDiscipline ι setup.task) i c := by
  intro t x _ inv _ _
  have other := budgetEvent_of_quiet quiet i (World.exec x c t.world).1
    (taskBudgetKey setup.taskId) setup.task.plan.maxCapsules
  obtain ⟨inv', rely⟩ := inv.step_other (BudgetView.world quiet x t.world) other
  exact ⟨inv', fun j _ => rely j, rely i⟩

/-! ## The code -/

/-- Rests: the process owes nothing. -/
abbrev Clear (task : SeedTask) (i : ι) (s : Snap ι) : Prop :=
  i ∉ owing (taskBudgetKey task.taskId) task.plan.maxCapsules s.history

theorem Clear.rely {task : SeedTask} {s t : Snap ι} (clear : Clear task i s)
    (rely : BudgetRely task i s t) : Clear task i t :=
  fun owes => clear (rely.owes.mp owes)

theorem budget_passive {c : Cmd} (passive : c.Passive) :
    Quiet setup.system (budgetDiscipline ι setup.task) i c :=
  budget_quiet (Cmd.BudgetQuiet.of_passive passive)

/-- `INCR` within the budget: the grant is counted. -/
theorem incr_granted {task : SeedTask} {t : Snap ι} (inv : BudgetInv task t) {n : Int}
    (next : n = (t.world.redis.counters (taskBudgetKey task.taskId)).getD 0 + 1)
    (within : n ≤ task.plan.maxCapsules) :
    BudgetInv task (counted task t i (.incr (taskBudgetKey task.taskId)) n 1) ∧
      ∀ j, BudgetRely task j t (counted task t i (.incr (taskBudgetKey task.taskId)) n 1) := by
  have kind : budgetEvent (taskBudgetKey task.taskId) task.plan.maxCapsules
      (⟨i, .redis (.incr (taskBudgetKey task.taskId)), .ok n⟩ : Event ι Cmd Cmd.Reply PyError) =
        .granted := by
    rw [budgetEvent_incr, if_pos within]
  have more := granted_cons_granted (h := t.history) kind
  have owed := owing_cons_granted (h := t.history) kind
  have counter := inv.counter
  have open_ : granted (taskBudgetKey task.taskId) task.plan.maxCapsules t.history <
      task.plan.maxCapsules := by
    omega
  obtain ⟨root, found, plan, fresh⟩ := inv.root
  refine ⟨⟨⟨root, found, plan, fun none => ?_⟩, ?_, ?_, fun owes => ?_,
    inv.refused_cons fun refused => ?_, fun set => ?_⟩, fun j => ⟨?_, ?_, fun _ => ?_⟩⟩
  · rw [counted_counter] at none
    cases none
  · rw [counted_counter]
    simp only [counted, more, owed, Option.getD_some]
    omega
  · simp only [counted, more]
    omega
  · simp only [counted, owed] at owes
    have := inv.full owes
    omega
  · rw [kind] at refused
    cases refused
  · have := inv.exhausted set
    omega
  · simp only [counted, owed]
  · simp only [counted, more]
    omega
  · rw [counted_counter]
    exact Option.some_ne_none _

/-- `INCR` past the budget: the budget is spent and the process owes its increment. -/
theorem incr_refused {task : SeedTask} {t : Snap ι} (inv : BudgetInv task t)
    (clear : Clear task i t) {n : Int}
    (next : n = (t.world.redis.counters (taskBudgetKey task.taskId)).getD 0 + 1)
    (past : task.plan.maxCapsules < n) :
    BudgetInv task (counted task t i (.incr (taskBudgetKey task.taskId)) n 1) ∧
      (∀ j, j ≠ i →
        BudgetRely task j t (counted task t i (.incr (taskBudgetKey task.taskId)) n 1)) ∧
      ¬ Clear task i (counted task t i (.incr (taskBudgetKey task.taskId)) n 1) := by
  have kind : budgetEvent (taskBudgetKey task.taskId) task.plan.maxCapsules
      (⟨i, .redis (.incr (taskBudgetKey task.taskId)), .ok n⟩ : Event ι Cmd Cmd.Reply PyError) =
        .refused := by
    rw [budgetEvent_incr, if_neg (by omega)]
  have same := granted_cons_of_ne (h := t.history) (by rw [kind]; decide)
  have owed := owing_cons_refused (h := t.history) kind
  have spent := inv.granted_eq_of_le_counter (by omega)
  have counter := inv.counter
  obtain ⟨root, found, plan, fresh⟩ := inv.root
  refine ⟨⟨⟨root, found, plan, fun none => ?_⟩, ?_, ?_, fun _ => ?_,
    inv.refused_cons fun _ => spent, fun _ => ?_⟩, fun j other => ⟨?_, ?_, fun _ => ?_⟩, ?_⟩
  · rw [counted_counter] at none
    cases none
  · rw [counted_counter]
    simp only [counted, same, owed, Option.getD_some, Finset.card_insert_of_notMem clear]
    omega
  · simpa only [counted, same] using inv.le
  · simpa only [counted, same] using spent
  · simpa only [counted, same] using spent
  · simp only [counted, owed, Finset.mem_insert, other, false_or]
  · simp only [counted, same, le_refl]
  · rw [counted_counter]
    exact Option.some_ne_none _
  · simp only [Clear, counted, owed, Finset.mem_insert_self, not_true_eq_false,
      not_false_eq_true]

/-- `DECR` by a process that owes: the debt is settled. -/
theorem decr_owed {task : SeedTask} {t : Snap ι} (inv : BudgetInv task t)
    (owes : ¬ Clear task i t) {n : Int} :
    BudgetInv task (counted task t i (.decr (taskBudgetKey task.taskId)) n (-1)) ∧
      (∀ j, j ≠ i →
        BudgetRely task j t (counted task t i (.decr (taskBudgetKey task.taskId)) n (-1))) ∧
      Clear task i (counted task t i (.decr (taskBudgetKey task.taskId)) n (-1)) ∧
      granted (taskBudgetKey task.taskId) task.plan.maxCapsules
        (counted task t i (.decr (taskBudgetKey task.taskId)) n (-1)).history =
          task.plan.maxCapsules := by
  have kind := budgetEvent_decr i (taskBudgetKey task.taskId) task.plan.maxCapsules n
  have same := granted_cons_of_ne (h := t.history) (by rw [kind]; decide)
  have owed := owing_cons_givenBack (h := t.history) kind
  have member := not_not.mp owes
  have spent := inv.full ⟨i, member⟩
  have counter := inv.counter
  have card := Finset.card_erase_add_one member
  obtain ⟨root, found, plan, fresh⟩ := inv.root
  refine ⟨⟨⟨root, found, plan, fun none => ?_⟩, ?_, ?_, fun _ => ?_,
    inv.refused_cons fun _ => spent, fun _ => ?_⟩, fun j other => ⟨?_, ?_, fun _ => ?_⟩, ?_, ?_⟩
  · rw [counted_counter] at none
    cases none
  · rw [counted_counter]
    simp only [counted, same, owed, Option.getD_some]
    omega
  · simpa only [counted, same] using inv.le
  · simpa only [counted, same] using spent
  · simpa only [counted, same] using spent
  · simp only [counted, owed, Finset.mem_erase, ne_eq, other, not_false_eq_true, true_and]
  · simp only [counted, same, le_refl]
  · rw [counted_counter]
    exact Option.some_ne_none _
  · simp only [Clear, counted, owed, Finset.mem_erase, ne_eq, not_true_eq_false, false_and,
      not_false_eq_true]
  · simpa only [counted, same] using spent

/-- A step that leaves the counter alone, with an event that is none of the budget's. -/
theorem BudgetInv.step_counters {task : SeedTask} {t : Snap ι} (inv : BudgetInv task t) {w : World}
    {e : Event ι Cmd Cmd.Reply PyError}
    (other : budgetEvent (taskBudgetKey task.taskId) task.plan.maxCapsules e = .other)
    (counters : w.redis.counters = t.world.redis.counters)
    (root : ∃ root, w.redis.hashes (rootNodeId task.taskId) = some root ∧
      root.planJson = some task.plan ∧
        (w.redis.counters (taskBudgetKey task.taskId) = none → root.generatedCapsules = some 0))
    (exhausted : (w.redis.strings (treeBudgetExhaustedKey task.taskId)).isSome →
      granted (taskBudgetKey task.taskId) task.plan.maxCapsules t.history =
        task.plan.maxCapsules) :
    BudgetInv task ⟨w, e :: t.history⟩ ∧ ∀ j, BudgetRely task j t ⟨w, e :: t.history⟩ := by
  have inv' : BudgetInv task ⟨w, t.history⟩ := by
    refine ⟨root, ?_, inv.le, inv.full, inv.refused, exhausted⟩
    rw [counters]
    exact inv.counter
  refine ⟨inv'.of_other other, fun j => ⟨?_, ?_, ?_⟩⟩
  · rw [owing_cons_other other]
  · rw [granted_cons_of_ne (by rw [other]; decide)]
  · rw [counters]
    exact id

/-- A failed command: only its event is added. -/
theorem redis_failed {task : SeedTask} {t : Snap ι} (inv : BudgetInv task t) (c : RedisCmd)
    {x : Choice} (fails : x.fail = true) :
    BudgetInv task (t.after World.exec i x (.redis c)) ∧
      ∀ j, BudgetRely task j t (t.after World.exec i x (.redis c)) := by
  have after : t.after World.exec i x (.redis c) =
      ⟨t.world, ⟨i, .redis c, .error .connectionError⟩ :: t.history⟩ := by
    simp only [Snapshot.after, World.exec_redis_fail fails]
  rw [after]
  refine inv.step_other (BudgetView.refl _ _) ?_
  cases c <;> rfl

/-- `SET` of the exhausted key when the budget is used up. -/
theorem set_exhausted {task : SeedTask} {t : Snap ι} (inv : BudgetInv task t)
    (spent : granted (taskBudgetKey task.taskId) task.plan.maxCapsules t.history =
      task.plan.maxCapsules) (x : Choice) :
    BudgetInv task
        (t.after World.exec i x (.redis (.set (treeBudgetExhaustedKey task.taskId) "1"))) ∧
      ∀ j, BudgetRely task j t
        (t.after World.exec i x (.redis (.set (treeBudgetExhaustedKey task.taskId) "1"))) := by
  cases fails : x.fail with
  | true => exact redis_failed inv _ fails
  | false =>
    simp only [Snapshot.after, World.exec_redis_ok fails]
    exact inv.step_counters rfl rfl inv.root fun _ => spent

/-- `HSET` of the mirrored count once the counter exists. -/
theorem hset_generated {task : SeedTask} {t : Snap ι} (inv : BudgetInv task t)
    (exists_ : t.world.redis.counters (taskBudgetKey task.taskId) ≠ none) (n : Int) (x : Choice) :
    BudgetInv task (t.after World.exec i x
        (.redis (.hset (rootNodeId task.taskId) { generatedCapsules := some n }))) ∧
      ∀ j, BudgetRely task j t (t.after World.exec i x
        (.redis (.hset (rootNodeId task.taskId) { generatedCapsules := some n }))) := by
  cases fails : x.fail with
  | true => exact redis_failed inv _ fails
  | false =>
    simp only [Snapshot.after, World.exec_redis_ok fails]
    obtain ⟨root, found, plan, fresh⟩ := inv.root
    refine inv.step_counters rfl rfl ⟨_, Function.update_self .., ?_, fun none => ?_⟩ inv.exhausted
    · simp only [found, Option.getD_some, NodeHash.update, plan]
      rfl
    · exact absurd none exists_

/-- The exit of a spent budget: the exhausted key is set, and what follows is quiet. -/
theorem set_exhausted_bind {β : Type} {f : Bool → Daemon β} {post : β → Snap ι → Prop}
    {s : Snap ι}
    (spent : setup.task.plan.maxCapsules ≤
      granted (taskBudgetKey setup.taskId) setup.task.plan.maxCapsules s.history)
    (rest : ∀ v t, BudgetRely setup.task i s t →
      Safe setup.system (budgetDiscipline ι setup.task) i post (fun _ _ => True) (f v) t) :
    Safe setup.system (budgetDiscipline ι setup.task) i post (fun _ _ => True)
      (Daemon.redis (.set (treeBudgetExhaustedKey setup.taskId) "1") >>= f) s := by
  refine Safe.call_bind fun t rely _ inv x _ _ => ?_
  have spent : granted (taskBudgetKey setup.task.taskId) setup.task.plan.maxCapsules t.history =
      setup.task.plan.maxCapsules :=
    le_antisymm inv.le (spent.trans (Int.ofNat_le.mpr rely.granted))
  obtain ⟨inv', rely'⟩ := set_exhausted (i := i) inv spent x
  exact ⟨inv', fun j _ => rely' j, fun v _ => rest v _ (rely.trans (rely' i)),
    fun _ _ => trivial⟩

/-- The granted branch: the count is mirrored in the root. -/
theorem reserved_safe {s : Snap ι} (clear : Clear setup.task i s)
    (counted : s.world.redis.counters (taskBudgetKey setup.taskId) ≠ none) (n : Int) :
    Safe setup.system (budgetDiscipline ι setup.task) i (fun _ => Clear setup.task i)
      (fun _ _ => True)
      (do
        Daemon.redis (.hset (rootNodeId setup.taskId) { generatedCapsules := some n })
        return true) s := by
  refine Safe.call_bind fun t rely _ inv x _ _ => ?_
  obtain ⟨inv', rely'⟩ := hset_generated (i := i) inv (rely.counter counted) n x
  exact ⟨inv', fun j _ => rely' j, fun _ _ => (clear.rely rely).rely (rely' i), fun _ _ => trivial⟩

/-- The root's status after the budget is spent. -/
theorem hset_planningStatus_quiet :
    Quiet setup.system (budgetDiscipline ι setup.task) i
      (.redis (.hset (rootNodeId setup.taskId) { planningStatus := some "budget_exhausted" })) :=
  budget_quiet ⟨rfl, rfl⟩

/-- The refused branch: the increment is given back, then the exhausted key is set. -/
theorem refused_safe {s : Snap ι} (owes : ¬ Clear setup.task i s) :
    Safe setup.system (budgetDiscipline ι setup.task) i (fun _ => Clear setup.task i)
      (fun _ _ => True)
      (do
        let _ ← Daemon.redis (.decr (taskBudgetKey setup.taskId))
        let _ ← Daemon.redis (.set (treeBudgetExhaustedKey setup.taskId) "1")
        Daemon.redis (.hset (rootNodeId setup.taskId)
          { planningStatus := some "budget_exhausted" })
        let _ ← Daemon.updateTaskStatus setup.taskId "budget_exhausted"
        return false) s := by
  refine Safe.call_bind fun t rely _ inv x _ _ => ?_
  have owes : ¬ Clear setup.task i t := fun clear => owes fun old => clear (rely.owes.mpr old)
  cases fails : x.fail with
  | true =>
    obtain ⟨inv', rely'⟩ := redis_failed (i := i) inv (.decr (taskBudgetKey setup.taskId)) fails
    refine ⟨inv', fun j _ => rely' j, fun v reply => ?_, fun _ _ => trivial⟩
    simp only [SearchSetup.system, World.exec_redis_fail fails, reduceCtorEq] at reply
  | false =>
    have after : t.after World.exec i x (.redis (.decr (taskBudgetKey setup.taskId))) =
        counted setup.task t i (.decr (taskBudgetKey setup.taskId))
          ((t.world.redis.counters (taskBudgetKey setup.taskId)).getD 0 - 1) (-1) := by
      simp only [Snapshot.after, World.exec_redis_ok fails, Redis.exec, counted]
    simp only [SearchSetup.system, after]
    obtain ⟨inv', rely', clear, spent⟩ := decr_owed (i := i) inv owes (n := _)
    refine ⟨inv', rely', fun _ _ => ?_, fun _ _ => trivial⟩
    refine set_exhausted_bind spent.symm.le fun _ u rely => ?_
    refine Safe.quiet_bind hset_planningStatus_quiet (fun _ v rely' => ?_) fun _ _ _ => trivial
    refine Safe.uses_bind (fun c => budget_passive) (Daemon.updateTaskStatus_passive _ _)
      (fun _ v rely'' => ?_) fun _ _ _ => trivial
    exact ((clear.rely rely).rely rely').rely rely''

/-- The spec of the reservation: it starts and ends without a debt. -/
theorem reserveCandidateBudget_safe {plan : TaskPlan}
    (limit : plan.maxCapsules = setup.task.plan.maxCapsules) {s : Snap ι}
    (clear : Clear setup.task i s) :
    Safe setup.system (budgetDiscipline ι setup.task) i (fun _ => Clear setup.task i)
      (fun _ _ => True) (ForestWorker.reserveCandidateBudget setup.taskId plan) s := by
  refine Safe.call_bind fun t rely _ inv x _ _ => ?_
  have clear := clear.rely rely
  cases fails : x.fail with
  | true =>
    obtain ⟨inv', rely'⟩ := redis_failed (i := i) inv (.incr (taskBudgetKey setup.taskId)) fails
    refine ⟨inv', fun j _ => rely' j, fun v reply => ?_, fun _ _ => trivial⟩
    simp only [SearchSetup.system, World.exec_redis_fail fails, reduceCtorEq] at reply
  | false =>
    have after : t.after World.exec i x (.redis (.incr (taskBudgetKey setup.taskId))) =
        counted setup.task t i (.incr (taskBudgetKey setup.taskId))
          ((t.world.redis.counters (taskBudgetKey setup.taskId)).getD 0 + 1) 1 := by
      simp only [Snapshot.after, World.exec_redis_ok fails, Redis.exec, counted]
    simp only [SearchSetup.system, after]
    by_cases within : (t.world.redis.counters (taskBudgetKey setup.taskId)).getD 0 + 1 ≤
        setup.task.plan.maxCapsules
    · obtain ⟨inv', rely'⟩ := incr_granted (i := i) inv rfl within
      refine ⟨inv', fun j _ => rely' j, fun v reply => ?_, fun _ _ => trivial⟩
      simp only [World.exec_redis_ok fails, Redis.exec, Except.ok.injEq] at reply
      subst reply
      rw [if_neg (by omega)]
      exact reserved_safe (clear.rely (rely' i)) (by rw [counted_counter]; exact Option.some_ne_none _) _
    · obtain ⟨inv', rely', owes⟩ := incr_refused (i := i) inv clear rfl (not_le.mp within)
      refine ⟨inv', rely', fun v reply => ?_, fun _ _ => trivial⟩
      simp only [World.exec_redis_ok fails, Redis.exec, Except.ok.injEq] at reply
      subst reply
      rw [if_pos (by omega)]
      exact refused_safe owes

/-! ## The workers -/

theorem ForestWorker.Dispatches.budgetQuiet {sha256 : Sha256} {taskId nodeId candidate : String}
    {node : NodeHash} {targetLines : List Int} {c : Cmd}
    (issued : Dispatches sha256 taskId nodeId node targetLines candidate c) :
    c.BudgetQuiet taskId := by
  cases issued with
  | queues queued => cases queued <;> trivial
  | draw => trivial
  | child made =>
    obtain ⟨testCode, sourcePath, testPath, repoPath, rfl⟩ := childMapping_eq_ok made
    exact List.forall_mem_cons.mpr ⟨⟨rfl, rfl⟩, List.forall_mem_singleton.mpr trivial⟩

theorem ForestWorker.Closes.budgetQuiet {taskId nodeId : String} {c : Cmd}
    (closes : Closes nodeId c) : c.BudgetQuiet taskId := by
  cases closes with
  | ledger c => trivial
  | barren => exact List.forall_mem_cons.mpr ⟨⟨rfl, rfl⟩, List.forall_mem_singleton.mpr ⟨rfl, rfl⟩⟩
  | done => exact List.forall_mem_singleton.mpr ⟨rfl, rfl⟩

/-- The memory has no part in the budget. -/
theorem RedisOp.BudgetQuiet.of_memory {taskId : String} {op : RedisOp} (memory : op.OfMemory) :
    op.BudgetQuiet taskId := by
  cases op with
  | hset key mapping =>
    obtain ⟨_, _, _, _, _, _, -, rfl⟩ := memory
    exact ⟨rfl, rfl⟩
  | incr key =>
    subst memory
    exact statsTotalEvals_ne_taskBudgetKey taskId
  | set key value =>
    obtain ⟨other, rfl⟩ := memory
    exact treeDoneKey_ne_treeBudgetExhaustedKey other taskId
  | _ => trivial

theorem Cmd.BudgetQuiet.of_memory {taskId : String} {c : Cmd} (memory : c.OfMemory) :
    c.BudgetQuiet taskId := by
  obtain passive | ⟨ops, rfl, queued⟩ := memory
  · exact Cmd.BudgetQuiet.of_passive passive
  · exact fun op mem => RedisOp.BudgetQuiet.of_memory (queued op mem)

/-! ## The run -/

/-- Nothing around the workers touches the budget. -/
theorem BudgetView.around {taskId : String} {w w' : World}
    (around : SearchSetup.Around w w') : BudgetView taskId w.redis w'.redis := by
  cases around with
  | tick n => exact refl taskId _
  | expire key entry deadline found due past => exact removeString taskId _ key
  | deliver m => exact of_eq rfl rfl rfl
  | ledger pg => exact refl taskId _

end Discipline

end KernelOmega
