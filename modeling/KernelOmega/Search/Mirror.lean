import KernelOmega.Search.Budget
import KernelOmega.Search.Lease

/-!
# The mirrored count

A granted reservation is copied into the root's hash by a second command, which writes the
reply of the first. Between the two commands other processes may be granted and may write.

Reservations are numbered in the order they are granted, so the reply of an `INCR` that is
granted is its number, and the mirrored count is the number of the reservation written last.
Once no reservation is in progress the counter is the number of the reservation granted last.
Hence the copy is right exactly when the last write belongs to the last grant.
-/

namespace KernelOmega

open Concurrent

namespace Mirror

/-- The count of a task as `dashboard_payload` shows it. -/
def generatedCapsules (taskId : String) (r : Redis) : Int :=
  ((r.hashes (rootNodeId taskId)).getD {}).generatedCapsules.getD 0

section Events

variable {ι : Type} (task : SeedTask)

/-- The task's reservations: granted, refused or given back. -/
abbrev kind (e : Event ι Cmd Cmd.Reply PyError) : BudgetEvent :=
  budgetEvent (taskBudgetKey task.taskId) task.plan.maxCapsules e

/-- The count an event writes into the root. Only a plain `HSET` ever writes one. -/
def countWritten : Event ι Cmd Cmd.Reply PyError → Option Int
  | ⟨_, .redis (.hset key mapping), .ok _⟩ =>
    if key = rootNodeId task.taskId then mapping.generatedCapsules else none
  | _ => none

/-- The processes that were granted a reservation, latest first. -/
def grants (history : History ι) : List ι :=
  (history.filter fun e => kind task e = .granted).map (·.thread)

/-- The counts that were mirrored and who wrote them, latest first. -/
def writes (history : History ι) : List (ι × Int) :=
  history.filterMap fun e => (countWritten task e).map fun n => (e.thread, n)

variable [DecidableEq ι]

/-- The processes with a granted reservation that they have not mirrored yet. -/
def unmirrored : History ι → Finset ι
  | [] => ∅
  | e :: earlier =>
    if kind task e = .granted then insert e.thread (unmirrored earlier)
    else if (countWritten task e).isSome then (unmirrored earlier).erase e.thread
    else unmirrored earlier

/-- The processes whose reservation is in progress: refused and not given back yet, or
granted and not mirrored yet. -/
def reserving (history : History ι) : Finset ι :=
  owing (taskBudgetKey task.taskId) task.plan.maxCapsules history ∪ unmirrored task history

/-- The number of the reservation a process was granted last. -/
def turn (i : ι) : History ι → Nat
  | [] => 0
  | e :: earlier =>
    if e.thread = i ∧ kind task e = .granted then (grants task earlier).length + 1
    else turn i earlier

/-- The copy in the root is the counter, and the counter the number of grants. -/
def MirrorsBudget (s : Snap ι) : Prop :=
  generatedCapsules task.taskId s.world.redis =
      (s.world.redis.counters (taskBudgetKey task.taskId)).getD 0 ∧
    (s.world.redis.counters (taskBudgetKey task.taskId)).getD 0 = (grants task s.history).length

/-- The last count mirrored is the one of the last reservation granted. -/
def LastGrantWrittenLast (history : History ι) : Prop :=
  (writes task history).head?.map Prod.fst = (grants task history).head?

/-- The counts were mirrored in the order the reservations were granted in. -/
def WrittenInOrder (history : History ι) : Prop :=
  (writes task history).Pairwise fun later earlier => earlier.2 ≤ later.2

end Events

/-! ## Grants and writes of a history -/

section History

variable {ι : Type} {task : SeedTask} {e : Event ι Cmd Cmd.Reply PyError} {h : History ι}

theorem grants_cons_of_granted (granted : kind task e = .granted) :
    grants task (e :: h) = e.thread :: grants task h := by
  simp only [grants, granted, decide_true, List.filter_cons_of_pos, List.map_cons]

theorem grants_cons_of_ne (other : kind task e ≠ .granted) :
    grants task (e :: h) = grants task h := by
  simp only [grants, other, decide_false, Bool.false_eq_true, not_false_eq_true,
    List.filter_cons_of_neg]

theorem writes_cons_of_some {n : Int} (written : countWritten task e = some n) :
    writes task (e :: h) = (e.thread, n) :: writes task h := by
  simp only [writes, List.filterMap_cons, written, Option.map_some]

theorem writes_cons_of_none (none : countWritten task e = none) :
    writes task (e :: h) = writes task h := by
  simp only [writes, List.filterMap_cons, none, Option.map_none]

/-- What writes a count touches no counter. -/
theorem kind_of_written {n : Int} (written : countWritten task e = some n) :
    kind task e = .other := by
  obtain ⟨i, c, reply⟩ := e
  cases c with
  | redis c =>
    cases c with
    | hset key mapping => rfl
    | _ => cases written
  | _ => cases written

theorem countWritten_of_kind (kind_ : kind task e ≠ .other) : countWritten task e = none := by
  cases written : countWritten task e with
  | none => rfl
  | some n => exact absurd (kind_of_written written) kind_

variable [DecidableEq ι] {i j : ι}

theorem unmirrored_cons_of_granted (granted : kind task e = .granted) :
    unmirrored task (e :: h) = insert e.thread (unmirrored task h) := by
  simp only [unmirrored, granted, ↓reduceIte]

theorem unmirrored_cons_of_some {n : Int} (written : countWritten task e = some n) :
    unmirrored task (e :: h) = (unmirrored task h).erase e.thread := by
  simp only [unmirrored, kind_of_written written, written, Option.isSome_some, reduceCtorEq,
    ↓reduceIte]

theorem unmirrored_cons_of_none (other : kind task e ≠ .granted)
    (none : countWritten task e = none) : unmirrored task (e :: h) = unmirrored task h := by
  simp only [unmirrored, other, none, Option.isSome_none, Bool.false_eq_true, ↓reduceIte]

theorem turn_cons_of_granted (granted : kind task e = .granted) :
    turn task e.thread (e :: h) = (grants task h).length + 1 := by
  simp only [turn, granted, and_self, ↓reduceIte]

theorem turn_cons_of_ne (other : kind task e ≠ .granted) :
    turn task i (e :: h) = turn task i h := by
  simp only [turn, other, and_false, ↓reduceIte]

theorem turn_cons_of_thread_ne (other : e.thread ≠ i) :
    turn task i (e :: h) = turn task i h := by
  simp only [turn, other, false_and, ↓reduceIte]

/-- A process has no more turns than grants there are. -/
theorem turn_le (task : SeedTask) (i : ι) (h : History ι) : turn task i h ≤ (grants task h).length := by
  induction h with
  | nil => exact Nat.zero_le _
  | cons e earlier ih =>
    by_cases granted : kind task e = .granted
    · rw [grants_cons_of_granted granted, List.length_cons]
      by_cases own : e.thread = i
      · subst own
        rw [turn_cons_of_granted granted]
      · rw [turn_cons_of_thread_ne own]
        omega
    · rwa [grants_cons_of_ne granted, turn_cons_of_ne granted]

/-- A process was granted last exactly when its number is the number of grants. -/
theorem head?_grants_eq_some_iff (i : ι) (h : History ι) :
    (grants task h).head? = some i ↔
      turn task i h = (grants task h).length ∧ (grants task h).length ≠ 0 := by
  induction h with
  | nil => simp [grants]
  | cons e earlier ih =>
    by_cases granted : kind task e = .granted
    · rw [grants_cons_of_granted granted, List.head?_cons, List.length_cons, Option.some_inj]
      by_cases own : e.thread = i
      · subst own
        simp [turn_cons_of_granted granted]
      · have le := turn_le task i earlier
        rw [turn_cons_of_thread_ne own]
        exact ⟨fun same => absurd same own, fun ⟨same, _⟩ => by omega⟩
    · rwa [grants_cons_of_ne granted, turn_cons_of_ne granted]

/-- Whoever has a grant to mirror was granted one. -/
theorem turn_ne_zero (open_ : i ∈ unmirrored task h) : turn task i h ≠ 0 := by
  induction h with
  | nil => exact absurd open_ (Finset.notMem_empty i)
  | cons e earlier ih =>
    by_cases granted : kind task e = .granted
    · rw [unmirrored_cons_of_granted granted, Finset.mem_insert] at open_
      by_cases own : e.thread = i
      · subst own
        rw [turn_cons_of_granted granted]
        exact Nat.succ_ne_zero _
      · rw [turn_cons_of_thread_ne own]
        exact ih (open_.resolve_left (Ne.symm own))
    · rw [turn_cons_of_ne granted]
      cases written : countWritten task e with
      | none =>
        rw [unmirrored_cons_of_none granted written] at open_
        exact ih open_
      | some n =>
        rw [unmirrored_cons_of_some written] at open_
        exact ih (Finset.mem_of_mem_erase open_)

/-! ## Where a process stands -/

/-- Whether a process owes, whether it has a grant to mirror, and the number of its last grant. -/
def standing (task : SeedTask) (i : ι) (h : History ι) : Bool × Bool × Nat :=
  (decide (i ∈ owing (taskBudgetKey task.taskId) task.plan.maxCapsules h),
    decide (i ∈ unmirrored task h), turn task i h)

/-- A process stands where its own commands brought it. -/
theorem standing_cons_of_ne (other : e.thread ≠ i) :
    standing task i (e :: h) = standing task i h := by
  have owed : i ∈ owing (taskBudgetKey task.taskId) task.plan.maxCapsules (e :: h) ↔
      i ∈ owing (taskBudgetKey task.taskId) task.plan.maxCapsules h := by
    simp only [owing]
    split
    · simp only [Finset.mem_insert, Ne.symm other, false_or]
    · simp only [Finset.mem_erase, ne_eq, Ne.symm other, not_false_eq_true, true_and]
    · exact Iff.rfl
  have open_ : i ∈ unmirrored task (e :: h) ↔ i ∈ unmirrored task h := by
    simp only [unmirrored]
    split
    · simp only [Finset.mem_insert, Ne.symm other, false_or]
    · split
      · simp only [Finset.mem_erase, ne_eq, Ne.symm other, not_false_eq_true, true_and]
      · exact Iff.rfl
  simp only [standing, owed, open_, turn_cons_of_thread_ne other]

/-- An event that neither reserves nor mirrors moves no process. -/
theorem standing_cons_of_other (other : kind task e = .other) (none : countWritten task e = none)
    (i : ι) : standing task i (e :: h) = standing task i h := by
  have notGranted : kind task e ≠ .granted := by rw [other]; decide
  simp only [standing, owing_cons_other other, unmirrored_cons_of_none notGranted none,
    turn_cons_of_ne notGranted]

end History

/-! ## Commands that leave the count alone -/

/-- What neither reserves nor mirrors: the quiet commands of the budget, and the key that says
the budget is exhausted. -/
def CountQuiet (taskId : String) (c : Cmd) : Prop :=
  c.BudgetQuiet taskId ∨ c = .redis (.set (treeBudgetExhaustedKey taskId) "1")

/-- A quiet command writes no count. -/
theorem countWritten_of_quiet {ι : Type} {task : SeedTask} {c : Cmd}
    (quiet : CountQuiet task.taskId c) (i : ι) (reply : Except PyError c.Reply) :
    countWritten task ⟨i, c, reply⟩ = none := by
  obtain quiet | rfl := quiet
  · cases c with
    | redis c =>
      cases c with
      | hset key mapping =>
        cases reply with
        | ok _ => simp only [countWritten, quiet.2, ite_self]
        | error e => rfl
      | _ => rfl
    | _ => rfl
  · rfl

theorem kind_of_quiet {ι : Type} {task : SeedTask} {c : Cmd}
    (quiet : CountQuiet task.taskId c) (i : ι) (reply : Except PyError c.Reply) :
    kind task ⟨i, c, reply⟩ = .other := by
  obtain quiet | rfl := quiet
  · exact budgetEvent_of_quiet quiet i reply _ _
  · rfl

/-- What the argument reads of a store: the plan and the copy in the root, and the counter. -/
structure CountView (taskId : String) (r r' : Redis) : Prop where
  root : ∀ root, r.hashes (rootNodeId taskId) = some root →
    ∃ root', r'.hashes (rootNodeId taskId) = some root' ∧ root'.planJson = root.planJson ∧
      root'.generatedCapsules = root.generatedCapsules
  counter : r'.counters (taskBudgetKey taskId) = r.counters (taskBudgetKey taskId)

theorem CountView.of_budgetView {taskId : String} {r r' : Redis} (view : BudgetView taskId r r') :
    CountView taskId r r' :=
  ⟨view.root, view.counter⟩

/-- A quiet command leaves the count's view as it is. -/
theorem CountView.world {taskId : String} {c : Cmd} (quiet : CountQuiet taskId c) (x : Choice)
    (w : World) : CountView taskId w.redis (World.exec x c w).2.redis := by
  obtain quiet | rfl := quiet
  · exact .of_budgetView (BudgetView.world quiet x w)
  · cases fails : x.fail with
    | true =>
      rw [World.exec_redis_fail fails]
      exact .of_budgetView (BudgetView.refl _ _)
    | false =>
      rw [World.exec_redis_ok fails]
      exact ⟨fun root found => ⟨root, found, rfl, rfl⟩, rfl⟩

/-! ## The invariant -/

section Discipline

variable {ι S : Type} [DecidableEq ι] [LinearOrder S]

/-- What holds of the count between any two commands. A process that is not about to mirror has
mirrored its last grant, and if it was the last to write, the copy is the number of that grant. -/
structure MirrorInv (task : SeedTask) (s : Snap ι) : Prop where
  root : ∃ root, s.world.redis.hashes (rootNodeId task.taskId) = some root ∧
    root.planJson = some task.plan ∧
      root.generatedCapsules = some (((writes task s.history).head?.map Prod.snd).getD 0)
  counter : (s.world.redis.counters (taskBudgetKey task.taskId)).getD 0 =
    (grants task s.history).length +
      (owing (taskBudgetKey task.taskId) task.plan.maxCapsules s.history).card
  full : (owing (taskBudgetKey task.taskId) task.plan.maxCapsules s.history).Nonempty →
    task.plan.maxCapsules ≤ (grants task s.history).length
  last : ∀ w, (writes task s.history).head? = some w → w.1 ∉ unmirrored task s.history →
    turn task w.1 s.history ≠ 0 ∧ w.2 = turn task w.1 s.history
  mirrored : ∀ j, j ∉ unmirrored task s.history → turn task j s.history ≠ 0 →
    (j, (turn task j s.history : Int)) ∈ writes task s.history
  within : ∀ w ∈ writes task s.history, w.2 ≤ (grants task s.history).length

namespace MirrorInv

variable {task : SeedTask} {s : Snap ι} {w : World} {e : Event ι Cmd Cmd.Reply PyError}

/-- The invariant of the count depends on the count alone. -/
theorem of_view (inv : MirrorInv task s) (view : CountView task.taskId s.world.redis w.redis) :
    MirrorInv task ⟨w, s.history⟩ := by
  obtain ⟨root, found, plan, count⟩ := inv.root
  obtain ⟨root', found', plan', count'⟩ := view.root root found
  refine ⟨⟨root', found', plan'.trans plan, count'.trans count⟩, ?_, inv.full, inv.last,
    inv.mirrored, inv.within⟩
  rw [view.counter]
  exact inv.counter

section Counting

variable (hashes : w.redis.hashes = s.world.redis.hashes)
include hashes

/-- An event that settles a reservation one way or the other keeps what is mirrored. -/
theorem of_notGranted (inv : MirrorInv task s) (notGranted : kind task e ≠ .granted)
    (none : countWritten task e = none)
    (counter : (w.redis.counters (taskBudgetKey task.taskId)).getD 0 =
      (grants task s.history).length +
        (owing (taskBudgetKey task.taskId) task.plan.maxCapsules (e :: s.history)).card)
    (full : (owing (taskBudgetKey task.taskId) task.plan.maxCapsules (e :: s.history)).Nonempty →
      task.plan.maxCapsules ≤ (grants task s.history).length) :
    MirrorInv task ⟨w, e :: s.history⟩ := by
  have granted := grants_cons_of_ne (h := s.history) notGranted
  have written := writes_cons_of_none (h := s.history) none
  have unmirrored_ := unmirrored_cons_of_none (h := s.history) notGranted none
  have turn_ := fun j => turn_cons_of_ne (i := j) (h := s.history) notGranted
  refine ⟨?_, ?_, ?_, ?_, ?_, ?_⟩
  · rw [hashes, written]
    exact inv.root
  · rw [granted]
    exact counter
  · rw [granted]
    exact full
  · simp only [written, unmirrored_, turn_]
    exact inv.last
  · simp only [written, unmirrored_, turn_]
    exact inv.mirrored
  · simp only [written, granted]
    exact inv.within

/-- An event that neither reserves nor mirrors. -/
theorem of_other (inv : MirrorInv task s) (other : kind task e = .other)
    (none : countWritten task e = none)
    (counters : w.redis.counters = s.world.redis.counters) :
    MirrorInv task ⟨w, e :: s.history⟩ := by
  have owed := owing_cons_other (h := s.history) other
  refine inv.of_notGranted hashes (by rw [other]; decide) none ?_ ?_
  · rw [counters, owed]
    exact inv.counter
  · rw [owed]
    exact inv.full

/-- `INCR` within the budget: nobody owes, so the reply is the number of the grant. -/
theorem granted (inv : MirrorInv task s) (granted : kind task e = .granted)
    (next : (w.redis.counters (taskBudgetKey task.taskId)).getD 0 =
      (s.world.redis.counters (taskBudgetKey task.taskId)).getD 0 + 1)
    (within : (w.redis.counters (taskBudgetKey task.taskId)).getD 0 ≤ task.plan.maxCapsules) :
    MirrorInv task ⟨w, e :: s.history⟩ ∧
      e.thread ∈ unmirrored task (e :: s.history) ∧
      (w.redis.counters (taskBudgetKey task.taskId)).getD 0 =
        turn task e.thread (e :: s.history) := by
  have none := countWritten_of_kind (by rw [granted]; decide)
  have more := grants_cons_of_granted (h := s.history) granted
  have written := writes_cons_of_none (h := s.history) none
  have owed := owing_cons_granted (h := s.history) granted
  have unmirrored_ := unmirrored_cons_of_granted (h := s.history) granted
  have own := turn_cons_of_granted (h := s.history) granted
  have counter := inv.counter
  have clear : owing (taskBudgetKey task.taskId) task.plan.maxCapsules s.history = ∅ := by
    rw [← Finset.not_nonempty_iff_eq_empty]
    intro owes
    have full := inv.full owes
    omega
  rw [clear, Finset.card_empty] at counter
  have others : ∀ j, j ≠ e.thread → turn task j (e :: s.history) = turn task j s.history :=
    fun j other => turn_cons_of_thread_ne (Ne.symm other)
  refine ⟨⟨?_, ?_, ?_, ?_, ?_, ?_⟩, ?_, ?_⟩
  · rw [hashes, written]
    exact inv.root
  · rw [next, more, owed, clear, List.length_cons, Finset.card_empty]
    omega
  · rw [owed, clear]
    exact fun owes => absurd owes Finset.not_nonempty_empty
  · simp only [written, unmirrored_, Finset.mem_insert, not_or]
    intro w head closed
    rw [others w.1 closed.1]
    exact inv.last w head closed.2
  · simp only [written, unmirrored_, Finset.mem_insert, not_or]
    intro j closed
    rw [others j closed.1]
    exact inv.mirrored j closed.2
  · simp only [written, more, List.length_cons]
    intro w mem
    have le := inv.within w mem
    omega
  · rw [unmirrored_]
    exact Finset.mem_insert_self _ _
  · rw [own, next]
    omega

/-- `INCR` past the budget: the process owes its increment. -/
theorem refused (inv : MirrorInv task s) (refused : kind task e = .refused)
    (clear : e.thread ∉ owing (taskBudgetKey task.taskId) task.plan.maxCapsules s.history)
    (next : (w.redis.counters (taskBudgetKey task.taskId)).getD 0 =
      (s.world.redis.counters (taskBudgetKey task.taskId)).getD 0 + 1)
    (past : task.plan.maxCapsules < (w.redis.counters (taskBudgetKey task.taskId)).getD 0) :
    MirrorInv task ⟨w, e :: s.history⟩ := by
  have owed := owing_cons_refused (h := s.history) refused
  have counter := inv.counter
  refine inv.of_notGranted hashes (by rw [refused]; decide)
    (countWritten_of_kind (by rw [refused]; decide)) ?_ fun _ => ?_
  · rw [next, owed, Finset.card_insert_of_notMem clear]
    omega
  · by_cases owes :
        (owing (taskBudgetKey task.taskId) task.plan.maxCapsules s.history).Nonempty
    · exact inv.full owes
    · rw [Finset.not_nonempty_iff_eq_empty] at owes
      rw [owes, Finset.card_empty] at counter
      omega

/-- `DECR` by a process that owes. -/
theorem givenBack (inv : MirrorInv task s) (givenBack : kind task e = .givenBack)
    (owes : e.thread ∈ owing (taskBudgetKey task.taskId) task.plan.maxCapsules s.history)
    (next : (w.redis.counters (taskBudgetKey task.taskId)).getD 0 =
      (s.world.redis.counters (taskBudgetKey task.taskId)).getD 0 - 1) :
    MirrorInv task ⟨w, e :: s.history⟩ := by
  have owed := owing_cons_givenBack (h := s.history) givenBack
  have counter := inv.counter
  have card := Finset.card_erase_add_one owes
  refine inv.of_notGranted hashes (by rw [givenBack]; decide)
    (countWritten_of_kind (by rw [givenBack]; decide)) ?_ fun _ => inv.full ⟨_, owes⟩
  rw [next, owed]
  omega

end Counting

/-- `HSET` of the count by a process that has it to mirror. -/
theorem written (inv : MirrorInv task s) {n : Int} (written : countWritten task e = some n)
    (own : n = turn task e.thread s.history) (open_ : e.thread ∈ unmirrored task s.history)
    (counters : w.redis.counters = s.world.redis.counters)
    (root : ∃ root, w.redis.hashes (rootNodeId task.taskId) = some root ∧
      root.planJson = some task.plan ∧ root.generatedCapsules = some n) :
    MirrorInv task ⟨w, e :: s.history⟩ := by
  have other := kind_of_written written
  have notGranted : kind task e ≠ .granted := by rw [other]; decide
  have granted := grants_cons_of_ne (h := s.history) notGranted
  have more := writes_cons_of_some (h := s.history) written
  have owed := owing_cons_other (h := s.history) other
  have unmirrored_ := unmirrored_cons_of_some (h := s.history) written
  have turn_ := fun j => turn_cons_of_ne (i := j) (h := s.history) notGranted
  refine ⟨?_, ?_, ?_, ?_, ?_, ?_⟩
  · simpa only [more, List.head?_cons, Option.map_some, Option.getD_some] using root
  · rw [counters, granted, owed]
    exact inv.counter
  · rw [granted, owed]
    exact inv.full
  · simp only [more, List.head?_cons, Option.some.injEq, turn_]
    rintro w rfl -
    exact ⟨turn_ne_zero open_, own⟩
  · simp only [more, unmirrored_, turn_, Finset.mem_erase, not_and]
    intro j closed turned
    by_cases same : j = e.thread
    · subst same
      rw [own]
      exact List.mem_cons_self
    · exact List.mem_cons_of_mem _ (inv.mirrored j (closed same) turned)
  · simp only [more, granted, List.mem_cons]
    rintro w (rfl | mem)
    · have le := turn_le task e.thread s.history
      dsimp only
      omega
    · exact inv.within w mem

end MirrorInv

/-! ## The code -/

/-- Rests: the process has nothing to give back and nothing to mirror. -/
def Rests (task : SeedTask) (i : ι) (s : Snap ι) : Prop :=
  i ∉ owing (taskBudgetKey task.taskId) task.plan.maxCapsules s.history ∧
    i ∉ unmirrored task s.history

/-- The discipline of the count: no process moves another one. -/
def mirrorDiscipline (ι : Type) [DecidableEq ι] (task : SeedTask) :
    Discipline ι Cmd Cmd.Reply PyError World where
  known := fun _ => True
  inv := MirrorInv task
  rely := fun i s t => standing task i t.history = standing task i s.history
  guar := fun i s t => ∀ j, j ≠ i → standing task j t.history = standing task j s.history
  idle := Rests task
  rely_refl := fun _ _ => rfl
  rely_trans := fun _ _ _ _ first last => last.trans first

variable {task : SeedTask} {setup : SearchSetup ι S} {i : ι}

theorem owes_iff {h h' : History ι} (same : standing task i h' = standing task i h) :
    i ∈ owing (taskBudgetKey task.taskId) task.plan.maxCapsules h' ↔
      i ∈ owing (taskBudgetKey task.taskId) task.plan.maxCapsules h := by
  simp only [standing, Prod.mk.injEq, decide_eq_decide] at same
  exact same.1

theorem unmirrored_iff {h h' : History ι} (same : standing task i h' = standing task i h) :
    i ∈ unmirrored task h' ↔ i ∈ unmirrored task h := by
  simp only [standing, Prod.mk.injEq, decide_eq_decide] at same
  exact same.2.1

theorem turn_eq {h h' : History ι} (same : standing task i h' = standing task i h) :
    turn task i h' = turn task i h :=
  congrArg (fun stand : Bool × Bool × Nat => stand.2.2) same

theorem Rests.rely {s t : Snap ι} (rests : Rests task i s)
    (rely : standing task i t.history = standing task i s.history) : Rests task i t :=
  ⟨fun owes => rests.1 ((owes_iff rely).mp owes),
    fun open_ => rests.2 ((unmirrored_iff rely).mp open_)⟩

/-- A command moves no other process. -/
theorem others_stand {t : Snap ι} (x : Choice) (c : Cmd) :
    ∀ j, j ≠ i → standing task j (t.after World.exec i x c).history =
      standing task j t.history :=
  fun _ other => standing_cons_of_ne (Ne.symm other)

theorem count_quiet {c : Cmd} (quiet : CountQuiet setup.taskId c) :
    Quiet setup.system (mirrorDiscipline ι setup.task) i c := by
  intro t x _ inv _ _
  have other := kind_of_quiet quiet i (World.exec x c t.world).1
  have none := countWritten_of_quiet quiet i (World.exec x c t.world).1
  have seen := inv.of_view (CountView.world quiet x t.world)
  have kept := seen.of_other (w := (World.exec x c t.world).2) rfl other none rfl
  exact ⟨kept, others_stand x c,
    standing_cons_of_other other none i⟩

/-- A failed command only leaves its event. -/
theorem failed {t : Snap ι} (inv : MirrorInv task t) (c : RedisCmd) {x : Choice}
    (fails : x.fail = true) : MirrorInv task (t.after World.exec i x (.redis c)) := by
  have after : t.after World.exec i x (.redis c) =
      ⟨t.world, ⟨i, .redis c, .error .connectionError⟩ :: t.history⟩ := by
    simp only [Snapshot.after, World.exec_redis_fail fails]
  rw [after]
  refine inv.of_other rfl ?_ ?_ rfl <;> cases c <;> rfl

/-- The granted branch: the process mirrors the number it was granted. -/
theorem granted_safe {s : Snap ι}
    (clear : i ∉ owing (taskBudgetKey setup.taskId) setup.task.plan.maxCapsules s.history)
    (open_ : i ∈ unmirrored setup.task s.history) {n : Int}
    (own : n = turn setup.task i s.history) :
    Safe setup.system (mirrorDiscipline ι setup.task) i (fun _ => Rests setup.task i)
      (fun _ _ => True)
      (do
        Daemon.redis (.hset (rootNodeId setup.taskId) { generatedCapsules := some n })
        return true) s := by
  refine Safe.call_bind fun t rely _ inv x _ _ => ?_
  have here := (unmirrored_iff rely).mpr open_
  have number : n = turn setup.task i t.history := own.trans (by rw [turn_eq rely])
  cases fails : x.fail with
  | true =>
    refine ⟨failed inv _ fails, others_stand x _, fun v reply => ?_, fun _ _ => trivial⟩
    simp only [SearchSetup.system, World.exec_redis_fail fails, reduceCtorEq] at reply
  | false =>
    have written : countWritten setup.task
        (⟨i, .redis (.hset (rootNodeId setup.taskId) { generatedCapsules := some n }), .ok ()⟩ :
          Event ι Cmd Cmd.Reply PyError) = some n :=
      if_pos rfl
    obtain ⟨root, found, plan, -⟩ := inv.root
    refine ⟨?_, others_stand x _, fun _ _ => ⟨?_, ?_⟩, fun _ _ => trivial⟩
    · simp only [SearchSetup.system, Snapshot.after, World.exec_redis_ok fails]
      refine inv.written written number here rfl ⟨_, Function.update_self .., ?_, rfl⟩
      simp only [found, Option.getD_some, NodeHash.update, plan]
      rfl
    · simp only [SearchSetup.system, Snapshot.after, World.exec_redis_ok fails]
      rw [owing_cons_other (kind_of_written written)]
      exact fun owes => clear ((owes_iff rely).mp owes)
    · simp only [SearchSetup.system, Snapshot.after, World.exec_redis_ok fails]
      rw [unmirrored_cons_of_some written]
      exact Finset.notMem_erase _ _

/-- The refused branch: the process gives its increment back. -/
theorem refused_safe {s : Snap ι}
    (owes : i ∈ owing (taskBudgetKey setup.taskId) setup.task.plan.maxCapsules s.history)
    (closed : i ∉ unmirrored setup.task s.history) :
    Safe setup.system (mirrorDiscipline ι setup.task) i (fun _ => Rests setup.task i)
      (fun _ _ => True)
      (do
        let _ ← Daemon.redis (.decr (taskBudgetKey setup.taskId))
        let _ ← Daemon.redis (.set (treeBudgetExhaustedKey setup.taskId) "1")
        Daemon.redis (.hset (rootNodeId setup.taskId)
          { planningStatus := some "budget_exhausted" })
        let _ ← Daemon.updateTaskStatus setup.taskId "budget_exhausted"
        return false) s := by
  refine Safe.call_bind fun t rely _ inv x _ _ => ?_
  have owes := (owes_iff rely).mpr owes
  have closed := fun open_ => closed ((unmirrored_iff rely).mp open_)
  cases fails : x.fail with
  | true =>
    refine ⟨failed inv _ fails, others_stand x _, fun v reply => ?_, fun _ _ => trivial⟩
    simp only [SearchSetup.system, World.exec_redis_fail fails, reduceCtorEq] at reply
  | false =>
    have kind_ := budgetEvent_decr i (taskBudgetKey setup.taskId) setup.task.plan.maxCapsules
      ((t.world.redis.counters (taskBudgetKey setup.taskId)).getD 0 - 1)
    have notGranted : kind setup.task
        (⟨i, .redis (.decr (taskBudgetKey setup.taskId)),
          .ok ((t.world.redis.counters (taskBudgetKey setup.taskId)).getD 0 - 1)⟩ :
            Event ι Cmd Cmd.Reply PyError) ≠ .granted := by
      rw [kind, kind_]
      decide
    refine ⟨?_, others_stand x _, fun _ _ => ?_, fun _ _ => trivial⟩
    · simp only [SearchSetup.system, Snapshot.after, World.exec_redis_ok fails, Redis.exec]
      refine inv.givenBack rfl kind_ owes ?_
      simp only [Redis.addToCounter, Function.update_self, Option.getD_some]
      exact Int.sub_eq_add_neg.symm
    · have rests : Rests setup.task i (t.after World.exec i x
          (.redis (.decr (taskBudgetKey setup.taskId)))) := by
        simp only [Snapshot.after, World.exec_redis_ok fails, Redis.exec]
        refine ⟨?_, ?_⟩
        · rw [owing_cons_givenBack kind_]
          exact Finset.notMem_erase _ _
        · rw [unmirrored_cons_of_none notGranted rfl]
          exact closed
      refine Safe.quiet_bind (count_quiet (.inr rfl)) (fun _ u rely => ?_) fun _ _ _ => trivial
      have rests := rests.rely rely
      refine Safe.quiet_bind (count_quiet (.inl ⟨rfl, rfl⟩)) (fun _ u rely => ?_)
        fun _ _ _ => trivial
      have rests := rests.rely rely
      refine Safe.uses_bind (fun c passive => count_quiet (.inl (.of_passive passive)))
        (Daemon.updateTaskStatus_passive _ _) (fun _ v rely => ?_) fun _ _ _ => trivial
      exact rests.rely rely

/-- The spec of the reservation. -/
theorem reserveCandidateBudget_safe {plan : TaskPlan}
    (limit : plan.maxCapsules = setup.task.plan.maxCapsules) {s : Snap ι}
    (rests : Rests setup.task i s) :
    Safe setup.system (mirrorDiscipline ι setup.task) i (fun _ => Rests setup.task i)
      (fun _ _ => True) (ForestWorker.reserveCandidateBudget setup.taskId plan) s := by
  refine Safe.call_bind fun t rely _ inv x _ _ => ?_
  have rests := rests.rely rely
  cases fails : x.fail with
  | true =>
    refine ⟨failed inv _ fails, others_stand x _, fun v reply => ?_, fun _ _ => trivial⟩
    simp only [SearchSetup.system, World.exec_redis_fail fails, reduceCtorEq] at reply
  | false =>
    have kind_ := budgetEvent_incr i (taskBudgetKey setup.taskId) setup.task.plan.maxCapsules
      ((t.world.redis.counters (taskBudgetKey setup.taskId)).getD 0 + 1)
    have next : ((t.world.redis.addToCounter (taskBudgetKey setup.taskId) 1).counters
        (taskBudgetKey setup.taskId)).getD 0 =
          (t.world.redis.counters (taskBudgetKey setup.taskId)).getD 0 + 1 := by
      simp only [Redis.addToCounter, Function.update_self, Option.getD_some]
    let w : World :=
      { t.world with redis := t.world.redis.addToCounter (taskBudgetKey setup.taskId) 1 }
    have after : t.after World.exec i x (.redis (.incr (taskBudgetKey setup.taskId))) =
        ⟨w, ⟨i, .redis (.incr (taskBudgetKey setup.taskId)),
          .ok ((t.world.redis.counters (taskBudgetKey setup.taskId)).getD 0 + 1)⟩ ::
            t.history⟩ := by
      simp only [Snapshot.after, World.exec_redis_ok fails, Redis.exec, w]
    by_cases within : (t.world.redis.counters (taskBudgetKey setup.taskId)).getD 0 + 1 ≤
        setup.task.plan.maxCapsules
    · rw [if_pos within] at kind_
      obtain ⟨inv', open_, own⟩ := inv.granted (w := w) rfl kind_ next (next.trans_le within)
      refine ⟨after ▸ inv', others_stand x _, fun v reply => ?_, fun _ _ => trivial⟩
      simp only [SearchSetup.system, World.exec_redis_ok fails, Redis.exec,
        Except.ok.injEq] at reply
      subst reply
      rw [if_neg (by omega)]
      refine granted_safe ?_ (after ▸ open_) (after ▸ next.symm.trans own)
      simp only [SearchSetup.system, after]
      rw [owing_cons_granted kind_]
      exact rests.1
    · rw [if_neg within] at kind_
      have inv' := inv.refused (w := w) rfl kind_ rests.1 next
        ((not_le.mp within).trans_eq next.symm)
      refine ⟨after ▸ inv', others_stand x _, fun v reply => ?_, fun _ _ => trivial⟩
      simp only [SearchSetup.system, World.exec_redis_ok fails, Redis.exec,
        Except.ok.injEq] at reply
      subst reply
      rw [if_pos (by omega)]
      refine refused_safe ?_ ?_
      · simp only [SearchSetup.system, after]
        rw [owing_cons_refused kind_]
        exact Finset.mem_insert_self _ _
      · simp only [SearchSetup.system, after]
        rw [unmirrored_cons_of_none (by rw [kind, kind_]; decide) rfl]
        exact rests.2

/-- A program of quiet commands leaves its process at rest. -/
theorem rests_of_uses {α : Type} {p : Daemon α} (uses : p.Uses (CountQuiet setup.taskId))
    {s : Snap ι} (rests : Rests setup.task i s) :
    Safe setup.system (mirrorDiscipline ι setup.task) i (fun _ => Rests setup.task i)
      (fun _ _ => True) p s :=
  ForestWorker.safe_of_uses (fun _ _ => Rests.rely) (uses.mono fun _ => count_quiet) rests

/-- One candidate after another is reserved for and dispatched from rest to rest. -/
theorem dispatchCandidates_rests (self : ForestWorker) (nodeId code : String)
    (node root : NodeHash) {plan : TaskPlan}
    (limit : plan.maxCapsules = setup.task.plan.maxCapsules) (targetLines : List Int)
    (candidates : List String) (generated : Nat) {s : Snap ι} (rests : Rests setup.task i s) :
    Safe setup.system (mirrorDiscipline ι setup.task) i (fun _ => Rests setup.task i)
      (fun _ _ => True)
      (self.dispatchCandidates setup.sha256 setup.taskId nodeId code node root plan targetLines
        candidates generated) s := by
  refine Safe.mono (fun _ _ ended => ended.elim fun _ rests => rests) (fun _ _ h => h)
    (self.safe_dispatchCandidates (I := fun _ (t : Snap ι) => Rests setup.task i t)
      (fun _ _ _ => id) (fun _ _ _ rests => reserveCandidateBudget_safe limit rests)
      (fun candidate _ _ rests => ?_) generated rests)
  exact rests_of_uses ((self.dispatchCandidate_dispatches _ _ nodeId node root targetLines
    candidate).mono fun _ issued => .inl issued.budgetQuiet) rests

/-- Generating ends with every reservation mirrored, -/
theorem generate_rests (self : ForestWorker) (nodeId : String) (node root : NodeHash)
    {plan : TaskPlan} (limit : plan.maxCapsules = setup.task.plan.maxCapsules)
    (expansionPlan : ExpansionPlan) {s : Snap ι} (rests : Rests setup.task i s) :
    Safe setup.system (mirrorDiscipline ι setup.task) i (fun _ => Rests setup.task i)
      (fun _ _ => True)
      (self.generate setup.sha256 setup.taskId nodeId node root plan expansionPlan) s :=
  self.safe_generate (fun _ _ => Rests.rely) (count_quiet (.inl trivial))
    (fun code found _ rests =>
      dispatchCandidates_rests self nodeId code node root limit _ found 0 rests)
    (fun _ closes => count_quiet (.inl closes.budgetQuiet)) rests

/-- What sets the exhausted key and the flags leaves the count alone. -/
theorem countQuiet_of_leaves {taskId nodeId : String} {c : Cmd}
    (leaves : ForestWorker.Leaves taskId nodeId c) : CountQuiet taskId c := by
  cases leaves with
  | ledger c => exact .inl trivial
  | exhaust => exact .inr rfl
  | refuse => exact .inl ⟨rfl, rfl⟩
  | leaf => exact .inl ⟨rfl, rfl⟩

/-- An expansion that returns has given back what it must, and every reservation is mirrored. -/
theorem expandNode_rests (self : ForestWorker) (nodeId : String) (node : NodeHash) {s : Snap ι}
    (rests : Rests setup.task i s) :
    Safe setup.system (mirrorDiscipline ι setup.task) i (fun _ => Rests setup.task i)
      (fun _ _ => True) (self.expandNode setup.sha256 setup.taskId nodeId node) s := by
  refine Safe.read_bind (count_quiet (.inl trivial))
    (fun t x rootData relyT _ invT replyT own => ?_) fun _ _ _ => trivial
  obtain ⟨-, read⟩ := World.exec_redis_eq_ok replyT
  obtain ⟨root, found, plan, -⟩ := invT.root
  obtain rfl : rootData = some root := read.trans found
  have planned : self.taskPlan root = setup.task.plan := by
    simp only [ForestWorker.taskPlan, plan]
  have rests := (rests.rely relyT).rely own
  dsimp only [Option.getD_some]
  rw [planned]
  split
  · exact rests_of_uses (Prog.uses_call (countQuiet_of_leaves .leaf)) rests
  refine Safe.quiet_bind (count_quiet (.inl trivial)) (fun counter u rely => ?_)
    fun _ _ _ => trivial
  have rests := rests.rely rely
  split
  · exact rests_of_uses ((ForestWorker.spent_leaves setup.taskId nodeId).mono
      fun _ => countQuiet_of_leaves) rests
  · exact generate_rests self nodeId node root rfl _ rests

theorem expand_rests (self : ForestWorker) (nodeId : String) {s : Snap ι}
    (rests : Rests setup.task i s) :
    Safe setup.system (mirrorDiscipline ι setup.task) i (fun _ => Rests setup.task i)
      (fun _ _ => True) (self.expand setup.sha256 setup.taskId nodeId) s :=
  self.safe_expand (fun _ _ => Rests.rely) (count_quiet (.inl trivial))
    (fun node _ rests => expandNode_rests self nodeId node rests) rests

/-- and a visit to a task starts and ends so. -/
theorem visitTask_rests (self : ForestWorker) (fuel : Nat) {s : Snap ι}
    (rests : Rests setup.task i s) :
    Safe setup.system (mirrorDiscipline ι setup.task) i (fun _ => Rests setup.task i)
      (fun _ _ => True) (self.visitTask setup.sha256 setup.ucb fuel setup.taskId) s :=
  self.safe_visitTask (fun _ _ => Rests.rely) setup.ucb
    (fun _ passive => count_quiet (.inl (.of_passive passive)))
    (fun nodeId => count_quiet
      (.inl (nodeLockKey_ne_treeBudgetExhaustedKey nodeId setup.taskId)))
    (fun _ => count_quiet (.inl trivial)) (fun _ => count_quiet (.inl trivial))
    (fun nodeId _ rests => expand_rests self nodeId rests) fuel rests

/-! ## The run -/

/-- Nothing is granted in a seeded world, and nothing mirrored. -/
theorem mirror_seeded (task : SeedTask) : MirrorInv (ι := ι) task ⟨task.seededWorld, []⟩ := by
  rw [SeedTask.seededWorld_eq]
  refine ⟨⟨task.rootMapping, ?_, rfl, rfl⟩, rfl, fun owes => ?_, fun w head => ?_,
    fun j _ turned => ?_, fun w mem => ?_⟩
  · exact Function.update_self (f := fun _ => none) ..
  · exact absurd owes Finset.not_nonempty_empty
  · cases head
  · exact absurd rfl turned
  · cases mem

/-- The daemons obey the discipline of the count. -/
theorem mirror_obeys (setup : SearchSetup ι S) :
    setup.system.Obeys (mirrorDiscipline ι setup.task) where
  known := fun _ _ => trivial
  init := fun w seeded => by
    subst seeded
    exact ⟨mirror_seeded setup.task, fun i => ⟨Finset.notMem_empty i, Finset.notMem_empty i⟩⟩
  compatible := fun i j s t other _ _ _ _ guar => guar j (Ne.symm other)
  env := fun s w _ _ inv around =>
    ⟨inv.of_view (.of_budgetView (BudgetView.around around)), fun _ => rfl⟩
  idle := fun _ _ _ _ rests rely => Rests.rely rests rely
  calls := fun i p s called _ rests => by
    cases called with
    | expand nodeId => exact expand_rests _ nodeId rests
    | visit fuel => exact visitTask_rests _ fuel rests
    | remember fuel =>
      exact rests_of_uses ((GlobalMemory.remember_ofMemory fuel).mono fun _ memory =>
        Or.inl (Cmd.BudgetQuiet.of_memory memory)) rests

namespace MirrorInv

variable {s : Snap ι}

theorem generatedCapsules_eq (inv : MirrorInv task s) :
    generatedCapsules task.taskId s.world.redis =
      ((writes task s.history).head?.map Prod.snd).getD 0 := by
  obtain ⟨root, found, -, count⟩ := inv.root
  simp only [generatedCapsules, found, Option.getD_some, count]

/-- With no reservation in progress the counter is the number of grants. -/
theorem counter_eq (inv : MirrorInv task s) (settled : reserving task s.history = ∅) :
    (s.world.redis.counters (taskBudgetKey task.taskId)).getD 0 =
      (grants task s.history).length := by
  have counter := inv.counter
  rw [(Finset.union_eq_empty.mp settled).1, Finset.card_empty] at counter
  simpa using counter

/-- The process granted last has mirrored the number of all grants. -/
theorem last_mem_writes (inv : MirrorInv task s) (settled : reserving task s.history = ∅) {j : ι}
    (last : (grants task s.history).head? = some j) :
    (j, ((grants task s.history).length : Int)) ∈ writes task s.history := by
  obtain ⟨turned, some_⟩ := (head?_grants_eq_some_iff j s.history).mp last
  rw [← turned] at some_ ⊢
  refine inv.mirrored j ?_ some_
  rw [(Finset.union_eq_empty.mp settled).2]
  exact Finset.notMem_empty j

/-- The copy is right exactly when the last grant was written last. -/
theorem mirrorsBudget_iff (inv : MirrorInv task s) (settled : reserving task s.history = ∅) :
    MirrorsBudget task s ↔ LastGrantWrittenLast task s.history := by
  have counter := inv.counter_eq settled
  have closed := (Finset.union_eq_empty.mp settled).2
  rw [MirrorsBudget, and_iff_left counter, inv.generatedCapsules_eq, counter,
    LastGrantWrittenLast]
  cases written : (writes task s.history).head? with
  | none =>
    rw [Option.map_none, Option.map_none, Option.getD_none]
    cases last : (grants task s.history).head? with
    | none =>
      rw [List.head?_eq_none_iff] at last
      simp [last]
    | some j =>
      have mem := inv.last_mem_writes settled last
      rw [List.head?_eq_none_iff.mp written] at mem
      cases mem
  | some w =>
    obtain ⟨turned, number⟩ := inv.last w written (closed ▸ Finset.notMem_empty w.1)
    have le := turn_le task w.1 s.history
    rw [Option.map_some, Option.map_some, Option.getD_some, eq_comm (a := some w.1),
      head?_grants_eq_some_iff, number]
    omega

/-- Counts mirrored in the order of their grants leave the last one. -/
theorem mirrorsBudget_of_inOrder (inv : MirrorInv task s)
    (settled : reserving task s.history = ∅) (order : WrittenInOrder task s.history) :
    MirrorsBudget task s := by
  have counter := inv.counter_eq settled
  refine ⟨?_, counter⟩
  rw [counter, inv.generatedCapsules_eq]
  cases last : (grants task s.history).head? with
  | none =>
    have closed := (Finset.union_eq_empty.mp settled).2
    rw [List.head?_eq_none_iff] at last
    cases written : (writes task s.history).head? with
    | none => simp [last]
    | some w =>
      have turned := (inv.last w written (closed ▸ Finset.notMem_empty w.1)).1
      have le := turn_le task w.1 s.history
      rw [last, List.length_nil] at le
      omega
  | some j =>
    have mem := inv.last_mem_writes settled last
    cases listed : writes task s.history with
    | nil =>
      rw [listed] at mem
      cases mem
    | cons w earlier =>
      have upper := inv.within w (listed ▸ List.mem_cons_self)
      rw [WrittenInOrder, listed, List.pairwise_cons] at order
      rw [listed, List.mem_cons] at mem
      rw [List.head?_cons, Option.map_some, Option.getD_some]
      obtain same | mem := mem
      · rw [← same]
      · have lower := order.1 _ mem
        dsimp only at lower
        omega

end MirrorInv

end Discipline

end Mirror

open Mirror in
/-- In every reachable state without a reservation in progress the counter is the number of
granted reservations, and the count of the root is the counter exactly when the count written
last is the one of the last grant; counts that are written in the order of their grants always
leave it so. -/
theorem mirrored_count_iff {ι S : Type} [DecidableEq ι] [LinearOrder S]
    (setup : SearchSetup ι S) (s : State ι Cmd Cmd.Reply PyError World)
    (reached : setup.system.Reachable s) (settled : reserving setup.task s.history = ∅) :
    (s.world.redis.counters (taskBudgetKey setup.taskId)).getD 0 =
        (grants setup.task s.history).length ∧
      (MirrorsBudget setup.task s.toSnapshot ↔ LastGrantWrittenLast setup.task s.history) ∧
      (WrittenInOrder setup.task s.history → MirrorsBudget setup.task s.toSnapshot) := by
  have inv := reached.inv (mirror_obeys setup)
  exact ⟨inv.counter_eq settled, inv.mirrorsBudget_iff settled, inv.mirrorsBudget_of_inOrder settled⟩

namespace SmallSearch

open Mirror

/-- Once the first worker has expanded the root, both its grants are mirrored. -/
theorem mirrored_count_iff_expandedRoot :
    reserving task expandedRoot.history = ∅ ∧ MirrorsBudget task expandedRoot := by
  have settled : reserving task expandedRoot.history = ∅ := by decide
  have order : WrittenInOrder task expandedRoot.history := by
    have written : writes task expandedRoot.history = [(0, 2), (0, 1)] := by decide
    rw [WrittenInOrder, written]
    decide
  exact ⟨settled, (mirrored_count_iff (setup meanReward) _ (expandedRoot_reachable meanReward)
    settled).2.2 order⟩

/-- The first worker is granted the second capsule; before it mirrors the count, the second
worker visits the first child, is granted the third capsule and mirrors it. -/
def overtaken : State (Fin 3) Cmd Cmd.Reply PyError World :=
  (setup meanReward).system.schedule { seeded with threads := fun _ => .ret () }
    (.call 0 (visit "worker_00000001") :: turns 0 22 ++
      (.call 1 (visit "worker_00000002") :: turns 1 27 ++ turns 0 15))

/-- A run in which one worker's count overtakes another's. -/
theorem overtaken_reachable : (setup meanReward).system.Reachable overtaken := by
  have start : (setup meanReward).system.Reachable { seeded with threads := fun _ => .ret () } :=
    .init task.seededWorld rfl
  have permitted : ∀ i n, ∀ m ∈ turns i n, ∀ t, (setup meanReward).system.Permits t m := by
    intro i n m mem t
    obtain ⟨k, -, rfl⟩ := List.mem_map.mp mem
    exact fun _ _ _ => trivial
  refine start.schedule fun m mem t => ?_
  simp only [List.cons_append, List.mem_cons, List.mem_append] at mem
  rcases mem with rfl | mem | rfl | mem | mem
  · exact SearchSetup.Call.visit 4
  · exact permitted 0 22 m mem t
  · exact SearchSetup.Call.visit 4
  · exact permitted 1 27 m mem t
  · exact permitted 0 15 m mem t

/-- A program that has ended without raising. -/
def hasReturned : Daemon Unit → Bool
  | .ret _ => true
  | _ => false

set_option maxRecDepth 20000 in
/-- All three processes rest, three capsules are granted, and the root says two. -/
theorem not_mirrored_count :
    (setup meanReward).system.Reachable overtaken ∧
      (∀ i, hasReturned (overtaken.threads i) = true) ∧ reserving task overtaken.history = ∅ ∧
      (grants task overtaken.history).length = 3 ∧
      overtaken.world.redis.counters (taskBudgetKey task.taskId) = some 3 ∧
      generatedCapsules task.taskId overtaken.world.redis = 2 ∧
      ¬ MirrorsBudget task overtaken.toSnapshot := by
  have counter : overtaken.world.redis.counters (taskBudgetKey task.taskId) = some 3 := by
    decide
  have copy : generatedCapsules task.taskId overtaken.world.redis = 2 := by decide
  refine ⟨overtaken_reachable, by decide, by decide, by decide, counter,
    copy, fun mirrors => ?_⟩
  rw [MirrorsBudget, counter, copy] at mirrors
  exact absurd mirrors.1 (by decide)

end SmallSearch

end KernelOmega
