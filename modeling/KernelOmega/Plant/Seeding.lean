import KernelOmega.OmegaCli
import KernelOmega.Plant.Worker

/-!
# Stores with seeded tasks

What happens to the stores without a daemon, and the worlds the daemons start from: any
number of tasks seeded one after the other, and nothing else in either store. A task may be
seeded twice; the second seeding rewrites the fields of the root and leaves the others.
-/

namespace KernelOmega

open Concurrent Daemon

/-- What happens to the stores without the daemons: time passes and expired keys go. -/
inductive Weather : World → World → Prop
  | tick (w : World) (n : Nat) : Weather w { w with clock := w.clock + n }
  | expire (w : World) (key : String) (entry : StringEntry) (deadline : Nat) :
      w.redis.strings key = some entry → entry.deadline = some deadline →
      deadline ≤ w.clock → Weather w { w with redis := w.redis.putString key none }

/-- The stores after seeding the tasks in their order. -/
def seedAll (tasks : List SeedTask) : World :=
  tasks.foldl (fun w task => (task.fixTests.run World.exec (fun _ => {}) w).2) {}

/-- The stores as seeding leaves them: no daemon has written yet, and the only hashes are
roots. -/
structure Pristine (w : World) : Prop where
  dispatch : w.redis.dispatch = []
  results : w.redis.results = []
  accepted : w.redis.accepted = []
  acked : w.redis.acked = []
  delivered : ∀ group, w.redis.delivered group = 0
  strings : ∀ key, w.redis.strings key = none
  counters : ∀ key, w.redis.counters key = none
  executions : ∀ runId, w.pg.executions runId = none
  patched : w.patched = []
  inbox : w.inbox = []
  roots : ∀ key h, w.redis.hashes key = some h →
    ∃ taskId, key = rootNodeId taskId ∧ h.treeId = some taskId

namespace SeedTask

/-- What seeding a task writes into any stores. -/
theorem run_fixTests (task : SeedTask) (w : World) :
    (task.fixTests.run World.exec (fun _ => {}) w).2 =
      { w with
        redis := (w.redis.addMember treeIndex task.taskId).modifyHash (rootNodeId task.taskId)
          task.rootMapping.update
        pg := ((w.pg.putTask task.taskId task.taskRow).exec
          (.insertCandidate (rootNodeId task.taskId) task.rootRow)).2 } := by
  have last : ∀ w' : World,
      ((Daemon.pg (.insertCandidate (rootNodeId task.taskId) task.rootRow)).run World.exec
        (fun _ => {}) w').2 =
        { w' with pg := (w'.pg.exec (.insertCandidate (rootNodeId task.taskId) task.rootRow)).2 } := by
    intro w'
    simp only [Daemon.pg, Prog.call, Prog.run, World.exec, Bool.false_eq_true, ↓reduceIte]
    cases (w'.pg.exec (.insertCandidate (rootNodeId task.taskId) task.rootRow)).1 <;> rfl
  exact last _

theorem insertCandidate_executions (p : Postgres) (id : String) (row : CandidateRow) :
    (p.exec (.insertCandidate id row)).2.executions = p.executions := by
  simp only [Postgres.exec]
  split
  · rfl
  · split <;> rfl

end SeedTask

/-- Seeding a task leaves the stores pristine. -/
theorem Pristine.seed {w : World} (pristine : Pristine w) (task : SeedTask) :
    Pristine (task.fixTests.run World.exec (fun _ => {}) w).2 := by
  rw [task.run_fixTests w]
  refine ⟨pristine.dispatch, pristine.results, pristine.accepted, pristine.acked,
    pristine.delivered, pristine.strings, pristine.counters, ?_, pristine.patched, pristine.inbox, ?_⟩
  · intro runId
    rw [SeedTask.insertCandidate_executions]
    exact pristine.executions runId
  · intro key h found
    rw [Redis.modifyHash_hashes] at found
    by_cases same : key = rootNodeId task.taskId
    · subst same
      rw [Function.update_self, Option.some.injEq] at found
      subst found
      exact ⟨task.taskId, rfl, rfl⟩
    · rw [Function.update_of_ne same] at found
      exact pristine.roots key h found

/-- The seeded stores are pristine. -/
theorem pristine_seedAll (tasks : List SeedTask) : Pristine (seedAll tasks) := by
  have from_pristine : ∀ w, Pristine w → Pristine
      (tasks.foldl (fun w task => (task.fixTests.run World.exec (fun _ => {}) w).2) w) := by
    induction tasks with
    | nil => exact fun _ pristine => pristine
    | cons task rest ih => exact fun w pristine => ih _ (pristine.seed task)
  refine from_pristine {} ⟨rfl, rfl, rfl, rfl, fun _ => rfl, fun _ => rfl, fun _ => rfl, fun _ => rfl,
    rfl, rfl, fun key h found => ?_⟩
  cases found

end KernelOmega
