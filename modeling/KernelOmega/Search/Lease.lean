import KernelOmega.Search.SingleWriter

/-!
# The node lock

`ForestWorker.run` takes a node's lock with a lease of ten seconds, expands the node, and
gives the lock back with a `GET` and a `DELETE`. While a lock stays with the worker that
took it until that worker gives it back, and is given back only once an expansion that was
started is recorded in the node's flags, every node is expanded at most once. The code
promises neither: the lease runs out by itself, also between the `GET` and the `DELETE`, and
an `expand` call that raises gives the lock back with the node half expanded.

The phase of a worker is read off its own commands.
-/

namespace KernelOmega

open Concurrent

/-! ## Phases -/

/-- Where a worker is between taking a lock and giving it back. The lock's entry in the store says
who took it and not how far that worker has come, and the release is two commands, so the place of
the worker is read off its own past. -/
inductive Phase where
  | idle
  /-- Inside `expand`: the lock is taken, and `expand` has not ended. -/
  | inside (lockKey : String)
  /-- The `GET` of the release has named this worker, and the `DELETE` is to come. -/
  | releasing (lockKey : String)
  deriving DecidableEq

section Phases

variable {ι : Type}

/-- The phase of worker `workerId` after one of its commands. -/
def Phase.next (workerId : String) (before : Phase) : Event ι Cmd Cmd.Reply PyError → Phase
  | ⟨_, .redis (.set key _ true _), .ok true⟩ => .inside key
  | ⟨_, .redis (.get key), .ok holder⟩ =>
    if before = .inside key ∧ holder = some workerId then .releasing key else .idle
  | ⟨_, .redis (.get _), .error _⟩ => .idle
  | ⟨_, .redis (.delete _), _⟩ => .idle
  | _ => before

variable [DecidableEq ι]

/-- The phase of process `i` after its commands in the history; those of others do not move it. -/
def phase (workerId : String) (i : ι) : History ι → Phase
  | [] => .idle
  | e :: earlier =>
    if e.thread = i then (phase workerId i earlier).next workerId e else phase workerId i earlier

/-- A command of the worker's own moves its phase, -/
theorem phase_cons_self (workerId : String) (i : ι) (c : Cmd) (reply : Except PyError c.Reply)
    (history : History ι) :
    phase workerId i (⟨i, c, reply⟩ :: history) =
      (phase workerId i history).next workerId ⟨i, c, reply⟩ :=
  if_pos rfl

/-- and a command of another leaves it. -/
theorem phase_cons_of_ne (workerId : String) {i j : ι} (other : j ≠ i) (c : Cmd)
    (reply : Except PyError c.Reply) (history : History ι) :
    phase workerId j (⟨i, c, reply⟩ :: history) = phase workerId j history :=
  if_neg (Ne.symm other)

end Phases

/-- `expand` would return at its guard. -/
def Redis.Closed (r : Redis) (nodeId : String) : Prop :=
  ∃ h ∈ r.hashes nodeId, ¬ForestWorker.Expandable h

instance (r : Redis) (nodeId : String) : Decidable (r.Closed nodeId) :=
  inferInstanceAs (Decidable (∃ h ∈ r.hashes nodeId, ¬ForestWorker.Expandable h))

/-! ## The system -/

section System

variable {ι S : Type} [DecidableEq ι] (setup : SearchSetup ι S)

/-- The phase of process `i`. -/
def SearchSetup.phase (i : ι) (history : History ι) : Phase :=
  KernelOmega.phase (setup.workers i).workerId i history

/-- Process `i` is inside `expand` for the node. -/
def SearchSetup.Inside (i : ι) (nodeId : String) (history : History ι) : Prop :=
  setup.phase i history = .inside (nodeLockKey nodeId)

/-- Process `i` has read its own id in the node's lock and is about to delete it. -/
def SearchSetup.Releasing (i : ι) (nodeId : String) (history : History ι) : Prop :=
  setup.phase i history = .releasing (nodeLockKey nodeId)

instance (i : ι) (nodeId : String) (history : History ι) :
    Decidable (setup.Inside i nodeId history) :=
  inferInstanceAs (Decidable (_ = _))

/-- The key a command deletes. -/
def Cmd.deletes : Cmd → Option String
  | .redis (.delete key) => some key
  | _ => none

/-- An expansion of the node, if one was started, is recorded in its flags. The guard of `expand`
reads the flags alone, so this is what keeps the next holder of the lock from expanding again. -/
def Settled (nodeId : String) (s : Snap ι) : Prop :=
  nodeId ∈ expansions s.history → s.world.redis.Closed nodeId

variable [LinearOrder S]

/-- The calls of the daemons: turns of the workers' loop and turns of the memory. -/
inductive SearchSetup.DaemonCall (i : ι) : Daemon Unit → Prop
  | visit (fuel : Nat) :
      DaemonCall i ((setup.workers i).visitTask setup.sha256 setup.ucb fuel setup.taskId)
  | remember (fuel : Nat) : DaemonCall i (GlobalMemory.remember fuel)

/-- The search as its daemons run it. -/
def SearchSetup.forest : System ι Cmd Cmd.Reply PyError Choice World :=
  { setup.system with calls := setup.DaemonCall }

/-- The runs in which the lock does what it is there for: it expires only while no worker is inside
`expand` for its node or between the `GET` and the `DELETE` of its release, and it goes away, by
expiry or by a `DELETE`, only with every started expansion recorded. Both are conditions on a step
and the state before it; neither follows from the code, whose lease is ten seconds however long an
expansion takes. -/
def SearchSetup.leased : System ι Cmd Cmd.Reply PyError Choice World where
  exec := World.exec
  init := setup.forest.init
  calls := setup.DaemonCall
  env := fun s w => SearchSetup.Around s.world w ∧
    ∀ n, (s.world.redis.strings (nodeLockKey n)).isSome →
      w.redis.strings (nodeLockKey n) = none →
        Settled n s ∧ ∀ i, ¬setup.Inside i n s.history ∧ ¬setup.Releasing i n s.history
  may := fun s _ _ c => ∀ key ∈ c.deletes, ∀ n ∈ expansions s.history, key = nodeLockKey n →
    s.world.redis.Closed n

instance (s : Snap ι) (i : ι) (x : Choice) (c : Cmd) : Decidable (setup.leased.may s i x c) :=
  inferInstanceAs (Decidable (∀ key ∈ c.deletes, ∀ n ∈ expansions s.history, key = nodeLockKey n →
    s.world.redis.Closed n))

/-- What the lock is there for: at most one worker is inside `expand` for a node, a step of
a worker takes away no lock but its own, and no child is written or dispatched twice. -/
structure ExpandsOnce (sys : System ι Cmd Cmd.Reply PyError Choice World)
    (s : State ι Cmd Cmd.Reply PyError World) : Prop where
  alone : ∀ n i j, setup.Inside i n s.history → setup.Inside j n s.history → i = j
  ownLocks : ∀ i x c k, s.threads i = .cmd c k → sys.may s.toSnapshot i x c →
    ∀ n entry, s.world.redis.strings (nodeLockKey n) = some entry →
      (World.exec x c s.world).2.redis.strings (nodeLockKey n) = none →
        entry.value = (setup.workers i).workerId
  writesOnce : (childWrites s.history).Nodup
  dispatchesOnce : (dispatches s.history).Nodup

/-- A run of the daemons is a run of the search. -/
theorem SearchSetup.leased_reachable {setup : SearchSetup ι S}
    {s : State ι Cmd Cmd.Reply PyError World} (reached : setup.leased.Reachable s) :
    setup.system.Reachable s := by
  induction reached with
  | init w start => exact .init w start
  | step _ moved ih =>
    cases moved with
    | call i p rests called =>
      refine ih.step (.call i p rests ?_)
      cases called with
      | visit fuel => exact .visit fuel
      | remember fuel => exact .remember fuel
    | cmd i x c k issues may => exact ih.step (.cmd i x c k issues trivial)
    | env w acts => exact ih.step (.env w acts.1)

end System

/-! ## Commands that leave locks and flags alone -/

/-- A mapping that takes no flag back. -/
def NodeHash.Latches (mapping : NodeHash) : Prop :=
  mapping.isTerminal ≠ some false ∧ mapping.expanded ≠ some false

/-- An operation of a pipeline that takes no flag back and touches no lock. -/
def RedisOp.Latches : RedisOp → Prop
  | .hset _ mapping => mapping.Latches
  | .set key _ => ∀ nodeId, key ≠ nodeLockKey nodeId
  | _ => True

/-- A command that does neither. `GET` and `DELETE` are left out although a `GET` changes nothing:
they move the phase of a worker. -/
def RedisCmd.Latches : RedisCmd → Prop
  | .hset _ mapping => mapping.Latches
  | .set key _ nx _ => nx = false ∧ ∀ nodeId, key ≠ nodeLockKey nodeId
  | .get _ => False
  | .delete _ => False
  | .pipeline ops => ∀ op ∈ ops, op.Latches
  | _ => True

/-- The commands that leave locks, flags and phases to the rest of the run. -/
def Cmd.Latches : Cmd → Prop
  | .redis c => c.Latches
  | .mark _ => False
  | _ => True

/-- A command that writes nothing takes nothing back. -/
theorem Cmd.Latches.of_passive {c : Cmd} (passive : c.Passive) : c.Latches := by
  cases c with
  | redis c =>
    cases c with
    | hset key mapping => exact passive.elim
    | set key value nx ex => exact passive.elim
    | get key => exact passive.elim
    | delete key => exact passive.elim
    | pipeline ops => exact passive.elim
    | _ => trivial
  | mark m => exact passive.elim
  | _ => trivial

/-- The memory sets flags and the done keys of trees, and no lock. -/
theorem Cmd.Latches.of_memory {c : Cmd} (memory : c.OfMemory) : c.Latches := by
  rcases memory with passive | ⟨ops, rfl, queued⟩
  · exact .of_passive passive
  · intro op mem
    have known := queued op mem
    cases op with
    | hset key mapping =>
      obtain ⟨_, _, _, _, _, _, latched, rfl⟩ := known
      exact ⟨latched, nofun⟩
    | set key value =>
      obtain ⟨taskId, rfl⟩ := known
      exact fun nodeId => (nodeLockKey_ne_treeDoneKey nodeId taskId).symm
    | _ => trivial

/-- Locks stay, and closed nodes stay closed. -/
structure Latched (r r' : Redis) : Prop where
  locks : ∀ nodeId, r'.strings (nodeLockKey nodeId) = r.strings (nodeLockKey nodeId)
  closed : ∀ nodeId, r.Closed nodeId → r'.Closed nodeId

namespace Latched

theorem refl (r : Redis) : Latched r r := ⟨fun _ => rfl, fun _ h => h⟩

theorem trans {r r' r'' : Redis} (first : Latched r r') (last : Latched r' r'') : Latched r r'' :=
  ⟨fun n => (last.locks n).trans (first.locks n), fun n h => last.closed n (first.closed n h)⟩

theorem of_eq {r r' : Redis} (strings : r'.strings = r.strings) (hashes : r'.hashes = r.hashes) :
    Latched r r' := by
  refine ⟨fun n => by rw [strings], fun n closed => ?_⟩
  rw [Redis.Closed, hashes]
  exact closed

/-- A change of a node's mapping that opens no closed node. -/
theorem modifyHash (r : Redis) (key : String) {f : NodeHash → NodeHash}
    (kept : ∀ h, ¬ForestWorker.Expandable h → ¬ForestWorker.Expandable (f h)) :
    Latched r (r.modifyHash key f) := by
  refine ⟨fun _ => rfl, fun n closed => ?_⟩
  obtain ⟨h, found, shut⟩ := closed
  rw [Redis.Closed, Redis.modifyHash_hashes]
  by_cases here : n = key
  · subst here
    refine ⟨_, Function.update_self .., ?_⟩
    rw [Option.mem_def.mp found, Option.getD_some]
    exact kept h shut
  · refine ⟨h, ?_, shut⟩
    rw [Function.update_of_ne here]
    exact found

/-- A flag that is set stays set. -/
theorem flag {new old : Option Bool} (kept : new ≠ some false) (set : old = some true) :
    (new <|> old) = some true := by
  cases new with
  | none => exact set
  | some b =>
    cases b with
    | true => rfl
    | false => exact absurd rfl kept

theorem hset (r : Redis) (key : String) {mapping : NodeHash} (latches : mapping.Latches) :
    Latched r (r.modifyHash key mapping.update) := by
  refine modifyHash r key fun h shut opened => shut ?_
  exact ⟨fun set => opened.1 (flag latches.1 set), fun set => opened.2 (flag latches.2 set)⟩

theorem apply {op : RedisOp} (latches : op.Latches) (r : Redis) : Latched r (r.apply op) := by
  cases op with
  | hset key mapping => exact hset r key latches
  | hincrbyVisits key => exact modifyHash r key fun _ shut => shut
  | hincrbyfloatValueSum key reward => exact modifyHash r key fun _ shut => shut
  | set key value =>
    refine ⟨fun n => ?_, fun n closed => closed⟩
    exact Function.update_of_ne (Ne.symm (latches n)) _ _
  | _ => exact of_eq rfl rfl

theorem applyAll {ops : List RedisOp} (latches : ∀ op ∈ ops, op.Latches) (r : Redis) :
    Latched r (r.applyAll ops) := by
  induction ops generalizing r with
  | nil => exact refl r
  | cons op rest ih =>
    have first := apply (latches op List.mem_cons_self) r
    exact first.trans (ih (fun o mem => latches o (List.mem_cons_of_mem op mem)) (r.apply op))

/-- No latching command opens a node or moves a lock. -/
theorem exec {c : RedisCmd} (latches : c.Latches) (now : Nat) (r : Redis) :
    Latched r (r.exec now c).2 := by
  cases c with
  | hset key mapping => exact hset _ key latches
  | set key value nx ex =>
    obtain ⟨rfl, other⟩ := latches
    refine ⟨fun n => ?_, fun n closed => closed⟩
    exact Function.update_of_ne (Ne.symm (other n)) _ _
  | get key => exact latches.elim
  | delete key => exact latches.elim
  | pipeline ops => exact applyAll latches _
  | _ => exact of_eq rfl rfl

/-- No latching command opens a node or moves a lock, whether it fails or not. -/
theorem world {c : Cmd} (latches : c.Latches) (x : Choice) (w : World) :
    Latched w.redis (World.exec x c w).2.redis := by
  rcases World.exec_redis_cases x c w with same | ⟨command, rfl, after⟩
  · rw [same]
    exact refl _
  · rw [after]
    exact exec latches w.clock w.redis

end Latched

/-! ## The discipline -/

section Calm

variable {ι : Type} {s t : Snap ι}

theorem expansions_suffix {history later : History ι} (suffix : history <:+ later) {n : String}
    (mem : n ∈ expansions history) : n ∈ expansions later := by
  obtain ⟨e, inHistory, inEvent⟩ := List.mem_flatMap.mp mem
  exact List.mem_flatMap.mpr ⟨e, suffix.subset inHistory, inEvent⟩

/-- Such a command is no part of the protocol of a lock: it starts no expansion, and its worker's
phase is as before. -/
theorem Cmd.Latches.silent {c : Cmd} (latches : c.Latches) (i : ι)
    (reply : Except PyError c.Reply) :
    expandsIn ⟨i, c, reply⟩ = [] ∧
      ∀ workerId before, Phase.next workerId before ⟨i, c, reply⟩ = before := by
  cases c with
  | redis c =>
    cases c with
    | set key value nx ex =>
      obtain ⟨rfl, -⟩ := latches
      exact ⟨rfl, fun _ _ => rfl⟩
    | get key => exact latches.elim
    | delete key => exact latches.elim
    | _ => exact ⟨rfl, fun _ _ => rfl⟩
  | mark m => exact latches.elim
  | _ => exact ⟨rfl, fun _ _ => rfl⟩

/-- A command after which locks, phases and expansions are as before. -/
structure Calm (s t : Snap ι) : Prop where
  event : ∃ e, t.history = e :: s.history ∧ expandsIn e = [] ∧
    ∀ workerId before, Phase.next workerId before e = before
  locks : ∀ n, t.world.redis.strings (nodeLockKey n) = s.world.redis.strings (nodeLockKey n)
  closed : ∀ n ∈ expansions s.history, s.world.redis.Closed n → t.world.redis.Closed n

namespace Calm

theorem history (calm : Calm s t) : s.history <:+ t.history := by
  obtain ⟨e, same, -, -⟩ := calm.event
  rw [same]
  exact List.suffix_cons e _

theorem expansions_eq (calm : Calm s t) : expansions t.history = expansions s.history := by
  obtain ⟨e, same, marks, -⟩ := calm.event
  rw [same, expansions, List.flatMap_cons, marks]
  rfl

end Calm

end Calm

section Lease

variable {ι S : Type} [DecidableEq ι] {setup : SearchSetup ι S} {i : ι}

/-- A worker on its way through a lock holds it, no node is expanded twice, and a node whose
expansion has started and whose lock is free is closed. The last field is why the first can be kept:
whoever takes a free lock finds the node closed if it was ever expanded, and returns at the guard.
-/
structure LeaseInv (setup : SearchSetup ι S) (s : Snap ι) : Prop where
  once : (expansions s.history).Nodup
  holds : ∀ i n, setup.Inside i n s.history ∨ setup.Releasing i n s.history →
    ∃ entry, s.world.redis.strings (nodeLockKey n) = some entry ∧
      entry.value = (setup.workers i).workerId
  done : ∀ n, s.world.redis.strings (nodeLockKey n) = none → Settled n s

/-- What a worker relies on: its phase is its own, nobody else starts to expand the node it is
inside of, and recorded expansions stay recorded. `others` is what carries the guard's reading, made
at the start of `expand`, to the writes some commands later. -/
structure LeaseRely (setup : SearchSetup ι S) (i : ι) (s t : Snap ι) : Prop where
  history : s.history <:+ t.history
  phase : setup.phase i t.history = setup.phase i s.history
  others : ∀ n, setup.Inside i n s.history → n ∈ expansions t.history → n ∈ expansions s.history
  closed : ∀ n ∈ expansions s.history, s.world.redis.Closed n → t.world.redis.Closed n

/-- What a step of a worker does to the others. It is stated for the worker alone, without the
others' phases; `LeaseGuar.rely` draws from it what each of them relies on, since two workers are
never inside of one node. -/
structure LeaseGuar (setup : SearchSetup ι S) (i : ι) (s t : Snap ι) : Prop where
  history : s.history <:+ t.history
  phase : ∀ j, j ≠ i → setup.phase j t.history = setup.phase j s.history
  marks : ∀ n ∈ expansions t.history, n ∈ expansions s.history ∨ setup.Inside i n s.history
  closed : ∀ n ∈ expansions s.history, s.world.redis.Closed n → t.world.redis.Closed n
  ownLocks : ∀ n entry, s.world.redis.strings (nodeLockKey n) = some entry →
    t.world.redis.strings (nodeLockKey n) = none → entry.value = (setup.workers i).workerId

namespace LeaseRely

theorem refl (setup : SearchSetup ι S) (i : ι) (s : Snap ι) : LeaseRely setup i s s :=
  ⟨List.suffix_rfl, rfl, fun _ _ mem => mem, fun _ _ closed => closed⟩

theorem trans {s t u : Snap ι} (first : LeaseRely setup i s t) (last : LeaseRely setup i t u) :
    LeaseRely setup i s u where
  history := first.history.trans last.history
  phase := last.phase.trans first.phase
  others := fun n inside mem => first.others n inside (last.others n (first.phase.trans inside) mem)
  closed := fun n mem closed =>
    last.closed n (expansions_suffix first.history mem) (first.closed n mem closed)

theorem inside {s t : Snap ι} (rely : LeaseRely setup i s t) {n : String}
    (inside : setup.Inside i n s.history) : setup.Inside i n t.history :=
  rely.phase.trans inside

end LeaseRely

/-- Two workers hold the lock of one node only if they are one. -/
theorem LeaseInv.alone (distinct : Function.Injective fun i => (setup.workers i).workerId)
    {s : Snap ι} (inv : LeaseInv setup s) {n : String} {i j : ι}
    (here : setup.Inside i n s.history ∨ setup.Releasing i n s.history)
    (there : setup.Inside j n s.history ∨ setup.Releasing j n s.history) : i = j := by
  obtain ⟨entry, found, mine⟩ := inv.holds i n here
  obtain ⟨entry', found', others⟩ := inv.holds j n there
  rw [found] at found'
  obtain rfl := Option.some.inj found'
  exact distinct (mine.symm.trans others)

/-- A step of one worker is among those the other relies on. -/
theorem LeaseGuar.rely (distinct : Function.Injective fun i => (setup.workers i).workerId)
    {s t : Snap ι} (inv : LeaseInv setup s) (guar : LeaseGuar setup i s t) {j : ι} (other : j ≠ i) :
    LeaseRely setup j s t := by
  refine ⟨guar.history, guar.phase j other, fun n inside mem => ?_, guar.closed⟩
  rcases guar.marks n mem with old | insideI
  · exact old
  · exact absurd (inv.alone distinct (.inl inside) (.inl insideI)) other

namespace Calm

variable {s t : Snap ι}

theorem phase_eq (calm : Calm s t) (i : ι) : setup.phase i t.history = setup.phase i s.history := by
  obtain ⟨e, same, -, next⟩ := calm.event
  rw [same, SearchSetup.phase, phase, next, ite_self]
  rfl

theorem rely (calm : Calm s t) (i : ι) : LeaseRely setup i s t := by
  refine ⟨calm.history, calm.phase_eq i, fun n _ mem => ?_, calm.closed⟩
  rwa [calm.expansions_eq] at mem

theorem guar (calm : Calm s t) (i : ι) : LeaseGuar setup i s t := by
  refine ⟨calm.history, fun j _ => calm.phase_eq j, fun n mem => ?_, calm.closed,
    fun n entry held free => ?_⟩
  · rw [calm.expansions_eq] at mem
    exact .inl mem
  · rw [calm.locks, held] at free
    cases free

theorem inv (calm : Calm s t) (inv : LeaseInv setup s) : LeaseInv setup t := by
  refine ⟨?_, fun i n through => ?_, fun n free mem => ?_⟩
  · rw [calm.expansions_eq]
    exact inv.once
  · rw [calm.locks]
    unfold SearchSetup.Inside SearchSetup.Releasing at through
    rw [calm.phase_eq i] at through
    exact inv.holds i n through
  · rw [calm.locks] at free
    rw [calm.expansions_eq] at mem
    exact calm.closed n mem (inv.done n free mem)

end Calm

/-- The event of a worker that marks nothing: what has to hold of its own phase and of the locks
after it. The four steps around a lock differ in these fields alone, and the invariant and the
guarantee follow from them once. -/
structure LockStep (setup : SearchSetup ι S) (s : Snap ι) (w : World)
    (e : Event ι Cmd Cmd.Reply PyError) : Prop where
  marks : expandsIn e = []
  hashes : w.redis.hashes = s.world.redis.hashes
  mine : ∀ n, setup.Inside e.thread n (e :: s.history) ∨ setup.Releasing e.thread n (e :: s.history) →
    ∃ entry, w.redis.strings (nodeLockKey n) = some entry ∧
      entry.value = (setup.workers e.thread).workerId
  theirs : ∀ n j, j ≠ e.thread → setup.Inside j n s.history ∨ setup.Releasing j n s.history →
    w.redis.strings (nodeLockKey n) = s.world.redis.strings (nodeLockKey n)
  free : ∀ n, w.redis.strings (nodeLockKey n) = none → Settled n s
  gone : ∀ n entry, s.world.redis.strings (nodeLockKey n) = some entry →
    w.redis.strings (nodeLockKey n) = none → entry.value = (setup.workers e.thread).workerId

namespace LockStep

variable {s : Snap ι} {w : World} {e : Event ι Cmd Cmd.Reply PyError}

theorem expansions_eq (step : LockStep setup s w e) :
    expansions (e :: s.history) = expansions s.history := by
  rw [expansions, List.flatMap_cons, step.marks]
  rfl

theorem closed_iff (step : LockStep setup s w e) (n : String) :
    w.redis.Closed n ↔ s.world.redis.Closed n := by
  rw [Redis.Closed, Redis.Closed, step.hashes]

/-- The step keeps the invariant: its own worker's part by `mine`, the others' by `theirs`. -/
theorem inv (step : LockStep setup s w e) (inv : LeaseInv setup s) :
    LeaseInv setup ⟨w, e :: s.history⟩ := by
  refine ⟨?_, fun j n through => ?_, fun n free mem => ?_⟩
  · rw [step.expansions_eq]
    exact inv.once
  · by_cases same : j = e.thread
    · subst same
      exact step.mine n through
    · have before : setup.phase j (e :: s.history) = setup.phase j s.history :=
        phase_cons_of_ne _ same e.cmd e.reply s.history
      unfold SearchSetup.Inside SearchSetup.Releasing at through
      rw [before] at through
      rw [step.theirs n j same through]
      exact inv.holds j n through
  · rw [step.expansions_eq] at mem
    exact (step.closed_iff n).mpr (step.free n free mem)

theorem guar (step : LockStep setup s w e) :
    LeaseGuar setup e.thread s ⟨w, e :: s.history⟩ := by
  refine ⟨List.suffix_cons _ _, fun j other => phase_cons_of_ne _ other e.cmd e.reply s.history,
    fun n mem => ?_, fun n _ closed => (step.closed_iff n).mpr closed, step.gone⟩
  rw [step.expansions_eq] at mem
  exact .inl mem

/-- A command without effect, after which its worker is where it was or idle. -/
theorem of_same (inv : LeaseInv setup s) (marks : expandsIn e = [])
    (ends : ∀ workerId before, Phase.next workerId before e = before ∨
      Phase.next workerId before e = .idle) : LockStep setup s s.world e := by
  refine ⟨marks, rfl, fun n through => ?_, fun _ _ _ _ => rfl, inv.done, fun n entry held free => ?_⟩
  · have now : setup.phase e.thread (e :: s.history) =
        (setup.phase e.thread s.history).next (setup.workers e.thread).workerId e :=
      phase_cons_self _ e.thread e.cmd e.reply s.history
    unfold SearchSetup.Inside SearchSetup.Releasing at through
    rw [now] at through
    rcases ends (setup.workers e.thread).workerId (setup.phase e.thread s.history) with same | idle
    · rw [same] at through
      exact inv.holds e.thread n through
    · rw [idle] at through
      rcases through with through | through <;> cases through
  · rw [free] at held
    cases held

end LockStep

/-- A failed command: its worker is where it was, or its release has ended. -/
theorem lease_failed {t : Snap ι} (inv : LeaseInv setup t) (c : RedisCmd) {x : Choice}
    (fails : x.fail = true) :
    LeaseInv setup (t.after World.exec i x (.redis c)) ∧
      LeaseGuar setup i t (t.after World.exec i x (.redis c)) := by
  have silent : expandsIn (⟨i, .redis c, .error .connectionError⟩ : Event ι Cmd Cmd.Reply PyError) =
      [] ∧ ∀ workerId before,
        Phase.next workerId before (⟨i, .redis c, .error .connectionError⟩ :
          Event ι Cmd Cmd.Reply PyError) = before ∨
        Phase.next workerId before (⟨i, .redis c, .error .connectionError⟩ :
          Event ι Cmd Cmd.Reply PyError) = .idle := by
    cases c with
    | get key => exact ⟨rfl, fun _ _ => .inr rfl⟩
    | delete key => exact ⟨rfl, fun _ _ => .inr rfl⟩
    | set key value nx ex => cases nx <;> exact ⟨rfl, fun _ _ => .inl rfl⟩
    | _ => exact ⟨rfl, fun _ _ => .inl rfl⟩
  have after : t.after World.exec i x (.redis c) =
      ⟨t.world, ⟨i, .redis c, .error .connectionError⟩ :: t.history⟩ := by
    simp only [Snapshot.after, World.exec_redis_fail fails]
  have step := LockStep.of_same inv silent.1 silent.2
  rw [after]
  exact ⟨step.inv inv, step.guar⟩

/-- The entry a worker takes a lock with. -/
def SearchSetup.lease (setup : SearchSetup ι S) (i : ι) (w : World) : StringEntry :=
  { value := (setup.workers i).workerId, deadline := some (w.clock + 10) }

/-- The store with one key written or deleted. -/
def World.putString (w : World) (key : String) (entry : Option StringEntry) : World :=
  { w with redis := w.redis.putString key entry }

theorem World.putString_self (w : World) (key : String) (entry : Option StringEntry) :
    (w.putString key entry).redis.strings key = entry :=
  Function.update_self ..

theorem World.putString_of_ne (w : World) {key key' : String} (other : key' ≠ key)
    (entry : Option StringEntry) :
    (w.putString key entry).redis.strings key' = w.redis.strings key' :=
  Function.update_of_ne other ..

namespace LockStep

variable {t : Snap ι}

/-- The `SET NX` of a worker that finds the lock free. No other worker is on its way through
it, since that worker would hold it. -/
theorem take (inv : LeaseInv setup t) (n : String)
    (held : t.world.redis.strings (nodeLockKey n) = none) :
    LockStep setup t (t.world.putString (nodeLockKey n) (some (setup.lease i t.world)))
      ⟨i, .redis (.set (nodeLockKey n) (setup.workers i).workerId true (some 10)), .ok true⟩ := by
  refine ⟨rfl, rfl, fun m through => ?_, fun m j other through => ?_, fun m free => ?_,
    fun m entry there free => ?_⟩
  · have now : setup.phase i (⟨i, .redis (.set (nodeLockKey n) (setup.workers i).workerId true
        (some 10)), .ok true⟩ :: t.history) = .inside (nodeLockKey n) :=
      phase_cons_self _ i _ _ t.history
    unfold SearchSetup.Inside SearchSetup.Releasing at through
    rw [now] at through
    rcases through with through | through
    · obtain same := Phase.inside.inj through
      exact ⟨setup.lease i t.world, by rw [← same, World.putString_self], rfl⟩
    · cases through
  · refine World.putString_of_ne _ (fun same => ?_) _
    obtain ⟨entry, found, -⟩ := inv.holds j m through
    rw [same, held] at found
    cases found
  · refine inv.done m ?_
    by_cases same : nodeLockKey m = nodeLockKey n
    · rw [same]
      exact held
    · rwa [World.putString_of_ne _ same] at free
  · by_cases same : nodeLockKey m = nodeLockKey n
    · rw [same, held] at there
      cases there
    · rw [World.putString_of_ne _ same, there] at free
      cases free

/-- The `GET` of a release. -/
theorem look (inv : LeaseInv setup t) (n : String) (inside : setup.Inside i n t.history)
    (holder : Option String) :
    LockStep setup t t.world ⟨i, .redis (.get (nodeLockKey n)), .ok holder⟩ := by
  refine ⟨rfl, rfl, fun m through => ?_, fun _ _ _ _ => rfl, inv.done, fun m entry held free => ?_⟩
  · have now : setup.phase i (⟨i, .redis (.get (nodeLockKey n)), .ok holder⟩ :: t.history) =
        if holder = some (setup.workers i).workerId then .releasing (nodeLockKey n) else .idle := by
      rw [SearchSetup.phase, phase_cons_self, ← SearchSetup.phase, inside, Phase.next]
      simp only [true_and]
    unfold SearchSetup.Inside SearchSetup.Releasing at through
    rw [now] at through
    split at through
    · rcases through with through | through
      · cases through
      · obtain rfl := nodeLockKey_injective (Phase.releasing.inj through)
        exact inv.holds i n (.inl inside)
    · rcases through with through | through <;> cases through
  · rw [free] at held
    cases held

/-- The `DELETE` of a release. -/
theorem give (distinct : Function.Injective fun i => (setup.workers i).workerId)
    (inv : LeaseInv setup t) (n : String) (releasing : setup.Releasing i n t.history)
    (settled : Settled n t) :
    LockStep setup t (t.world.putString (nodeLockKey n) none)
      ⟨i, .redis (.delete (nodeLockKey n)), .ok ()⟩ := by
  refine ⟨rfl, rfl, fun m through => ?_, fun m j other through => ?_, fun m free => ?_,
    fun m entry there free => ?_⟩
  · have now : setup.phase i (⟨i, .redis (.delete (nodeLockKey n)), .ok ()⟩ :: t.history) =
        .idle := phase_cons_self _ i _ _ t.history
    unfold SearchSetup.Inside SearchSetup.Releasing at through
    rw [now] at through
    rcases through with through | through <;> cases through
  · refine World.putString_of_ne _ (fun same => other ?_) _
    obtain rfl := nodeLockKey_injective same
    exact inv.alone distinct through (.inr releasing)
  · by_cases same : nodeLockKey m = nodeLockKey n
    · exact nodeLockKey_injective same ▸ settled
    · rw [World.putString_of_ne _ same] at free
      exact inv.done m free
  · by_cases same : nodeLockKey m = nodeLockKey n
    · obtain ⟨entry', found, mine⟩ := inv.holds i n (.inr releasing)
      rw [same, found] at there
      exact Option.some.inj there ▸ mine
    · rw [World.putString_of_ne _ same, there] at free
      cases free

end LockStep

/-- Starting an expansion from inside the lock of a settled node. -/
theorem LeaseInv.expanding {t : Snap ι} (inv : LeaseInv setup t) {n : String}
    (inside : setup.Inside i n t.history) (first : n ∉ expansions t.history) :
    LeaseInv setup ⟨t.world, ⟨i, .mark (.expanding n), .ok ()⟩ :: t.history⟩ ∧
      LeaseGuar setup i t ⟨t.world, ⟨i, .mark (.expanding n), .ok ()⟩ :: t.history⟩ := by
  have phases : ∀ j, setup.phase j (⟨i, .mark (.expanding n), .ok ()⟩ :: t.history) =
      setup.phase j t.history := fun j => ite_self _
  refine ⟨⟨List.nodup_cons.mpr ⟨first, inv.once⟩, fun j m through => ?_, fun m free mem => ?_⟩,
    ⟨List.suffix_cons _ _, fun j _ => phases j, fun m mem => ?_, fun _ _ closed => closed,
      fun m entry held free => ?_⟩⟩
  · unfold SearchSetup.Inside SearchSetup.Releasing at through
    rw [phases] at through
    exact inv.holds j m through
  · rcases List.mem_cons.mp mem with rfl | mem
    · obtain ⟨entry, found, -⟩ := inv.holds i m (.inl inside)
      rw [show t.world.redis.strings (nodeLockKey m) = none from free] at found
      cases found
    · exact inv.done m free mem
  · rcases List.mem_cons.mp mem with rfl | mem
    · exact .inr inside
    · exact .inl mem
  · rw [show t.world.redis.strings (nodeLockKey m) = none from free] at held
    cases held

variable [LinearOrder S]

/-- The discipline of the lock. What is known of every state is the tree, and, as long as no node
has been expanded twice, that each child has one writer: it is how the write of a child is seen to
open no closed node. -/
def leaseDiscipline (setup : SearchSetup ι S) : Discipline ι Cmd Cmd.Reply PyError World where
  known := fun s => IsTree setup.sha256 setup.task s.world.redis ∧
    ((expansions s.history).Nodup → WriterInv s.world.redis s.history)
  inv := LeaseInv setup
  rely := LeaseRely setup
  guar := LeaseGuar setup
  idle := fun i s => setup.phase i s.history = .idle
  rely_refl := LeaseRely.refl setup
  rely_trans := fun _ _ _ _ => LeaseRely.trans

/-- A command that is calm in every state can be issued anywhere in a worker's program, -/
theorem calm_quiet {c : Cmd}
    (calm : ∀ t x, (leaseDiscipline setup).known t → LeaseInv setup t →
      (leaseDiscipline setup).known (t.after World.exec i x c) → Calm t (t.after World.exec i x c)) :
    Quiet setup.leased (leaseDiscipline setup) i c := by
  intro t x known inv _ known'
  have calm := calm t x known inv known'
  exact ⟨calm.inv inv, calm.guar i, calm.rely i⟩

/-- and a latching command is. -/
theorem latches_quiet {c : Cmd} (latches : c.Latches) :
    Quiet setup.leased (leaseDiscipline setup) i c := by
  refine calm_quiet fun t x _ _ _ => ?_
  have latched := Latched.world latches x t.world
  have silent := latches.silent i (World.exec x c t.world).1
  exact ⟨⟨_, rfl, silent⟩, latched.locks, fun n _ => latched.closed n⟩

/-- The write of a child is the first one, so it reopens no node that was expanded. -/
theorem writesChild_quiet {p candidate : String} {child : NodeHash} :
    Quiet setup.leased (leaseDiscipline setup) i
      (.redis (.pipeline [.hset (setup.childId p candidate) child,
        .sadd (nodeChildrenKey p) (setup.childId p candidate)])) := by
  refine calm_quiet fun t x known inv known' => ?_
  cases fails : x.fail with
  | true =>
    simp only [Snapshot.after, World.exec_redis_fail fails]
    exact ⟨⟨_, rfl, rfl, fun _ _ => rfl⟩, fun _ => rfl, fun _ _ closed => closed⟩
  | false =>
    simp only [Snapshot.after, World.exec_redis_ok fails] at known' ⊢
    refine ⟨⟨_, rfl, rfl, fun _ _ => rfl⟩, fun _ => rfl, fun n mem closed => ?_⟩
    have before := known.2 inv.once
    have after := known'.2 inv.once
    have fresh := (List.nodup_cons.mp after.writesOnce).1
    have other : n ≠ setup.childId p candidate := by
      rintro rfl
      obtain ⟨h, found⟩ := Option.isSome_iff_exists.mp (before.nodes _ mem)
      obtain ⟨q, isChild⟩ := known.1.child _ h found (IsNodeId.childId_ne_root _ _ _ _)
      exact fresh (before.listed q _ isChild.listed).2
    obtain ⟨h, found, shut⟩ := closed
    refine ⟨h, ?_, shut⟩
    exact (congrFun (Redis.addChild_hashes _ p _ child) n).trans
      ((Function.update_of_ne other _ _).trans found)

/-! ## The four steps around a lock -/

/-- Taking the lock: the worker is inside, and the node it found unlocked is settled. -/
theorem take_lease (n : String) {s : Snap ι} (resting : setup.phase i s.history = .idle) :
    Safe setup.leased (leaseDiscipline setup) i
      (fun locked t => if locked then setup.Inside i n t.history ∧ Settled n t
        else setup.phase i t.history = .idle) (fun _ _ => True)
      (Daemon.redis (.set (nodeLockKey n) (setup.workers i).workerId true (some 10))) s := by
  refine Safe.call fun t rely known inv x may known' => ?_
  have resting := rely.phase.trans resting
  cases fails : x.fail with
  | true =>
    obtain ⟨inv', guar⟩ := lease_failed (i := i) inv
      (.set (nodeLockKey n) (setup.workers i).workerId true (some 10)) fails
    refine ⟨inv', guar, fun v reply => ?_, fun _ _ => trivial⟩
    cases (World.exec_redis_eq_ok reply).1.symm.trans fails
  | false =>
    cases held : t.world.redis.strings (nodeLockKey n) with
    | some entry =>
      have exec : World.exec x (.redis (.set (nodeLockKey n) (setup.workers i).workerId true
          (some 10))) t.world = (.ok false, t.world) := by
        simp only [World.exec_redis_ok fails, Redis.exec, held, Option.isSome_some, Bool.and_self,
          ↓reduceIte]
      simp only [SearchSetup.leased, Snapshot.after, exec]
      have step := LockStep.of_same (e := ⟨i, .redis (.set (nodeLockKey n)
        (setup.workers i).workerId true (some 10)), .ok false⟩) inv rfl fun _ _ => .inl rfl
      refine ⟨step.inv inv, step.guar, fun v reply => ?_, fun _ _ => trivial⟩
      obtain rfl := Except.ok.inj reply
      exact (phase_cons_self _ i _ _ t.history).trans resting
    | none =>
      have exec : World.exec x (.redis (.set (nodeLockKey n) (setup.workers i).workerId true
          (some 10))) t.world =
            (.ok true, t.world.putString (nodeLockKey n) (some (setup.lease i t.world))) := by
        simp only [World.exec_redis_ok fails, Redis.exec, held, Option.isSome_none, Bool.and_false,
          Bool.false_eq_true, ↓reduceIte]
        rfl
      simp only [SearchSetup.leased, Snapshot.after, exec]
      have step := LockStep.take (i := i) inv n held
      refine ⟨step.inv inv, step.guar, fun v reply => ?_, fun _ _ => trivial⟩
      obtain rfl := Except.ok.inj reply
      exact ⟨phase_cons_self _ i _ _ t.history, fun mem => inv.done n held mem⟩

/-- The release: the lock is deleted when the `GET` names this worker. -/
theorem releaseLock_lease (distinct : Function.Injective fun i => (setup.workers i).workerId)
    (n : String) {s : Snap ι} (inside : setup.Inside i n s.history) :
    Safe setup.leased (leaseDiscipline setup) i (fun _ t => setup.phase i t.history = .idle)
      (fun _ _ => True) ((setup.workers i).releaseLock (nodeLockKey n)) s := by
  refine Safe.call_bind fun t rely known inv x may known' => ?_
  have inside := rely.inside inside
  cases fails : x.fail with
  | true =>
    obtain ⟨inv', guar⟩ := lease_failed (i := i) inv (.get (nodeLockKey n)) fails
    refine ⟨inv', guar, fun v reply => ?_, fun _ _ => trivial⟩
    cases (World.exec_redis_eq_ok reply).1.symm.trans fails
  | false =>
    simp only [SearchSetup.leased, Snapshot.after, World.exec_redis_ok fails, Redis.exec]
    have step := LockStep.look inv n inside
      ((t.world.redis.strings (nodeLockKey n)).map (·.value))
    refine ⟨step.inv inv, step.guar, fun holder reply => ?_, fun _ _ => trivial⟩
    obtain rfl := Except.ok.inj reply
    have now : setup.phase i (⟨i, .redis (.get (nodeLockKey n)), .ok
        ((t.world.redis.strings (nodeLockKey n)).map (·.value))⟩ :: t.history) =
        if (t.world.redis.strings (nodeLockKey n)).map (·.value) =
          some (setup.workers i).workerId then .releasing (nodeLockKey n) else .idle := by
      rw [SearchSetup.phase, phase_cons_self, ← SearchSetup.phase, inside, Phase.next]
      simp only [true_and]
    split
    · next mine =>
      rw [if_pos mine] at now
      refine Safe.call fun u rely known inv x may known' => ?_
      have releasing : setup.Releasing i n u.history := rely.phase.trans now
      cases fails : x.fail with
      | true =>
        obtain ⟨inv', guar⟩ := lease_failed (i := i) inv (.delete (nodeLockKey n)) fails
        refine ⟨inv', guar, fun v reply => ?_, fun _ _ => trivial⟩
        cases (World.exec_redis_eq_ok reply).1.symm.trans fails
      | false =>
        simp only [Snapshot.after, World.exec_redis_ok fails, Redis.exec]
        have step := LockStep.give distinct inv n releasing fun mem => may _ rfl n mem rfl
        exact ⟨step.inv inv, step.guar, fun _ _ => phase_cons_self _ i _ _ u.history,
          fun _ _ => trivial⟩
    · next others =>
      rw [if_neg others] at now
      exact now

/-! ## The code -/

/-- What a worker issues past the mark of an expansion. -/
def Cmd.Generates (sha256 : Sha256) (taskId : String) (c : Cmd) : Prop :=
  c.Latches ∨ ∃ p candidate child,
    c = .redis (.pipeline [.hset (ForestWorker.childId sha256 taskId p candidate) child,
      .sadd (nodeChildrenKey p) (ForestWorker.childId sha256 taskId p candidate)])

theorem generates_quiet {c : Cmd} (generates : c.Generates setup.sha256 setup.taskId) :
    Quiet setup.leased (leaseDiscipline setup) i c := by
  rcases generates with latches | ⟨p, candidate, child, rfl⟩
  · exact latches_quiet latches
  · exact writesChild_quiet

section Worker

variable {sha256 : Sha256} {taskId : String}

theorem treeBudgetExhausted_latches (value : String) :
    (Cmd.redis (.set (treeBudgetExhaustedKey taskId) value)).Latches :=
  ⟨rfl, fun n same => nodeLockKey_ne_treeBudgetExhaustedKey n taskId same.symm⟩

/-- A reservation has no part in the locks, -/
theorem ForestWorker.Reserves.latches {c : Cmd} (reserves : ForestWorker.Reserves taskId c) :
    c.Latches := by
  cases reserves with
  | exhaust => exact treeBudgetExhausted_latches _
  | refuse => exact ⟨nofun, nofun⟩
  | grant generated => exact ⟨nofun, nofun⟩
  | _ => trivial

/-- neither have the commands of an expansion that stops early, -/
theorem ForestWorker.Leaves.latches {nodeId : String} {c : Cmd}
    (leaves : ForestWorker.Leaves taskId nodeId c) : c.Latches := by
  cases leaves with
  | exhaust => exact treeBudgetExhausted_latches _
  | refuse => exact ⟨nofun, nofun⟩
  | leaf => exact ⟨nofun, nofun⟩
  | ledger c => trivial

/-- a dispatch may write a child besides, -/
theorem ForestWorker.Dispatches.generates {nodeId candidate : String} {node : NodeHash}
    {targetLines : List Int} {c : Cmd}
    (issued : ForestWorker.Dispatches sha256 taskId nodeId node targetLines candidate c) :
    c.Generates sha256 taskId := by
  cases issued with
  | queues queued => cases queued <;> exact .inl trivial
  | draw => exact .inl trivial
  | child made => exact .inr ⟨nodeId, candidate, _, rfl⟩

/-- and the closing of a node has no part in them. -/
theorem ForestWorker.Closes.latches {nodeId : String} {c : Cmd}
    (closes : ForestWorker.Closes nodeId c) : c.Latches := by
  cases closes with
  | ledger c => trivial
  | barren =>
    exact List.forall_mem_cons.mpr ⟨⟨nofun, nofun⟩, List.forall_mem_singleton.mpr ⟨nofun, nofun⟩⟩
  | done => exact List.forall_mem_singleton.mpr ⟨nofun, nofun⟩

end Worker

theorem leaves_quiet {n : String} {c : Cmd} (leaves : ForestWorker.Leaves setup.taskId n c) :
    Quiet setup.leased (leaseDiscipline setup) i c :=
  latches_quiet leaves.latches

/-- The generating part of `expand`, for a node that is not yet being expanded. -/
theorem generate_lease (self : ForestWorker) {n : String} (node root : NodeHash) (plan : TaskPlan)
    (expansionPlan : ExpansionPlan) {s : Snap ι} (inside : setup.Inside i n s.history)
    (first : n ∉ expansions s.history) :
    Safe setup.leased (leaseDiscipline setup) i (fun _ t => setup.Inside i n t.history)
      (fun _ t => setup.Inside i n t.history)
      (self.generate setup.sha256 setup.taskId n node root plan expansionPlan) s := by
  refine Safe.call_bind fun t rely known inv x may known' => ?_
  have insideT := rely.inside inside
  have firstT : n ∉ expansions t.history := fun mem => first (rely.others n inside mem)
  obtain ⟨inv', guar⟩ := inv.expanding insideT firstT
  have insideT' : setup.Inside i n (⟨i, .mark (.expanding n), .ok ()⟩ :: t.history) :=
    (ite_self _).trans insideT
  refine ⟨inv', guar, fun _ _ => ?_, fun _ reply => by cases reply⟩
  refine Safe.mono (fun _ u rely => LeaseRely.inside rely insideT') (fun _ _ h => h)
    (Safe.of_uses (fun _ => generates_quiet) ?_ fun _ u rely => LeaseRely.inside rely insideT')
  refine (Prog.uses_ofExcept _).bind fun code => (Prog.uses_ofExcept _).bind fun found => ?_
  refine Prog.Uses.bind (Prog.Uses.mono ?_ (self.dispatchCandidates_issues setup.sha256 setup.taskId n
    code node root plan _ found 0)) fun made => ?_
  · rintro c (reserves | ⟨candidate, -, issued⟩)
    · exact .inl reserves.latches
    · exact issued.generates
  · exact (ForestWorker.close_closes setup.taskId n made).mono fun _ closes => .inl closes.latches

/-- The expansion proper, inside the lock of a node that nobody has expanded. It ends inside, also
with an exception. -/
theorem expandNode_lease (self : ForestWorker) {n : String} (node : NodeHash) {s : Snap ι}
    (inside : setup.Inside i n s.history) (first : n ∉ expansions s.history) :
    Safe setup.leased (leaseDiscipline setup) i (fun _ t => setup.Inside i n t.history)
      (fun _ t => setup.Inside i n t.history)
      (self.expandNode setup.sha256 setup.taskId n node) s := by
  refine Safe.quiet_bind (latches_quiet trivial) (fun rootData t relyT => ?_)
    fun _ t rely => rely.inside inside
  have insideT := relyT.inside inside
  have firstT : n ∉ expansions t.history := fun mem => first (relyT.others n inside mem)
  dsimp only
  split
  · exact Safe.mono (fun _ u rely => LeaseRely.inside rely insideT) (fun _ _ h => h)
      (Safe.of_uses (P := ForestWorker.Leaves setup.taskId n) (fun _ => leaves_quiet)
        (Prog.uses_call .leaf) fun _ u rely => LeaseRely.inside rely insideT)
  refine Safe.quiet_bind (latches_quiet trivial) (fun counter u relyU => ?_)
    fun _ u rely => LeaseRely.inside rely insideT
  have insideU := relyU.inside insideT
  split
  · exact Safe.mono (fun _ v rely => LeaseRely.inside rely insideU) (fun _ _ h => h)
      (Safe.of_uses (fun _ => leaves_quiet) (ForestWorker.spent_leaves setup.taskId n)
        fun _ v rely => LeaseRely.inside rely insideU)
  · exact generate_lease self node _ _ _ insideU fun mem => firstT (relyU.others n insideT mem)

/-- An `expand` call from inside the lock of a settled node stays inside. -/
theorem expand_lease (self : ForestWorker) {n : String} {s : Snap ι}
    (inside : setup.Inside i n s.history) (settled : Settled n s) :
    Safe setup.leased (leaseDiscipline setup) i (fun _ t => setup.Inside i n t.history)
      (fun _ t => setup.Inside i n t.history)
      (self.expand setup.sha256 setup.taskId n) s := by
  refine Safe.read_bind (latches_quiet trivial) (fun t x found rely known inv reply own => ?_)
    fun _ t rely => rely.inside inside
  obtain ⟨-, rfl⟩ := World.exec_redis_eq_ok reply
  have insideT := rely.inside inside
  have after := own.inside insideT
  simp only [Redis.exec]
  cases foundNode : t.world.redis.hashes n with
  | none => exact after
  | some node =>
    dsimp only
    split
    · next opened =>
      refine expandNode_lease self node after fun mem => ?_
      have old := rely.others n inside (own.others n insideT mem)
      obtain ⟨h, found, shut⟩ := rely.closed n old (settled old)
      rw [Option.mem_def, foundNode] at found
      exact shut (Option.some.inj found ▸ opened)
    · exact after

/-- A visit to the task starts and ends at rest. The release comes after the expansion whether it
has raised or not, so both ways the worker is inside when it starts. -/
theorem visitTask_lease (distinct : Function.Injective fun i => (setup.workers i).workerId)
    (fuel : Nat) {s : Snap ι} (resting : setup.phase i s.history = .idle) :
    Safe setup.leased (leaseDiscipline setup) i (fun _ t => setup.phase i t.history = .idle)
      (fun _ _ => True)
      ((setup.workers i).visitTask setup.sha256 setup.ucb fuel setup.taskId) s := by
  refine Safe.quiet_bind (latches_quiet trivial) (fun done t relyT => ?_) fun _ _ _ => trivial
  have resting := relyT.phase.trans resting
  split
  · exact resting
  refine Safe.quiet_bind (latches_quiet trivial) (fun exhausted u relyU => ?_) fun _ _ _ => trivial
  have resting := relyU.phase.trans resting
  split
  · exact resting
  refine Safe.uses_bind (fun _ passive => latches_quiet (.of_passive passive))
    ((setup.workers i).distributedSelect_passive setup.ucb fuel setup.taskId)
      (fun n v relyV => ?_) fun _ _ _ => trivial
  have resting := LeaseRely.phase relyV |>.trans resting
  refine Safe.bind (take_lease n resting) fun locked a taken => ?_
  split
  · next got =>
    rw [if_pos got] at taken
    obtain ⟨inside, settled⟩ := taken
    exact Safe.tryFinally (expand_lease _ inside settled)
      (fun _ b insideB => releaseLock_lease distinct n insideB)
      fun _ b insideB => (releaseLock_lease distinct n insideB).mono (fun _ _ _ => trivial)
        fun _ _ h => h
  · next refused =>
    rw [if_neg refused] at taken
    exact taken

/-! ## The run -/

/-- What happens around the processes touches no node and at most one lock. -/
theorem around_locks {w w' : World} (around : SearchSetup.Around w w') :
    w'.redis.hashes = w.redis.hashes ∧
      ∀ key, w'.redis.strings key = w.redis.strings key ∨
        ((w.redis.strings key).isSome ∧ w'.redis.strings key = none) := by
  cases around with
  | expire key entry deadline found due past =>
    refine ⟨rfl, fun key' => ?_⟩
    by_cases same : key' = key
    · subst same
      exact .inr ⟨by rw [found]; rfl, Function.update_self ..⟩
    · exact .inl (Function.update_of_ne same ..)
  | deliver m => exact ⟨rfl, fun _ => .inl rfl⟩
  | tick n => exact ⟨rfl, fun _ => .inl rfl⟩
  | ledger pg => exact ⟨rfl, fun _ => .inl rfl⟩

/-- What happens around the workers takes a lock away only where that does no harm. -/
theorem lease_env {s : Snap ι} {w : World} (inv : LeaseInv setup s)
    (acts : setup.leased.env s w) :
    LeaseInv setup ⟨w, s.history⟩ ∧ ∀ i, LeaseRely setup i s ⟨w, s.history⟩ := by
  obtain ⟨around, kept⟩ := acts
  obtain ⟨hashes, locks⟩ := around_locks around
  have closed : ∀ n, w.redis.Closed n ↔ s.world.redis.Closed n := fun n => by
    rw [Redis.Closed, Redis.Closed, hashes]
  refine ⟨⟨inv.once, fun i n through => ?_, fun n free mem => (closed n).mpr ?_⟩,
    fun i => ⟨List.suffix_rfl, rfl, fun _ _ mem => mem, fun n _ shut => (closed n).mpr shut⟩⟩
  · rcases locks (nodeLockKey n) with same | ⟨there, gone⟩
    · obtain ⟨entry, found, mine⟩ := inv.holds i n through
      exact ⟨entry, same.trans found, mine⟩
    · obtain ⟨outside, apart⟩ := (kept n there gone).2 i
      exact absurd through (not_or.mpr ⟨outside, apart⟩)
  · rcases locks (nodeLockKey n) with same | ⟨there, gone⟩
    · exact inv.done n (same.symm.trans free) mem
    · exact (kept n there gone).1 mem

/-- The daemons obey the discipline of the lock. -/
theorem lease_obeys (setup : SearchSetup ι S) (collisionFree : setup.sha256.CollisionFree)
    (distinct : Function.Injective fun i => (setup.workers i).workerId) :
    setup.leased.Obeys (leaseDiscipline setup) where
  known := fun s reached => by
    have general := SearchSetup.leased_reachable reached
    exact ⟨general.inv (tree_obeys setup collisionFree),
      fun once => (once_reachable general once).inv (writer_obeys setup collisionFree)⟩
  init := fun w _ => by
    refine ⟨⟨List.nodup_nil, fun i n through => ?_, fun n _ mem => absurd mem List.not_mem_nil⟩,
      fun _ => rfl⟩
    rcases through with through | through <;> cases through
  compatible := fun i j s t other _ _ inv _ guar => guar.rely distinct inv (Ne.symm other)
  env := fun s w _ _ inv acts => lease_env inv acts
  idle := fun _ _ _ _ idle rely => LeaseRely.phase rely |>.trans idle
  calls := fun i p s called _ idle => by
    cases called with
    | visit fuel => exact visitTask_lease distinct fuel idle
    | remember fuel =>
      exact Safe.mono (fun _ _ rely => LeaseRely.phase rely |>.trans idle) (fun _ _ h => h)
        (Safe.of_uses (fun _ memory => latches_quiet (.of_memory memory))
          (GlobalMemory.remember_ofMemory fuel) fun _ _ _ => trivial)

end Lease

/-- In every run in which a lock outlives the work under it and is given back only with the
work recorded, each node is expanded at most once. -/
theorem expands_once {ι S : Type} [DecidableEq ι] [LinearOrder S] (setup : SearchSetup ι S)
    (collisionFree : setup.sha256.CollisionFree)
    (distinct : Function.Injective fun i => (setup.workers i).workerId)
    (s : State ι Cmd Cmd.Reply PyError World) (reached : setup.leased.Reachable s) :
    ExpandsOnce setup setup.leased s := by
  have obeys := lease_obeys setup collisionFree distinct
  have inv : LeaseInv setup s.toSnapshot := reached.inv obeys
  have general := SearchSetup.leased_reachable reached
  have writer := (once_reachable general inv.once).inv (writer_obeys setup collisionFree)
  refine ⟨fun n i j here there => inv.alone distinct (.inl here) (.inl there),
    fun i x c k issues may n entry held free => ?_, writer.writesOnce, writer.dispatchesOnce⟩
  exact (reached.guar obeys issues may).ownLocks n entry held free

/-! ## Runs of the small search -/

namespace SmallSearch

abbrev Move := System.Move (Fin 3) Cmd Cmd.Reply PyError Choice World

/-- A turn of a worker's loop. -/
def visit (workerId : String) : Daemon Unit :=
  (worker workerId).visitTask sha256 meanReward 4 task.taskId

/-- The next `n` commands of a process. -/
def turns (i : Fin 3) (n : Nat) : List Move :=
  (List.range n).map fun k => .cmd i { fresh := toString i ++ "_" ++ toString k }

/-- The lock of the root expires if its time has come. -/
def expireRoot (w : World) : World :=
  match w.redis.strings (nodeLockKey (rootNodeId task.taskId)) with
  | some ⟨_, some deadline⟩ =>
    if deadline ≤ w.clock then w.putString (nodeLockKey (rootNodeId task.taskId)) none else w
  | _ => w

/-- The root's lock expires by itself. -/
theorem around_expireRoot (w : World) : SearchSetup.Around w (expireRoot w) := by
  unfold expireRoot
  split
  · next value deadline found =>
    split
    · next past => exact .expire w _ _ deadline found rfl past
    · exact .tick w 0
  · exact .tick w 0

/-- Ten seconds pass, and the lock of the root expires. -/
def lapse : List Move := [.env fun w => { w with clock := w.clock + 10 }, .env expireRoot]

def resting (s : Snap (Fin 3)) : State (Fin 3) Cmd Cmd.Reply PyError World :=
  { s with threads := fun _ => .ret () }

def after (moves : List Move) : State (Fin 3) Cmd Cmd.Reply PyError World :=
  (setup meanReward).forest.schedule (resting seeded) moves

/-- The moves lead to a reachable state. -/
theorem after_reachable {moves : List Move}
    (permitted : ∀ m ∈ moves, m ∈ lapse ∨ m = .call 0 (visit "worker_00000001") ∨
      m = .call 1 (visit "worker_00000002") ∨ ∃ i x, m = .cmd i x) :
    (setup meanReward).forest.Reachable (after moves) := by
  have start : (setup meanReward).forest.Reachable (resting seeded) := .init task.seededWorld rfl
  refine start.schedule fun m mem t => ?_
  rcases permitted m mem with mem | rfl | rfl | ⟨i, x, rfl⟩
  · simp only [lapse, List.mem_cons, List.not_mem_nil, or_false] at mem
    rcases mem with rfl | rfl
    · exact .tick t.world 10
    · exact around_expireRoot t.world
  · exact SearchSetup.DaemonCall.visit 4
  · exact SearchSetup.DaemonCall.visit 4
  · exact fun _ _ _ => trivial

/-- The first worker is at its first candidate when its lease runs out, the second one takes
the lock and expands the root, and the first one goes on. -/
def overrun : List Move :=
  .call 0 (visit "worker_00000001") :: turns 0 9 ++ lapse ++
    .call 1 (visit "worker_00000002") :: turns 1 35 ++ turns 0 20

/-- The lease runs out between the `GET` and the `DELETE` of the first worker, and the second
one, which had selected the root before, takes the lock. -/
def crossed : List Move :=
  .call 1 (visit "worker_00000002") :: turns 1 4 ++
    .call 0 (visit "worker_00000001") :: turns 0 36 ++ lapse ++ turns 1 1

/-- The lease runs out under the first worker's expansion, and the second expands as well. -/
theorem overrun_reachable : (setup meanReward).forest.Reachable (after overrun) := by
  refine after_reachable fun m mem => ?_
  simp only [overrun, turns, List.cons_append, List.mem_cons, List.mem_append, List.mem_map] at mem
  rcases mem with rfl | ((⟨k, -, rfl⟩ | mem) | rfl | ⟨k, -, rfl⟩) | ⟨k, -, rfl⟩
  · exact .inr (.inl rfl)
  · exact .inr (.inr (.inr ⟨_, _, rfl⟩))
  · exact .inl mem
  · exact .inr (.inr (.inl rfl))
  · exact .inr (.inr (.inr ⟨_, _, rfl⟩))
  · exact .inr (.inr (.inr ⟨_, _, rfl⟩))

/-- The lease runs out between the first worker's `GET` and its `DELETE`, which takes the second
one's lock away. -/
theorem crossed_reachable : (setup meanReward).forest.Reachable (after crossed) := by
  refine after_reachable fun m mem => ?_
  simp only [crossed, turns, List.cons_append, List.mem_cons, List.mem_append, List.mem_map] at mem
  rcases mem with rfl | ((⟨k, -, rfl⟩ | rfl | ⟨k, -, rfl⟩) | mem) | ⟨k, -, rfl⟩
  · exact .inr (.inr (.inl rfl))
  · exact .inr (.inr (.inr ⟨_, _, rfl⟩))
  · exact .inr (.inl rfl)
  · exact .inr (.inr (.inr ⟨_, _, rfl⟩))
  · exact .inl mem
  · exact .inr (.inr (.inr ⟨_, _, rfl⟩))

theorem workers_distinct :
    Function.Injective fun i => ((setup meanReward).workers i).workerId := by
  show ∀ i j : Fin 3, ((setup meanReward).workers i).workerId =
    ((setup meanReward).workers j).workerId → i = j
  decide

/-- The command a process is about to issue. -/
def pending (p : Daemon Unit) : Option Cmd :=
  match p with
  | .cmd c _ => some c
  | _ => none

end SmallSearch

set_option maxRecDepth 20000 in
open SmallSearch in
/-- The lease does not keep the workers apart: in one run two workers are inside `expand` for
the root and write and dispatch a child twice, and in another one a worker deletes the lock
of the other. -/
theorem not_expands_once :
    (¬∀ s, (setup meanReward).forest.Reachable s → ∀ n i j,
      (setup meanReward).Inside i n s.history → (setup meanReward).Inside j n s.history → i = j) ∧
    (¬∀ s, (setup meanReward).forest.Reachable s → ∀ i x c k, s.threads i = .cmd c k →
      ∀ n entry, s.world.redis.strings (nodeLockKey n) = some entry →
        (World.exec x c s.world).2.redis.strings (nodeLockKey n) = none →
          entry.value = ((setup meanReward).workers i).workerId) ∧
    (¬∀ s, (setup meanReward).forest.Reachable s → (childWrites s.history).Nodup) ∧
    ¬∀ s, (setup meanReward).forest.Reachable s → (dispatches s.history).Nodup := by
  refine ⟨fun alone => ?_, fun ownLocks => ?_, fun once => ?_, fun once => ?_⟩
  · have first : (setup meanReward).Inside 0 (rootNodeId task.taskId) (after overrun).history := by
      decide
    have second : (setup meanReward).Inside 1 (rootNodeId task.taskId) (after overrun).history := by
      decide
    exact absurd (alone _ overrun_reachable _ 0 1 first second) (by decide)
  · have deletes : pending ((after crossed).threads 0) =
        some (.redis (.delete (nodeLockKey (rootNodeId task.taskId)))) := by
      decide
    have held : (after crossed).world.redis.strings (nodeLockKey (rootNodeId task.taskId)) =
        some { value := "worker_00000002", deadline := some 20 } := by
      decide
    cases at_delete : (after crossed).threads 0 with
    | ret a => rw [at_delete] at deletes; cases deletes
    | raise e => rw [at_delete] at deletes; cases deletes
    | cmd c k =>
      rw [at_delete] at deletes
      obtain rfl := Option.some.inj deletes
      have own := ownLocks _ crossed_reachable 0 {} _ k at_delete _ _ held
        (World.putString_self _ _ none)
      exact absurd own (by decide)
  · exact absurd (once _ overrun_reachable) (by decide)
  · exact absurd (once _ overrun_reachable) (by decide)

set_option maxRecDepth 20000 in
/-- One worker alone, from its lock to the end of its release. -/
theorem expands_once_alone :
    ExpandsOnce (SmallSearch.setup SmallSearch.meanReward)
      (SmallSearch.setup SmallSearch.meanReward).leased
      (SmallSearch.resting (SmallSearch.seeded.run World.exec 0
        (SmallSearch.visit "worker_00000001") fun n => { fresh := toString n }).2) := by
  have start : (SmallSearch.setup SmallSearch.meanReward).leased.Reachable
      (SmallSearch.resting SmallSearch.seeded) :=
    .init SmallSearch.task.seededWorld rfl
  have called : (SmallSearch.setup SmallSearch.meanReward).leased.calls 0
      (SmallSearch.visit "worker_00000001") := SearchSetup.DaemonCall.visit 4
  have allowed : (SmallSearch.setup SmallSearch.meanReward).leased.Allowed 0
      (SmallSearch.visit "worker_00000001") (fun n => { fresh := toString n })
      SmallSearch.seeded := by
    decide
  have returns : (SmallSearch.seeded.run World.exec 0 (SmallSearch.visit "worker_00000001")
      fun n => { fresh := toString n }).1 = .ok () := by
    decide
  exact expands_once (SmallSearch.setup SmallSearch.meanReward) SmallSearch.sha256_collisionFree
    SmallSearch.workers_distinct _ (start.call_alone called _ allowed rfl returns)

end KernelOmega
