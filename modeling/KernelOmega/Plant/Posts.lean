import KernelOmega.Plant.Flight
import KernelOmega.Plant.System

/-!
# The posts of a plant

`Post` is what a thread of a plant is with regard to requests: a worker on its way to a
dispatch, a dispatcher with the requests of its batch, an executor with its capsule, a memory
or a bystander. `Plant.load` adds up how often the threads have a run id at hand, which is
what the laws about requests count.
-/

namespace KernelOmega

open Concurrent

/-- What a thread is with regard to requests. -/
inductive Post where
  | worker (stage : Stage)
  | dispatcher (q : Sending)
  | executor (reads : TaskCapsule → Bool) (q : Running)
  | memory
  | bystander

namespace Post

/-- The state of the thread at the post, moved by its own rule. -/
def next : Post → (c : Cmd) → Except PyError c.Reply → Post
  | .worker stage, c, reply => .worker (stage.next c reply)
  | .dispatcher q, c, reply => .dispatcher (q.next c reply)
  | .executor reads q, c, reply => .executor reads (q.next reads c reply)
  | .memory, _, _ => .memory
  | .bystander, _, _ => .bystander

/-- What it may do is likewise its own. The memory has no state here: it completes executions and
sends nothing. -/
def Allows (sha256 : Sha256) : Post → Cmd → Prop
  | .worker stage, c => stage.Allows sha256 c
  | .dispatcher q, c => q.Allows c
  | .executor _ q, c => q.Allows c
  | .memory, c => c.Apart ∨ ∃ pack, c = .pg (.completeExecution pack)
  | .bystander, c => c.Apart

end Post

/-- What every thread does with requests. -/
def flightProtocol (sha256 : Sha256) : Typestate Cmd Cmd.Reply PyError Post where
  next := Post.next
  allows := Post.Allows sha256

/-- What a role starts as. -/
def Role.post : Role → Post
  | .worker _ _ => .worker .free
  | .dispatcher _ => .dispatcher (.idle [])
  | .executor _ _ => .executor (fun _ => true) .idle
  | .hypervisor _ reads _ => .executor reads .idle
  | .memory => .memory
  | .gate _ => .bystander
  | .merger => .bystander

/-- What a resting thread of a role is. -/
def Role.Rests (role : Role) (q : Post) : Prop :=
  q = role.post ∨ ∃ reads running, role.post = .executor reads running ∧ q = .executor reads .lost

section Follows

variable {ι S : Type} [LinearOrder S] (plant : Plant ι S)

/-- Every call of a role starts and ends at rest; an executor that has lost a capsule to an
exception rests as well. -/
theorem Plant.Call.flies {plant : Plant ι S} {role : Role} {p : Daemon Unit} {q : Post}
    (called : plant.Call role p) (rests : role.Rests q) :
    p.Keeps (flightProtocol plant.sha256) (fun _ => role.Rests) (fun _ _ => True) q := by
  -- Every role but the executors rests where it started.
  have here : (∀ reads running, role.post ≠ .executor reads running) → q = role.post := by
    intro other
    rcases rests with here | ⟨reads, running, same, -⟩
    · exact here
    · exact absurd same (other reads running)
  cases called with
  | work self own fuel =>
    rw [here nofun]
    refine Prog.Keeps.mono ?_ (fun _ _ _ => trivial)
      ((self.turn_keeps plant.ucb own fuel).embed Post.worker (fun _ _ _ => rfl) fun _ _ => id)
    rintro _ _ ⟨stage, rfl, rfl⟩
    exact .inl rfl
  | dispatch self =>
    rw [here nofun]
    refine Prog.Keeps.mono ?_ (fun _ _ _ => trivial)
      (self.turn_keeps.embed Post.dispatcher (fun _ _ _ => rfl) fun _ _ => id)
    rintro _ _ ⟨sending, rfl, rfl⟩
    exact .inl rfl
  | handle self core =>
    obtain ⟨running, rfl, idle⟩ :
        ∃ running, q = .executor (fun _ => true) running ∧ (running = .idle ∨ running = .lost) := by
      rcases rests with rfl | ⟨reads, running, same, rfl⟩
      · exact ⟨.idle, rfl, .inl rfl⟩
      · cases same
        exact ⟨.lost, rfl, .inr rfl⟩
    refine Prog.Keeps.mono ?_ (fun _ _ _ => trivial)
      ((self.handle_keeps core idle).embed (Post.executor _) (fun _ _ _ => rfl) fun _ _ => id)
    rintro _ _ ⟨running, rfl, rfl | rfl⟩
    · exact .inl rfl
    · exact .inr ⟨_, _, rfl, rfl⟩
  | coreTask self reads core =>
    obtain ⟨running, rfl, idle⟩ :
        ∃ running, q = .executor reads running ∧ (running = .idle ∨ running = .lost) := by
      rcases rests with rfl | ⟨reads, running, same, rfl⟩
      · exact ⟨.idle, rfl, .inl rfl⟩
      · cases same
        exact ⟨.lost, rfl, .inr rfl⟩
    refine Prog.Keeps.mono ?_ (fun _ _ _ => trivial)
      ((self.coreTask_keeps reads core idle).embed (Post.executor _) (fun _ _ _ => rfl) fun _ _ => id)
    rintro _ _ ⟨running, rfl, rfl | rfl⟩
    · exact .inl rfl
    · exact .inr ⟨_, _, rfl, rfl⟩
  | remember fuel =>
    rw [here nofun]
    refine Prog.Keeps.mono ?_ (fun _ _ _ => trivial)
      ((GlobalMemory.remember_keeps fuel {}).embed (fun _ => Post.memory) (fun _ _ _ => rfl)
        fun _ _ allowed => Remembering.Allows.apart allowed)
    rintro _ _ ⟨_, rfl, -⟩
    exact .inl rfl
  | gate self =>
    rw [here nofun]
    refine Prog.Keeps.mono ?_ (fun _ _ _ => trivial)
      (self.gate_keeps.embed (fun _ => Post.bystander) (fun _ _ _ => rfl)
        fun _ _ allowed => PolicyGate.Allows.apart allowed)
    rintro _ _ ⟨_, rfl, -⟩
    exact .inl rfl
  | merge =>
    rw [here nofun]
    refine Prog.Keeps.mono ?_ (fun _ _ _ => trivial)
      ((Merger.merge_claims (.inl rfl)).embed (fun _ => Post.bystander) (fun _ _ _ => rfl)
        fun _ _ allowed => Claiming.Allows.apart allowed)
    rintro _ _ ⟨_, rfl, -⟩
    exact .inl rfl

/-- The threads of a plant follow the protocol. -/
theorem Plant.flies (may : Snapshot ι Cmd Cmd.Reply PyError World → ι → Choice → Cmd → Prop) :
    (plant.systemOf may).Follows (flightProtocol plant.sha256) (fun i => (plant.roles i).post)
      fun i => (plant.roles i).Rests where
  start := fun _ => .inl rfl
  calls := fun _ _ _ called rests => Plant.Call.flies called rests

end Follows

section Loads

variable {ι S : Type} [DecidableEq ι] (plant : Plant ι S)

/-- What thread `i` is with regard to requests. -/
def Plant.postOf (i : ι) (history : List (Event ι Cmd Cmd.Reply PyError)) : Post :=
  (flightProtocol plant.sha256).current (plant.roles i).post i history

/-- How often the threads have a run id at hand; `held` lists the ids a thread has. -/
def Plant.load (held : Post → List String) (runId : String)
    (history : List (Event ι Cmd Cmd.Reply PyError)) : Int :=
  (flightProtocol plant.sha256).total (fun i => (plant.roles i).post)
    (fun q => ((held q).count runId : Int)) history

theorem Plant.postOf_own (i : ι) (c : Cmd) (reply : Except PyError c.Reply)
    (history : List (Event ι Cmd Cmd.Reply PyError)) :
    plant.postOf i (⟨i, c, reply⟩ :: history) = (plant.postOf i history).next c reply :=
  (flightProtocol plant.sha256).current_own _ ⟨i, c, reply⟩ rfl history

theorem Plant.postOf_other {i j : ι} (other : i ≠ j) (c : Cmd) (reply : Except PyError c.Reply)
    (history : List (Event ι Cmd Cmd.Reply PyError)) :
    plant.postOf j (⟨i, c, reply⟩ :: history) = plant.postOf j history :=
  (flightProtocol plant.sha256).current_other _ ⟨i, c, reply⟩ other history

/-- A command changes what its thread has at hand. -/
theorem Plant.load_cons (held : Post → List String) (runId : String) (i : ι) (c : Cmd)
    (reply : Except PyError c.Reply) (history : List (Event ι Cmd Cmd.Reply PyError)) :
    plant.load held runId (⟨i, c, reply⟩ :: history) = plant.load held runId history +
      (((held ((plant.postOf i history).next c reply)).count runId : Int) -
        (held (plant.postOf i history)).count runId) := rfl

@[simp] theorem Plant.load_nil (held : Post → List String) (runId : String) :
    plant.load held runId ([] : List (Event ι Cmd Cmd.Reply PyError)) = 0 := rfl

section Bounds

variable {held : Post → List String} (none : ∀ i, held (plant.roles i).post = []) (runId : String)
  (history : List (Event ι Cmd Cmd.Reply PyError))

include none

/-- No thread has more than all of them. -/
theorem Plant.count_le_load (i : ι) :
    ((held (plant.postOf i history)).count runId : Int) ≤ plant.load held runId history :=
  (flightProtocol plant.sha256).weight_le_total _ (fun q => ((held q).count runId : Int))
    (fun i => by rw [none i, List.count_nil, Int.ofNat_zero]) (fun _ => Int.natCast_nonneg _) i history

theorem Plant.load_nonneg : 0 ≤ plant.load held runId history :=
  (flightProtocol plant.sha256).total_nonneg _ (fun q => ((held q).count runId : Int))
    (fun i => by rw [none i, List.count_nil, Int.ofNat_zero]) (fun _ => Int.natCast_nonneg _) history

end Bounds

/-- A thread's post is of its role. -/
def Post.Of : Post → Role → Prop
  | .worker _, role => role.isWorker = true
  | .dispatcher _, role => role.isDispatcher = true
  | .executor reads _, role => role.reads = some reads
  | .memory, role => role.isMemory = true
  | .bystander, role => role.isDispatcher = false ∧ role.reads = none

/-- A thread's post is one of its role. -/
theorem Plant.postOf_of (i : ι) (history : List (Event ι Cmd Cmd.Reply PyError)) :
    (plant.postOf i history).Of (plant.roles i) := by
  induction history with
  | nil =>
    show (plant.roles i).post.Of (plant.roles i)
    cases plant.roles i with
    | gate _ | merger => exact ⟨rfl, rfl⟩
    | _ => exact rfl
  | cons e earlier ih =>
    obtain ⟨j, c, reply⟩ := e
    by_cases same : j = i
    · subst same
      rw [plant.postOf_own]
      cases before : plant.postOf j earlier <;>
        · rw [before] at ih
          exact ih
    · rw [plant.postOf_other same]
      exact ih

/-- Nobody has a run id at hand when no post has one. -/
theorem Plant.load_eq_zero {held : Post → List String} (none : ∀ i, held (plant.roles i).post = [])
    {history : List (Event ι Cmd Cmd.Reply PyError)}
    (empty : ∀ i, held (plant.postOf i history) = []) (runId : String) :
    plant.load held runId history = 0 := by
  refine ((flightProtocol plant.sha256).total_eq_sum _ _ (history.map (·.thread)).toFinset
    fun e mem => List.mem_toFinset.mpr (List.mem_map_of_mem mem)).trans ?_
  refine Finset.sum_eq_zero fun i _ => ?_
  show ((held (plant.postOf i history)).count runId : Int) - (held (plant.roles i).post).count runId = 0
  rw [empty i, none i, sub_self]

end Loads

theorem Plant.post_allows {ι S : Type} [LinearOrder S] [DecidableEq ι] {plant : Plant ι S}
    {may : Snapshot ι Cmd Cmd.Reply PyError World → ι → Choice → Cmd → Prop}
    {s : State ι Cmd Cmd.Reply PyError World} (reached : (plant.systemOf may).Reachable s) {i : ι}
    {c : Cmd} {k : Except PyError c.Reply → Daemon Unit} (issues : s.threads i = .cmd c k) :
    (plant.postOf i s.history).Allows plant.sha256 c :=
  reached.allows (plant.flies may) issues

/-! ## Run ids -/

/-- The run ids a command draws. -/
def Cmd.draws : (c : Cmd) → Except PyError c.Reply → List String
  | .uuid4 => fun
    | .ok hex => ["run_" ++ hex]
    | .error _ => []
  | _ => fun _ => []

/-- The run ids drawn so far. -/
def drawn {ι : Type} (history : List (Event ι Cmd Cmd.Reply PyError)) : List String :=
  history.flatMap fun e => e.cmd.draws e.reply

namespace Stage

/-- The run id a worker has drawn for a request it has not dispatched. -/
def runs : Stage → List String
  | .drawn _ _ _ runId => [runId]
  | .recorded _ _ _ runId => [runId]
  | .queued _ _ _ runId => [runId]
  | _ => []

/-- The run id a worker has drawn for an execution it has not recorded. -/
def unrecorded : Stage → List String
  | .drawn _ _ _ runId => [runId]
  | .recorded _ _ _ runId => [runId]
  | _ => []

/-- A reservation is made in a budget. -/
def Keyed : Stage → Prop
  | .reserved _ key => ∃ taskId, key = taskBudgetKey taskId
  | _ => True

variable {sha256 : Sha256} {stage : Stage}

/-- A reservation is made in the budget of a tree, at every stage. -/
theorem Keyed.next {c : Cmd} (keyed : stage.Keyed) (allowed : stage.Allows sha256 c)
    (reply : Except PyError c.Reply) : (stage.next c reply).Keyed := by
  cases c with
  | redis c =>
    cases reply with
    | error e => cases c <;> exact keyed
    | ok v =>
      cases c with
      | incr key =>
        obtain ⟨nodeId, taskId, rfl, rfl⟩ := allowed
        exact ⟨taskId, rfl⟩
      | pipeline ops =>
        rcases allowed with ⟨nodeId, taskId, rfl, candidate, child, -, -, -, rfl⟩ | ⟨rfl, -⟩
        · trivial
        · trivial
      | xaddDispatch request =>
        obtain ⟨⟨nodeId, rfl⟩, -⟩ := allowed
        trivial
      | decr key => trivial
      | _ => exact keyed
  | pg c =>
    cases reply with
    | error e => cases c <;> first | exact keyed | trivial
    | ok v =>
      cases c with
      | insertCandidate id row =>
        obtain ⟨⟨nodeId, runId, rfl⟩, -⟩ := allowed
        trivial
      | insertExecution runId row =>
        obtain ⟨⟨nodeId, rfl⟩, -⟩ := allowed
        trivial
      | mergeTaskMetadata _ => trivial
      | _ => exact keyed
  | uuid4 =>
    obtain ⟨nodeId, taskId, childId, rfl⟩ := allowed
    cases reply <;> trivial
  | mark m => trivial
  | time => exact keyed
  | _ => exact allowed.elim

/-- A worker's commands: those apart from the traffic leave its run id as it is. -/
theorem apart_or {c : Cmd} (keyed : stage.Keyed) (allowed : stage.Allows sha256 c) :
    (c.Apart ∧ ∀ reply, (stage.next c reply).runs = stage.runs ∧
        (stage.next c reply).unrecorded = stage.unrecorded) ∨
      c = .uuid4 ∨ (∃ runId row, c = .pg (.insertExecution runId row)) ∨
      ∃ request, c = .redis (.xaddDispatch request) := by
  have budget : ∀ taskId, taskBudgetKey taskId ≠ statsInflight := by
    intro taskId same
    have chars := congrArg String.toList same
    simp [taskBudgetKey, statsInflight] at chars
  cases c with
  | redis c =>
    cases c with
    | incr key =>
      obtain ⟨nodeId, taskId, rfl, rfl⟩ := allowed
      refine .inl ⟨budget taskId, fun reply => ?_⟩
      cases reply <;> exact ⟨rfl, rfl⟩
    | decr key =>
      obtain ⟨nodeId, rfl⟩ := allowed
      obtain ⟨taskId, rfl⟩ := keyed
      refine .inl ⟨budget taskId, fun reply => ?_⟩
      cases reply <;> exact ⟨rfl, rfl⟩
    | pipeline ops =>
      left
      rcases allowed with ⟨nodeId, taskId, rfl, candidate, child, -, -, -, rfl⟩ | ⟨rfl, closes⟩
      · refine ⟨rfl, fun reply => ?_⟩
        cases reply <;> exact ⟨rfl, rfl⟩
      · refine ⟨sum_adds_of_forall fun op mem => ?_, fun reply => ?_⟩
        · obtain ⟨nodeId, mapping, rfl, -⟩ := closes op mem
          rfl
        · cases reply <;> exact ⟨rfl, rfl⟩
    | xaddDispatch request => exact .inr (.inr (.inr ⟨request, rfl⟩))
    | hgetall _ | hset _ _ | smembers _ | get _ | existsKey _ | set _ _ _ _ | delete _
    | getCounter _ => exact .inl ⟨trivial, fun _ => ⟨rfl, rfl⟩⟩
    | _ => exact allowed.elim
  | pg c =>
    cases c with
    | insertCandidate id row =>
      obtain ⟨⟨nodeId, runId, rfl⟩, -⟩ := allowed
      refine .inl ⟨trivial, fun reply => ?_⟩
      cases reply <;> exact ⟨rfl, rfl⟩
    | insertExecution runId row => exact .inr (.inr (.inl ⟨runId, row, rfl⟩))
    | mergeTaskMetadata taskId =>
      refine .inl ⟨trivial, fun reply => ?_⟩
      rcases allowed with ⟨nodeId, rfl⟩ | rfl <;> exact ⟨rfl, rfl⟩
    | fetchTaskStatus _ | fetchCandidateStatus _ | setTaskStatus _ _ | setCandidateStatus _ _ =>
      exact .inl ⟨trivial, fun _ => ⟨rfl, rfl⟩⟩
    | _ => exact allowed.elim
  | uuid4 => exact .inr (.inl rfl)
  | mark m =>
    cases m with
    | expanding nodeId =>
      obtain rfl : stage = .free := allowed
      exact .inl ⟨trivial, fun _ => ⟨rfl, rfl⟩⟩
  | time => exact .inl ⟨trivial, fun _ => ⟨rfl, rfl⟩⟩
  | _ => exact allowed.elim

end Stage

/-- The worker's reservations are in budgets, whatever has happened. -/
theorem Plant.keyed {ι S : Type} [LinearOrder S] [DecidableEq ι] {plant : Plant ι S}
    {may : Snapshot ι Cmd Cmd.Reply PyError World → ι → Choice → Cmd → Prop}
    {s : State ι Cmd Cmd.Reply PyError World} (reached : (plant.systemOf may).Reachable s) (i : ι)
    {stage : Stage} (works : plant.postOf i s.history = .worker stage) : stage.Keyed := by
  have all : ∀ stage, plant.postOf i s.history = .worker stage → stage.Keyed := by
    refine System.Reachable.staysAt (I := fun q => ∀ stage, q = Post.worker stage → stage.Keyed)
      ((plant.flies may).at i) ?_ ?_ reached
    · intro stage here
      cases role : plant.roles i with
      | worker self own =>
        rw [role] at here
        cases here
        trivial
      | _ =>
        rw [role] at here
        cases here
    · rintro q c reply keyed allowed stage' here
      cases q with
      | worker stage =>
        cases here
        exact (keyed stage rfl).next allowed reply
      | _ => cases here
  exact all stage works

end KernelOmega
