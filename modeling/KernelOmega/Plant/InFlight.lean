import KernelOmega.Plant.Balance
import KernelOmega.Plant.Small
import KernelOmega.Plant.Started

/-!
# The requests in flight

The counter goes up before a dispatcher sends a request, and down when the request is
accounted for: by the dispatcher whose socket has failed, or by the executor that has run the
capsule. Both publish a result. `Flights` sums the balances of all commands up: every request
has one result or is at one place on its way to one, and the counter is the number of requests
under way.
-/

namespace KernelOmega

open Concurrent

/-! ## What a run keeps -/

/-- The commands of a thread that put requests on the stream or take them. -/
theorem Post.leaves_or {sha256 : Sha256} {q : Post} {c : Cmd} (allowed : q.Allows sha256 c)
    (keyed : ∀ stage, q = .worker stage → stage.Keyed) :
    c.LeavesRequests ∨
      (∃ request, c = .redis (.xaddDispatch request) ∧ request.capsule.runId = request.runId) ∨
      ∃ count, c = .redis (.xreadgroupDispatch "dispatch_group" count) := by
  cases q with
  | worker stage =>
    rcases stage.apart_or (keyed stage rfl) allowed with
      ⟨apart, -⟩ | rfl | ⟨id, row, rfl⟩ | ⟨request, rfl⟩
    · exact .inl apart.leaves
    · exact .inl trivial
    · exact .inl trivial
    · exact .inr (.inl ⟨request, rfl, allowed.2.2⟩)
  | dispatcher q =>
    cases c with
    | redis c =>
      cases c with
      | xreadgroupDispatch group count =>
        obtain ⟨rfl, -⟩ := allowed
        exact .inr (.inr ⟨count, rfl⟩)
      | incr _ | decr _ | xaddResult _ | pipeline _ => exact .inl trivial
      | _ => exact allowed.elim
    | pg c => exact .inl trivial
    | host c => exact .inl trivial
    | _ => exact allowed.elim
  | executor reads q => exact .inl (Running.Allows.leaves allowed)
  | memory =>
    rcases allowed with apart | ⟨pack, rfl⟩
    · exact .inl apart.leaves
    · exact .inl trivial
  | bystander => exact .inl (Cmd.Apart.leaves allowed)

section Requests

variable {sha256 : Sha256} {q : Post} {c : Cmd} (allowed : q.Allows sha256 c)
  (keyed : ∀ stage, q = .worker stage → stage.Keyed) (x : Choice) {w : World}

include allowed keyed

/-- No more requests are taken than there are. -/
theorem Post.taken_le (taken : w.traffic.taken ≤ w.traffic.dispatch.length) :
    (World.exec x c w).2.traffic.taken ≤ (World.exec x c w).2.traffic.dispatch.length := by
  rcases Post.leaves_or allowed keyed with leaves | ⟨request, rfl, -⟩ | ⟨count, rfl⟩
  · obtain ⟨dispatch, same⟩ := World.exec_requests leaves x w
    rw [dispatch, same]
    exact taken
  · rw [World.exec_xaddDispatch_traffic]
    split
    · exact taken
    · simp only [List.length_append, List.length_singleton]
      omega
  · rcases World.exec_xreadgroupDispatch_traffic x w count with ⟨-, e, failed⟩ | ⟨messages, -, -, after⟩
    · rw [failed]
      exact taken
    · rw [after]
      simp only [Traffic.batch, List.length_take, List.length_drop]
      omega

/-- The capsule of a request on the stream carries its run id. -/
theorem Post.matching_step
    (matching : ∀ request ∈ w.traffic.dispatch, request.capsule.runId = request.runId) :
    ∀ request ∈ (World.exec x c w).2.traffic.dispatch, request.capsule.runId = request.runId := by
  intro request mem
  rcases Post.leaves_or allowed keyed with leaves | ⟨added, rfl, same⟩ | ⟨count, rfl⟩
  · rw [(World.exec_requests leaves x w).1] at mem
    exact matching request mem
  · rw [World.exec_xaddDispatch_traffic] at mem
    split at mem
    · exact matching request mem
    · rcases List.mem_append.mp mem with before | new
      · exact matching request before
      · rw [List.mem_singleton.mp new]
        exact same
  · rcases World.exec_xreadgroupDispatch_traffic x w count with ⟨-, e, failed⟩ | ⟨messages, -, -, after⟩
    · rw [failed] at mem
      exact matching request mem
    · rw [after] at mem
      exact matching request mem

end Requests

/-- The requests a dispatcher has at hand are from the stream. -/
theorem Sending.sound_next {q : Sending} {c : Cmd} (allowed : q.Allows c) (x : Choice) {w : World}
    (matching : ∀ request ∈ w.traffic.dispatch, request.capsule.runId = request.runId)
    (sound : (Post.dispatcher q).Sound) :
    (Post.dispatcher (q.next c (World.exec x c w).1)).Sound := by
  have fewer : ∀ {q' : Sending}, q'.unanswered ⊆ q.unanswered → (Post.dispatcher q').Sound :=
    fun sub request mem => sound request (sub mem)
  cases c with
  | redis c =>
    cases c with
    | xreadgroupDispatch group count =>
      obtain ⟨rfl, rfl⟩ := allowed
      rcases World.exec_xreadgroupDispatch_traffic x w count with
        ⟨-, e, failed⟩ | ⟨messages, reply, batch, -⟩
      · rw [failed]
        exact sound
      · rw [reply]
        intro request mem
        have taken : request ∈ w.traffic.batch count := batch ▸ mem
        exact matching request (List.mem_of_mem_drop (List.mem_of_mem_take taken))
    | incr key =>
      obtain ⟨-, request, rest, rfl⟩ := allowed
      cases (World.exec x (.redis (.incr key)) w).1 <;> exact fewer (List.Subset.refl _)
    | decr key =>
      obtain ⟨-, request, rest, rfl⟩ := allowed
      cases (World.exec x (.redis (.decr key)) w).1 <;> exact fewer (List.Subset.refl _)
    | xaddResult pack =>
      obtain ⟨request, rest, rfl, -⟩ := allowed
      cases (World.exec x (.redis (.xaddResult pack)) w).1 with
      | error e => exact fewer (List.Subset.refl _)
      | ok v => exact fewer (List.subset_cons_self _ _)
    | pipeline ops => exact fewer (List.Subset.refl _)
    | _ => exact allowed.elim
  | pg c =>
    cases c with
    | completeExecution pack =>
      obtain ⟨request, rest, rfl, -⟩ := allowed
      cases (World.exec x (.pg (.completeExecution pack)) w).1 <;> exact fewer (List.Subset.refl _)
    | markExecutionStarted id =>
      obtain ⟨request, rest, rfl, -⟩ := allowed
      cases (World.exec x (.pg (.markExecutionStarted id)) w).1 <;> exact fewer (List.Subset.refl _)
    | _ => exact fewer (List.Subset.refl _)
  | host c =>
    cases c with
    | connect core =>
      obtain ⟨request, rest, rfl⟩ := allowed
      cases (World.exec x (.host (.connect core)) w).1 <;> exact fewer (List.Subset.refl _)
    | sendall core capsule =>
      obtain ⟨request, rest, rfl, -⟩ := allowed
      cases (World.exec x (.host (.sendall core capsule)) w).1 <;> exact fewer (List.Subset.refl _)
    | shutdown core capsule =>
      obtain ⟨request, rest, rfl, -⟩ := allowed
      cases (World.exec x (.host (.shutdown core capsule)) w).1 with
      | error e => exact fewer (List.Subset.refl _)
      | ok v => exact fewer (List.subset_cons_self _ _)
    | _ => exact allowed.elim
  | _ => exact allowed.elim

/-- An executor that reads its capsules and publishes what it has is not lost. -/
theorem Running.next_ne_lost {reads : TaskCapsule → Bool} {q : Running} {c : Cmd} (found : q ≠ .lost)
    {x : Choice} {w : World}
    (readable : ∀ capsule ∈ c.received (World.exec x c w).1, reads capsule = true)
    (published : c.isRedis = true → x.fail = false) : q.next reads c (World.exec x c w).1 ≠ .lost := by
  cases c with
  | redis c =>
    rw [World.exec_redis_ok (published rfl)]
    cases c with
    | xaddResult pack =>
      cases q with
      | lost => exact absurd rfl found
      | idle | holding _ | published _ => exact nofun
    | decr key => exact nofun
    | _ => exact found
  | host c =>
    cases c with
    | accept core =>
      rcases World.exec_accept_traffic x w core with none | ⟨capsule, rest, reply, -, -⟩
      · rw [none]
        exact found
      · rw [reply] at readable ⊢
        have holds : q.next reads (.host (.accept core)) (.ok (some capsule)) = .holding capsule :=
          if_pos (readable capsule (List.mem_singleton.mpr rfl))
        rw [holds]
        exact nofun
    | _ => exact found
  | _ => exact found

/-- Where the requests are after a run, and what is counted. -/
structure Flights {ι S : Type} [DecidableEq ι] (plant : Plant ι S)
    (s : Snapshot ι Cmd Cmd.Reply PyError World) : Prop where
  once : ∀ runId, (drawn s.history).count runId ≤ 1
  taken : s.world.traffic.taken ≤ s.world.traffic.dispatch.length
  matching : ∀ request ∈ s.world.traffic.dispatch, request.capsule.runId = request.runId
  sound : ∀ i, (plant.postOf i s.history).Sound
  found : ∀ i reads, plant.postOf i s.history ≠ .executor reads .lost
  entered : ∀ runId, plant.load Post.undispatched runId s.history +
    s.world.traffic.entries.count runId ≤ (drawn s.history).count runId
  /-- A request is on the stream, in a dispatcher's batch, or counted in flight. -/
  dispatched : ∀ runId, (s.world.traffic.entries.count runId : Int) =
    s.world.traffic.undelivered.count runId + plant.load Post.ahead runId s.history +
      (plant.opened s.history).count runId
  /-- A request in flight is at a port, with a thread, or accounted for. -/
  flying : ∀ runId, ((plant.opened s.history).count runId : Int) =
    s.world.traffic.waiting.count runId + plant.load Post.flying runId s.history +
      (plant.accounted s.history).count runId
  /-- A request is on its way to a result, or has it. -/
  answered : ∀ runId, (s.world.traffic.entries.count runId : Int) =
    s.world.traffic.undelivered.count runId + s.world.traffic.waiting.count runId +
      plant.load Post.unanswered runId s.history + s.world.traffic.results.count runId
  counted : s.world.traffic.count =
    (plant.opened s.history).length - (plant.accounted s.history).length

section Step

variable {ι S : Type} [DecidableEq ι] {plant : Plant ι S} {i : ι} {x : Choice} {c : Cmd}
  {s : Snapshot ι Cmd Cmd.Reply PyError World}

/-- What the conditions say of the thread's own post. -/
theorem Whole.reads (whole : Whole plant.roles s i x c) {reads : TaskCapsule → Bool}
    {running : Running} (here : plant.postOf i s.history = .executor reads running) :
    (∀ capsule ∈ c.received (World.exec x c s.world).1, reads capsule = true) ∧
      (c.isRedis = true → x.fail = false) := by
  have role := plant.postOf_of i s.history
  rw [here] at role
  have reads' : (plant.roles i).reads = some reads := role
  exact ⟨whole.readable reads reads', whole.published (by rw [reads', Option.isSome_some])⟩

/-- One step. Every count is a sum over the posts, so the step of one thread changes it by what that
thread's balance says. -/
theorem Flights.step (flights : Flights plant s)
    (keyed : ∀ stage, plant.postOf i s.history = .worker stage → stage.Keyed)
    (allowed : (plant.postOf i s.history).Allows plant.sha256 c) (whole : Whole plant.roles s i x c) :
    Flights plant (s.after World.exec i x c) := by
  have balance := Post.balance allowed keyed (flights.sound i) (flights.found i) flights.taken
    whole.undelivered (fun _ _ here => (whole.reads here).1) fun _ _ here => (whole.reads here).2
  have opened : plant.opened (s.after World.exec i x c).history =
      (plant.postOf i s.history).opens c (World.exec x c s.world).1 ++ plant.opened s.history := rfl
  have accounted : plant.accounted (s.after World.exec i x c).history =
      (plant.postOf i s.history).accounts c (World.exec x c s.world).1 ++
        plant.accounted s.history := rfl
  have known : drawn (s.after World.exec i x c).history =
      c.draws (World.exec x c s.world).1 ++ drawn s.history := rfl
  constructor
  case once => exact fun runId => (count_drawn_cons whole.fresh (flights.once runId)).1
  case taken => exact Post.taken_le allowed keyed x flights.taken
  case matching => exact Post.matching_step allowed keyed x flights.matching
  case sound =>
    intro j
    rw [Snapshot.after_history]
    by_cases same : i = j
    · subst same
      rw [plant.postOf_own]
      cases here : plant.postOf i s.history with
      | dispatcher q =>
        rw [here] at allowed
        exact Sending.sound_next allowed x flights.matching (here ▸ flights.sound i)
      | _ => trivial
    · rw [plant.postOf_other same]
      exact flights.sound j
  case found =>
    intro j reads
    rw [Snapshot.after_history]
    by_cases same : i = j
    · subst same
      rw [plant.postOf_own]
      cases here : plant.postOf i s.history with
      | executor own running =>
        obtain ⟨readable, published⟩ := whole.reads here
        have kept : running ≠ .lost := by
          rintro rfl
          exact flights.found i own here
        intro lost
        injection lost with _ lost
        exact Running.next_ne_lost kept readable published lost
      | _ => exact nofun
    · rw [plant.postOf_other same]
      exact flights.found j reads
  case entered =>
    intro runId
    have before := flights.entered runId
    have moved := balance.entered runId
    rw [known, List.count_append, Snapshot.after_history, plant.load_cons, Snapshot.after_world]
    omega
  case dispatched =>
    intro runId
    have before := flights.dispatched runId
    have moved := balance.dispatched runId
    rw [opened, List.count_append, Snapshot.after_history, plant.load_cons, Snapshot.after_world]
    omega
  case flying =>
    intro runId
    have before := flights.flying runId
    have moved := balance.flying runId
    rw [opened, accounted, List.count_append, List.count_append, Snapshot.after_history,
      plant.load_cons, Snapshot.after_world]
    omega
  case answered =>
    intro runId
    have before := flights.answered runId
    have moved := balance.answered runId
    rw [Snapshot.after_history, plant.load_cons, Snapshot.after_world]
    omega
  case counted =>
    have before := flights.counted
    have moved := balance.counted
    rw [opened, accounted, List.length_append, List.length_append, Snapshot.after_world]
    omega

end Step

/-! ## The law -/

section Runs

variable {ι S : Type} [DecidableEq ι] [LinearOrder S] (plant : Plant ι S)

/-- The runs in which nothing gets lost or is doubled. -/
abbrev Plant.whole : System ι Cmd Cmd.Reply PyError Choice World :=
  plant.systemOf fun s i x c => Whole plant.roles s i x c

omit [DecidableEq ι] [LinearOrder S] in
/-- Every request has been taken and run: none is on the stream or at a port, and the dispatchers
and executors are at rest. -/
def Plant.Settled (s : State ι Cmd Cmd.Reply PyError World) : Prop :=
  s.world.traffic.undelivered = [] ∧ s.world.inbox = [] ∧
    ∀ i, (plant.roles i).isDispatcher = true ∨ (plant.roles i).reads.isSome = true →
      s.threads i = .ret ()

/-- The counter counts. -/
structure Plant.CountsInFlight (s : State ι Cmd Cmd.Reply PyError World) : Prop where
  nonneg : 0 ≤ s.world.redis.count statsInflight
  /-- The counter is the number of requests that were counted in flight and are not accounted
  for. -/
  counts : s.world.redis.count statsInflight =
    ((plant.opened s.history).toFinset \ (plant.accounted s.history).toFinset).card
  /-- No request has two results, -/
  once : s.world.traffic.entries.Nodup ∧
    ∀ runId, s.world.traffic.results.count runId ≤ s.world.traffic.entries.count runId
  /-- and when all are answered, each has one and the counter is at zero. -/
  settled : plant.Settled s → s.world.redis.count statsInflight = 0 ∧
    s.world.traffic.results.Perm s.world.traffic.entries

variable {plant} {s : State ι Cmd Cmd.Reply PyError World}

/-- At the start there is no traffic. -/
theorem traffic_seedAll (tasks : List SeedTask) : ∃ executions, (seedAll tasks).traffic =
    { dispatch := [], taken := 0, packs := [], count := 0, inbox := [], executions := executions } := by
  have pristine := pristine_seedAll tasks
  refine ⟨(seedAll tasks).pg.executions, ?_⟩
  simp only [World.traffic, Redis.packs, Redis.count, pristine.dispatch, pristine.delivered,
    pristine.results, pristine.counters, pristine.inbox, List.map_nil, Option.getD_none]

/-- Every reachable state, by induction over the run. -/
theorem Plant.flights (reached : plant.whole.Reachable s) : Flights plant s.toSnapshot := by
  refine System.Reachable.invariant (I := Flights plant) ?_ ?_ ?_ reached
  · rintro w rfl
    obtain ⟨executions, empty⟩ := traffic_seedAll plant.tasks
    have start : ∀ i, plant.postOf i [] = (plant.roles i).post := fun _ => rfl
    constructor
    case once => exact fun runId => Nat.zero_le 1
    case sound =>
      intro i
      rw [start]
      cases plant.roles i with
      | dispatcher self => exact fun request mem => by cases mem
      | _ => trivial
    case found =>
      intro i reads
      rw [start]
      cases plant.roles i <;> exact nofun
    all_goals
      rw [empty]
      simp [Traffic.entries, Traffic.undelivered, Traffic.waiting, Traffic.results, drawn,
        Plant.opened, Plant.accounted]
  · intro s i x c k reached flights issues whole
    exact flights.step (fun _ => Plant.keyed reached i) (Plant.post_allows reached issues) whole
  · intro s w _ flights around
    obtain ⟨once, taken, matching, sound, found, entered, dispatched, flying, answered, counted⟩ :=
      flights
    constructor
    case once => exact once
    case sound => exact sound
    case found => exact found
    all_goals
      rw [around.traffic]
      assumption

/-- A resting dispatcher or executor has no request at hand, and the others never have one. -/
theorem Plant.Settled.empty (reached : plant.whole.Reachable s) (settled : plant.Settled s) (i : ι) :
    (plant.postOf i s.history).flying = [] ∧ (plant.postOf i s.history).unanswered = [] := by
  have rests : (plant.roles i).isDispatcher = true ∨ (plant.roles i).reads.isSome = true →
      (plant.roles i).Rests (plant.postOf i s.history) :=
    fun carries => reached.resting (plant.flies _) (settled.2.2 i carries)
  have role := plant.postOf_of i s.history
  have resting : ∀ q, (plant.roles i).Rests q → q.flying = [] ∧ q.unanswered = [] := by
    rintro q (rfl | ⟨reads, running, -, rfl⟩)
    · exact ⟨(plant.roles i).flying_post, (plant.roles i).unanswered_post⟩
    · exact ⟨rfl, rfl⟩
  cases here : plant.postOf i s.history with
  | dispatcher q =>
    rw [here] at role rests
    exact resting _ (rests (.inl role))
  | executor reads q =>
    rw [here] at role rests
    have reads' : (plant.roles i).reads = some reads := role
    exact resting _ (rests (.inr (by rw [reads', Option.isSome_some])))
  | _ => exact ⟨rfl, rfl⟩

/-- The counter of the requests in flight counts them, and every request is answered once. -/
theorem counts_in_flight (reached : plant.whole.Reachable s) : plant.CountsInFlight s := by
  have flights := Plant.flights reached
  have nonneg : ∀ {held : Post → List String}, (∀ role : Role, held role.post = []) → ∀ runId,
      0 ≤ plant.load held runId s.history :=
    fun none runId => plant.load_nonneg (fun i => none (plant.roles i)) runId s.history
  have entriesOnce : ∀ runId, s.world.traffic.entries.count runId ≤ 1 := by
    intro runId
    have entered := flights.entered runId
    have once := flights.once runId
    have held := nonneg Role.undispatched_post runId
    omega
  have openedOnce : ∀ runId, (plant.opened s.history).count runId ≤ 1 := by
    intro runId
    have dispatched := flights.dispatched runId
    have once := entriesOnce runId
    have held := nonneg Role.ahead_post runId
    omega
  have accountedFew : ∀ runId, (plant.accounted s.history).count runId ≤
      (plant.opened s.history).count runId := by
    intro runId
    have flying := flights.flying runId
    have held := nonneg Role.flying_post runId
    omega
  have openedNodup := List.nodup_iff_count_le_one.mpr openedOnce
  have accountedNodup : (plant.accounted s.history).Nodup :=
    List.nodup_iff_count_le_one.mpr fun runId => (accountedFew runId).trans (openedOnce runId)
  have within : (plant.accounted s.history).toFinset ⊆ (plant.opened s.history).toFinset := by
    intro runId mem
    have accounted := List.count_pos_iff.mpr (List.mem_toFinset.mp mem)
    exact List.mem_toFinset.mpr (List.count_pos_iff.mp (accounted.trans_le (accountedFew runId)))
  have counted : s.world.redis.count statsInflight =
      (plant.opened s.history).length - (plant.accounted s.history).length := flights.counted
  have few := Finset.card_le_card within
  have card := Finset.card_sdiff_of_subset within
  rw [List.toFinset_card_of_nodup openedNodup, List.toFinset_card_of_nodup accountedNodup] at few card
  constructor
  case nonneg => omega
  case counts => omega
  case once =>
    refine ⟨List.nodup_iff_count_le_one.mpr entriesOnce, fun runId => ?_⟩
    have answered := flights.answered runId
    have held := nonneg Role.unanswered_post runId
    omega
  case settled =>
    intro settled
    have empty := settled.empty reached
    have flying := plant.load_eq_zero (fun i => (plant.roles i).flying_post) fun i => (empty i).1
    have unanswered := plant.load_eq_zero (fun i => (plant.roles i).unanswered_post)
      fun i => (empty i).2
    have undelivered : s.world.traffic.undelivered = [] := settled.1
    have waiting : s.world.traffic.waiting = [] := List.map_eq_nil_iff.mpr settled.2.1
    constructor
    · have same : (plant.opened s.history).Perm (plant.accounted s.history) := by
        refine List.perm_iff_count.mpr fun runId => ?_
        have moved := flights.flying runId
        rw [flying runId, waiting, List.count_nil] at moved
        omega
      have lengths := same.length_eq
      omega
    · refine List.perm_iff_count.mpr fun runId => ?_
      have moved := flights.answered runId
      rw [unanswered runId, waiting, undelivered, List.count_nil] at moved
      omega

end Runs

/-! ## A capsule that was delivered all the same -/

namespace SmallPlant

/-- The first candidate is dispatched and run. -/
def delivered : List Beat :=
  starts 0 22 { fresh := "0" } ++ starts 2 10 ++ starts 3 5 passing

/-- The socket fails at its shutdown, when the whole capsule is at the port. The dispatcher
accounts for the request and reports a failure; the executor runs the capsule. -/
def deliveredTwice : List Beat :=
  starts 0 22 { fresh := "0" } ++ starts 2 4 ++ goesOn 2 1 { fail := true, delivered := true } ++
    goesOn 2 6 ++ starts 3 5 passing

end SmallPlant

set_option maxRecDepth 20000 in
open SmallPlant in
/-- The capsule travels whole and is answered once. -/
theorem counts_in_flight_delivered : plant.CountsInFlight (after delivered) := by
  have run : plant.whole.PermitsAll still (delivered.map Beat.move) := by decide
  exact counts_in_flight (reachable_after run)

set_option maxRecDepth 20000 in
open SmallPlant in
/-- The counter is below zero, and the request has two results. -/
theorem not_counts_in_flight :
    ¬ ∀ s, plant.system.Reachable s → plant.CountsInFlight s := by
  intro counts
  have run : plant.system.PermitsAll still (deliveredTwice.map Beat.move) ∧
      (after deliveredTwice).world.redis.count statsInflight = -1 ∧
      (after deliveredTwice).world.traffic.results = ["run_0", "run_0"] := by
    decide
  obtain ⟨permitted, below, -⟩ := run
  have positive := (counts _ (reachable_after permitted)).nonneg
  rw [below] at positive
  exact absurd positive (by decide)

end KernelOmega
