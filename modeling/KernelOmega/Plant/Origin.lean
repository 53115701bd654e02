import KernelOmega.Plant.Sourced

/-!
# Repairs of seeded tasks

In every reachable state of a plant whose results stream is open to all, what is on the accepted
stream and what a merger applies is a repair of a seeded task: its target is the task's file, and
its code is the task's source after a chain of patches, no longer than the plan's depth.
-/

namespace KernelOmega

open Concurrent Distance Python

/-- The task that was seeded last under an id. -/
def originOf (tasks : List SeedTask) (taskId : String) : Option SeedTask :=
  tasks.reverse.find? fun task => decide (task.taskId = taskId)

theorem originOf_eq_some {tasks : List SeedTask} {taskId : String} {task : SeedTask}
    (known : originOf tasks taskId = some task) : task ∈ tasks ∧ task.taskId = taskId := by
  refine ⟨List.mem_reverse.mp (List.mem_of_find?_eq_some known), ?_⟩
  simpa only [decide_eq_true_eq] using List.find?_some known

section Repairs

variable {ι S : Type} (plant : Plant ι S)

/-- A worker of the plant can come from the code to the candidate. -/
def Plant.Mutates (code candidate : String) : Prop :=
  ∃ i self own, plant.roles i = .worker self own ∧ self.Mutates code candidate

/-- The payload is made for the task's file, of the task's source. -/
structure SeedTask.Repairs (task : SeedTask) (mutates : String → String → Prop)
    (payload : AcceptedPayload) : Prop where
  treeId : payload.treeId = task.taskId
  sourceRelpath : payload.sourceRelpath = task.sourceRelpath
  repoPath : payload.repoPath = task.repoPath
  code : ∃ n ≤ task.plan.maxDepth.toNat, Steps mutates n task.code payload.code

def Plant.Repairs (payload : AcceptedPayload) : Prop :=
  ∃ task ∈ plant.tasks, task.Repairs plant.Mutates payload

/-- What holds of the plant, whoever adds to the results. -/
structure Honest [DecidableEq ι] (s : Snapshot ι Cmd Cmd.Reply PyError World) : Prop where
  rooted : s.world.redis.Rooted plant.sha256 (originOf plant.tasks) plant.Mutates
  reads : ∀ i self own, plant.roles i = .worker self own →
    SourcedReads (originOf plant.tasks) plant.Mutates
      ((budding self plant.sha256).current [] i s.history)
  kin : ∀ i, (plant.roles i).isWorker = true →
    KinRead plant.sha256 ((kinship plant.sha256).current [] i s.history)
  seen : ∀ i policy q, plant.deskOf i s.history = .gate policy q → ∀ pack node,
    (pack, some node) ∈ q.seen → node.Sourced (originOf plant.tasks) plant.Mutates pack.capsuleId
  payloads : ∀ payload ∈ s.world.redis.payloads, plant.Repairs payload
  messages : ∀ i q, plant.deskOf i s.history = .merger q → ∀ message ∈ q.messages,
    plant.Repairs message.payload
  patched : ∀ payload ∈ s.world.patched, plant.Repairs payload

end Repairs

/-! ## The stores as they are seeded -/

/-- A seeded root. -/
theorem SeedTask.sourced_root {origin : String → Option SeedTask}
    {mutates : String → String → Prop} {task : SeedTask} (known : origin task.taskId = some task)
    (old : NodeHash) :
    (task.rootMapping.update old).Sourced origin mutates (rootNodeId task.taskId) where
  planned := by
    intro taskId task' same known'
    obtain rfl := (namesTree_rootNodeId task.taskId).unique (same ▸ namesTree_rootNodeId taskId)
    obtain rfl := Option.some.inj (known.symm.trans known')
    rfl
  coded := fun _ => rfl
  placed := by
    intro taskId tree
    obtain rfl := Option.some.inj tree
    exact ⟨namesTree_rootNodeId _, task, task.code, known, rfl, .refl _, Nat.zero_le _, rfl, rfl⟩

/-- The task that was seeded last under an id, of a list of tasks and one after it. -/
theorem originOf_concat (tasks : List SeedTask) (task : SeedTask) (taskId : String) :
    originOf (tasks ++ [task]) taskId =
      if task.taskId = taskId then some task else originOf tasks taskId := by
  rw [originOf, List.reverse_append, List.reverse_singleton, List.singleton_append]
  split
  · next same => exact List.find?_cons_of_pos (decide_eq_true same)
  · next other => exact List.find?_cons_of_neg (by simpa only [decide_eq_true_eq] using other)

/-- The roots that are seeded are the origins of their own trees. -/
theorem rooted_seedAll (sha256 : Sha256) (mutates : String → String → Prop)
    (tasks : List SeedTask) : (seedAll tasks).redis.Rooted sha256 (originOf tasks) mutates := by
  induction tasks using List.reverseRecOn with
  | nil =>
    refine ⟨fun key => ⟨fun _ _ _ known => ?_, fun coded => ?_, fun _ tree => ?_⟩,
      fun _ _ mem => ?_⟩
    · cases known
    · cases coded
    · cases tree
    · cases mem
  | append_singleton tasks task ih =>
    have seeds : (seedAll (tasks ++ [task])).redis =
        ((seedAll tasks).redis.addMember treeIndex task.taskId).modifyHash
          (rootNodeId task.taskId) task.rootMapping.update := by
      rw [seedAll, List.foldl_append, List.foldl_cons, List.foldl_nil, task.run_fixTests]
      rfl
    rw [seeds]
    refine ⟨fun key => ?_, fun p c mem => ih.kin p c ?_⟩
    · rw [Redis.modifyHash_hashes]
      by_cases here : key = rootNodeId task.taskId
      · subst here
        rw [Function.update_self, Option.getD_some]
        exact SeedTask.sourced_root (by rw [originOf_concat, if_pos rfl]) _
      · rw [Function.update_of_ne here]
        have before := ih.sourced key
        -- Another root is of another task, which the new one leaves as it was.
        have other : ∀ taskId, key = rootNodeId taskId →
            originOf (tasks ++ [task]) taskId = originOf tasks taskId := by
          rintro taskId rfl
          rw [originOf_concat, if_neg]
          rintro rfl
          exact here rfl
        refine ⟨fun taskId task' root known => ?_, before.coded, fun taskId tree => ?_⟩
        · exact before.planned taskId task' root (other taskId root ▸ known)
        · have root : key = rootNodeId taskId := by
            cases found : (seedAll tasks).redis.hashes key with
            | none =>
              rw [Redis.addMember, found] at tree
              cases tree
            | some node =>
              obtain ⟨taskId', root, tree'⟩ := (pristine_seedAll tasks).roots key node found
              rw [Redis.addMember, found, Option.getD_some, tree'] at tree
              rw [root, Option.some.inj tree]
          rw [other taskId root]
          exact before.placed taskId tree
    · simpa only [Redis.modifyHash, Redis.addMember,
        Function.update_of_ne (nodeChildrenKey_ne_treeIndex p)] using mem

/-! ## What the daemons know -/

section Next

variable {w : World} {x : Choice} {c : Cmd}

/-- What a gate sees is stored. -/
theorem Gating.mem_seen_next {policy : PolicyGate} {q : Gating} (allowed : policy.Allows q c)
    {pack : VerificationPack} {node : NodeHash}
    (mem : (pack, some node) ∈ (q.next c (World.exec x c w).1).seen) :
    (pack, some node) ∈ q.seen ∨ w.redis.hashes pack.capsuleId = some node := by
  cases c with
  | redis c =>
    cases reply : (World.exec x (.redis c) w).1 with
    | error e =>
      rw [reply] at mem
      cases c <;> exact .inl mem
    | ok v =>
      obtain ⟨-, rfl⟩ := World.exec_redis_eq_ok reply
      rw [reply] at mem
      cases c with
      | xreadgroupResults group count => cases mem
      | hgetall key =>
        obtain ⟨message, rest, pack', left, read, rfl⟩ := allowed
        have looked : q.look (w.redis.hashes pack'.capsuleId) =
            { q with left := rest, seen := (pack', w.redis.hashes pack'.capsuleId) :: q.seen } := by
          simp only [Gating.look, left, read]
        have mem : (pack, some node) ∈ (q.look (w.redis.hashes pack'.capsuleId)).seen := mem
        rw [looked] at mem
        rcases List.mem_cons.mp mem with here | before
        · obtain ⟨rfl, found⟩ := Prod.mk.inj here
          exact .inr found.symm
        · exact .inl before
      | set key value nx ex =>
        obtain ⟨rfl, rfl, pack', node', earlier, treeId, seen, tree, -⟩ := allowed
        have tries : (pack, some node) ∈ (q.try value _).seen := mem
        simp only [Gating.try, Gating.tree, seen, tree] at tries
        exact .inl (seen ▸ tries)
      | pipeline ops => cases mem
      | get key => exact .inl mem
      | _ => exact allowed.elim
  | pg c => exact .inl mem
  | _ => exact allowed.elim

/-- What a merger has at hand is on the stream. -/
theorem Claiming.mem_messages_next {q : Claiming} {message : AcceptedMessage}
    (mem : message ∈ (q.next c (World.exec x c w).1).messages) :
    message ∈ q.messages ∨ message ∈ w.redis.accepted := by
  have claims : ∀ winner (m : AcceptedMessage) left done,
      message ∈ (Claiming.claim winner m left done).messages → message ∈ m :: (left ++ done) := by
    intro winner m left done mem
    unfold Claiming.claim at mem
    split at mem
    · exact mem
    · simp only [messages, List.mem_append, List.mem_cons] at mem ⊢
      tauto
  cases reply : (World.exec x c w).1 with
  | error e =>
    rw [reply] at mem
    have mem : message ∈ q.fail.messages := mem
    cases q <;> first | exact .inl mem | cases mem
  | ok v =>
    rw [reply] at mem
    have mem : message ∈ (q.advance c v).messages := mem
    cases c with
    | redis c =>
      obtain ⟨-, rfl⟩ := World.exec_redis_eq_ok reply
      cases c with
      | xreadgroupAccepted group count =>
        right
        simp only [advance, messages, List.append_nil] at mem
        exact List.mem_of_mem_drop (List.mem_of_mem_take mem)
      | get key =>
        left
        cases q with
        | idle left done =>
          cases left with
          | nil => exact mem
          | cons m left =>
            simp only [advance] at mem
            split at mem
            · exact claims _ m left done mem
            · exact mem
        | contested m left done => exact claims _ m left done mem
        | _ => exact mem
      | set key value nx ex =>
        left
        cases q with
        | trying m left done =>
          simp only [advance] at mem
          split at mem <;> exact mem
        | _ => exact mem
      | pipeline ops => cases mem
      | _ => exact .inl mem
    | applyPatch payload => cases q <;> exact .inl mem
    | pg c =>
      left
      cases c with
      | mergeCandidateMetadata id =>
        cases q with
        | applied m left done =>
          simp only [advance, messages, List.mem_append, List.mem_cons] at mem ⊢
          tauto
        | releasing m left done =>
          simp only [advance, messages, List.mem_append, List.mem_cons] at mem ⊢
          tauto
        | _ => exact mem
      | _ => exact mem
    | _ => exact .inl mem

/-- What a worker reads is stored. -/
theorem SourcedReads.next {self : ForestWorker} {sha256 : Sha256}
    {origin : String → Option SeedTask} {mutates : String → String → Prop}
    {reads : List (String × NodeHash)} (sourced : SourcedReads origin mutates reads)
    (stored : w.redis.Sourced origin mutates) :
    SourcedReads origin mutates ((budding self sha256).next reads c (World.exec x c w).1) := by
  cases c with
  | redis c =>
    cases reply : (World.exec x (.redis c) w).1 with
    | error e => cases c <;> exact sourced
    | ok v =>
      obtain ⟨-, rfl⟩ := World.exec_redis_eq_ok reply
      cases c with
      | hgetall key =>
        intro key' node mem
        rcases List.mem_cons.mp mem with here | before
        · obtain ⟨rfl, rfl⟩ := Prod.mk.inj here
          exact stored key'
        · exact sourced key' node before
      | _ => exact sourced
  | _ => exact sourced

end Next

/-- A payload made of a sourced node. -/
theorem PolicyGate.acceptedPayload_repairs {pack : VerificationPack} {node : NodeHash}
    {payload : AcceptedPayload} {tasks : List SeedTask} {mutates : String → String → Prop}
    (made : acceptedPayload pack node = .ok payload)
    (sourced : node.Sourced (originOf tasks) mutates pack.capsuleId) :
    ∃ task ∈ tasks, task.Repairs mutates payload := by
  obtain ⟨sourcePath, -, made⟩ := bind_eq_ok_iff.mp made
  obtain ⟨repoPath, repo, made⟩ := bind_eq_ok_iff.mp made
  obtain ⟨treeId, tree, made⟩ := bind_eq_ok_iff.mp made
  obtain rfl := Except.ok.inj made
  obtain ⟨-, task, code, known, coded, steps, shallow, relpath, repo'⟩ :=
    sourced.placed treeId (subscript_eq_ok tree)
  obtain ⟨mem, same⟩ := originOf_eq_some known
  refine ⟨task, mem, same.symm, ?_, ?_, _, shallow, ?_⟩
  · rw [relpath, Option.getD_some]
  · exact Option.some.inj ((subscript_eq_ok repo).symm.trans repo')
  · rw [coded, Option.getD_some]
    exact steps

section Invariant

variable {ι S : Type} [DecidableEq ι] {plant : Plant ι S} {i : ι} {x : Choice} {c : Cmd}
  {s : Snapshot ι Cmd Cmd.Reply PyError World}

/-- What thread `i` issues, of what is known of it. -/
theorem Honest.sources (kept : Honest plant s)
    (works : ∀ self own, plant.roles i = .worker self own →
      (budding self plant.sha256).allows ((budding self plant.sha256).current [] i s.history) c ∧
      (kinship plant.sha256).allows ((kinship plant.sha256).current [] i s.history) c)
    (idles : (plant.roles i).isWorker = false →
      c.Sources plant.sha256 (originOf plant.tasks) plant.Mutates) :
    c.Sources plant.sha256 (originOf plant.tasks) plant.Mutates := by
  cases role : plant.roles i with
  | worker self own =>
    obtain ⟨buds, descends⟩ := works self own role
    refine budding_sources (kept.reads i self own role) (kept.kin i (role ▸ rfl)) ?_ buds descends
    exact fun code candidate mutated => ⟨i, self, own, role, mutated⟩
  | _ => exact idles (role ▸ rfl)

/-- Every step of a daemon. -/
theorem Honest.step (kept : Honest plant s) (allowed : (plant.deskOf i s.history).Allows c)
    (sources : c.Sources plant.sha256 (originOf plant.tasks) plant.Mutates) :
    Honest plant (s.after World.exec i x c) where
  rooted := kept.rooted.world sources x
  reads := by
    intro j self own role
    rw [Snapshot.after_history]
    by_cases same : i = j
    · subst same
      rw [Typestate.current_own _ _ ⟨i, c, (World.exec x c s.world).1⟩ rfl]
      exact (kept.reads i self own role).next kept.rooted.sourced
    · rw [Typestate.current_other _ _ ⟨i, c, (World.exec x c s.world).1⟩ same]
      exact kept.reads j self own role
  kin := by
    intro j works
    rw [Snapshot.after_history]
    by_cases same : i = j
    · subst same
      rw [Typestate.current_own _ _ ⟨i, c, (World.exec x c s.world).1⟩ rfl]
      exact (kept.kin i works).next kept.rooted.kin
    · rw [Typestate.current_other _ _ ⟨i, c, (World.exec x c s.world).1⟩ same]
      exact kept.kin j works
  seen := by
    intro j policy q gate pack node mem
    rw [Snapshot.after_history] at gate
    by_cases same : i = j
    · subst same
      rw [plant.deskOf_own] at gate
      cases before : plant.deskOf i s.history with
      | gate policy' q' =>
        rw [before] at gate allowed
        cases gate
        rcases Gating.mem_seen_next allowed mem with earlier | found
        · exact kept.seen i _ q' before pack node earlier
        · have stored := kept.rooted.sourced pack.capsuleId
          rwa [found, Option.getD_some] at stored
      | _ =>
        rw [before] at gate
        cases gate
    · rw [plant.deskOf_other same] at gate
      exact kept.seen j policy q gate pack node mem
  payloads := by
    intro payload mem
    rw [Snapshot.after_world, World.exec_payloads, List.mem_append] at mem
    rcases mem with old | new
    · exact kept.payloads payload old
    · obtain ⟨-, ops, pipeline, queued⟩ := entered_of_mem_payloads (i := i) new s.history
      rw [pipeline] at allowed
      obtain ⟨policy, q, pack, node, gate, seen, -, made⟩ := Desk.queues allowed queued
      exact PolicyGate.acceptedPayload_repairs made (kept.seen i policy q gate pack node seen)
  messages := by
    intro j q merges message mem
    rw [Snapshot.after_history] at merges
    by_cases same : i = j
    · subst same
      rw [plant.deskOf_own] at merges
      cases before : plant.deskOf i s.history with
      | merger q' =>
        rw [before] at merges
        cases merges
        rcases Claiming.mem_messages_next mem with earlier | there
        · exact kept.messages i q' before message earlier
        · exact kept.payloads _ (List.mem_map_of_mem there)
      | _ =>
        rw [before] at merges
        cases merges
    · rw [plant.deskOf_other same] at merges
      exact kept.messages j q merges message mem
  patched := by
    intro payload mem
    rcases Desk.patched_step allowed mem with before | ⟨-, message, left, done, claimed, rfl⟩
    · exact kept.patched payload before
    · exact kept.messages i _ claimed message List.mem_cons_self

/-- Whoever adds to the results writes no hash and no child. -/
theorem Honest.siege (kept : Honest plant s) {w : World} (around : Siege s.world w) :
    Honest plant ⟨w, s.history⟩ := by
  have same : w.redis.hashes = s.world.redis.hashes ∧ w.redis.sets = s.world.redis.sets ∧
      w.redis.accepted = s.world.redis.accepted ∧ w.patched = s.world.patched := by
    cases around with
    | weather around => cases around <;> exact ⟨rfl, rfl, rfl, rfl⟩
    | result pack => exact ⟨rfl, rfl, rfl, rfl⟩
  obtain ⟨hashes, sets, accepted, patched⟩ := same
  refine ⟨kept.rooted.of_eq hashes sets, kept.reads, kept.kin, kept.seen, ?_, kept.messages, ?_⟩
  · rw [Redis.payloads, accepted]
    exact kept.payloads
  · rw [patched]
    exact kept.patched

end Invariant

section Runs

variable {ι S : Type} [DecidableEq ι] [LinearOrder S] {plant : Plant ι S}
  {s : State ι Cmd Cmd.Reply PyError World} {i : ι} {c : Cmd}
  {k : Except PyError c.Reply → Daemon Unit}

/-- A worker writes children of what it has read, under the nodes it has come down to. -/
theorem Plant.besieged_buds {self : ForestWorker} {own : Option String}
    (role : plant.roles i = .worker self own) (reached : plant.besieged.Reachable s)
    (issues : s.threads i = .cmd c k) :
    (budding self plant.sha256).allows ((budding self plant.sha256).current [] i s.history) c ∧
      (kinship plant.sha256).allows ((kinship plant.sha256).current [] i s.history) c := by
  have turns : ∀ p, plant.besieged.calls i p →
      ∃ fuel, p = self.turn plant.sha256 plant.ucb own fuel := by
    intro p called
    have called : plant.Call (plant.roles i) p := called
    rw [role] at called
    cases called with
    | work _ _ fuel => exact ⟨fuel, rfl⟩
  constructor
  · have follows : plant.besieged.FollowsAt i (budding self plant.sha256) [] fun _ => True := by
      refine ⟨trivial, fun p q called _ => ?_⟩
      obtain ⟨fuel, rfl⟩ := turns p called
      exact ForestWorker.turn_buds plant.ucb own fuel
    exact reached.allowsAt follows issues
  · have follows : plant.besieged.FollowsAt i (kinship plant.sha256) [] fun _ => True := by
      refine ⟨trivial, fun p q called _ => ?_⟩
      obtain ⟨fuel, rfl⟩ := turns p called
      exact self.turn_kinship plant.ucb own fuel
    exact reached.allowsAt follows issues

/-- No daemon but a worker writes code, under siege as well. -/
theorem Plant.besieged_sources (idle : (plant.roles i).isWorker = false)
    (reached : plant.besieged.Reachable s) (issues : s.threads i = .cmd c k) :
    c.Sources plant.sha256 (originOf plant.tasks) plant.Mutates := by
  have uses : ∀ j p, plant.besieged.calls j p → p.Uses fun c =>
      (plant.roles j).isWorker = false →
        c.Sources plant.sha256 (originOf plant.tasks) plant.Mutates :=
    fun _ _ called => Plant.Call.sources called
  exact reached.uses uses issues idle

/-- Every reachable state of a run with forged results. -/
theorem Plant.honest (reached : plant.besieged.Reachable s) : Honest plant s.toSnapshot := by
  refine System.Reachable.invariant (I := Honest plant) ?_ ?_ ?_ reached
  · rintro w rfl
    have pristine := pristine_seedAll plant.tasks
    refine ⟨rooted_seedAll plant.sha256 plant.Mutates plant.tasks, ?_, ?_, ?_, ?_, ?_, ?_⟩
    · exact fun _ _ _ _ _ _ read => by cases read
    · exact fun _ _ _ _ read => by cases read
    · intro i policy q gate pack node mem
      have role := plant.deskOf_gate gate
      have start : (plant.roles i).desk = .gate policy q := gate
      rw [role] at start
      cases start
      cases mem
    · intro payload mem
      rw [Redis.payloads, pristine.accepted] at mem
      cases mem
    · intro i q merges message mem
      have start : (plant.roles i).desk = .merger q := merges
      cases role : plant.roles i with
      | merger =>
        rw [role] at start
        cases start
        cases mem
      | _ =>
        rw [role] at start
        cases start
    · intro payload mem
      rw [pristine.patched] at mem
      cases mem
  · intro s i x c k reached kept issues _
    have sources : c.Sources plant.sha256 (originOf plant.tasks) plant.Mutates :=
      kept.sources (fun self own role => Plant.besieged_buds role reached issues)
        fun idle => Plant.besieged_sources idle reached issues
    exact kept.step (plant.besieged_desk_allows reached issues) sources
  · intro s w _ kept around
    exact kept.siege around

/-- What is accepted or applied is a repair of a seeded task's file: the code is within two lines
of the task's source for every level the plan allows, patch by patch. -/
theorem accepted_repairs (targeted : ∀ i self own, plant.roles i = .worker self own →
      ∃ patcher : TargetedTreeSitterPatcher, self.patcher = patcher.patcher)
    (reached : plant.besieged.Reachable s) {payload : AcceptedPayload}
    (there : payload ∈ s.world.redis.payloads ∨ payload ∈ s.world.patched) :
    ∃ task ∈ plant.tasks, task.Repairs plant.Mutates payload ∧
      Within (task.plan.maxDepth.toNat * 2) (sourceLines task.code) (sourceLines payload.code) := by
  have kept := Plant.honest reached
  have repairs : plant.Repairs payload :=
    there.elim (kept.payloads payload) (kept.patched payload)
  obtain ⟨task, mem, repairs⟩ := repairs
  obtain ⟨n, shallow, steps⟩ := repairs.code
  have close : Within (n * 2) (sourceLines task.code) (sourceLines payload.code) := by
    refine Within.of_steps (fun code candidate mutates => ?_) steps
    obtain ⟨i, self, own, role, lines, maxCandidates, patches, listed, patch⟩ := mutates
    obtain ⟨patcher, same⟩ := targeted i self own role
    rw [same] at listed
    exact patcher.patch_within listed candidate patch
  exact ⟨task, mem, repairs, close.mono (Nat.mul_le_mul_right 2 shallow)⟩

end Runs

/-! ## A repair of the small plant -/

namespace SmallPlant

open SmallSearch (sha256 task meanReward idA codeA)

/-- A comparison of two names that starts in a column of a line. -/
def comparison (line col : Nat) (left right : String) : Ast Span :=
  .node (.compare [.plain .lt]) ⟨⟨line, col⟩, ⟨line, col + 5⟩⟩
    [.node (.name left) ⟨⟨line, col⟩, ⟨line, col + 1⟩⟩ [],
      .node (.name right) ⟨⟨line, col + 4⟩, ⟨line, col + 5⟩⟩ []]

/-- What the parser reads of the task's source, and of nothing else. -/
def twoComparisons : Ast Span :=
  .node (.other "Module") ⟨⟨1, 0⟩, ⟨3, 0⟩⟩
    [.node (.other "Assign") ⟨⟨1, 0⟩, ⟨1, 9⟩⟩ [comparison 1 4 "a" "b"],
      .node (.other "Assign") ⟨⟨2, 0⟩, ⟨2, 9⟩⟩ [comparison 2 4 "c" "d"]]

def targetedPatcher : TargetedTreeSitterPatcher where
  astParse source := if source = SmallSearch.code then .ok twoComparisons else .error .syntaxError
  listOfSet := List.reverse
  listOfSet_perm := List.reverse_perm

def mender (workerId : String) : ForestWorker :=
  { SmallSearch.worker workerId with patcher := targetedPatcher.patcher }

/-- The small plant with the source's patcher. -/
def mendingPlant : Plant (Fin 7) Rat where
  sha256 := sha256
  ucb := meanReward
  tasks := [task]
  roles := fun
    | 0 => .worker (mender "worker_00000001") none
    | 1 => .worker (mender "worker_00000002") none
    | i => roles i

/-- The worker, the dispatcher, the executor, the gate and the merger have each had their turn. -/
def mended : Snapshot (Fin 7) Cmd Cmd.Reply PyError World :=
  (still.toSnapshot.run World.exec 0 ((mender "worker_00000001").turn sha256 meanReward none 3)
    fun n => { fresh := if n < 20 then "0" else "1" }).2

def mendedSent : Snapshot (Fin 7) Cmd Cmd.Reply PyError World :=
  (mended.run World.exec 2 (turn 2) fun _ => {}).2

def mendedTested : Snapshot (Fin 7) Cmd Cmd.Reply PyError World :=
  (mendedSent.run World.exec 3 (turn 3) fun _ => passing).2

def mendedGated : Snapshot (Fin 7) Cmd Cmd.Reply PyError World :=
  (mendedTested.run World.exec 5 (turn 5) fun _ => {}).2

def mendedMerged : Snapshot (Fin 7) Cmd Cmd.Reply PyError World :=
  (mendedGated.run World.exec 6 (turn 6) fun _ => {}).2

set_option maxRecDepth 20000 in
/-- A run to a merged repair. -/
theorem mendedMerged_reachable :
    mendingPlant.besieged.Reachable { mendedMerged with threads := fun _ => .ret () } := by
  have returns : (still.toSnapshot.run World.exec 0
        ((mender "worker_00000001").turn sha256 meanReward none 3) fun n =>
          { fresh := if n < 20 then "0" else "1" }).1 = .ok () ∧
      (mended.run World.exec 2 (turn 2) fun _ => {}).1 = .ok () ∧
      (mendedSent.run World.exec 3 (turn 3) fun _ => passing).1 = .ok () ∧
      (mendedTested.run World.exec 5 (turn 5) fun _ => {}).1 = .ok () ∧
      (mendedGated.run World.exec 6 (turn 6) fun _ => {}).1 = .ok () := by
    decide
  obtain ⟨worked, dispatched, tested, gated, merged⟩ := returns
  have start : mendingPlant.besieged.Reachable still := .init _ rfl
  have alone : ∀ {s : Snapshot (Fin 7) Cmd Cmd.Reply PyError World} {i : Fin 7} {p : Daemon Unit}
      (xs : Nat → Choice), mendingPlant.Call (mendingPlant.roles i) p →
      mendingPlant.besieged.Reachable { s with threads := fun _ => .ret () } →
      (s.run World.exec i p xs).1 = .ok () → mendingPlant.besieged.Reachable
        { (s.run World.exec i p xs).2 with threads := fun _ => .ret () } :=
    fun xs called reached returns =>
      System.Reachable.call_alone called xs (System.allowed_of_forall (fun _ _ _ => trivial) _ _ _)
        reached rfl returns
  have sent := alone _ (.dispatch _) (alone _ (.work _ none 3) start worked) dispatched
  exact alone _ .merge (alone _ (.gate gate) (alone _ (.handle executor 1) sent tested) gated) merged

end SmallPlant

set_option maxRecDepth 20000 in
open SmallPlant in
/-- The merged code is the first candidate's, within its swaps of the source. -/
theorem accepted_repairs_mended :
    mendedMerged.world.patched.map (·.code) = [SmallSearch.codeA] ∧
      ∀ payload ∈ mendedMerged.world.patched, ∃ task ∈ mendingPlant.tasks,
        task.Repairs mendingPlant.Mutates payload ∧ Within (task.plan.maxDepth.toNat * 2)
          (sourceLines task.code) (sourceLines payload.code) := by
  constructor
  · decide
  · intro payload mem
    refine @accepted_repairs _ _ _ _ mendingPlant _ ?_ mendedMerged_reachable payload (.inr mem)
    intro i self own role
    refine ⟨targetedPatcher, ?_⟩
    match i with
    | 0 | 1 =>
      cases role
      rfl
    | 2 | 3 | 4 | 5 | 6 => cases role

end KernelOmega
