import KernelOmega.Concurrent.Rely
import KernelOmega.Concurrent.Typestate
import KernelOmega.ForestWorker

/-!
# What a worker issues

The commands of a reservation, of a dispatch and of an expansion, kind by kind. The programs are
followed here once: a discipline that asks something of each command of a worker goes through the
kinds, and need not be proved again when the code puts its commands in another order.

A discipline that follows a state along the program has the rules of the second half. They leave
open what each part does to the state, and keep the order of the parts and the `try`/`finally` of the
lock to themselves.
-/

namespace KernelOmega

open Concurrent

namespace ForestWorker

open Daemon

/-! ## The commands -/

/-- The commands of `_reserve_candidate_budget`. -/
inductive Reserves (taskId : String) : Cmd → Prop
  | ledger (c : PgCmd) : Reserves taskId (.pg c)
  | count : Reserves taskId (.redis (.incr (taskBudgetKey taskId)))
  | giveBack : Reserves taskId (.redis (.decr (taskBudgetKey taskId)))
  | exhaust : Reserves taskId (.redis (.set (treeBudgetExhaustedKey taskId) "1"))
  | refuse : Reserves taskId
      (.redis (.hset (rootNodeId taskId) { planningStatus := some "budget_exhausted" }))
  | grant (generated : Int) : Reserves taskId
      (.redis (.hset (rootNodeId taskId) { generatedCapsules := some generated }))

/-- The commands of `_dispatch_capsule`. -/
inductive Queues : Cmd → Prop
  | ledger (c : PgCmd) : Queues (.pg c)
  | time : Queues .time
  | send (request : ExecutionRequest) : Queues (.redis (.xaddDispatch request))

/-- The commands for a candidate whose budget is reserved. -/
inductive Dispatches (sha256 : Sha256) (taskId nodeId : String) (node : NodeHash)
    (targetLines : List Int) (candidate : String) : Cmd → Prop
  | queues {c : Cmd} : Queues c → Dispatches sha256 taskId nodeId node targetLines candidate c
  | draw : Dispatches sha256 taskId nodeId node targetLines candidate .uuid4
  | child {child : NodeHash} :
      childMapping taskId nodeId candidate node (node.depth.getD 0) targetLines = .ok child →
      Dispatches sha256 taskId nodeId node targetLines candidate
        (.redis (.pipeline [.hset (childId sha256 taskId nodeId candidate) child,
          .sadd (nodeChildrenKey nodeId) (childId sha256 taskId nodeId candidate)]))

/-- The commands with which an expansion ends before it generates: the node is too deep, or the
budget is spent. -/
inductive Leaves (taskId nodeId : String) : Cmd → Prop
  | ledger (c : PgCmd) : Leaves taskId nodeId (.pg c)
  | exhaust : Leaves taskId nodeId (.redis (.set (treeBudgetExhaustedKey taskId) "1"))
  | refuse : Leaves taskId nodeId
      (.redis (.hset (rootNodeId taskId) { planningStatus := some "budget_exhausted" }))
  | leaf : Leaves taskId nodeId
      (.redis (.hset nodeId { isTerminal := some true, expanded := some true }))

/-- The commands at the end of an expansion. -/
inductive Closes (nodeId : String) : Cmd → Prop
  | ledger (c : PgCmd) : Closes nodeId (.pg c)
  | barren : Closes nodeId (.redis (.pipeline
      [.hset nodeId { expanded := some true }, .hset nodeId { isTerminal := some true }]))
  | done : Closes nodeId (.redis (.pipeline [.hset nodeId { expanded := some true }]))

/-- The candidates a worker can come to from a code. -/
def Mutates (self : ForestWorker) (code candidate : String) : Prop :=
  ∃ lines n patches, self.patcher.generateTargetedPatches code lines n = .ok patches ∧
    candidate ∈ patches

/-- The commands of an expansion of a node that was read, past its guard. -/
inductive Expands (self : ForestWorker) (sha256 : Sha256) (taskId nodeId : String)
    (node : NodeHash) : Cmd → Prop
  | root : Expands self sha256 taskId nodeId node (.redis (.hgetall (rootNodeId taskId)))
  | counter : Expands self sha256 taskId nodeId node (.redis (.getCounter (taskBudgetKey taskId)))
  | leaves {c : Cmd} : Leaves taskId nodeId c → Expands self sha256 taskId nodeId node c
  | mark : Expands self sha256 taskId nodeId node (.mark (.expanding nodeId))
  | reserves {c : Cmd} : Reserves taskId c → Expands self sha256 taskId nodeId node c
  | dispatches {c : Cmd} {code candidate : String} {targetLines : List Int} :
      node.code = some code → self.Mutates code candidate →
      Dispatches sha256 taskId nodeId node targetLines candidate c →
      Expands self sha256 taskId nodeId node c
  | closes {c : Cmd} : Closes nodeId c → Expands self sha256 taskId nodeId node c

section Issued

variable (self : ForestWorker) (sha256 : Sha256) (taskId nodeId : String)

/-- A reservation increments the counter, and above the limit decrements it and tells of the end. -/
theorem reserveCandidateBudget_reserves (plan : TaskPlan) :
    (reserveCandidateBudget taskId plan).Uses (Reserves taskId) := by
  refine (Prog.uses_call .count).bind fun generated => ?_
  split
  · refine (Prog.uses_call .giveBack).bind fun _ => ?_
    refine (Prog.uses_call .exhaust).bind fun _ => ?_
    refine (Prog.uses_call .refuse).bind fun _ => ?_
    exact (updateTaskStatus_uses (.ledger _) (.ledger _)).bind fun _ => trivial
  · exact (Prog.uses_call (.grant generated)).bind fun _ => trivial

/-- A capsule is announced in the ledger and then put on the stream. -/
theorem dispatchCapsule_queues (capsule : TaskCapsule) :
    (self.dispatchCapsule capsule).Uses Queues := by
  refine (Prog.uses_ofExcept _).bind fun core => ?_
  refine (Prog.uses_call .time).bind fun createdAt => ?_
  refine (Prog.uses_call (.ledger _)).bind fun _ => ?_
  refine (updateCandidateStatus_uses (.ledger _) (.ledger _)).bind fun _ => ?_
  exact Prog.uses_call (.send _)

/-- A dispatch writes the child, then its rows, then the entry of the stream. -/
theorem dispatchCandidate_dispatches (node root : NodeHash) (targetLines : List Int)
    (candidate : String) :
    (self.dispatchCandidate sha256 taskId nodeId node root targetLines candidate).Uses
      (Dispatches sha256 taskId nodeId node targetLines candidate) := by
  refine (Prog.uses_ofExcept _).bind_of_yields (Prog.yields_ofExcept _) fun child made => ?_
  refine (Prog.uses_call (.child made)).bind fun _ => ?_
  refine (Prog.uses_call .draw).bind fun hex => ?_
  refine (Prog.uses_call (.queues (.ledger _))).bind fun _ => ?_
  refine (updateTaskStatus_uses (.queues (.ledger _)) (.queues (.ledger _))).bind fun _ => ?_
  exact (self.dispatchCapsule_queues _).mono fun _ => .queues

/-- Each candidate is reserved for and dispatched, or passed over. -/
theorem dispatchCandidates_issues (code : String) (node root : NodeHash) (plan : TaskPlan)
    (targetLines : List Int) (found : List String) (generated : Nat) :
    (self.dispatchCandidates sha256 taskId nodeId code node root plan targetLines found
      generated).Uses fun c => Reserves taskId c ∨
        ∃ candidate ∈ found, Dispatches sha256 taskId nodeId node targetLines candidate c := by
  induction found generalizing generated with
  | nil => trivial
  | cons candidate rest ih =>
    have later : ∀ n, (self.dispatchCandidates sha256 taskId nodeId code node root plan targetLines
        rest n).Uses fun c => Reserves taskId c ∨ ∃ candidate' ∈ candidate :: rest,
          Dispatches sha256 taskId nodeId node targetLines candidate' c :=
      fun n => (ih n).mono fun c => Or.imp_right fun ⟨other, mem, issued⟩ =>
        ⟨other, List.mem_cons_of_mem candidate mem, issued⟩
    refine (Prog.uses_ofExcept _).bind fun equivalent => ?_
    split
    · exact later generated
    · refine ((reserveCandidateBudget_reserves taskId plan).mono fun _ => .inl).bind
        fun reserved => ?_
      split
      · refine Prog.Uses.bind (Prog.Uses.mono (fun c issued => ?_)
          (self.dispatchCandidate_dispatches sha256 taskId nodeId node root targetLines candidate))
            fun _ => later (generated + 1)
        exact .inr ⟨candidate, List.mem_cons_self, issued⟩
      · trivial

/-- The exit of `expand` when the plan has no candidates left. -/
theorem spent_leaves :
    Prog.Uses (Leaves taskId nodeId) (do
      let _ ← redis (.set (treeBudgetExhaustedKey taskId) "1")
      redis (.hset (rootNodeId taskId) { planningStatus := some "budget_exhausted" })
      let _ ← updateTaskStatus taskId "budget_exhausted"
      redis (.hset nodeId { isTerminal := some true, expanded := some true })) := by
  refine (Prog.uses_call .exhaust).bind fun _ => ?_
  refine (Prog.uses_call .refuse).bind fun _ => ?_
  refine (updateTaskStatus_uses (.ledger _) (.ledger _)).bind fun _ => ?_
  exact Prog.uses_call .leaf

/-- The end of `expand`: the note in the ledger and the node's flags. -/
theorem close_closes (generated : Nat) :
    Prog.Uses (Closes nodeId) (do
      pg (.mergeTaskMetadata taskId)
      if generated = 0 then
        redis (.pipeline
          [.hset nodeId { expanded := some true }, .hset nodeId { isTerminal := some true }])
      else
        redis (.pipeline [.hset nodeId { expanded := some true }])) := by
  refine (Prog.uses_call (.ledger _)).bind fun _ => ?_
  split
  · exact Prog.uses_call .barren
  · exact Prog.uses_call .done

/-- The candidates of an expansion are the patches of one call of the patcher. -/
theorem candidates_eq_ok {self : ForestWorker} {code : String} {expansionPlan : ExpansionPlan}
    {found : List String} (listed : self.candidates code expansionPlan = .ok found) :
    ∃ lines n, self.patcher.generateTargetedPatches code lines n = .ok found := by
  unfold candidates at listed
  cases targeted : self.patcher.generateTargetedPatches code expansionPlan.targetLines
      expansionPlan.maxCandidates with
  | error e =>
    rw [targeted] at listed
    cases listed
  | ok first =>
    rw [targeted] at listed
    simp only [bind, Except.bind] at listed
    split at listed
    · cases lines : self.patcher.comparisonLines code with
      | error e =>
        rw [lines] at listed
        cases listed
      | ok all =>
        rw [lines] at listed
        exact ⟨_, _, listed⟩
    · obtain rfl := Except.ok.inj listed
      exact ⟨_, _, targeted⟩

theorem candidates_mutate {self : ForestWorker} {code candidate : String}
    {expansionPlan : ExpansionPlan} {found : List String}
    (listed : self.candidates code expansionPlan = .ok found) (mem : candidate ∈ found) :
    self.Mutates code candidate := by
  obtain ⟨lines, n, patched⟩ := candidates_eq_ok listed
  exact ⟨lines, n, found, patched, mem⟩

/-- The candidates of an expansion have no repetitions. -/
theorem candidates_nodup {self : ForestWorker} {code : String} {expansionPlan : ExpansionPlan}
    {found : List String} (listed : self.candidates code expansionPlan = .ok found) :
    found.Nodup := by
  obtain ⟨lines, n, patched⟩ := candidates_eq_ok listed
  exact self.patcher.nodup _ _ _ _ patched

/-- What generating issues, -/
theorem generate_expands (node root : NodeHash) (plan : TaskPlan) (expansionPlan : ExpansionPlan) :
    (self.generate sha256 taskId nodeId node root plan expansionPlan).Uses
      (self.Expands sha256 taskId nodeId node) := by
  refine (Prog.uses_call .mark).bind fun _ => ?_
  refine (Prog.uses_ofExcept _).bind_of_yields (Prog.yields_ofExcept _) fun code coded => ?_
  refine (Prog.uses_ofExcept _).bind_of_yields (Prog.yields_ofExcept _) fun found listed => ?_
  refine Prog.Uses.bind (Prog.Uses.mono ?_ (self.dispatchCandidates_issues sha256 taskId nodeId code
    node root plan _ found 0)) fun generated =>
      (close_closes taskId nodeId generated).mono fun _ => .closes
  rintro c (reserves | ⟨candidate, mem, issued⟩)
  · exact .reserves reserves
  · exact .dispatches (subscript_eq_ok coded) (candidates_mutate listed mem) issued

/-- and an expansion with its readings before. -/
theorem expandNode_expands (node : NodeHash) :
    (self.expandNode sha256 taskId nodeId node).Uses (self.Expands sha256 taskId nodeId node) := by
  refine (Prog.uses_call .root).bind fun rootData => ?_
  dsimp only
  split
  · exact Prog.uses_call (.leaves .leaf)
  · refine (Prog.uses_call .counter).bind fun counter => ?_
    split
    · exact (spent_leaves taskId nodeId).mono fun _ => .leaves
    · exact self.generate_expands sha256 taskId nodeId node _ _ _

/-- An `expand` call reads the node and expands what it has read. -/
theorem expand_uses {P : Cmd → Prop} (look : P (.redis (.hgetall nodeId)))
    (expands : ∀ node c, self.Expands sha256 taskId nodeId node c → P c) :
    (self.expand sha256 taskId nodeId).Uses P := by
  refine (Prog.uses_call look).bind fun found => ?_
  cases found with
  | none => trivial
  | some node =>
    dsimp only
    split
    · exact (self.expandNode_expands sha256 taskId nodeId node).mono (expands node)
    · trivial

theorem releaseLock_uses {P : Cmd → Prop} {lockKey : String} (look : P (.redis (.get lockKey)))
    (give : P (.redis (.delete lockKey))) : (self.releaseLock lockKey).Uses P := by
  refine (Prog.uses_call look).bind fun holder => ?_
  split
  · exact Prog.uses_call give
  · trivial

end Issued

/-! ## The rules for a state that the other threads share -/

section Safe

variable {ι X W : Type} {sys : System ι Cmd Cmd.Reply PyError X W}
  {d : Discipline ι Cmd Cmd.Reply PyError W} {i : ι} (self : ForestWorker) {sha256 : Sha256}
  {taskId nodeId : String}

/-- The loop over the candidates: what holds before it holds of those that are left. -/
theorem safe_dispatchCandidates
    {I : List String → Snapshot ι Cmd Cmd.Reply PyError W → Prop} {code : String}
    {node root : NodeHash} {plan : TaskPlan} {targetLines : List Int}
    (skips : ∀ candidate rest s, I (candidate :: rest) s → I rest s)
    (reserves : ∀ candidate rest s, I (candidate :: rest) s →
      Safe sys d i (fun _ => I (candidate :: rest)) (fun _ _ => True)
        (reserveCandidateBudget taskId plan) s)
    (dispatches : ∀ candidate rest s, I (candidate :: rest) s →
      Safe sys d i (fun _ => I rest) (fun _ _ => True)
        (self.dispatchCandidate sha256 taskId nodeId node root targetLines candidate) s)
    {found : List String} (generated : Nat) {s : Snapshot ι Cmd Cmd.Reply PyError W}
    (start : I found s) :
    Safe sys d i (fun _ t => ∃ rest, I rest t) (fun _ _ => True)
      (self.dispatchCandidates sha256 taskId nodeId code node root plan targetLines found
        generated) s := by
  induction found generalizing generated s with
  | nil => exact ⟨[], start⟩
  | cons candidate rest ih =>
    refine Safe.ofExcept_bind (fun equivalent _ => ?_) fun _ _ => trivial
    split
    · exact ih generated (skips candidate rest s start)
    · refine Safe.bind (reserves candidate rest s start) fun reserved t here => ?_
      split
      · exact Safe.bind (dispatches candidate rest t here) fun _ u left => ih (generated + 1) left
      · exact ⟨candidate :: rest, here⟩

variable {rests : Snapshot ι Cmd Cmd.Reply PyError W → Prop}
  (stays : ∀ s t, rests s → d.rely i s t → rests t)

include stays

/-- A program of quiet commands leaves the state as it is. -/
theorem safe_of_uses {α : Type} {p : Daemon α} (uses : p.Uses (Quiet sys d i))
    {s : Snapshot ι Cmd Cmd.Reply PyError W} (start : rests s) :
    Safe sys d i (fun _ => rests) (fun _ _ => True) p s :=
  (Safe.of_uses (fun _ quiet => quiet) uses fun _ _ _ => trivial).mono
    (fun _ t rely => stays s t start rely) fun _ _ _ => trivial

/-- The generating part of `expand`, around its loop. -/
theorem safe_generate {node root : NodeHash} {plan : TaskPlan} {expansionPlan : ExpansionPlan}
    (mark : Quiet sys d i (.mark (.expanding nodeId)))
    (loop : ∀ code found s, rests s → Safe sys d i (fun _ => rests) (fun _ _ => True)
      (self.dispatchCandidates sha256 taskId nodeId code node root plan expansionPlan.targetLines
        found 0) s)
    (closes : ∀ c, Closes nodeId c → Quiet sys d i c)
    {s : Snapshot ι Cmd Cmd.Reply PyError W} (start : rests s) :
    Safe sys d i (fun _ => rests) (fun _ _ => True)
      (self.generate sha256 taskId nodeId node root plan expansionPlan) s := by
  refine Safe.quiet_bind mark (fun _ t rely => ?_) fun _ _ _ => trivial
  refine Safe.ofExcept_bind (fun code _ => ?_) fun _ _ => trivial
  refine Safe.ofExcept_bind (fun found _ => ?_) fun _ _ => trivial
  refine Safe.bind (loop code found t (stays s t start rely)) fun generated u here => ?_
  exact safe_of_uses stays ((close_closes taskId nodeId generated).mono closes) here

/-- An `expand` call whose guard is not used. -/
theorem safe_expand (look : Quiet sys d i (.redis (.hgetall nodeId)))
    (expandsNode : ∀ node s, rests s → Safe sys d i (fun _ => rests) (fun _ _ => True)
      (self.expandNode sha256 taskId nodeId node) s)
    {s : Snapshot ι Cmd Cmd.Reply PyError W} (start : rests s) :
    Safe sys d i (fun _ => rests) (fun _ _ => True) (self.expand sha256 taskId nodeId) s := by
  refine Safe.quiet_bind look (fun found t rely => ?_) fun _ _ _ => trivial
  have here := stays s t start rely
  cases found with
  | none => exact here
  | some node =>
    dsimp only
    split
    · exact expandsNode node t here
    · exact here

/-- A visit to a task: the lock is taken and given back quietly, and an expansion that raises may
leave any state behind. -/
theorem safe_visitTask {S : Type} [LinearOrder S] (ucb : UcbScore S)
    (passive : ∀ c : Cmd, c.Passive → Quiet sys d i c)
    (takes : ∀ nodeId, Quiet sys d i
      (.redis (.set (nodeLockKey nodeId) self.workerId true (some 10))))
    (looks : ∀ nodeId, Quiet sys d i (.redis (.get (nodeLockKey nodeId))))
    (gives : ∀ nodeId, Quiet sys d i (.redis (.delete (nodeLockKey nodeId))))
    (expands : ∀ nodeId s, rests s → Safe sys d i (fun _ => rests) (fun _ _ => True)
      (self.expand sha256 taskId nodeId) s)
    (fuel : Nat) {s : Snapshot ι Cmd Cmd.Reply PyError W} (start : rests s) :
    Safe sys d i (fun _ => rests) (fun _ _ => True)
      (self.visitTask sha256 ucb fuel taskId) s := by
  refine Safe.quiet_bind (passive _ trivial) (fun done t rely => ?_) fun _ _ _ => trivial
  have here := stays s t start rely
  split
  · exact here
  refine Safe.quiet_bind (passive _ trivial) (fun exhausted u rely => ?_) fun _ _ _ => trivial
  have here := stays t u here rely
  split
  · exact here
  refine Safe.uses_bind passive (self.distributedSelect_passive ucb fuel taskId)
    (fun nodeId v rely => ?_) fun _ _ _ => trivial
  have here := stays u v here rely
  refine Safe.quiet_bind (takes nodeId) (fun locked w rely => ?_) fun _ _ _ => trivial
  have here := stays v w here rely
  have releases := self.releaseLock_uses (looks nodeId) (gives nodeId)
  split
  · refine Safe.tryFinally (expands nodeId w here)
      (fun _ t here => safe_of_uses stays releases here) fun _ t _ => ?_
    exact (Safe.of_uses (fun _ quiet => quiet) releases fun _ _ _ => trivial).mono
      (fun _ _ _ => trivial) fun _ _ _ => trivial
  · exact here

end Safe

/-! ## The rule for a state of the thread's own -/

/-- A visit to a task: a state that a thread rests in lets it look for a node, take the node's lock
and expand it, and is the state it rests in after the release. -/
theorem keeps_visitTask {σ S : Type} [LinearOrder S] {T : Typestate Cmd Cmd.Reply PyError σ}
    (self : ForestWorker) {sha256 : Sha256} {ucb : UcbScore S} {fuel : Nat} {taskId : String}
    (rests : σ → Prop) (chosen : String → σ → Prop)
    (looks : ∀ key q, rests q → T.allows q (.redis (.existsKey key)) ∧
      ∀ found, rests (T.next q (.redis (.existsKey key)) (.ok found)))
    (selects : ∀ q, rests q → (self.distributedSelect ucb fuel taskId).Keeps T chosen
      (fun _ _ => True) q)
    (takes : ∀ nodeId q, chosen nodeId q →
      T.allows q (.redis (.set (nodeLockKey nodeId) self.workerId true (some 10))) ∧
      ∀ taken, chosen nodeId (T.next q
        (.redis (.set (nodeLockKey nodeId) self.workerId true (some 10))) (.ok taken)))
    (leaves : ∀ nodeId q, chosen nodeId q → rests q)
    (expands : ∀ nodeId q, chosen nodeId q → (self.expand sha256 taskId nodeId).Keeps T
      (fun _ => rests) (fun _ _ => True) q)
    (releases : ∀ nodeId q, rests q → (self.releaseLock (nodeLockKey nodeId)).Keeps T
      (fun _ => rests) (fun _ _ => True) q)
    (abandons : ∀ nodeId q, (self.releaseLock (nodeLockKey nodeId)).Keeps T (fun _ _ => True)
      (fun _ _ => True) q)
    {q : σ} (start : rests q) :
    (self.visitTask sha256 ucb fuel taskId).Keeps T (fun _ => rests) (fun _ _ => True) q := by
  obtain ⟨allowed, here⟩ := looks (treeDoneKey taskId) q start
  refine Prog.Keeps.call_bind allowed (fun done => ?_) fun _ => trivial
  split
  · exact here done
  obtain ⟨allowed, here⟩ := looks (treeBudgetExhaustedKey taskId) _ (here done)
  refine Prog.Keeps.call_bind allowed (fun exhausted => ?_) fun _ => trivial
  split
  · exact here exhausted
  refine (selects _ (here exhausted)).bind fun nodeId q' found => ?_
  obtain ⟨allowed, kept⟩ := takes nodeId q' found
  refine Prog.Keeps.call_bind allowed (fun taken => ?_) fun _ => trivial
  split
  · exact (expands nodeId _ (kept taken)).tryFinally (fun _ q here => releases nodeId q here)
      fun _ q _ => abandons nodeId q
  · exact leaves nodeId _ (kept taken)

/-- A turn: the tasks are listed and visited one after another. -/
theorem keeps_turn {σ S : Type} [LinearOrder S] {T : Typestate Cmd Cmd.Reply PyError σ}
    (self : ForestWorker) {sha256 : Sha256} {ucb : UcbScore S} {fuel : Nat} {rests : σ → Prop}
    (lists : ∀ q, rests q → T.allows q (.redis (.smembers treeIndex)) ∧
      ∀ members, rests (T.next q (.redis (.smembers treeIndex)) (.ok members)))
    (visits : ∀ taskId q, rests q →
      (self.visitTask sha256 ucb fuel taskId).Keeps T (fun _ => rests) (fun _ _ => True) q)
    (own : Option String) {q : σ} (start : rests q) :
    (self.turn sha256 ucb own fuel).Keeps T (fun _ => rests) (fun _ _ => True) q := by
  have loop : ∀ ids q, rests q →
      (self.visitTasks sha256 ucb fuel ids).Keeps T (fun _ => rests) (fun _ _ => True) q := by
    intro ids
    induction ids with
    | nil => exact fun _ here => here
    | cons taskId rest ih => exact fun q here => (visits taskId q here).bind fun _ q' => ih q'
  have listed : (taskIds own).Keeps T (fun _ => rests) (fun _ _ => True) q := by
    cases own with
    | some taskId => exact start
    | none =>
      obtain ⟨allowed, here⟩ := lists q start
      exact Prog.Keeps.call_bind allowed here fun _ => trivial
  exact listed.bind fun ids q' => loop ids q'

end ForestWorker

end KernelOmega
