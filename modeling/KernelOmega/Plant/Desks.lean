import KernelOmega.Plant.Flight
import KernelOmega.Plant.System
import KernelOmega.Store.Streams

/-!
# The desks of a plant

`Desk` is what a thread is with regard to the trees' reservations: a gate with its batch, a
merger with the message at hand, a memory with what it has read, or elsewhere. Who is
elsewhere touches no reservation and no done key, adds no accepted entry, and writes a tree
into a node's hash only under an id of that tree.
-/

namespace KernelOmega

open Concurrent

/-! ## Commands from elsewhere -/

/-- The mapping gives the node no tree but its own. -/
def NodeHash.Fits (mapping : NodeHash) (nodeId : String) : Prop :=
  ∀ taskId, mapping.treeId = some taskId → NamesTree nodeId taskId

theorem NodeHash.Placeless.fits {mapping : NodeHash} (placeless : mapping.Placeless)
    (nodeId : String) : mapping.Fits nodeId := by
  intro taskId tree
  rw [placeless.treeId] at tree
  cases tree

theorem fits_childId {sha256 : Sha256} {taskId nodeId candidate : String} {child : NodeHash}
    (tree : child.treeId = some taskId) :
    child.Fits (ForestWorker.childId sha256 taskId nodeId candidate) := by
  intro taskId' tree'
  obtain rfl : taskId = taskId' := Option.some.inj (tree.symm.trans tree')
  exact ⟨_, sha256.not_mem_text _ (by decide), rfl⟩

/-- A key that is no tree's reservation and no tree's done key. -/
def PlainKey (key : String) : Prop :=
  (∀ taskId, key ≠ treeAcceptedKey taskId) ∧ ∀ taskId, key ≠ treeDoneKey taskId

theorem plainKey_nodeLockKey (nodeId : String) : PlainKey (nodeLockKey nodeId) :=
  ⟨nodeLockKey_ne_treeAcceptedKey nodeId, nodeLockKey_ne_treeDoneKey nodeId⟩

theorem plainKey_treeBudgetExhaustedKey (taskId : String) :
    PlainKey (treeBudgetExhaustedKey taskId) :=
  ⟨fun other => (treeAcceptedKey_ne_treeBudgetExhaustedKey other taskId).symm,
    fun other => (treeDoneKey_ne_treeBudgetExhaustedKey other taskId).symm⟩

/-- An operation that touches nothing the desks speak of: no reservation, no accepted entry and none
of their acknowledgements. A hash is written for its own node. -/
def RedisOp.Elsewhere : RedisOp → Prop
  | .hset nodeId mapping => mapping.Fits nodeId
  | .set _ _ => False
  | .xaddAccepted _ => False
  | .xack group _ => group ≠ "policy_group" ∧ group ≠ "merger_group"
  | _ => True

/-- A command that does not, either. -/
def Cmd.Elsewhere : Cmd → Prop
  | .redis (.hset nodeId mapping) => mapping.Fits nodeId
  | .redis (.set key _ _ _) => PlainKey key
  | .redis (.delete key) => PlainKey key
  | .redis (.pipeline ops) => ∀ op ∈ ops, op.Elsewhere
  | .redis (.xreadgroupDispatch group _) => group ≠ "policy_group"
  | .redis (.xreadgroupResults group _) => group ≠ "policy_group"
  | .redis (.xreadgroupAccepted group _) => group ≠ "policy_group"
  | .applyPatch _ => False
  | _ => True

/-- A worker's commands write to no key and no stream that the desks speak of. -/
theorem Stage.Allows.elsewhere {sha256 : Sha256} {stage : Stage} {c : Cmd}
    (allowed : stage.Allows sha256 c) : c.Elsewhere := by
  cases c with
  | redis c =>
    cases c with
    | hset nodeId mapping => exact NodeHash.Placeless.fits allowed nodeId
    | set key value nx ex =>
      rcases allowed with ⟨nodeId, rfl⟩ | ⟨taskId, rfl⟩
      · exact plainKey_nodeLockKey nodeId
      · exact plainKey_treeBudgetExhaustedKey taskId
    | delete key =>
      obtain ⟨nodeId, rfl⟩ := allowed
      exact plainKey_nodeLockKey nodeId
    | pipeline ops =>
      intro op mem
      rcases allowed with ⟨nodeId, taskId, -, candidate, child, tree, -, -, rfl⟩ | ⟨-, closes⟩
      · simp only [List.mem_cons, List.not_mem_nil, or_false] at mem
        rcases mem with rfl | rfl
        · exact fits_childId tree
        · trivial
      · obtain ⟨nodeId, mapping, rfl, placeless⟩ := closes op mem
        exact placeless.fits nodeId
    | xreadgroupDispatch _ _ | xreadgroupResults _ _ | xreadgroupAccepted _ _ => exact allowed.elim
    | _ => trivial
  | applyPatch payload => exact allowed.elim
  | _ => trivial

/-- So do a dispatcher's. -/
theorem Sending.Allows.elsewhere {q : Sending} {c : Cmd} (allowed : q.Allows c) : c.Elsewhere := by
  cases c with
  | redis c =>
    cases c with
    | xreadgroupDispatch group count =>
      obtain ⟨rfl, -⟩ := allowed
      exact show "dispatch_group" ≠ "policy_group" by decide
    | pipeline ops =>
      intro op mem
      obtain ⟨id, rfl⟩ := allowed op mem
      exact ⟨by decide, by decide⟩
    | incr _ | decr _ | xaddResult _ => trivial
    | _ => exact allowed.elim
  | applyPatch payload => exact allowed.elim
  | _ => trivial

/-- So do an executor's. -/
theorem Running.Allows.elsewhere {q : Running} {c : Cmd} (allowed : q.Allows c) : c.Elsewhere := by
  cases c with
  | redis c =>
    cases c with
    | xaddResult _ | decr _ => trivial
    | _ => exact allowed.elim
  | applyPatch payload => exact allowed.elim
  | _ => trivial

/-! ## The desks -/

/-- What a thread is with regard to the trees' reservations. -/
inductive Desk where
  | gate (policy : PolicyGate) (q : Gating)
  | merger (q : Claiming)
  | memory (q : Remembering)
  | elsewhere

namespace Desk

/-- The state of the daemon at the desk, moved by its own rule. -/
def next : Desk → (c : Cmd) → Except PyError c.Reply → Desk
  | .gate policy q, c, reply => .gate policy (q.next c reply)
  | .merger q, c, reply => .merger (q.next c reply)
  | .memory q, c, reply => .memory (q.next c reply)
  | .elsewhere, _, _ => .elsewhere

/-- What it may do is likewise its own. -/
def Allows : Desk → Cmd → Prop
  | .gate policy q, c => policy.Allows q c
  | .merger q, c => q.Allows c
  | .memory q, c => q.Allows c
  | .elsewhere, c => c.Elsewhere

/-- The ids of the batch a gate has at hand. -/
def batch : Desk → List Nat
  | .gate _ q => q.batch.map (·.id)
  | _ => []

/-- The reservations of the batch at hand. -/
def claims : Desk → List (String × String)
  | .gate _ q => q.claims
  | _ => []

end Desk

/-- Whoever sits at the desk, command by command. -/
def deskProtocol : Typestate Cmd Cmd.Reply PyError Desk where
  next := Desk.next
  allows := Desk.Allows

/-- What a role starts as. -/
def Role.desk : Role → Desk
  | .gate policy => .gate policy {}
  | .merger => .merger (.idle [] [])
  | .memory => .memory {}
  | _ => .elsewhere

/-- What a resting thread of a role is. -/
def Role.Idles : Role → Desk → Prop
  | .gate policy, q => q = .gate policy {}
  | .merger, q => q = .merger (.idle [] []) ∨ q = .merger .aborted
  | .memory, q => ∃ read, q = .memory read
  | _, q => q = .elsewhere

theorem Role.batch_desk (role : Role) : role.desk.batch = [] := by
  cases role <;> rfl

section Follows

variable {ι S : Type} [LinearOrder S]

/-- A program of someone elsewhere, whose own protocol says so. -/
theorem Prog.Keeps.elsewhere {σ : Type} {T : Typestate Cmd Cmd.Reply PyError σ}
    {post : Unit → σ → Prop} {err : PyError → σ → Prop} {p : Daemon Unit} {q : σ}
    (keeps : p.Keeps T post err q) (elsewhere : ∀ q c, T.allows q c → c.Elsewhere) :
    p.Keeps deskProtocol (fun _ q => q = .elsewhere) (fun _ _ => True) .elsewhere := by
  refine Prog.Keeps.mono ?_ (fun _ _ _ => trivial)
    (keeps.embed (fun _ => Desk.elsewhere) (fun _ _ _ => rfl) elsewhere)
  rintro _ _ ⟨_, rfl, -⟩
  rfl

/-- Every call of a role ends where it started, with nothing at hand. -/
theorem Plant.Call.idles {plant : Plant ι S} {role : Role} {p : Daemon Unit} {q : Desk}
    (called : plant.Call role p) (idles : role.Idles q) :
    p.Keeps deskProtocol (fun _ => role.Idles) (fun _ _ => True) q := by
  cases called with
  | work self own fuel =>
    obtain rfl : q = .elsewhere := idles
    exact Prog.Keeps.elsewhere (self.turn_keeps plant.ucb own fuel) fun _ _ => Stage.Allows.elsewhere
  | dispatch self =>
    obtain rfl : q = .elsewhere := idles
    exact Prog.Keeps.elsewhere self.turn_keeps fun _ _ => Sending.Allows.elsewhere
  | handle self core =>
    obtain rfl : q = .elsewhere := idles
    exact Prog.Keeps.elsewhere (self.handle_keeps core (.inl rfl)) fun _ _ => Running.Allows.elsewhere
  | coreTask self reads core =>
    obtain rfl : q = .elsewhere := idles
    exact Prog.Keeps.elsewhere (self.coreTask_keeps reads core (.inl rfl))
      fun _ _ => Running.Allows.elsewhere
  | remember fuel =>
    obtain ⟨read, rfl⟩ := idles
    refine Prog.Keeps.mono ?_ (fun _ _ _ => trivial)
      ((GlobalMemory.remember_keeps fuel read).embed Desk.memory (fun _ _ _ => rfl) fun _ _ => id)
    rintro _ _ ⟨read, rfl, -⟩
    exact ⟨read, rfl⟩
  | gate self =>
    obtain rfl : q = .gate self {} := idles
    refine Prog.Keeps.mono ?_ (fun _ _ _ => trivial)
      (self.gate_keeps.embed (Desk.gate self) (fun _ _ _ => rfl) fun _ _ => id)
    rintro _ _ ⟨q, rfl, rfl⟩
    exact rfl
  | merge =>
    obtain ⟨claiming, rfl, rests⟩ :
        ∃ claiming, q = .merger claiming ∧ (claiming = .idle [] [] ∨ claiming = .aborted) := by
      rcases idles with rfl | rfl
      · exact ⟨_, rfl, .inl rfl⟩
      · exact ⟨_, rfl, .inr rfl⟩
    refine Prog.Keeps.mono ?_ (fun _ _ _ => trivial)
      ((Merger.merge_claims rests).embed Desk.merger (fun _ _ _ => rfl) fun _ _ => id)
    rintro _ _ ⟨q, rfl, rfl | rfl⟩
    · exact .inl rfl
    · exact .inr rfl

/-- The threads of a plant follow the protocol. -/
theorem Plant.desks (plant : Plant ι S)
    (may : Snapshot ι Cmd Cmd.Reply PyError World → ι → Choice → Cmd → Prop) :
    (plant.systemOf may).Follows deskProtocol (fun i => (plant.roles i).desk)
      fun i => (plant.roles i).Idles where
  start := by
    intro i
    cases plant.roles i with
    | merger => exact .inl rfl
    | memory => exact ⟨{}, rfl⟩
    | _ => exact rfl
  calls := fun _ _ _ called idles => Plant.Call.idles called idles

end Follows

section Histories

variable {ι S : Type} [DecidableEq ι] (plant : Plant ι S)

/-- What thread `i` is with regard to the reservations. -/
def Plant.deskOf (i : ι) (history : List (Event ι Cmd Cmd.Reply PyError)) : Desk :=
  deskProtocol.current (plant.roles i).desk i history

theorem Plant.deskOf_own (i : ι) (c : Cmd) (reply : Except PyError c.Reply)
    (history : List (Event ι Cmd Cmd.Reply PyError)) :
    plant.deskOf i (⟨i, c, reply⟩ :: history) = (plant.deskOf i history).next c reply :=
  deskProtocol.current_own _ ⟨i, c, reply⟩ rfl history

theorem Plant.deskOf_other {i j : ι} (other : i ≠ j) (c : Cmd) (reply : Except PyError c.Reply)
    (history : List (Event ι Cmd Cmd.Reply PyError)) :
    plant.deskOf j (⟨i, c, reply⟩ :: history) = plant.deskOf j history :=
  deskProtocol.current_other _ ⟨i, c, reply⟩ other history

/-- How often an entry is in the gates' batches. -/
def Plant.atGates (id : Nat) (history : List (Event ι Cmd Cmd.Reply PyError)) : Int :=
  deskProtocol.total (fun i => (plant.roles i).desk) (fun q => (q.batch.count id : Int)) history

theorem Plant.atGates_cons (id : Nat) (i : ι) (c : Cmd) (reply : Except PyError c.Reply)
    (history : List (Event ι Cmd Cmd.Reply PyError)) :
    plant.atGates id (⟨i, c, reply⟩ :: history) = plant.atGates id history +
      ((((plant.deskOf i history).next c reply).batch.count id : Int) -
        (plant.deskOf i history).batch.count id) := rfl

theorem Plant.count_le_atGates (id : Nat) (history : List (Event ι Cmd Cmd.Reply PyError)) (i : ι) :
    ((plant.deskOf i history).batch.count id : Int) ≤ plant.atGates id history :=
  deskProtocol.weight_le_total _ (fun q => (q.batch.count id : Int))
    (fun i => by rw [(plant.roles i).batch_desk, List.count_nil, Int.ofNat_zero])
    (fun _ => Int.natCast_nonneg _) i history

theorem Plant.desk_allows [LinearOrder S] {plant : Plant ι S}
    {may : Snapshot ι Cmd Cmd.Reply PyError World → ι → Choice → Cmd → Prop}
    {s : State ι Cmd Cmd.Reply PyError World} (reached : (plant.systemOf may).Reachable s) {i : ι}
    {c : Cmd} {k : Except PyError c.Reply → Daemon Unit} (issues : s.threads i = .cmd c k) :
    (plant.deskOf i s.history).Allows c :=
  reached.allows (plant.desks may) issues

end Histories

end KernelOmega
