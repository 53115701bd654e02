import KernelOmega.Concurrent.Typestate
import KernelOmega.GlobalMemory
import Mathlib

/-!
# A memory's batch

`Remembering` is what a memory has read of the batch at hand: its packs, and the hashes it
found. The transaction at the end sets a done key only for the tree of a pack that passed, as
the memory found that tree in the hash of the pack's node.
-/

namespace KernelOmega

open Concurrent

/-- What a memory has read of the batch at hand. The transaction at the end is built from it alone,
so what it sets can be traced to a pack of the results stream. -/
structure Remembering where
  packs : List VerificationPack := []
  /-- The hashes found, with their keys. -/
  found : List (String × NodeHash) := []

namespace Remembering

/-- What a memory has read after a command. -/
def next (q : Remembering) : (c : Cmd) → Except PyError c.Reply → Remembering
  | .redis (.xreadgroupResults _ _) => fun
    | .ok messages => { packs := messages.filterMap fun message => message.pack.toOption }
    | .error _ => q
  | .redis (.hgetall key) => fun
    | .ok (some node) => { q with found := (key, node) :: q.found }
    | _ => q
  | _ => fun _ => q

/-- An operation the memory queues; a done key is set for the tree of a pack that passed. -/
def Justifies (q : Remembering) : RedisOp → Prop
  | .set key _ => ∃ pack ∈ q.packs, pack.passed = true ∧ ∃ node taskId,
      (pack.capsuleId, node) ∈ q.found ∧ node.treeId = some taskId ∧ key = treeDoneKey taskId
  | .xack group _ => group = "memory_group"
  | op => op.OfMemory

/-- The commands of a memory: it reads its batch and the hashes, reports executions and statuses as
it goes, and writes to the store with the transaction at the end. -/
def Allows (q : Remembering) : Cmd → Prop
  | .redis (.xreadgroupResults group _) => group = "memory_group"
  | .redis (.hgetall _) => True
  | .redis (.pipeline ops) => ∀ op ∈ ops, q.Justifies op
  | .pg (.completeExecution pack) => pack ∈ q.packs
  | .pg (.fetchTaskStatus _) => True
  | .pg (.setTaskStatus _ _) => True
  | .pg (.fetchCandidateStatus _) => True
  | .pg (.setCandidateStatus _ _) => True
  | .time => True
  | _ => False

/-- Nothing read has been forgotten. -/
structure Extends (q q' : Remembering) : Prop where
  packs : q'.packs = q.packs
  found : ∀ e ∈ q.found, e ∈ q'.found

theorem Extends.refl (q : Remembering) : q.Extends q := ⟨rfl, fun _ mem => mem⟩

theorem Extends.trans {q q' q'' : Remembering} (first : q.Extends q') (second : q'.Extends q'') :
    q.Extends q'' :=
  ⟨second.packs.trans first.packs, fun e mem => second.found e (first.found e mem)⟩

/-- An operation that was justified stays so. -/
theorem Justifies.mono {q q' : Remembering} (more : q.Extends q') {op : RedisOp}
    (justifies : q.Justifies op) : q'.Justifies op := by
  cases op with
  | set key value =>
    obtain ⟨pack, mem, passed, node, taskId, read, tree, same⟩ := justifies
    exact ⟨pack, more.packs ▸ mem, passed, node, taskId, more.found _ read, tree, same⟩
  | _ => exact justifies

end Remembering

/-- A memory's way with its batch, command by command. -/
def rememberProtocol : Typestate Cmd Cmd.Reply PyError Remembering where
  next := Remembering.next
  allows := Remembering.Allows

/-! ## The code follows it -/

/-- A read of a hash, or a statement of a status update. -/
def Cmd.Consults : Cmd → Prop
  | .redis (.hgetall _) => True
  | .pg (.fetchTaskStatus _) => True
  | .pg (.setTaskStatus _ _) => True
  | .pg (.fetchCandidateStatus _) => True
  | .pg (.setCandidateStatus _ _) => True
  | _ => False

/-- A command that only looks things up is allowed at any time, and what was read before is kept. -/
theorem Cmd.Consults.step {c : Cmd} (consults : c.Consults) (q : Remembering) :
    q.Allows c ∧ ∀ reply, q.Extends (q.next c reply) := by
  cases c with
  | redis c =>
    cases c with
    | hgetall key =>
      refine ⟨trivial, fun reply => ?_⟩
      cases reply with
      | error e => exact .refl q
      | ok found =>
        cases found with
        | none => exact .refl q
        | some node => exact ⟨rfl, fun _ mem => List.mem_cons_of_mem _ mem⟩
    | _ => exact consults.elim
  | pg c =>
    cases c with
    | fetchTaskStatus _ | setTaskStatus _ _ | fetchCandidateStatus _ | setCandidateStatus _ _ =>
      exact ⟨trivial, fun _ => .refl q⟩
    | _ => exact consults.elim
  | _ => exact consults.elim

/-- An operation of the memory that sets no key and acknowledges nothing. -/
def RedisOp.Counts (op : RedisOp) : Prop :=
  op.OfMemory ∧ (∀ key value, op ≠ .set key value) ∧ ∀ group id, op ≠ .xack group id

theorem RedisOp.Counts.justified {op : RedisOp} (counts : op.Counts) (q : Remembering) :
    q.Justifies op := by
  cases op with
  | set key value => exact absurd rfl (counts.2.1 key value)
  | xack group id => exact absurd rfl (counts.2.2 group id)
  | _ => exact counts.1

namespace GlobalMemory

open Daemon Remembering

/-- A consulting program in front of a continuation; what it returns is known. -/
theorem consult_bind {α β : Type} {p : Daemon α} {f : α → Daemon β} {Q : α → Prop}
    {post : β → Remembering → Prop} {q : Remembering} (uses : p.Uses Cmd.Consults)
    (yields : p.Yields Q) (rest : ∀ a q', Q a → q.Extends q' →
      (f a).Keeps rememberProtocol post (fun _ _ => True) q') :
    (p >>= f).Keeps rememberProtocol post (fun _ _ => True) q := by
  have keeps : p.Keeps rememberProtocol (fun _ => q.Extends) (fun _ => q.Extends) q := by
    refine Prog.Keeps.of_uses (fun c consults q' more => ?_) uses (.refl q)
    obtain ⟨allowed, further⟩ := consults.step q'
    exact ⟨allowed, fun reply => more.trans (further reply)⟩
  refine Prog.Keeps.bind ((keeps.yields yields).mono (fun _ _ known => known) fun _ _ _ => trivial) ?_
  exact fun a q' ⟨known, more⟩ => rest a q' known more

/-- The operations of one visit count, -/
theorem visitOps_counts (pack : VerificationPack) (reward : Rat) (current : String) :
    ∀ op ∈ visitOps pack reward current, op.Counts := by
  intro op mem
  have ofMemory := visitOps_ofMemory pack reward current op mem
  unfold visitOps at mem
  rw [List.mem_append] at mem
  rcases mem with mem | mem
  · simp only [List.mem_cons, List.not_mem_nil, or_false] at mem
    rcases mem with rfl | rfl <;> exact ⟨ofMemory, nofun, nofun⟩
  · split at mem
    · rw [List.mem_singleton.mp mem] at ofMemory ⊢
      exact ⟨ofMemory, nofun, nofun⟩
    · cases mem

/-- The operations on the statistics count. -/
theorem statsOps_counts (now : Nat) (pack : VerificationPack) (reward : Rat) :
    ∀ op ∈ statsOps now pack reward, op.Counts := by
  intro op mem
  have ofMemory := statsOps_ofMemory now pack reward op mem
  simp only [statsOps, List.mem_cons, List.not_mem_nil, or_false] at mem
  rcases mem with rfl | rfl | rfl | rfl | rfl | rfl <;>
    (refine ⟨ofMemory, ?_, ?_⟩ <;> intro _ _ same <;> cases same)

/-- The loop up the parents looks things up, and what it returns only counts. -/
theorem backpropagate_counts (pack : VerificationPack) (reward : Rat) (fuel : Nat)
    (current : String) :
    (backpropagate pack reward fuel current).Uses Cmd.Consults ∧
      (backpropagate pack reward fuel current).Yields fun ops => ∀ op ∈ ops, op.Counts := by
  induction fuel generalizing current with
  | zero =>
    unfold backpropagate
    split
    · exact ⟨trivial, fun _ mem => by cases mem⟩
    · exact ⟨trivial, trivial⟩
  | succ fuel ih =>
    unfold backpropagate
    split
    · exact ⟨trivial, fun _ mem => by cases mem⟩
    · constructor
      · exact (Prog.uses_call trivial).bind fun _ => (ih _).1.bind fun _ => trivial
      · refine (Prog.yields_true _).bind fun _ _ => (ih _).2.bind fun rest older op mem => ?_
        rcases List.mem_append.mp mem with mem | mem
        · exact visitOps_counts pack reward current op mem
        · exact older op mem

/-- and those of the summary do. -/
theorem summaryOps_counts (rootId : String) (reward : Rat) (nodeDepth : Nat) :
    (summaryOps rootId reward nodeDepth).Uses Cmd.Consults ∧
      (summaryOps rootId reward nodeDepth).Yields fun ops => ∀ op ∈ ops, op.Counts := by
  have hset : ∀ {mapping : NodeHash} {op : RedisOp}, (RedisOp.hset rootId mapping).OfMemory →
      op ∈ [RedisOp.hset rootId mapping] → op.Counts := by
    intro mapping op ofMemory mem
    rw [List.mem_singleton.mp mem]
    exact ⟨ofMemory, nofun, nofun⟩
  constructor
  · exact (Prog.uses_call trivial).bind fun _ => (Prog.uses_call trivial).bind fun _ => trivial
  · refine (Prog.yields_true _).bind fun _ _ => (Prog.yields_true _).bind fun _ _ op mem => ?_
    rcases List.mem_append.mp mem with mem | mem
    · split at mem
      · exact hset ⟨none, none, none, none, _, none, nofun, rfl⟩ mem
      · cases mem
    · split at mem
      · exact hset ⟨none, none, none, none, none, _, nofun, rfl⟩ mem
      · cases mem

theorem updateCandidateStatus_consults (candidateId status : String) :
    (updateCandidateStatus candidateId status).Uses Cmd.Consults := by
  refine (Prog.uses_call trivial).bind fun current => ?_
  split
  · exact (Prog.uses_call trivial).bind fun _ => trivial
  · trivial

theorem updateTaskStatus_consults (taskId status : String) :
    (updateTaskStatus taskId status).Uses Cmd.Consults := by
  refine (Prog.uses_call trivial).bind fun current => ?_
  split
  · exact (Prog.uses_call trivial).bind fun _ => trivial
  · trivial

/-- The end of a message closes its tree if the pack passed. -/
theorem settle_closes (taskId : String) (pack : VerificationPack) :
    (settle taskId pack).Uses Cmd.Consults ∧
      (settle taskId pack).Yields fun ops => ∀ op ∈ ops, op.Counts ∨
        pack.passed = true ∧ op = .set (treeDoneKey taskId) pack.capsuleId := by
  unfold settle
  split
  · next passed =>
    constructor
    · exact (updateCandidateStatus_consults _ _).bind fun _ =>
        (updateTaskStatus_consults _ _).bind fun _ => trivial
    · refine (Prog.yields_true _).bind fun _ _ => (Prog.yields_true _).bind fun _ _ op mem => ?_
      simp only [List.mem_cons, List.not_mem_nil, or_false] at mem
      rcases mem with rfl | rfl
      · exact .inr ⟨passed, rfl⟩
      · exact .inl ⟨⟨none, none, none, some true, none, none, nofun, rfl⟩, nofun, nofun⟩
  · constructor
    · exact (updateCandidateStatus_consults _ _).bind fun _ => trivial
    · exact (Prog.yields_true _).bind fun _ _ _ mem => by cases mem

theorem parentData_consults (node : NodeHash) : (parentData node).Uses Cmd.Consults := by
  unfold parentData
  dsimp only
  split
  · trivial
  · exact Prog.uses_call trivial

/-- One message of the batch. -/
theorem rememberResult_keeps (fuel now : Nat) {pack : VerificationPack} {q : Remembering}
    (mem : pack ∈ q.packs) :
    (rememberResult fuel now pack).Keeps rememberProtocol
      (fun ops q' => q.Extends q' ∧ ∀ op ∈ ops, q'.Justifies op) (fun _ _ => True) q := by
  refine Prog.Keeps.call_bind mem (fun _ => ?_) fun _ => trivial
  refine Prog.Keeps.call_bind trivial (fun found => ?_) fun _ => trivial
  cases found with
  | none => exact ⟨.refl q, fun _ mem => by cases mem⟩
  | some node =>
    have here : q.Extends { q with found := (pack.capsuleId, node) :: q.found } :=
      ⟨rfl, fun _ mem => List.mem_cons_of_mem _ mem⟩
    refine consult_bind (parentData_consults node) (Prog.yields_true _) fun parent q₁ _ more₁ => ?_
    refine Prog.Keeps.ofExcept_bind (fun taskId tree => ?_) fun _ _ => trivial
    obtain ⟨uses, counts⟩ := backpropagate_counts pack (computeReward pack parent) fuel pack.capsuleId
    refine consult_bind uses counts fun path q₂ path_counts more₂ => ?_
    obtain ⟨uses, counts⟩ := summaryOps_counts (rootNodeId taskId) (computeReward pack parent)
      (node.depth.getD 0)
    refine consult_bind uses counts fun summary q₃ summary_counts more₃ => ?_
    obtain ⟨uses, closes⟩ := settle_closes taskId pack
    refine consult_bind uses closes fun closing q₄ closing_closes more₄ => ?_
    have more := ((more₁.trans more₂).trans more₃).trans more₄
    refine ⟨here.trans more, fun op mem' => ?_⟩
    simp only [List.mem_append] at mem'
    rcases mem' with ((mem' | mem') | mem') | mem'
    · exact (statsOps_counts now pack _ op mem').justified _
    · exact (path_counts op mem').justified _
    · exact (summary_counts op mem').justified _
    · rcases closing_closes op mem' with counts | ⟨passed, rfl⟩
      · exact counts.justified _
      · have read := more.found (pack.capsuleId, node) List.mem_cons_self
        have known : pack ∈ q₄.packs := by
          rw [more.packs]
          exact mem
        exact ⟨pack, known, passed, node, taskId, read, subscript_eq_ok tree, rfl⟩

/-- The batch: each result is justified by the packs and the hashes that were read. -/
theorem rememberBatch_keeps (fuel now : Nat) {messages : List ResultMessage} {pipe : List RedisOp}
    {q : Remembering} (packs : ∀ message ∈ messages, ∀ pack, message.pack = .ok pack → pack ∈ q.packs)
    (queued : ∀ op ∈ pipe, q.Justifies op) :
    (rememberBatch fuel now messages pipe).Keeps rememberProtocol (fun _ _ => True)
      (fun _ _ => True) q := by
  induction messages generalizing pipe q with
  | nil => exact Prog.Keeps.call queued (fun _ => trivial) fun _ => trivial
  | cons message rest ih =>
    refine Prog.Keeps.ofExcept_bind (fun pack read => ?_) fun _ _ => trivial
    refine (rememberResult_keeps fuel now (packs message List.mem_cons_self pack read)).bind
      fun ops q' ⟨more, justified⟩ => ?_
    refine ih (fun m mem p read => ?_) fun op mem => ?_
    · rw [more.packs]
      exact packs m (List.mem_cons_of_mem _ mem) p read
    · simp only [List.mem_append, List.mem_singleton] at mem
      rcases mem with mem | mem | rfl
      · exact (queued op mem).mono more
      · exact justified op mem
      · exact rfl

/-- A turn of the memory, whatever it has read before. -/
theorem remember_keeps (fuel : Nat) (q : Remembering) :
    (remember fuel).Keeps rememberProtocol (fun _ _ => True) (fun _ _ => True) q := by
  refine Prog.Keeps.call_bind rfl (fun messages => ?_) fun _ => trivial
  split
  · trivial
  · refine Prog.Keeps.call_bind trivial (fun now => ?_) fun _ => trivial
    refine rememberBatch_keeps fuel now (fun message mem pack read => ?_) fun _ mem => by cases mem
    refine List.mem_filterMap.mpr ⟨message, mem, ?_⟩
    rw [read]
    rfl

end GlobalMemory

end KernelOmega
