import KernelOmega.Dispatcher
import KernelOmega.GlobalMemory
import KernelOmega.Ledger.Overlap
import KernelOmega.Merger
import KernelOmega.Plant.Seeding
import KernelOmega.PolicyGate

/-!
# The plant

All the daemons on the stores they share: any number of workers, dispatchers, executors of
both kinds, memories, gates and mergers, interleaved command by command, from stores in
which any number of tasks are seeded. A thread is one daemon process, or one connection
handled by an executor. Where its program raised, the process has ended, and a restarted one
is another thread; only the merger goes on with its next turn, so that a plant with one
merger has one throughout.

Whatever the daemon, it writes a status only through the update methods, and only the
statuses of its `Vocabulary`.
-/

namespace KernelOmega

open Concurrent

/-- What a thread of the plant is. -/
inductive Role where
  | worker (self : ForestWorker) (own : Option String)
  | dispatcher (self : Dispatcher)
  | executor (self : Executor) (core : Nat)
  | hypervisor (self : Executor) (reads : TaskCapsule → Bool) (core : Nat)
  | memory
  | gate (self : PolicyGate)
  | merger

def Role.isWorker : Role → Bool
  | .worker _ _ => true
  | _ => false

def Role.isMerger : Role → Bool
  | .merger => true
  | _ => false

def Role.isMemory : Role → Bool
  | .memory => true
  | _ => false

def Role.isDispatcher : Role → Bool
  | .dispatcher _ => true
  | _ => false

/-- The capsules an executor of the role can read. -/
def Role.reads : Role → Option (TaskCapsule → Bool)
  | .executor _ _ => some fun _ => true
  | .hypervisor _ reads _ => some reads
  | _ => none

/-- The daemons of an installation, with the tasks it was seeded with. `ι` names the processes, and
a role may be filled by any number of them. -/
structure Plant (ι S : Type) where
  sha256 : Sha256
  ucb : UcbScore S
  tasks : List SeedTask
  roles : ι → Role

namespace Plant

variable {ι S : Type} [LinearOrder S] (plant : Plant ι S)

/-- What a role calls again and again. -/
inductive Call : Role → Daemon Unit → Prop
  | work (self : ForestWorker) (own : Option String) (fuel : Nat) :
      Call (.worker self own) (self.turn plant.sha256 plant.ucb own fuel)
  | dispatch (self : Dispatcher) : Call (.dispatcher self) self.turn
  | handle (self : Executor) (core : Nat) : Call (.executor self core) (self.handle core)
  | coreTask (self : Executor) (reads : TaskCapsule → Bool) (core : Nat) :
      Call (.hypervisor self reads core) (self.coreTask reads core)
  | remember (fuel : Nat) : Call .memory (GlobalMemory.remember fuel)
  | gate (self : PolicyGate) : Call (.gate self) self.gate
  | merge : Call .merger (Merger.merge.tryCatch fun _ => return ())

/-- The daemons in any interleaving, of which `may` are considered. -/
def systemOf (may : Snapshot ι Cmd Cmd.Reply PyError World → ι → Choice → Cmd → Prop) :
    System ι Cmd Cmd.Reply PyError Choice World where
  exec := World.exec
  init := fun w => w = seedAll plant.tasks
  calls := fun i => plant.Call (plant.roles i)
  env := fun s w => Weather s.world w
  may := may

/-- Every worker follows the stages of its protocol, whatever steps are considered. -/
theorem worker_follows [DecidableEq ι]
    {may : Snapshot ι Cmd Cmd.Reply PyError World → ι → Choice → Cmd → Prop} {i : ι}
    (works : (plant.roles i).isWorker = true) :
    (plant.systemOf may).FollowsAt i (forestProtocol plant.sha256) .free fun q => q = .free where
  start := rfl
  calls := by
    intro p q called here
    subst here
    have called : plant.Call (plant.roles i) p := called
    generalize plant.roles i = role at works called
    cases called with
    | work self own fuel => exact self.turn_keeps plant.ucb own fuel
    | _ => cases works

/-- The daemons in any interleaving, with nothing left out. -/
abbrev system : System ι Cmd Cmd.Reply PyError Choice World := plant.systemOf fun _ _ _ _ => True

end Plant

/-! ## Guarded programs -/

/-- The statuses a daemon writes, and whether it records candidates and applies patches. -/
structure Vocabulary where
  tasks : List String := []
  candidates : List String := []
  generates : Bool := false
  merges : Bool := false

namespace Vocabulary

def worker : Vocabulary where
  tasks := ["running", "budget_exhausted"]
  candidates := ["queued"]
  generates := true

def dispatcher : Vocabulary where
  candidates := ["running", "dispatch_failed"]

def memory : Vocabulary where
  tasks := ["verified"]
  candidates := ["verified", "failed"]

def gate : Vocabulary where
  candidates := ["accepted", "rejected_policy"]

def merger : Vocabulary where
  tasks := ["merged"]
  candidates := ["merged", "merge_failed"]
  merges := true

end Vocabulary

/-- The words of each role. Executors keep to the stores and write no status. -/
def Role.vocabulary : Role → Vocabulary
  | .worker _ _ => .worker
  | .dispatcher _ => .dispatcher
  | .executor _ _ => {}
  | .hypervisor _ _ _ => {}
  | .memory => .memory
  | .gate _ => .gate
  | .merger => .merger

/-- A command that is within the vocabulary. -/
def Vocabulary.Covers (words : Vocabulary) : Cmd → Prop
  | .pg (.setTaskStatus _ status) => status ∈ words.tasks
  | .pg (.setCandidateStatus _ status) => status ∈ words.candidates
  | .pg (.insertTask _ _) => False
  | .pg (.insertCandidate _ row) => words.generates = true ∧ row.status = "generated"
  | .applyPatch _ => words.merges = true
  | _ => True

/-- The guard together with the vocabulary. -/
def guardedBy (words : Vocabulary) : Typestate Cmd Cmd.Reply PyError Reading where
  next := guarded.next
  allows := fun q c => guarded.allows q c ∧ words.Covers c

/-- A program that writes a status only right after reading it and asking the guard, and only
one of the vocabulary. -/
def Daemon.Guarded {α : Type} (words : Vocabulary) (p : Daemon α) : Prop :=
  ∀ q, p.Keeps (guardedBy words) (fun _ _ => True) (fun _ _ => True) q

/-- A command that is within any vocabulary: it writes no status and applies no patch. -/
def Cmd.Silent : Cmd → Prop
  | .pg (.setTaskStatus _ _) => False
  | .pg (.setCandidateStatus _ _) => False
  | .pg (.insertTask _ _) => False
  | .pg (.insertCandidate _ _) => False
  | .applyPatch _ => False
  | _ => True

/-- A command without words is within every vocabulary. -/
theorem guardedBy_allows_of_silent {c : Cmd} (silent : c.Silent) (words : Vocabulary)
    (q : Reading) : (guardedBy words).allows q c := by
  cases c with
  | pg c =>
    cases c with
    | setTaskStatus _ _ => exact silent.elim
    | setCandidateStatus _ _ => exact silent.elim
    | insertTask _ _ => exact silent.elim
    | insertCandidate _ _ => exact silent.elim
    | _ => exact ⟨trivial, trivial⟩
  | applyPatch _ => exact silent.elim
  | _ => exact ⟨trivial, trivial⟩

namespace Daemon.Guarded

variable {α β : Type} {words : Vocabulary}

theorem bind {p : Daemon α} {f : α → Daemon β} (first : p.Guarded words)
    (rest : ∀ a, (f a).Guarded words) : Daemon.Guarded words (p >>= f) :=
  fun q => (first q).bind fun a q' _ => rest a q'

theorem call_of {c : Cmd} (allowed : ∀ q, (guardedBy words).allows q c) :
    Daemon.Guarded words (Prog.call c) :=
  fun q => Prog.Keeps.call (allowed q) (fun _ => trivial) fun _ => trivial

theorem call {c : Cmd} (silent : c.Silent) : Daemon.Guarded words (Prog.call c) :=
  call_of fun q => guardedBy_allows_of_silent silent words q

theorem call_bind {c : Cmd} {f : c.Reply → Daemon β} (silent : c.Silent)
    (rest : ∀ v, (f v).Guarded words) : Daemon.Guarded words (Prog.call c >>= f) :=
  (call silent).bind rest

theorem ret (a : α) : Daemon.Guarded words (.ret a) := fun _ => trivial

/-- A program that writes no status and applies no patch. -/
theorem of_uses {p : Daemon α} (uses : p.Uses Cmd.Silent) : p.Guarded words :=
  fun _ => Prog.Keeps.of_uses (fun _ silent q _ =>
    ⟨guardedBy_allows_of_silent silent words q, fun _ => trivial⟩) uses trivial

theorem ofExcept (r : Except PyError α) : Daemon.Guarded words (Prog.ofExcept r) :=
  fun _ => Prog.Keeps.ofExcept (fun _ _ => trivial) fun _ _ => trivial

theorem tryCatch {p : Daemon α} {h : PyError → Daemon α} (body : p.Guarded words)
    (handler : ∀ e, (h e).Guarded words) : Daemon.Guarded words (p.tryCatch h) :=
  fun q => (body q).tryCatch fun e q' _ => handler e q'

theorem tryFinally {p : Daemon α} {final : Daemon Unit} (body : p.Guarded words)
    (last : final.Guarded words) : Daemon.Guarded words (p.tryFinally final) :=
  fun q => (body q).tryFinally (fun _ q' _ => last q') fun _ q' _ => last q'

/-- A guarded update with one of the words, -/
theorem updateTaskStatus {status : String} (word : status ∈ words.tasks) (taskId : String) :
    (Daemon.updateTaskStatus taskId status).Guarded words := by
  intro q
  refine Prog.Keeps.call_bind ⟨trivial, trivial⟩ (fun current => ?_) fun _ => trivial
  split
  · next allowed =>
    exact Prog.Keeps.call_bind ⟨⟨current, rfl, allowed⟩, word⟩ (fun _ => trivial) fun _ => trivial
  · trivial

/-- for tasks as for candidates. -/
theorem updateCandidateStatus {status : String} (word : status ∈ words.candidates)
    (candidateId : String) : (Daemon.updateCandidateStatus candidateId status).Guarded words := by
  intro q
  refine Prog.Keeps.call_bind ⟨trivial, trivial⟩ (fun current => ?_) fun _ => trivial
  split
  · next allowed =>
    exact Prog.Keeps.call_bind ⟨⟨current, rfl, allowed⟩, word⟩ (fun _ => trivial) fun _ => trivial
  · trivial

end Daemon.Guarded

end KernelOmega
