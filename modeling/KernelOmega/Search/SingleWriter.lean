import KernelOmega.Search.Growth

/-!
# One writer for each child

In the runs in which no node is expanded twice, the process that expands a node owns
that node's children: nobody else writes or dispatches one. Within the call the
candidates have no repetitions, so every child is written once and dispatched at most
once.

An expansion is the mark an `expand` call leaves when it starts to generate children.
-/

namespace KernelOmega

open Concurrent

/-! ## What the history says -/

section Events

variable {ι : Type}

/-- The node a mark says is being expanded. -/
def expandsIn (e : Event ι Cmd Cmd.Reply PyError) : List String :=
  match e.cmd with
  | .mark (.expanding nodeId) => [nodeId]
  | _ => []

def RedisOp.added : RedisOp → Option String
  | .sadd _ member => some member
  | _ => none

/-- The children a command has written. -/
def childrenIn : Event ι Cmd Cmd.Reply PyError → List String
  | ⟨_, .redis (.pipeline ops), .ok _⟩ => ops.filterMap RedisOp.added
  | _ => []

/-- The candidates a command has dispatched. -/
def dispatchesIn : Event ι Cmd Cmd.Reply PyError → List String
  | ⟨_, .redis (.xaddDispatch request), .ok _⟩ => [request.candidateId]
  | _ => []

/-- The expansions that were started, latest first, -/
def expansions (history : History ι) : List String := history.flatMap expandsIn

/-- the children that were written, -/
def childWrites (history : History ι) : List String := history.flatMap childrenIn

/-- and the candidates that were dispatched. -/
def dispatches (history : History ι) : List String := history.flatMap dispatchesIn

/-- Process `i` has started the expansion of `p`. -/
def Owner (i : ι) (p : String) (history : History ι) : Prop :=
  ∃ e ∈ history, e.thread = i ∧ e.cmd = .mark (.expanding p)

variable {i j : ι} {p : String} {e : Event ι Cmd Cmd.Reply PyError} {history : History ι}

theorem Owner.mem_expansions (owner : Owner i p history) : p ∈ expansions history := by
  obtain ⟨e, mem, -, cmd⟩ := owner
  exact List.mem_flatMap.mpr ⟨e, mem, by simp only [expandsIn, cmd, List.mem_singleton]⟩

theorem Owner.cons (owner : Owner i p history) : Owner i p (e :: history) := by
  obtain ⟨e', mem, rest⟩ := owner
  exact ⟨e', List.mem_cons_of_mem e mem, rest⟩

theorem Owner.suffix {later : History ι} (owner : Owner i p history)
    (suffix : history <:+ later) : Owner i p later := by
  obtain ⟨e, mem, rest⟩ := owner
  exact ⟨e, suffix.subset mem, rest⟩

/-- A node expanded once has one owner. -/
theorem Owner.unique (once : (expansions history).Nodup) (own : Owner i p history)
    (own' : Owner j p history) : i = j := by
  induction history with
  | nil =>
    obtain ⟨e, mem, -⟩ := own
    cases mem
  | cons e earlier ih =>
    obtain ⟨a, memA, rfl, cmdA⟩ := own
    obtain ⟨b, memB, rfl, cmdB⟩ := own'
    have split : expansions (e :: earlier) = expandsIn e ++ expansions earlier := rfl
    rw [split, List.nodup_append] at once
    obtain ⟨-, onceEarlier, apart⟩ := once
    have marked : ∀ f : Event ι Cmd Cmd.Reply PyError, f.cmd = .mark (.expanding p) →
        p ∈ expandsIn f := by
      intro f cmd
      simp only [expandsIn, cmd, List.mem_singleton]
    rcases List.mem_cons.mp memA with rfl | memA
    · rcases List.mem_cons.mp memB with rfl | memB
      · rfl
      · have later : Owner b.thread p earlier := ⟨b, memB, rfl, cmdB⟩
        exact absurd rfl (apart p (marked a cmdA) p later.mem_expansions)
    · have first : Owner a.thread p earlier := ⟨a, memA, rfl, cmdA⟩
      rcases List.mem_cons.mp memB with rfl | memB
      · exact absurd rfl (apart p (marked b cmdB) p first.mem_expansions)
      · exact ih onceEarlier first ⟨b, memB, rfl, cmdB⟩

end Events

/-! ## Commands that neither mark, list nor dispatch -/

def RedisOp.WriterQuiet : RedisOp → Prop
  | .sadd _ _ => False
  | _ => True

/-- A command that lists and dispatches nothing. -/
def RedisCmd.WriterQuiet : RedisCmd → Prop
  | .sadd _ _ => False
  | .xaddDispatch _ => False
  | .pipeline ops => ∀ op ∈ ops, op.WriterQuiet
  | _ => True

/-- Marks are left out: they start expansions. -/
def Cmd.WriterQuiet : Cmd → Prop
  | .redis c => c.WriterQuiet
  | .mark _ => False
  | _ => True

theorem Cmd.WriterQuiet.of_passive {c : Cmd} (passive : c.Passive) : c.WriterQuiet := by
  cases c with
  | redis c =>
    cases c with
    | sadd key member => exact passive.elim
    | xaddDispatch request => exact passive.elim
    | pipeline ops => exact passive.elim
    | _ => trivial
  | mark m => exact passive.elim
  | _ => trivial

theorem Cmd.WriterQuiet.of_memory {c : Cmd} (memory : c.OfMemory) : c.WriterQuiet := by
  rcases memory with passive | ⟨ops, rfl, queued⟩
  · exact .of_passive passive
  · intro op mem
    have known := queued op mem
    cases op with
    | sadd key member => exact known.elim
    | _ => trivial

/-- Children sets stay, and no hash goes away. -/
structure SetsKept (r r' : Redis) : Prop where
  there : ∀ id, (r.hashes id).isSome → (r'.hashes id).isSome
  sets : r'.sets = r.sets

theorem Redis.modifyHash_isSome {r : Redis} (key : String) (f : NodeHash → NodeHash) {id : String}
    (there : (r.hashes id).isSome) : ((r.modifyHash key f).hashes id).isSome := by
  rw [Redis.modifyHash_hashes]
  by_cases here : id = key
  · rw [here, Function.update_self]
    rfl
  · rw [Function.update_of_ne here]
    exact there

namespace SetsKept

theorem refl (r : Redis) : SetsKept r r := ⟨fun _ there => there, rfl⟩

theorem trans {r r' r'' : Redis} (first : SetsKept r r') (last : SetsKept r' r'') :
    SetsKept r r'' :=
  ⟨fun id there => last.there id (first.there id there), last.sets.trans first.sets⟩

theorem of_eq {r r' : Redis} (hashes : r'.hashes = r.hashes) (sets : r'.sets = r.sets) :
    SetsKept r r' :=
  ⟨fun id there => by rw [hashes]; exact there, sets⟩

theorem modifyHash (r : Redis) (key : String) (f : NodeHash → NodeHash) :
    SetsKept r (r.modifyHash key f) :=
  ⟨fun _ there => Redis.modifyHash_isSome key f there, rfl⟩

theorem apply {op : RedisOp} (quiet : op.WriterQuiet) (r : Redis) : SetsKept r (r.apply op) := by
  cases op with
  | hset key mapping => exact modifyHash r key _
  | hincrbyVisits key => exact modifyHash r key _
  | hincrbyfloatValueSum key reward => exact modifyHash r key _
  | sadd key member => exact quiet.elim
  | _ => exact of_eq rfl rfl

theorem applyAll {ops : List RedisOp} (quiet : ∀ op ∈ ops, op.WriterQuiet) (r : Redis) :
    SetsKept r (r.applyAll ops) := by
  induction ops generalizing r with
  | nil => exact refl r
  | cons op rest ih =>
    have first := apply (quiet op List.mem_cons_self) r
    exact first.trans (ih (fun o mem => quiet o (List.mem_cons_of_mem op mem)) (r.apply op))

/-- A quiet command leaves every children set as it is. -/
theorem exec {c : RedisCmd} (quiet : c.WriterQuiet) (now : Nat) (r : Redis) :
    SetsKept r (r.exec now c).2 := by
  cases c with
  | hset key mapping => exact modifyHash _ key _
  | sadd key member => exact quiet.elim
  | xaddDispatch request => exact quiet.elim
  | set key value nx ex =>
    simp only [Redis.exec]
    split
    · exact refl _
    · exact of_eq rfl rfl
  | pipeline ops => exact applyAll quiet _
  | _ => exact of_eq rfl rfl

theorem world {c : Cmd} (quiet : c.WriterQuiet) (x : Choice) (w : World) :
    SetsKept w.redis (World.exec x c w).2.redis := by
  rcases World.exec_redis_cases x c w with same | ⟨command, rfl, after⟩
  · rw [same]
    exact refl _
  · rw [after]
    exact exec quiet w.clock w.redis

end SetsKept

theorem added_of_quiet {ops : List RedisOp} (quiet : ∀ op ∈ ops, op.WriterQuiet) :
    ops.filterMap RedisOp.added = [] := by
  rw [List.filterMap_eq_nil_iff]
  intro op mem
  have quiet := quiet op mem
  cases op with
  | sadd key member => exact quiet.elim
  | _ => rfl

/-- The event of a quiet command marks, lists and dispatches nothing. -/
theorem Cmd.WriterQuiet.event {ι : Type} {c : Cmd} (quiet : c.WriterQuiet) (i : ι)
    (reply : Except PyError c.Reply) :
    expandsIn ⟨i, c, reply⟩ = [] ∧ childrenIn ⟨i, c, reply⟩ = [] ∧
      dispatchesIn ⟨i, c, reply⟩ = [] := by
  cases c with
  | redis c =>
    cases c with
    | xaddDispatch request => exact quiet.elim
    | pipeline ops =>
      cases reply with
      | ok _ => exact ⟨rfl, added_of_quiet quiet, rfl⟩
      | error e => exact ⟨rfl, rfl, rfl⟩
    | _ => exact ⟨rfl, rfl, rfl⟩
  | mark m => exact quiet.elim
  | _ => exact ⟨rfl, rfl, rfl⟩

/-! ## The discipline -/

/-- Children sets, writes and dispatches of a search. -/
structure WriterInv {ι : Type} (r : Redis) (history : History ι) : Prop where
  nodes : ∀ p ∈ expansions history, (r.hashes p).isSome
  listed : ∀ p c, c ∈ r.sets (nodeChildrenKey p) → p ∈ expansions history ∧ c ∈ childWrites history
  written : ∀ c ∈ childWrites history, ∃ p, c ∈ r.sets (nodeChildrenKey p)
  writesOnce : (childWrites history).Nodup
  dispatched : ∀ c ∈ dispatches history, c ∈ childWrites history
  dispatchesOnce : (dispatches history).Nodup

section Writer

variable {ι S : Type} {setup : SearchSetup ι S} {i : ι}

/-- What an owner relies on: its nodes get no child and no dispatch from others. -/
structure WriterRely (setup : SearchSetup ι S) (i : ι) (s t : Snap ι) : Prop where
  there : ∀ id, (s.world.redis.hashes id).isSome → (t.world.redis.hashes id).isSome
  history : s.history <:+ t.history
  children : ∀ p, Owner i p s.history → ∀ c, c ∈ t.world.redis.sets (nodeChildrenKey p) →
    c ∈ s.world.redis.sets (nodeChildrenKey p)
  sends : ∀ p, Owner i p s.history → ∀ candidate,
    setup.childId p candidate ∈ dispatches t.history →
      setup.childId p candidate ∈ dispatches s.history

namespace WriterRely

theorem refl (setup : SearchSetup ι S) (i : ι) (s : Snap ι) : WriterRely setup i s s :=
  ⟨fun _ there => there, List.suffix_rfl, fun _ _ _ mem => mem, fun _ _ _ mem => mem⟩

theorem trans {s t u : Snap ι} (first : WriterRely setup i s t) (last : WriterRely setup i t u) :
    WriterRely setup i s u where
  there := fun id there => last.there id (first.there id there)
  history := first.history.trans last.history
  children := fun p owner c mem =>
    first.children p owner c (last.children p (owner.suffix first.history) c mem)
  sends := fun p owner candidate mem =>
    first.sends p owner candidate (last.sends p (owner.suffix first.history) candidate mem)

end WriterRely

/-- A change that keeps the children sets keeps the invariant. -/
theorem WriterInv.of_kept {r r' : Redis} {history : History ι} (inv : WriterInv r history)
    (kept : SetsKept r r') : WriterInv r' history := by
  refine ⟨fun p mem => kept.there p (inv.nodes p mem), fun p c mem => ?_, fun c mem => ?_,
    inv.writesOnce, inv.dispatched, inv.dispatchesOnce⟩
  · rw [kept.sets] at mem
    exact inv.listed p c mem
  · rw [kept.sets]
    exact inv.written c mem

/-- An event that marks, lists and dispatches nothing keeps the invariant. -/
theorem WriterInv.of_event {r : Redis} {history : History ι} (inv : WriterInv r history)
    {e : Event ι Cmd Cmd.Reply PyError}
    (silent : expandsIn e = [] ∧ childrenIn e = [] ∧ dispatchesIn e = []) :
    WriterInv r (e :: history) := by
  obtain ⟨marks, writes, sends⟩ := silent
  have marked : expansions (e :: history) = expansions history := by
    rw [expansions, List.flatMap_cons, marks]
    rfl
  have wrote : childWrites (e :: history) = childWrites history := by
    rw [childWrites, List.flatMap_cons, writes]
    rfl
  have sent : dispatches (e :: history) = dispatches history := by
    rw [dispatches, List.flatMap_cons, sends]
    rfl
  constructor
  · rw [marked]
    exact inv.nodes
  · rw [marked, wrote]
    exact inv.listed
  · rw [wrote]
    exact inv.written
  · rw [wrote]
    exact inv.writesOnce
  · rw [wrote, sent]
    exact inv.dispatched
  · rw [sent]
    exact inv.dispatchesOnce

/-- A step that keeps the children sets and dispatches nothing is within every rely. -/
theorem WriterRely.of_kept {s : Snap ι} {w : World} {e : Event ι Cmd Cmd.Reply PyError}
    (kept : SetsKept s.world.redis w.redis) (sends : dispatchesIn e = []) (j : ι) :
    WriterRely setup j s ⟨w, e :: s.history⟩ := by
  refine ⟨kept.there, List.suffix_cons e _, fun p _ c mem => ?_, fun p _ candidate mem => ?_⟩
  · rw [kept.sets] at mem
    exact mem
  · rw [dispatches, List.flatMap_cons, sends] at mem
    exact mem

/-- The process owns `p`, and none of the candidates is written or dispatched. -/
structure Ready (setup : SearchSetup ι S) (i : ι) (p : String) (candidates : List String)
    (s : Snap ι) : Prop where
  owner : Owner i p s.history
  fresh : ∀ candidate ∈ candidates,
    setup.childId p candidate ∉ s.world.redis.sets (nodeChildrenKey p) ∧
      setup.childId p candidate ∉ dispatches s.history

/-- What is ready stays ready, whatever the others do, -/
theorem Ready.rely {p : String} {candidates : List String} {s t : Snap ι}
    (ready : Ready setup i p candidates s) (rely : WriterRely setup i s t) :
    Ready setup i p candidates t := by
  refine ⟨ready.owner.suffix rely.history, fun candidate mem => ?_⟩
  obtain ⟨unlisted, unsent⟩ := ready.fresh candidate mem
  exact ⟨fun listed => unlisted (rely.children p ready.owner _ listed),
    fun sent => unsent (rely.sends p ready.owner candidate sent)⟩

theorem Ready.subset {p : String} {candidates rest : List String} {s : Snap ι}
    (ready : Ready setup i p candidates s) (subset : ∀ c ∈ rest, c ∈ candidates) :
    Ready setup i p rest s :=
  ⟨ready.owner, fun candidate mem => ready.fresh candidate (subset candidate mem)⟩

/-- A child that is not listed with its parent has not been written. -/
theorem not_mem_childWrites (collisionFree : setup.sha256.CollisionFree) {r : Redis}
    {history : History ι} (tree : IsTree setup.sha256 setup.task r) (inv : WriterInv r history)
    {p candidate : String} (isNode : IsNodeId setup.sha256 setup.taskId p)
    (unlisted : setup.childId p candidate ∉ r.sets (nodeChildrenKey p)) :
    setup.childId p candidate ∉ childWrites history := by
  intro written
  obtain ⟨q, listed⟩ := inv.written _ written
  obtain ⟨-, h, found, parent⟩ := tree.member q _ listed
  obtain ⟨-, isChild⟩ := tree.child_of_childId collisionFree isNode found
  rw [isChild.parent] at parent
  exact unlisted (Option.some.inj parent ▸ listed)

/-- A failed command: only its event is added. -/
theorem writer_failed {t : Snap ι} (inv : WriterInv t.world.redis t.history) (c : RedisCmd)
    {x : Choice} (fails : x.fail = true) :
    WriterInv (t.after World.exec i x (.redis c)).world.redis
        (t.after World.exec i x (.redis c)).history ∧
      ∀ j, WriterRely setup j t (t.after World.exec i x (.redis c)) := by
  have after : t.after World.exec i x (.redis c) =
      ⟨t.world, ⟨i, .redis c, .error .connectionError⟩ :: t.history⟩ := by
    simp only [Snapshot.after, World.exec_redis_fail fails]
  rw [after]
  have silent : expandsIn (⟨i, .redis c, .error .connectionError⟩ : Event ι Cmd Cmd.Reply PyError) =
      [] ∧ childrenIn (⟨i, .redis c, .error .connectionError⟩ : Event ι Cmd Cmd.Reply PyError) =
      [] ∧ dispatchesIn (⟨i, .redis c, .error .connectionError⟩ : Event ι Cmd Cmd.Reply PyError) =
      [] := by
    cases c <;> exact ⟨rfl, rfl, rfl⟩
  exact ⟨inv.of_event silent, WriterRely.of_kept (.refl _) silent.2.2⟩

/-- The child is written and still to be dispatched; the others are still to be written. -/
structure Written (setup : SearchSetup ι S) (i : ι) (p candidate : String) (rest : List String)
    (s : Snap ι) : Prop where
  ready : Ready setup i p rest s
  written : setup.childId p candidate ∈ childWrites s.history
  unsent : setup.childId p candidate ∉ dispatches s.history

/-- and what is written stays written. -/
theorem Written.rely {p candidate : String} {rest : List String} {s t : Snap ι}
    (state : Written setup i p candidate rest s) (rely : WriterRely setup i s t) :
    Written setup i p candidate rest t := by
  refine ⟨state.ready.rely rely, ?_,
    fun sent => state.unsent (rely.sends p state.ready.owner candidate sent)⟩
  obtain ⟨e, mem, inEvent⟩ := List.mem_flatMap.mp state.written
  exact List.mem_flatMap.mpr ⟨e, rely.history.subset mem, inEvent⟩

/-! ## The three steps of an owner -/

/-- Another process owns no part of what the owner of `p` does for `p`. -/
theorem ne_of_owner {history : History ι} (once : (expansions history).Nodup) {j : ι} {p q : String}
    (own : Owner i p history) (own' : Owner j q history) (other : j ≠ i) : q ≠ p := by
  rintro rfl
  exact other (Owner.unique once own' own)

theorem Redis.addChild_isSome {r : Redis} (p id : String) (child : NodeHash) {key : String}
    (there : (r.hashes key).isSome) : ((r.addChild p id child).hashes key).isSome := by
  rw [Redis.addChild_hashes]
  by_cases here : key = id
  · rw [here, Function.update_self]
    rfl
  · rw [Function.update_of_ne here]
    exact there

/-- Starting an expansion: the node has no children yet. -/
theorem WriterInv.expanding {r : Redis} {history : History ι} (inv : WriterInv r history)
    {p : String} (there : (r.hashes p).isSome) :
    WriterInv r (⟨i, .mark (.expanding p), .ok ()⟩ :: history) := by
  refine ⟨fun q mem => ?_, fun q c mem => ?_, inv.written, inv.writesOnce, inv.dispatched,
    inv.dispatchesOnce⟩
  · obtain rfl | mem := List.mem_cons.mp mem
    · exact there
    · exact inv.nodes q mem
  · obtain ⟨expanded, written⟩ := inv.listed q c mem
    exact ⟨List.mem_cons_of_mem p expanded, written⟩

/-- The first expansion of a node may write all its candidates: no child of it is there. -/
theorem ready_of_expanding (collisionFree : setup.sha256.CollisionFree) {s : Snap ι}
    (tree : IsTree setup.sha256 setup.task s.world.redis)
    (inv : WriterInv s.world.redis s.history) {p : String} (there : (s.world.redis.hashes p).isSome)
    (first : p ∉ expansions s.history) (candidates : List String) :
    Ready setup i p candidates ⟨s.world, ⟨i, .mark (.expanding p), .ok ()⟩ :: s.history⟩ := by
  obtain ⟨h, found⟩ := Option.isSome_iff_exists.mp there
  refine ⟨⟨_, List.mem_cons_self, rfl, rfl⟩, fun candidate _ => ?_⟩
  have unlisted : setup.childId p candidate ∉ s.world.redis.sets (nodeChildrenKey p) :=
    fun listed => first (inv.listed p _ listed).1
  refine ⟨unlisted, fun sent => ?_⟩
  exact not_mem_childWrites collisionFree tree inv (tree.isNode found) unlisted
    (inv.dispatched _ sent)

/-- Writing a child that was not there. -/
theorem WriterInv.addChild (collisionFree : setup.sha256.CollisionFree) {r : Redis}
    {history : History ι} (tree : IsTree setup.sha256 setup.task r) (inv : WriterInv r history)
    {p candidate : String} (owner : Owner i p history)
    (unlisted : setup.childId p candidate ∉ r.sets (nodeChildrenKey p)) (child : NodeHash) :
    WriterInv (r.addChild p (setup.childId p candidate) child)
      (⟨i, .redis (.pipeline [.hset (setup.childId p candidate) child,
        .sadd (nodeChildrenKey p) (setup.childId p candidate)]), .ok ()⟩ :: history) := by
  obtain ⟨h, found⟩ := Option.isSome_iff_exists.mp (inv.nodes p owner.mem_expansions)
  have unwritten := not_mem_childWrites collisionFree tree inv (tree.isNode found) unlisted
  refine ⟨fun q mem => ?_, fun q c mem => ?_, fun c mem => ?_, ?_, fun c mem => ?_,
    inv.dispatchesOnce⟩
  · exact Redis.addChild_isSome p _ child (inv.nodes q mem)
  · rcases Redis.mem_addChild_sets.mp mem with old | ⟨same, rfl⟩
    · obtain ⟨expanded, written⟩ := inv.listed q c old
      exact ⟨expanded, List.mem_cons_of_mem _ written⟩
    · obtain rfl := nodeChildrenKey_injective same
      exact ⟨owner.mem_expansions, List.mem_cons_self⟩
  · obtain rfl | mem := List.mem_cons.mp mem
    · exact ⟨p, Redis.mem_addChild_sets.mpr (.inr ⟨rfl, rfl⟩)⟩
    · obtain ⟨q, listed⟩ := inv.written c mem
      exact ⟨q, Redis.mem_addChild_sets.mpr (.inl listed)⟩
  · exact List.nodup_cons.mpr ⟨unwritten, inv.writesOnce⟩
  · exact List.mem_cons_of_mem _ (inv.dispatched c mem)

/-- Dispatching a child that is written and not yet dispatched. -/
theorem WriterInv.dispatch {r : Redis} {history : History ι} (inv : WriterInv r history)
    {request : ExecutionRequest} (written : request.candidateId ∈ childWrites history)
    (unsent : request.candidateId ∉ dispatches history) :
    WriterInv r (⟨i, .redis (.xaddDispatch request), .ok ()⟩ :: history) := by
  refine ⟨inv.nodes, inv.listed, inv.written, inv.writesOnce, fun c mem => ?_, ?_⟩
  · obtain rfl | mem := List.mem_cons.mp mem
    · exact written
    · exact inv.dispatched c mem
  · exact List.nodup_cons.mpr ⟨unsent, inv.dispatchesOnce⟩

variable [LinearOrder S]

/-- The search in which no node is expanded twice. -/
def SearchSetup.once (setup : SearchSetup ι S) : System ι Cmd Cmd.Reply PyError Choice World :=
  setup.system.restrict fun s => (expansions s.history).Nodup

/-- The discipline of a run without a second expansion: the children of a node have one writer. -/
def writerDiscipline (setup : SearchSetup ι S) : Discipline ι Cmd Cmd.Reply PyError World where
  known := fun s => IsTree setup.sha256 setup.task s.world.redis ∧ (expansions s.history).Nodup
  inv := fun s => WriterInv s.world.redis s.history
  rely := WriterRely setup
  guar := fun i s t => ∀ j, j ≠ i → WriterRely setup j s t
  idle := fun _ _ => True
  rely_refl := WriterRely.refl setup
  rely_trans := fun _ _ _ _ => WriterRely.trans

/-- A quiet command can be issued anywhere. -/
theorem writer_quiet {c : Cmd} (quiet : c.WriterQuiet) :
    Quiet setup.once (writerDiscipline setup) i c := by
  intro t x _ inv _ _
  have kept := SetsKept.world quiet x t.world
  have silent := quiet.event i (World.exec x c t.world).1
  have rely : ∀ j, WriterRely setup j t (t.after World.exec i x c) :=
    WriterRely.of_kept kept silent.2.2
  exact ⟨(WriterInv.of_kept inv kept).of_event silent, fun j _ => rely j, rely i⟩

/-- A program of quiet commands keeps what its process relies on. -/
theorem rely_of_uses {α : Type} {p : Daemon α} (uses : p.Uses Cmd.WriterQuiet) (s : Snap ι) :
    Safe setup.once (writerDiscipline setup) i
      (fun _ t => WriterRely setup i s t) (fun _ _ => True) p s :=
  Safe.of_uses (fun _ => writer_quiet) uses fun _ _ _ => trivial

/-! ## The code -/

theorem ForestWorker.Reserves.writerQuiet {taskId : String} {c : Cmd}
    (reserves : ForestWorker.Reserves taskId c) : c.WriterQuiet := by
  cases reserves <;> trivial

theorem ForestWorker.Leaves.writerQuiet {taskId nodeId : String} {c : Cmd}
    (leaves : ForestWorker.Leaves taskId nodeId c) : c.WriterQuiet := by
  cases leaves <;> trivial

theorem ForestWorker.Closes.writerQuiet {nodeId : String} {c : Cmd}
    (closes : ForestWorker.Closes nodeId c) : c.WriterQuiet := by
  cases closes with
  | ledger c => trivial
  | barren => exact List.forall_mem_cons.mpr ⟨trivial, List.forall_mem_singleton.mpr trivial⟩
  | done => exact List.forall_mem_singleton.mpr trivial

/-- The write of a child by the owner of its parent. -/
theorem addChild_writer (collisionFree : setup.sha256.CollisionFree) {p candidate : String}
    {rest : List String} {child : NodeHash} {s : Snap ι}
    (distinct : (candidate :: rest).Nodup)
    (ready : Ready setup i p (candidate :: rest) s) :
    Safe setup.once (writerDiscipline setup) i
      (fun _ t => Ready setup i p rest t ∧ setup.childId p candidate ∈ childWrites t.history ∧
        setup.childId p candidate ∉ dispatches t.history) (fun _ _ => True)
      (Daemon.redis (.pipeline [.hset (setup.childId p candidate) child,
        .sadd (nodeChildrenKey p) (setup.childId p candidate)])) s := by
  refine Safe.call fun t rely known inv x may known' => ?_
  have ready := ready.rely rely
  obtain ⟨tree, once⟩ := known
  obtain ⟨unlisted, unsent⟩ := ready.fresh candidate List.mem_cons_self
  obtain ⟨h, found⟩ := Option.isSome_iff_exists.mp (inv.nodes p ready.owner.mem_expansions)
  have isNode := tree.isNode found
  cases fails : x.fail with
  | true =>
    obtain ⟨inv', rely'⟩ := writer_failed (i := i) inv (.pipeline
      [.hset (setup.childId p candidate) child,
        .sadd (nodeChildrenKey p) (setup.childId p candidate)]) fails
    refine ⟨inv', fun j _ => rely' j, fun v reply => ?_, fun _ _ => trivial⟩
    cases (World.exec_redis_eq_ok reply).1.symm.trans fails
  | false =>
    have after : t.after World.exec i x (.redis (.pipeline [.hset (setup.childId p candidate) child,
        .sadd (nodeChildrenKey p) (setup.childId p candidate)])) =
        ⟨{ t.world with redis := t.world.redis.addChild p (setup.childId p candidate) child },
          ⟨i, .redis (.pipeline [.hset (setup.childId p candidate) child,
            .sadd (nodeChildrenKey p) (setup.childId p candidate)]), .ok ()⟩ :: t.history⟩ := by
      simp only [Snapshot.after, World.exec_redis_ok fails]
      rfl
    simp only [SearchSetup.once, System.restrict, SearchSetup.system, after]
    refine ⟨WriterInv.addChild collisionFree tree inv ready.owner unlisted child, fun j other => ?_,
      fun _ _ => ⟨⟨ready.owner.cons, fun c mem => ⟨fun listed => ?_, fun sent => ?_⟩⟩,
        List.mem_cons_self, unsent⟩, fun _ _ => trivial⟩
    · refine ⟨fun id there => Redis.addChild_isSome p _ child there, List.suffix_cons _ _,
        fun q owner c mem => ?_, fun _ _ _ mem => mem⟩
      rcases Redis.mem_addChild_sets.mp mem with old | ⟨same, -⟩
      · exact old
      · exact absurd (nodeChildrenKey_injective same) (ne_of_owner once ready.owner owner other)
    · rcases Redis.mem_addChild_sets.mp listed with old | ⟨-, same⟩
      · exact (ready.fresh c (List.mem_cons_of_mem _ mem)).1 old
      · obtain ⟨rfl, -⟩ := isNode.childId_inj collisionFree isNode same
        exact (List.nodup_cons.mp distinct).1 mem
    · exact (ready.fresh c (List.mem_cons_of_mem _ mem)).2 sent

/-- The dispatch of a written child. -/
theorem xaddDispatch_writer (collisionFree : setup.sha256.CollisionFree) {p candidate : String}
    {rest : List String} {request : ExecutionRequest}
    (named : request.candidateId = setup.childId p candidate) (others : candidate ∉ rest)
    {s : Snap ι} (state : Written setup i p candidate rest s) :
    Safe setup.once (writerDiscipline setup) i (fun _ t => Ready setup i p rest t)
      (fun _ _ => True) (Daemon.redis (.xaddDispatch request)) s := by
  refine Safe.call fun t rely known inv x may known' => ?_
  obtain ⟨ready, written, unsent⟩ := state.rely rely
  obtain ⟨tree, once⟩ := known
  obtain ⟨h, found⟩ := Option.isSome_iff_exists.mp (inv.nodes p ready.owner.mem_expansions)
  have isNode := tree.isNode found
  rw [← named] at written unsent
  cases fails : x.fail with
  | true =>
    obtain ⟨inv', rely'⟩ := writer_failed (i := i) inv (.xaddDispatch request) fails
    refine ⟨inv', fun j _ => rely' j, fun v reply => ?_, fun _ _ => trivial⟩
    cases (World.exec_redis_eq_ok reply).1.symm.trans fails
  | false =>
    simp only [SearchSetup.once, System.restrict, SearchSetup.system, Snapshot.after,
      World.exec_redis_ok fails, Redis.exec]
    refine ⟨(inv.dispatch written unsent).of_kept (.of_eq rfl rfl), fun j other => ?_,
      fun _ _ => ⟨ready.owner.cons, fun c mem => ⟨(ready.fresh c mem).1, fun sent => ?_⟩⟩,
      fun _ _ => trivial⟩
    · refine ⟨fun _ there => there, List.suffix_cons _ _, fun _ _ _ mem => mem,
        fun q owner c mem => ?_⟩
      obtain same | mem := List.mem_cons.mp mem
      · obtain ⟨h', found'⟩ := Option.isSome_iff_exists.mp (inv.nodes q owner.mem_expansions)
        obtain ⟨-, same⟩ := (tree.isNode found').childId_inj collisionFree isNode
          (same.trans named)
        exact absurd same (ne_of_owner once ready.owner owner other)
      · exact mem
    · obtain same | sent := List.mem_cons.mp sent
      · obtain ⟨rfl, -⟩ := isNode.childId_inj collisionFree isNode (same.trans named)
        exact others mem
      · exact (ready.fresh c mem).2 sent

/-- One candidate: its child was written by nobody before, and is crossed off the list. -/
theorem dispatchCandidate_writer (collisionFree : setup.sha256.CollisionFree) (self : ForestWorker)
    {p candidate : String} {rest : List String} (node root : NodeHash) (targetLines : List Int)
    {s : Snap ι} (distinct : (candidate :: rest).Nodup)
    (ready : Ready setup i p (candidate :: rest) s) :
    Safe setup.once (writerDiscipline setup) i (fun _ t => Ready setup i p rest t)
      (fun _ _ => True)
      (self.dispatchCandidate setup.sha256 setup.taskId p node root targetLines candidate) s := by
  refine Safe.ofExcept_bind (fun child made => ?_) fun _ _ => trivial
  refine Safe.bind (addChild_writer collisionFree distinct ready) fun _ t state => ?_
  obtain ⟨ready, written, unsent⟩ := state
  have state : Written setup i p candidate rest t := ⟨ready, written, unsent⟩
  refine Safe.quiet_bind (writer_quiet trivial) (fun hex u rely => ?_) fun _ _ _ => trivial
  have state := state.rely rely
  refine Safe.quiet_bind (writer_quiet trivial) (fun _ u rely => ?_) fun _ _ _ => trivial
  have state := state.rely rely
  refine Safe.uses_bind (fun _ passive => writer_quiet (.of_passive passive))
    (Daemon.updateTaskStatus_passive _ _) (fun _ u rely => ?_) fun _ _ _ => trivial
  have state := state.rely rely
  refine Safe.ofExcept_bind (fun core _ => ?_) fun _ _ => trivial
  refine Safe.quiet_bind (writer_quiet trivial) (fun createdAt u rely => ?_) fun _ _ _ => trivial
  have state := state.rely rely
  refine Safe.quiet_bind (writer_quiet trivial) (fun _ u rely => ?_) fun _ _ _ => trivial
  have state := state.rely rely
  refine Safe.uses_bind (fun _ passive => writer_quiet (.of_passive passive))
    (Daemon.updateCandidateStatus_passive _ _) (fun _ u rely => ?_) fun _ _ _ => trivial
  exact xaddDispatch_writer collisionFree rfl (List.nodup_cons.mp distinct).1 (state.rely rely)

/-- The loop writes each candidate once: they are distinct, and none was written before. -/
theorem dispatchCandidates_writer (collisionFree : setup.sha256.CollisionFree)
    (self : ForestWorker) {p : String} (code : String) (node root : NodeHash) (plan : TaskPlan)
    (targetLines : List Int) {candidates : List String} (generated : Nat) {s : Snap ι}
    (distinct : candidates.Nodup) (ready : Ready setup i p candidates s) :
    Safe setup.once (writerDiscipline setup) i (fun _ _ => True) (fun _ _ => True)
      (self.dispatchCandidates setup.sha256 setup.taskId p code node root plan targetLines
        candidates generated) s := by
  refine Safe.mono (fun _ _ _ => trivial) (fun _ _ h => h) (self.safe_dispatchCandidates
    (I := fun left (t : Snap ι) => left.Nodup ∧ Ready setup i p left t)
    (fun candidate rest t here => ?_) (fun candidate rest t here => ?_)
    (fun candidate rest t here => ?_) generated ⟨distinct, ready⟩)
  · exact ⟨(List.nodup_cons.mp here.1).2,
      here.2.subset fun c mem => List.mem_cons_of_mem candidate mem⟩
  · have uses := (ForestWorker.reserveCandidateBudget_reserves setup.taskId plan).mono
      fun _ c => c.writerQuiet
    exact (rely_of_uses uses t).mono (fun _ _ rely => ⟨here.1, here.2.rely rely⟩) fun _ _ h => h
  · exact (dispatchCandidate_writer collisionFree self node root targetLines here.1 here.2).mono
      (fun _ _ ready => ⟨(List.nodup_cons.mp here.1).2, ready⟩) fun _ _ h => h

/-- Generating has distinct candidates, as the patcher promises. -/
theorem generate_writer (collisionFree : setup.sha256.CollisionFree) (self : ForestWorker)
    {p : String} (node root : NodeHash) (plan : TaskPlan) (expansionPlan : ExpansionPlan)
    {s : Snap ι} (there : (s.world.redis.hashes p).isSome) :
    Safe setup.once (writerDiscipline setup) i (fun _ _ => True) (fun _ _ => True)
      (self.generate setup.sha256 setup.taskId p node root plan expansionPlan) s := by
  refine Safe.call_bind fun t rely known inv x may known' => ?_
  have there := rely.there p there
  have first : p ∉ expansions t.history := (List.nodup_cons.mp known'.2).1
  refine ⟨inv.expanding there, fun j other => ?_, fun _ _ => ?_, fun _ _ => trivial⟩
  · exact ⟨fun _ there => there, List.suffix_cons _ _, fun _ _ _ mem => mem, fun _ _ _ mem => mem⟩
  have ready := ready_of_expanding (i := i) collisionFree known.1 inv there first
  refine Safe.ofExcept_bind (fun code _ => ?_) fun _ _ => trivial
  refine Safe.ofExcept_bind (fun found made => ?_) fun _ _ => trivial
  refine Safe.bind (dispatchCandidates_writer collisionFree self code node root plan _ 0
    (ForestWorker.candidates_nodup made) (ready found)) fun generated u _ => ?_
  refine Safe.mono (fun _ _ _ => trivial) (fun _ _ h => h) (rely_of_uses ?_ u)
  exact (ForestWorker.close_closes setup.taskId p generated).mono fun _ c => c.writerQuiet

/-- An expansion of a node that is there, -/
theorem expandNode_writer (collisionFree : setup.sha256.CollisionFree) (self : ForestWorker)
    {p : String} (node : NodeHash) {s : Snap ι} (there : (s.world.redis.hashes p).isSome) :
    Safe setup.once (writerDiscipline setup) i (fun _ _ => True) (fun _ _ => True)
      (self.expandNode setup.sha256 setup.taskId p node) s := by
  refine Safe.quiet_bind (writer_quiet trivial) (fun rootData t relyT => ?_) fun _ _ _ => trivial
  have there := relyT.there p there
  dsimp only
  split
  · refine Safe.mono (fun _ _ _ => trivial) (fun _ _ h => h) (rely_of_uses ?_ t)
    exact Prog.uses_call trivial
  refine Safe.quiet_bind (writer_quiet trivial) (fun counter u relyU => ?_) fun _ _ _ => trivial
  have there := relyU.there p there
  split
  · refine Safe.mono (fun _ _ _ => trivial) (fun _ _ h => h) (rely_of_uses ?_ u)
    exact (ForestWorker.spent_leaves setup.taskId p).mono fun _ leaves => leaves.writerQuiet
  · exact generate_writer collisionFree self node _ _ _ there

/-- and a call of `expand`, which may find none. -/
theorem expand_writer (collisionFree : setup.sha256.CollisionFree) (self : ForestWorker)
    (nodeId : String) (s : Snap ι) :
    Safe setup.once (writerDiscipline setup) i (fun _ _ => True) (fun _ _ => True)
      (self.expand setup.sha256 setup.taskId nodeId) s := by
  refine Safe.read_bind (writer_quiet trivial) (fun t x found _ _ _ reply own => ?_)
    fun _ _ _ => trivial
  obtain ⟨-, rfl⟩ := World.exec_redis_eq_ok reply
  simp only [Redis.exec]
  cases foundNode : t.world.redis.hashes nodeId with
  | none => trivial
  | some node =>
    dsimp only
    split
    · exact expandNode_writer collisionFree self node (own.there _ (by rw [foundNode]; rfl))
    · trivial

/-- A visit to a task starts and ends with nothing at hand. -/
theorem visitTask_writer (collisionFree : setup.sha256.CollisionFree) (self : ForestWorker)
    (fuel : Nat) (s : Snap ι) :
    Safe setup.once (writerDiscipline setup) i (fun _ _ => True) (fun _ _ => True)
      (self.visitTask setup.sha256 setup.ucb fuel setup.taskId) s :=
  self.safe_visitTask (fun _ _ _ _ => trivial) setup.ucb
    (fun _ passive => writer_quiet (.of_passive passive)) (fun _ => writer_quiet trivial)
    (fun _ => writer_quiet trivial) (fun _ => writer_quiet trivial)
    (fun nodeId t _ => expand_writer collisionFree self nodeId t) fuel trivial

/-! ## The run -/

/-- Nobody has written a child yet. -/
theorem writer_seeded (task : SeedTask) :
    WriterInv (ι := ι) task.seededWorld.redis [] := by
  refine ⟨fun _ mem => absurd mem List.not_mem_nil, fun p c mem => ?_,
    fun _ mem => absurd mem List.not_mem_nil, List.nodup_nil,
    fun _ mem => absurd mem List.not_mem_nil, List.nodup_nil⟩
  rw [SeedTask.seededWorld_sets, Function.update_of_ne (nodeChildrenKey_ne_treeIndex p)] at mem
  cases mem

theorem SetsKept.around {w w' : World} (around : SearchSetup.Around w w') :
    SetsKept w.redis w'.redis :=
  ⟨fun _ there => (SameTree.around around).toGrows.isSome there, (SameTree.around around).sets_eq⟩

variable [DecidableEq ι]

/-- The search without repeated expansions obeys the writer discipline. -/
theorem writer_obeys (setup : SearchSetup ι S) (collisionFree : setup.sha256.CollisionFree) :
    setup.once.Obeys (writerDiscipline setup) where
  known := fun s reached => by
    obtain ⟨general, once⟩ := System.Reachable.of_restrict reached
    exact ⟨general.inv (tree_obeys setup collisionFree), once⟩
  init := fun w start => by
    obtain ⟨rfl, -⟩ := start
    exact ⟨writer_seeded setup.task, fun _ => trivial⟩
  compatible := fun i j s t other _ _ _ _ guar => guar j (Ne.symm other)
  env := fun s w _ _ inv acts => by
    have kept := SetsKept.around acts.1
    refine ⟨WriterInv.of_kept inv kept, fun i => ⟨kept.there, List.suffix_rfl, fun p _ c mem => ?_,
      fun _ _ _ mem => mem⟩⟩
    rw [kept.sets] at mem
    exact mem
  idle := fun _ _ _ _ _ _ => trivial
  calls := fun i p s called _ _ => by
    cases called with
    | expand nodeId => exact expand_writer collisionFree _ nodeId s
    | visit fuel => exact visitTask_writer collisionFree _ fuel s
    | remember fuel =>
      exact (rely_of_uses ((GlobalMemory.remember_ofMemory fuel).mono fun _ => .of_memory) s).mono
        (fun _ _ _ => trivial) fun _ _ h => h

/-- A run in which no node is expanded twice is a run of the restricted search. -/
theorem once_reachable {s : State ι Cmd Cmd.Reply PyError World}
    (reached : setup.system.Reachable s) (once : (expansions s.history).Nodup) :
    setup.once.Reachable s := by
  refine reached.restrict (fun moved later => ?_) once
  cases moved with
  | call i p rests called => exact later
  | cmd i x c k issues may =>
    exact (List.nodup_append.mp (show (expandsIn _ ++ expansions _).Nodup from later)).2.1
  | env w acts => exact later

end Writer

end KernelOmega
