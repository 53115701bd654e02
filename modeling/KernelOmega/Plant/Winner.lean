import KernelOmega.Plant.Reserved
import KernelOmega.Plant.Siege

/-!
# One winner per tree

The capsule that has a tree's accepted key is the only one a merger applies. The key is taken
for good, except that a merger whose patch has failed gives it up, and it does so without
asking whether a candidate of the tree was applied before: an entry of the same capsule that
comes again, or a record that fails after the patch, frees a tree that has its winner.
-/

namespace KernelOmega

open Concurrent

/-- The payload whose tree a command gives up. -/
def Desk.releases : Desk → Cmd → Option AcceptedPayload
  | .merger (.releasing message _ _), .redis (.delete _) => some message.payload
  | _, _ => none

/-- No merger gives up a tree of which a candidate was applied. -/
def KeepsWinners {ι S : Type} [DecidableEq ι] (plant : Plant ι S)
    (s : Snapshot ι Cmd Cmd.Reply PyError World) (i : ι) (c : Cmd) : Prop :=
  ∀ payload ∈ (plant.deskOf i s.history).releases c, ¬ s.world.Repaired payload.treeId

instance {ι S : Type} [DecidableEq ι] (plant : Plant ι S)
    (s : Snapshot ι Cmd Cmd.Reply PyError World) (i : ι) (c : Cmd) :
    Decidable (KeepsWinners plant s i c) :=
  inferInstanceAs (Decidable (∀ payload ∈ _, _))

/-- The capsule has its tree. -/
def World.Holds (w : World) (payload : AcceptedPayload) : Prop :=
  ∃ entry, w.redis.strings (treeAcceptedKey payload.treeId) = some entry ∧
    entry.value = payload.capsuleId

/-- What is known of the trees with one merger. -/
structure Winners {ι S : Type} [DecidableEq ι] (plant : Plant ι S)
    (s : Snapshot ι Cmd Cmd.Reply PyError World) : Prop where
  lasting : ∀ taskId entry, s.world.redis.strings (treeAcceptedKey taskId) = some entry →
    entry.deadline = none
  /-- Whoever was applied has its tree still, -/
  applied : ∀ payload ∈ s.world.patched, s.world.Holds payload
  /-- and so does whoever is about to be. -/
  claimed : ∀ i message left done, plant.deskOf i s.history = .merger (.claimed message left done) →
    s.world.Holds message.payload

section Step

variable {ι S : Type} [DecidableEq ι] {plant : Plant ι S} {i : ι} {x : Choice} {c : Cmd}
  {s : Snapshot ι Cmd Cmd.Reply PyError World}

/-- A capsule keeps its tree through a step that gives up none of its. -/
theorem World.Holds.step {payload : AcceptedPayload} (holds : s.world.Holds payload)
    (allowed : (plant.deskOf i s.history).Allows c)
    (keeps : ∀ message left done, plant.deskOf i s.history = .merger (.releasing message left done) →
      message.payload.treeId = payload.treeId →
        c ≠ .redis (.delete (treeAcceptedKey payload.treeId))) :
    (World.exec x c s.world).2.Holds payload := by
  obtain ⟨entry, here, same⟩ := holds
  rcases Desk.reserved_cases allowed x s.world payload.treeId with
    still | ⟨free, -⟩ | ⟨-, gives, message, left, done, releasing, tree⟩
  · exact ⟨entry, still.trans here, same⟩
  · rw [free] at here
    cases here
  · exact absurd gives (keeps message left done releasing tree)

/-- A merger comes to claim a tree that its capsule has. -/
theorem Claiming.claimed_next {q : Claiming} (allowed : q.Allows c) {w : World}
    {message : AcceptedMessage} {left done : List AcceptedMessage}
    (next : q.next c (World.exec x c w).1 = .claimed message left done) :
    (World.exec x c w).2.Holds message.payload := by
  have named : ∀ winner (m : AcceptedMessage) l d,
      Claiming.claim winner m l d = .claimed message left done →
        winner = some m.payload.capsuleId ∧ m = message := by
    intro winner m l d claims
    unfold Claiming.claim at claims
    split at claims
    · next same =>
      injection claims with same' _ _
      exact ⟨same, same'⟩
    · cases claims
  cases reply : (World.exec x c w).1 with
  | error e =>
    rw [reply] at next
    have failed : q.fail = .claimed message left done := next
    cases q <;> cases failed
  | ok v =>
    rw [reply] at next
    have advanced : q.advance c v = .claimed message left done := next
    cases c with
    | redis c =>
      obtain ⟨ok, rfl⟩ := World.exec_redis_eq_ok reply
      have ran := World.exec_redis_ok ok c w
      cases c with
      | get key =>
        have held : ∀ m : AcceptedMessage, (w.redis.strings (treeAcceptedKey m.payload.treeId)).map
            (·.value) = some m.payload.capsuleId → w.Holds m.payload := by
          intro m winner
          obtain ⟨entry, here, same⟩ := Option.map_eq_some_iff.mp winner
          exact ⟨entry, here, same⟩
        rw [ran]
        rcases allowed with ⟨m, l, d, rfl, rfl⟩ | ⟨m, l, d, rfl, rfl⟩
        · simp only [Claiming.advance] at advanced
          split at advanced
          · obtain ⟨winner, rfl⟩ := named _ _ _ _ advanced
            exact held m winner
          · cases advanced
        · obtain ⟨winner, rfl⟩ := named _ _ _ _ advanced
          exact held m winner
      | set key value nx ex =>
        obtain ⟨rfl, rfl, m, l, d, rfl, rfl, rfl⟩ := allowed
        simp only [Claiming.advance] at advanced
        split at advanced
        · next stored =>
          injection advanced with same _ _
          subst same
          rw [ran]
          simp only [Redis.exec] at stored ⊢
          split at stored
          · cases stored
          · next free => exact ⟨_, by rw [if_neg free]; exact Function.update_self .., rfl⟩
        · cases advanced
      | xreadgroupAccepted group count => cases advanced
      | pipeline ops => cases advanced
      | delete key =>
        obtain ⟨m, l, d, rfl, -⟩ := allowed
        cases advanced
      | _ => exact allowed.elim
    | applyPatch payload =>
      obtain ⟨m, l, d, rfl, -⟩ := allowed
      cases advanced
    | pg c =>
      have records : q.Records := by cases c <;> first | exact allowed | exact allowed.elim
      cases q with
      | applied m l d => cases c <;> cases advanced
      | releasing m l d => cases c <;> cases advanced
      | _ => exact records.elim
    | _ => exact allowed.elim

/-- A payload is applied by a merger that has claimed its tree. -/
theorem Desk.patched_step (allowed : (plant.deskOf i s.history).Allows c) {payload : AcceptedPayload}
    (mem : payload ∈ (World.exec x c s.world).2.patched) :
    payload ∈ s.world.patched ∨ c = .applyPatch payload ∧
      ∃ message left done, plant.deskOf i s.history = .merger (.claimed message left done) ∧
        payload = message.payload := by
  rw [World.exec_patched] at mem
  rcases List.mem_append.mp mem with before | new
  · exact .inl before
  · have applies : c = .applyPatch payload := by
      cases c with
      | applyPatch applied =>
        cases reply : (World.exec x (.applyPatch applied) s.world).1 with
        | error e =>
          rw [reply] at new
          cases new
        | ok v =>
          rw [reply] at new
          rw [List.mem_singleton.mp new]
      | _ => cases new
    subst applies
    right
    cases here : plant.deskOf i s.history with
    | merger q =>
      rw [here] at allowed
      obtain ⟨message, left, done, rfl, same⟩ := allowed
      exact ⟨rfl, message, left, done, rfl, same⟩
    | _ =>
      rw [here] at allowed
      exact allowed.elim

end Step

/-- A merger's desk is a merger's. -/
theorem Plant.isMerger_of_deskOf {ι S : Type} [DecidableEq ι] (plant : Plant ι S) {i : ι}
    {history : List (Event ι Cmd Cmd.Reply PyError)} {q : Claiming}
    (here : plant.deskOf i history = .merger q) : (plant.roles i).isMerger = true := by
  induction history generalizing q with
  | nil =>
    have start : (plant.roles i).desk = .merger q := here
    cases role : plant.roles i with
    | merger => rfl
    | _ =>
      rw [role] at start
      cases start
  | cons e earlier ih =>
    obtain ⟨j, c, reply⟩ := e
    by_cases same : j = i
    · subst same
      rw [plant.deskOf_own] at here
      cases before : plant.deskOf j earlier with
      | merger q' => exact ih before
      | _ =>
        rw [before] at here
        cases here
    · rw [plant.deskOf_other same] at here
      exact ih here

/-- There is one merger. -/
def Plant.SingleMerger {ι S : Type} (plant : Plant ι S) : Prop :=
  ∀ i j, (plant.roles i).isMerger = true → (plant.roles j).isMerger = true → i = j

section Invariant

variable {ι S : Type} [DecidableEq ι] {plant : Plant ι S} {i : ι} {x : Choice} {c : Cmd} {s : Snapshot ι Cmd Cmd.Reply PyError World}

/-- A tree that is not given up in this step keeps its capsule. -/
theorem World.Holds.after {payload : AcceptedPayload} (holds : s.world.Holds payload)
    (allowed : (plant.deskOf i s.history).Allows c) (keeps : KeepsWinners plant s i c)
    (repaired : s.world.Repaired payload.treeId) :
    (World.exec x c s.world).2.Holds payload := by
  refine holds.step allowed ?_
  rintro message left done releasing tree rfl
  refine keeps message.payload ?_ (tree ▸ repaired)
  rw [releasing]
  rfl

/-- One step. With a single merger nobody else gives up a tree, and it gives up none of which a
candidate was applied. -/
theorem Winners.step (single : plant.SingleMerger) (kept : Winners plant s)
    (allowed : (plant.deskOf i s.history).Allows c) (keeps : KeepsWinners plant s i c) :
    Winners plant (s.after World.exec i x c) where
  lasting := by
    intro taskId entry here
    rcases Desk.reserved_cases allowed x s.world taskId with
      same | ⟨-, value, stored, -⟩ | ⟨gone, -⟩
    · exact kept.lasting taskId entry (same.symm.trans here)
    · obtain rfl := Option.some.inj (stored.symm.trans here)
      rfl
    · cases gone.symm.trans here
  applied := by
    intro payload mem
    rcases Desk.patched_step allowed mem with before | ⟨rfl, message, left, done, claimed, rfl⟩
    · exact (kept.applied payload before).after allowed keeps ⟨payload, before, rfl⟩
    · refine (kept.claimed i message left done claimed).step allowed ?_
      intro _ _ _ _ _ other
      cases other
  claimed := by
    intro j message left done claimed
    by_cases same : i = j
    · subst same
      rw [Snapshot.after_history, plant.deskOf_own] at claimed
      cases here : plant.deskOf i s.history with
      | merger q =>
        rw [here] at claimed allowed
        exact Claiming.claimed_next allowed (Desk.merger.inj claimed)
      | _ =>
        rw [here] at claimed
        cases claimed
    · rw [Snapshot.after_history, plant.deskOf_other same] at claimed
      refine (kept.claimed j message left done claimed).step allowed ?_
      intro _ _ _ releasing
      exact absurd (single i j (plant.isMerger_of_deskOf releasing)
        (plant.isMerger_of_deskOf claimed)) same

/-- A reservation has no deadline, and whoever adds results leaves it. -/
theorem Winners.siege (kept : Winners plant s) {w : World} (around : Siege s.world w) :
    Winners plant ⟨w, s.history⟩ := by
  have strings : ∀ taskId, w.redis.strings (treeAcceptedKey taskId) =
      s.world.redis.strings (treeAcceptedKey taskId) := by
    intro taskId
    cases around with
    | weather around =>
      cases around with
      | tick n => rfl
      | expire key entry deadline here expires late =>
        refine Function.update_of_ne ?_ _ _
        rintro rfl
        rw [kept.lasting taskId entry here] at expires
        cases expires
    | result pack => rfl
  have patched : w.patched = s.world.patched := by
    cases around with
    | weather around => cases around <;> rfl
    | result pack => rfl
  have holds : ∀ payload, s.world.Holds payload → w.Holds payload := by
    rintro payload ⟨entry, here, same⟩
    exact ⟨entry, (strings payload.treeId).trans here, same⟩
  constructor
  case lasting => exact fun taskId entry here => kept.lasting taskId entry (strings taskId ▸ here)
  case applied => exact fun payload mem => holds payload (kept.applied payload (patched ▸ mem))
  case claimed =>
    exact fun j message left done claimed => holds _ (kept.claimed j message left done claimed)

end Invariant

section Law

variable {ι S : Type} [DecidableEq ι] [LinearOrder S] (plant : Plant ι S)

/-- The runs under siege in which no merger gives up a tree that has its winner. -/
abbrev Plant.winning : System ι Cmd Cmd.Reply PyError Choice World :=
  plant.besiegedOf fun s i _ c => KeepsWinners plant s i c

variable {plant} {s : State ι Cmd Cmd.Reply PyError World}

/-- Every reachable state, by induction over the run. -/
theorem Plant.winners (single : plant.SingleMerger) (reached : plant.winning.Reachable s) :
    Winners plant s.toSnapshot := by
  refine System.Reachable.invariant (I := Winners plant) ?_ ?_ ?_ reached
  · rintro w rfl
    have pristine := pristine_seedAll plant.tasks
    constructor
    case lasting =>
      intro taskId entry here
      rw [pristine.strings] at here
      cases here
    case applied =>
      intro payload mem
      rw [pristine.patched] at mem
      cases mem
    case claimed =>
      intro i message left done claimed
      have start : (plant.roles i).desk = .merger (.claimed message left done) := claimed
      cases role : plant.roles i <;> (rw [role] at start; cases start)
  · intro s i x c k reached kept issues keeps
    exact kept.step single (plant.besieged_desk_allows reached issues) keeps
  · intro s w _ kept around
    exact kept.siege around

/-- Of a tree one capsule is applied at most, when the merger gives up no tree that has its
winner. -/
theorem one_winner (single : plant.SingleMerger) (reached : plant.winning.Reachable s)
    {payload payload' : AcceptedPayload} (applied : payload ∈ s.world.patched)
    (applied' : payload' ∈ s.world.patched) (tree : payload.treeId = payload'.treeId) :
    payload.capsuleId = payload'.capsuleId := by
  have kept := Plant.winners single reached
  obtain ⟨entry, here, same⟩ := kept.applied payload applied
  obtain ⟨entry', here', same'⟩ := kept.applied payload' applied'
  rw [tree, here'] at here
  obtain rfl := Option.some.inj here
  exact same.symm.trans same'

end Law

/-! ## A winner that comes again -/

namespace SmallPlant

/-- Both candidates are dispatched, and the tests of the first one pass. -/
def races : List Beat :=
  starts 0 22 { fresh := "0" } ++ goesOn 0 20 { fresh := "1" } ++ starts 2 20 ++ starts 3 5 passing

/-- The result of the first candidate comes twice. -/
def repeated : State (Fin 7) Cmd Cmd.Reply PyError World :=
  { after races with world := replay (after races).world }

/-- The gate lets both entries through, and the merger applies both. -/
def mergesTwice : List Beat := starts 5 17 ++ starts 6 16

/-- The second patch fails and gives the tree up, and the second candidate is merged. -/
def mergesOther : List Beat :=
  starts 5 17 ++ starts 6 9 ++ goesOn 6 1 { fail := true } ++ goesOn 6 5 ++
    starts 3 5 passing ++ starts 5 9 ++ starts 6 9

section Runs

variable {may : Snapshot (Fin 7) Cmd Cmd.Reply PyError World → Fin 7 → Choice → Cmd → Prop}

theorem reachable_repeated (permitted : (plant.systemOf may).PermitsAll still (races.map Beat.move)) :
    (plant.besiegedOf may).Reachable repeated :=
  reachable_replay (besieged_after permitted)

/-- Where the beats lead from the repeated result. -/
def afterRepeated (beats : List Beat) : State (Fin 7) Cmd Cmd.Reply PyError World :=
  plant.system.schedule repeated (beats.map Beat.move)

theorem reachable_afterRepeated
    (permitted : (plant.systemOf may).PermitsAll still (races.map Beat.move)) {beats : List Beat}
    (permitted' : (plant.systemOf may).PermitsAll repeated (beats.map Beat.move)) :
    (plant.besiegedOf may).Reachable (afterRepeated beats) :=
  reachable_schedule (reachable_repeated permitted) permitted'

end Runs

theorem singleMerger : plant.SingleMerger := by
  have only : ∀ i : Fin 7, (plant.roles i).isMerger = true → i = 6 := by decide
  intro i j merges merges'
  rw [only i merges, only j merges']

end SmallPlant

set_option maxRecDepth 20000 in
open SmallPlant in
/-- The merger applies the first candidate, and the same candidate a second time when its entry is
on the stream again. -/
theorem one_winner_mergesTwice :
    (afterRepeated mergesTwice).world.patched.map (·.capsuleId) =
        [SmallSearch.idA, SmallSearch.idA] ∧
      ∀ payload ∈ (afterRepeated mergesTwice).world.patched,
        ∀ payload' ∈ (afterRepeated mergesTwice).world.patched,
          payload.treeId = payload'.treeId → payload.capsuleId = payload'.capsuleId := by
  have run : (plant.systemOf fun s i _ c => KeepsWinners plant s i c).PermitsAll still
        (races.map Beat.move) ∧
      (plant.systemOf fun s i _ c => KeepsWinners plant s i c).PermitsAll repeated
        (mergesTwice.map Beat.move) ∧
      (afterRepeated mergesTwice).world.patched.map (·.capsuleId) =
        [SmallSearch.idA, SmallSearch.idA] := by
    decide
  obtain ⟨permitted, permitted', patched⟩ := run
  refine ⟨patched, fun payload applied payload' applied' tree => ?_⟩
  exact one_winner singleMerger (reachable_afterRepeated permitted permitted') applied applied' tree

set_option maxRecDepth 20000 in
open SmallPlant in
/-- Two candidates of one tree are applied. -/
theorem not_one_winner :
    ¬ ∀ s, plant.besieged.Reachable s → plant.SingleMerger → ∀ payload ∈ s.world.patched,
      ∀ payload' ∈ s.world.patched, payload.treeId = payload'.treeId →
        payload.capsuleId = payload'.capsuleId := by
  intro winner
  have run : plant.system.PermitsAll still (races.map Beat.move) ∧
      plant.system.PermitsAll repeated (mergesOther.map Beat.move) ∧
      ∃ payload ∈ (afterRepeated mergesOther).world.patched,
        ∃ payload' ∈ (afterRepeated mergesOther).world.patched,
          payload.treeId = payload'.treeId ∧ payload.capsuleId ≠ payload'.capsuleId := by
    decide
  obtain ⟨permitted, permitted', payload, applied, payload', applied', tree, other⟩ := run
  exact other (winner _ (reachable_afterRepeated permitted permitted') singleMerger payload applied
    payload' applied' tree)

end KernelOmega
