import KernelOmega.Plant.Desks
import KernelOmega.Plant.Small

/-!
# A plant under siege

The daemons as before, with a results stream to which anyone may add: packs in any number and
order, copies of packs that were there before, and entries that no reader can parse.
-/

namespace KernelOmega

open Concurrent

/-- An entry on the results stream. -/
def World.addResult (w : World) (pack : Except PyError VerificationPack) : World :=
  { w with
    redis := { w.redis with
      results := w.redis.results ++ [{ id := w.redis.results.length, pack := pack }] } }

/-- What happens to the stores without the daemons. -/
inductive Siege : World → World → Prop
  | weather {w w' : World} : Weather w w' → Siege w w'
  | result (w : World) (pack : Except PyError VerificationPack) : Siege w (w.addResult pack)

section Systems

variable {ι S : Type} [LinearOrder S] (plant : Plant ι S)

/-- The daemons in any interleaving over a results stream open to all. -/
def Plant.besiegedOf (may : Snapshot ι Cmd Cmd.Reply PyError World → ι → Choice → Cmd → Prop) :
    System ι Cmd Cmd.Reply PyError Choice World :=
  { plant.systemOf may with env := fun s w => Siege s.world w }

abbrev Plant.besieged : System ι Cmd Cmd.Reply PyError Choice World :=
  plant.besiegedOf fun _ _ _ _ => True

/-- The threads follow their protocols all the same. -/
theorem Plant.besieged_desks
    (may : Snapshot ι Cmd Cmd.Reply PyError World → ι → Choice → Cmd → Prop) :
    (plant.besiegedOf may).Follows deskProtocol (fun i => (plant.roles i).desk)
      fun i => (plant.roles i).Idles :=
  ⟨(plant.desks may).start, (plant.desks may).calls⟩

theorem Plant.besieged_desk_allows [DecidableEq ι] {plant : Plant ι S}
    {may : Snapshot ι Cmd Cmd.Reply PyError World → ι → Choice → Cmd → Prop}
    {s : State ι Cmd Cmd.Reply PyError World} (reached : (plant.besiegedOf may).Reachable s) {i : ι}
    {c : Cmd} {k : Except PyError c.Reply → Daemon Unit} (issues : s.threads i = .cmd c k) :
    (plant.deskOf i s.history).Allows c :=
  reached.allows (plant.besieged_desks may) issues

end Systems

/-! ## Runs of the small plant -/

namespace SmallPlant

/-- The last result comes again. -/
def replay (w : World) : World :=
  w.addResult ((w.redis.results.getLast?.map (·.pack)).getD (.error .connectionError))

section Runs

variable {may : Snapshot (Fin 7) Cmd Cmd.Reply PyError World → Fin 7 → Choice → Cmd → Prop}

/-- A run of the plant is one under siege. -/
theorem besieged_permitsAll {s : State (Fin 7) Cmd Cmd.Reply PyError World} {beats : List Beat}
    (permitted : (plant.systemOf may).PermitsAll s (beats.map Beat.move)) :
    (plant.besiegedOf may).PermitsAll s (beats.map Beat.move) := by
  induction beats generalizing s with
  | nil => trivial
  | cons beat rest ih =>
    obtain ⟨i, start | x⟩ := beat
    · exact ⟨permitted.1, ih permitted.2⟩
    · exact ⟨permitted.1, ih permitted.2⟩

/-- Permitted beats from a reachable state. -/
theorem reachable_schedule {s : State (Fin 7) Cmd Cmd.Reply PyError World}
    (reached : (plant.besiegedOf may).Reachable s) {beats : List Beat}
    (permitted : (plant.systemOf may).PermitsAll s (beats.map Beat.move)) :
    (plant.besiegedOf may).Reachable (plant.system.schedule s (beats.map Beat.move)) :=
  reached.later (besieged_permitsAll permitted).later

theorem besieged_after {beats : List Beat}
    (permitted : (plant.systemOf may).PermitsAll still (beats.map Beat.move)) :
    (plant.besiegedOf may).Reachable (after beats) := by
  have start : (plant.besiegedOf may).Reachable still := .init _ rfl
  exact reachable_schedule start permitted

/-- The last result comes again in a reachable state. -/
theorem reachable_replay {s : State (Fin 7) Cmd Cmd.Reply PyError World}
    (reached : (plant.besiegedOf may).Reachable s) :
    (plant.besiegedOf may).Reachable { s with world := replay s.world } :=
  reached.step (.env _ (.result _ _))

end Runs

end SmallPlant

end KernelOmega
