import KernelOmega.Plant.System
import KernelOmega.Search.System
import Mathlib

/-!
# A small plant

The small search with one daemon of each kind and a second worker, for concrete runs. Both
candidates of the root go to the executor on core 1. A run is written as a list of beats: a
thread starts its turn, or issues its next command under a choice.
-/

namespace KernelOmega

open Concurrent

namespace SmallPlant

open SmallSearch (sha256 task worker meanReward)

/-- An executor with one signature for all packs. -/
def executor : Executor where
  nodeId := "sim_exec_1"
  hardwareIsolated := true
  sha256 := sha256
  sign := fun _ => "signed"

/-- A gate that knows this signature and permits every code. -/
def gate : PolicyGate where
  requireHardwareIsolation := true
  sha256 := sha256
  verifyPack := fun pack => .ok (decide (pack.attestation = some "signed"))
  enforceSemanticPolicy := fun _ => .ok true

/-- There is a first of the seven daemons. -/
scoped instance seven : NeZero 7 := ⟨by decide⟩

/-- Two workers, so that their steps can interleave, and one daemon of each other kind. -/
def roles : Fin 7 → Role
  | 0 => .worker (worker "worker_00000001") none
  | 1 => .worker (worker "worker_00000002") none
  | 2 => .dispatcher { sha256 := sha256 }
  | 3 => .executor executor 1
  | 4 => .memory
  | 5 => .gate gate
  | 6 => .merger

def plant : Plant (Fin 7) Rat where
  sha256 := sha256
  ucb := meanReward
  tasks := [task]
  roles := roles

/-- A turn of each thread. -/
def turn : Fin 7 → Daemon Unit
  | 0 => (worker "worker_00000001").turn sha256 meanReward none 3
  | 1 => (worker "worker_00000002").turn sha256 meanReward none 3
  | 2 => ({ sha256 := sha256 } : Dispatcher).turn
  | 3 => executor.handle 1
  | 4 => GlobalMemory.remember 4
  | 5 => gate.gate
  | 6 => Merger.merge.tryCatch fun _ => return ()

/-- The turns are calls of the plant. -/
theorem turn_called : (i : Fin 7) → plant.Call (plant.roles i) (turn i)
  | 0 => .work (worker "worker_00000001") none 3
  | 1 => .work (worker "worker_00000002") none 3
  | 2 => .dispatch _
  | 3 => .handle executor 1
  | 4 => .remember 4
  | 5 => .gate gate
  | 6 => .merge

/-- A thread starts its turn, or issues its next command. -/
abbrev Beat := Fin 7 × Option Choice

/-- A beat starts a turn of its thread or lets it take a step. -/
def Beat.move (beat : Beat) : System.Move (Fin 7) Cmd Cmd.Reply PyError Choice World :=
  match beat.2 with
  | none => .call beat.1 (turn beat.1)
  | some x => .cmd beat.1 x

/-- A thread starts its turn and issues so many commands of it. -/
def starts (i : Fin 7) (commands : Nat) (x : Choice := {}) : List Beat :=
  (i, none) :: List.replicate commands (i, some x)

/-- A thread goes on. -/
def goesOn (i : Fin 7) (commands : Nat) (x : Choice := {}) : List Beat :=
  List.replicate commands (i, some x)

/-- The tests of the candidate pass. -/
def passing : Choice where
  outcome := { success := true, testsPassed := 5, testsFailed := 0 }

/-- The plant with atomic updates. -/
abbrev atomic : System (Fin 7) Cmd Cmd.Reply PyError Choice World :=
  plant.systemOf fun s i _ c => Unraced s i c

/-- The daemons at rest over the seeded task. -/
def still : State (Fin 7) Cmd Cmd.Reply PyError World where
  world := seedAll [task]
  history := []
  threads := fun _ => .ret ()

section Runs

variable {may : Snapshot (Fin 7) Cmd Cmd.Reply PyError World → Fin 7 → Choice → Cmd → Prop}

/-- Where the beats lead. -/
def after (beats : List Beat) : State (Fin 7) Cmd Cmd.Reply PyError World :=
  plant.system.schedule still (beats.map Beat.move)

instance decidableBeats [decidable : ∀ s i x c, Decidable (may s i x c)] :
    (beats : List Beat) → (s : State (Fin 7) Cmd Cmd.Reply PyError World) →
      Decidable ((plant.systemOf may).PermitsAll s (beats.map Beat.move))
  | [], _ => .isTrue trivial
  | (i, none) :: rest, s =>
    have := decidableBeats rest ((plant.systemOf may).move s (Beat.move (i, none)))
    have called : (plant.systemOf may).Permits s (Beat.move (i, none)) := turn_called i
    have := Decidable.isTrue called
    inferInstanceAs (Decidable (_ ∧ _))
  | (i, some x) :: rest, s =>
    have := decidableBeats rest ((plant.systemOf may).move s (Beat.move (i, some x)))
    have : ∀ s i x c, Decidable ((plant.systemOf may).may s i x c) := decidable
    have : Decidable ((plant.systemOf may).Permits s (Beat.move (i, some x))) :=
      inferInstanceAs (Decidable ((plant.systemOf may).Permits s (.cmd i x)))
    inferInstanceAs (Decidable (_ ∧ _))

/-- Permitted beats lead to a later state. -/
theorem later_after {first rest : List Beat}
    (permitted : (plant.systemOf may).PermitsAll (after first) (rest.map Beat.move)) :
    (plant.systemOf may).Later (after first) (after (first ++ rest)) := by
  have split : after (first ++ rest) =
      (plant.systemOf may).schedule (after first) (rest.map Beat.move) := by
    rw [after, List.map_append, System.schedule, List.foldl_append]
    rfl
  rw [split]
  exact permitted.later

theorem reachable_after {beats : List Beat}
    (permitted : (plant.systemOf may).PermitsAll still (beats.map Beat.move)) :
    (plant.systemOf may).Reachable (after beats) := by
  have start : (plant.systemOf may).Reachable still := .init _ rfl
  exact start.later permitted.later

end Runs

end SmallPlant

end KernelOmega
