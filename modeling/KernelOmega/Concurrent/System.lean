import KernelOmega.Concurrent.Prog
import Mathlib.Logic.Relation

/-!
# Interleaved runs

A `System` runs any number of threads over one world. Each thread is at a point
of a program; a step lets one thread issue its next command, starts a new call on
a thread that has returned, or lets the environment act. A thread whose program
raised stays where it is: its process has ended, and a restarted process is
another thread.

The system keeps the history of issued commands with their replies, latest first,
so that a property may speak of what has been done and not only of what the
stores hold. `System.schedule` runs a given order of steps and lands on a
reachable state, which makes a concrete interleaving a computation.
-/

namespace Concurrent

/-- One issued command, the thread that issued it and the reply it received. -/
structure Event (ι C : Type) (R : C → Type) (ε : Type) where
  thread : ι
  cmd : C
  reply : Except ε (R cmd)

/-- The world together with the commands that led to it, latest first. -/
structure Snapshot (ι C : Type) (R : C → Type) (ε W : Type) where
  world : W
  history : List (Event ι C R ε)

/-- Threads over a world.

`calls` are the programs a resting thread may start, `env` what may happen without
any thread, and `may` the steps under consideration: a thread's command with the
scheduler's choice and the snapshot it is issued in. -/
structure System (ι C : Type) (R : C → Type) (ε X W : Type) where
  exec : Exec C R ε X W
  init : W → Prop
  calls : ι → Prog C R ε Unit → Prop
  env : Snapshot ι C R ε W → W → Prop
  may : Snapshot ι C R ε W → ι → X → C → Prop

/-- A snapshot and the point every thread is at. -/
structure State (ι C : Type) (R : C → Type) (ε W : Type) extends Snapshot ι C R ε W where
  threads : ι → Prog C R ε Unit

variable {ι C : Type} {R : C → Type} {ε X W : Type}

/-- The snapshot after thread `i` issues `c` under choice `x`. -/
def Snapshot.after (exec : Exec C R ε X W) (s : Snapshot ι C R ε W) (i : ι) (x : X) (c : C) :
    Snapshot ι C R ε W where
  world := (exec x c s.world).2
  history := ⟨i, c, (exec x c s.world).1⟩ :: s.history

/-- Thread `i` runs `p` to its end with no other thread in between; `xs` lists the
choices of its commands. -/
def Snapshot.run {α : Type} (exec : Exec C R ε X W) (i : ι) :
    Prog C R ε α → (Nat → X) → Snapshot ι C R ε W → Except ε α × Snapshot ι C R ε W
  | .ret a, _, s => (.ok a, s)
  | .raise e, _, s => (.error e, s)
  | .cmd c k, xs, s =>
    run exec i (k (exec (xs 0) c s.world).1) (fun n => xs (n + 1)) (s.after exec i (xs 0) c)

@[simp] theorem Snapshot.after_world (exec : Exec C R ε X W) (s : Snapshot ι C R ε W) (i : ι)
    (x : X) (c : C) : (s.after exec i x c).world = (exec x c s.world).2 := rfl

@[simp] theorem Snapshot.after_history (exec : Exec C R ε X W) (s : Snapshot ι C R ε W) (i : ι)
    (x : X) (c : C) :
    (s.after exec i x c).history = ⟨i, c, (exec x c s.world).1⟩ :: s.history := rfl

namespace System

/-- Every command of the run of `p` without interleaving is under consideration. -/
def Allowed (sys : System ι C R ε X W) (i : ι) {α : Type} :
    Prog C R ε α → (Nat → X) → Snapshot ι C R ε W → Prop
  | .ret _, _, _ => True
  | .raise _, _, _ => True
  | .cmd c k, xs, s =>
    sys.may s i (xs 0) c ∧
      sys.Allowed i (k (sys.exec (xs 0) c s.world).1) (fun n => xs (n + 1))
        (s.after sys.exec i (xs 0) c)

instance decidableAllowed (sys : System ι C R ε X W)
    [decidable : ∀ s i x c, Decidable (sys.may s i x c)] (i : ι) {α : Type} :
    (p : Prog C R ε α) → (xs : Nat → X) → (s : Snapshot ι C R ε W) →
      Decidable (sys.Allowed i p xs s)
  | .ret _, _, _ => .isTrue trivial
  | .raise _, _, _ => .isTrue trivial
  | .cmd c k, xs, s =>
    have := sys.decidableAllowed i (k (sys.exec (xs 0) c s.world).1) (fun n => xs (n + 1))
      (s.after sys.exec i (xs 0) c)
    inferInstanceAs (Decidable (_ ∧ _))

/-- Where every command may be issued, every program may be run. -/
theorem allowed_of_forall {sys : System ι C R ε X W} {i : ι} (may : ∀ t x c, sys.may t i x c)
    {α : Type} (p : Prog C R ε α) (xs : Nat → X) (s : Snapshot ι C R ε W) :
    sys.Allowed i p xs s := by
  induction p generalizing xs s with
  | ret a => trivial
  | raise e => trivial
  | cmd c k ih => exact ⟨may _ _ _, ih _ _ _⟩

variable [DecidableEq ι]

/-- One step of the interleaving. -/
inductive Step (sys : System ι C R ε X W) : State ι C R ε W → State ι C R ε W → Prop
  | call {s : State ι C R ε W} (i : ι) (p : Prog C R ε Unit) :
      s.threads i = .ret () → sys.calls i p →
      Step sys s { s with threads := Function.update s.threads i p }
  | cmd {s : State ι C R ε W} (i : ι) (x : X) (c : C) (k : Except ε (R c) → Prog C R ε Unit) :
      s.threads i = .cmd c k → sys.may s.toSnapshot i x c →
      Step sys s
        { s.toSnapshot.after sys.exec i x c with
          threads := Function.update s.threads i (k (sys.exec x c s.world).1) }
  | env {s : State ι C R ε W} (w : W) : sys.env s.toSnapshot w → Step sys s { s with world := w }

/-- The states of some run: every thread rests at first, and every step is one of
`Step`. -/
inductive Reachable (sys : System ι C R ε X W) : State ι C R ε W → Prop
  | init (w : W) : sys.init w →
      Reachable sys { world := w, history := [], threads := fun _ => .ret () }
  | step {s t : State ι C R ε W} : Reachable sys s → Step sys s t → Reachable sys t

/-- `t` is `s` or a state some run reaches after it. -/
def Later (sys : System ι C R ε X W) : State ι C R ε W → State ι C R ε W → Prop :=
  Relation.ReflTransGen sys.Step

theorem Reachable.later {sys : System ι C R ε X W} {s t : State ι C R ε W}
    (reached : sys.Reachable s) (later : sys.Later s t) : sys.Reachable t := by
  induction later with
  | refl => exact reached
  | tail _ moved ih => exact ih.step moved

/-- The system whose steps all lead to snapshots in `P`. -/
def restrict (sys : System ι C R ε X W) (P : Snapshot ι C R ε W → Prop) :
    System ι C R ε X W where
  exec := sys.exec
  init := fun w => sys.init w ∧ P ⟨w, []⟩
  calls := sys.calls
  env := fun s w => sys.env s w ∧ P ⟨w, s.history⟩
  may := fun s i x c => sys.may s i x c ∧ P (s.after sys.exec i x c)

/-- A reachable state is reachable through steps in `P` when `P` holds of it and of
whatever comes before a state in `P`. -/
theorem Reachable.restrict {sys : System ι C R ε X W} {P : Snapshot ι C R ε W → Prop}
    (before : ∀ {s t}, sys.Step s t → P t.toSnapshot → P s.toSnapshot) {s : State ι C R ε W}
    (reached : sys.Reachable s) (holds : P s.toSnapshot) : (sys.restrict P).Reachable s := by
  induction reached with
  | init w start => exact .init w ⟨start, holds⟩
  | step _ moved ih =>
    have earlier := ih (before moved holds)
    cases moved with
    | call i p rests called => exact earlier.step (.call i p rests called)
    | cmd i x c k issues may => exact earlier.step (.cmd i x c k issues ⟨may, holds⟩)
    | env w acts => exact earlier.step (.env w ⟨acts, holds⟩)

/-- What is reached within a restriction is reached without it, and is within it. -/
theorem Reachable.of_restrict {sys : System ι C R ε X W} {P : Snapshot ι C R ε W → Prop}
    {s : State ι C R ε W} (reached : (sys.restrict P).Reachable s) :
    sys.Reachable s ∧ P s.toSnapshot := by
  induction reached with
  | init w start => exact ⟨.init w start.1, start.2⟩
  | step _ moved ih =>
    obtain ⟨earlier, holds⟩ := ih
    cases moved with
    | call i p rests called => exact ⟨earlier.step (.call i p rests called), holds⟩
    | cmd i x c k issues may => exact ⟨earlier.step (.cmd i x c k issues may.1), may.2⟩
    | env w acts => exact ⟨earlier.step (.env w acts.1), acts.2⟩

/-- One move of a concrete run. -/
inductive Move (ι C : Type) (R : C → Type) (ε X W : Type) where
  | call (i : ι) (p : Prog C R ε Unit)
  | cmd (i : ι) (x : X)
  | env (w : W → W)

/-- The state after one move; a move that does not apply changes nothing. -/
def move (sys : System ι C R ε X W) (s : State ι C R ε W) :
    Move ι C R ε X W → State ι C R ε W
  | .call i p =>
    match s.threads i with
    | .ret _ => { s with threads := Function.update s.threads i p }
    | _ => s
  | .cmd i x =>
    match s.threads i with
    | .cmd c k =>
      { s.toSnapshot.after sys.exec i x c with
        threads := Function.update s.threads i (k (sys.exec x c s.world).1) }
    | _ => s
  | .env w => { s with world := w s.world }

/-- The state after a list of moves. -/
def schedule (sys : System ι C R ε X W) (s : State ι C R ε W)
    (moves : List (Move ι C R ε X W)) : State ι C R ε W :=
  moves.foldl sys.move s

/-- What a schedule has to meet to be a run: its calls are calls of the system, its
commands are under consideration and its environment moves are environment steps. -/
def Permits (sys : System ι C R ε X W) (s : State ι C R ε W) : Move ι C R ε X W → Prop
  | .call i p => sys.calls i p
  | .cmd i x => ∀ c k, s.threads i = .cmd c k → sys.may s.toSnapshot i x c
  | .env w => sys.env s.toSnapshot (w s.world)

/-- A move that is permitted leads to a reachable state. -/
theorem Reachable.move {sys : System ι C R ε X W} {s : State ι C R ε W} (reached : sys.Reachable s)
    {m : Move ι C R ε X W} (permitted : sys.Permits s m) : sys.Reachable (sys.move s m) := by
  cases m with
  | call i p =>
    simp only [System.move]
    split
    · exact reached.step (.call i p ‹_› permitted)
    · exact reached
  | cmd i x =>
    simp only [System.move]
    split
    · rename_i c k at_cmd
      exact reached.step (.cmd i x c k at_cmd (permitted c k at_cmd))
    · exact reached
  | env w => exact reached.step (.env (w s.world) permitted)

/-- A schedule whose every move is permitted where it is made lands on a reachable
state. -/
theorem Reachable.schedule {sys : System ι C R ε X W} {s : State ι C R ε W}
    (reached : sys.Reachable s) {moves : List (Move ι C R ε X W)}
    (permitted : ∀ m ∈ moves, ∀ t, sys.Permits t m) : sys.Reachable (sys.schedule s moves) := by
  induction moves generalizing s with
  | nil => exact reached
  | cons m rest ih =>
    have moved := reached.move (permitted m List.mem_cons_self s)
    exact ih moved fun m' mem => permitted m' (List.mem_cons_of_mem m mem)

/-- Every move of a list is permitted where it is made. -/
def PermitsAll (sys : System ι C R ε X W) :
    State ι C R ε W → List (Move ι C R ε X W) → Prop
  | _, [] => True
  | s, m :: rest => sys.Permits s m ∧ PermitsAll sys (sys.move s m) rest

instance decidablePermits (sys : System ι C R ε X W)
    [decidable : ∀ s i x c, Decidable (sys.may s i x c)] (s : State ι C R ε W) (i : ι) (x : X) :
    Decidable (sys.Permits s (.cmd i x)) :=
  match at_i : s.threads i with
  | .ret _ => .isTrue fun _ _ issues => nomatch at_i.symm.trans issues
  | .raise _ => .isTrue fun _ _ issues => nomatch at_i.symm.trans issues
  | .cmd c k =>
    decidable_of_iff (sys.may s.toSnapshot i x c)
      ⟨fun may _ _ issues => by cases at_i.symm.trans issues; exact may,
        fun permits => permits c k at_i⟩

/-- Whether commands under given choices are all permitted where they are issued. -/
instance decidablePermitsAll (sys : System ι C R ε X W)
    [decidable : ∀ s i x c, Decidable (sys.may s i x c)] :
    (steps : List (ι × X)) → (s : State ι C R ε W) →
      Decidable (sys.PermitsAll s (steps.map fun step => .cmd step.1 step.2))
  | [], _ => .isTrue trivial
  | step :: rest, s =>
    have := sys.decidablePermitsAll rest (sys.move s (.cmd step.1 step.2))
    inferInstanceAs (Decidable (sys.Permits s (.cmd step.1 step.2) ∧ _))

theorem PermitsAll.append {sys : System ι C R ε X W} {s : State ι C R ε W}
    {moves rest : List (Move ι C R ε X W)} (first : sys.PermitsAll s moves)
    (second : sys.PermitsAll (sys.schedule s moves) rest) : sys.PermitsAll s (moves ++ rest) := by
  induction moves generalizing s with
  | nil => exact second
  | cons m moves ih => exact ⟨first.1, ih first.2 second⟩

/-- A permitted schedule leads to a later state. -/
theorem PermitsAll.later {sys : System ι C R ε X W} {s : State ι C R ε W}
    {moves : List (Move ι C R ε X W)} (permitted : sys.PermitsAll s moves) :
    sys.Later s (sys.schedule s moves) := by
  induction moves generalizing s with
  | nil => exact .refl
  | cons m rest ih =>
    refine .trans ?_ (ih permitted.2)
    have here := permitted.1
    cases m with
    | call i p =>
      simp only [System.move]
      split
      · exact .single (.call i p ‹_› here)
      · exact .refl
    | cmd i x =>
      simp only [System.move]
      split
      · next c k at_cmd => exact .single (.cmd i x c k at_cmd (here c k at_cmd))
      · exact .refl
    | env w => exact .single (.env (w s.world) here)

/-- A run without interleaving is a run. -/
theorem Reachable.alone {sys : System ι C R ε X W} {i : ι} (p : Prog C R ε Unit) (xs : Nat → X)
    {s : State ι C R ε W} (allowed : sys.Allowed i p xs s.toSnapshot) (reached : sys.Reachable s)
    (at_p : s.threads i = p) :
    sys.Reachable
      { (s.toSnapshot.run sys.exec i p xs).2 with
        threads := Function.update s.threads i (.ofExcept (s.toSnapshot.run sys.exec i p xs).1) } := by
  induction p generalizing xs s with
  | ret a =>
    have same : Function.update s.threads i (.ret a) = s.threads := by
      rw [← at_p, Function.update_eq_self]
    simpa only [Snapshot.run, Prog.ofExcept_ok, same] using reached
  | raise e =>
    have same : Function.update s.threads i (.raise e) = s.threads := by
      rw [← at_p, Function.update_eq_self]
    simpa only [Snapshot.run, Prog.ofExcept_error, same] using reached
  | cmd c k ih =>
    have moved := reached.step (.cmd i (xs 0) c k at_p allowed.1)
    have rest := ih _ (fun n => xs (n + 1)) allowed.2 moved (Function.update_self ..)
    simpa only [Snapshot.run, Function.update_idem] using rest

/-- A call that is run to its end and returns leaves every thread where it was. -/
theorem Reachable.call_alone {sys : System ι C R ε X W} {i : ι} {p : Prog C R ε Unit}
    (called : sys.calls i p) (xs : Nat → X) {s : State ι C R ε W}
    (allowed : sys.Allowed i p xs s.toSnapshot) (reached : sys.Reachable s) (rests : s.threads i = .ret ())
    (returns : (s.toSnapshot.run sys.exec i p xs).1 = .ok ()) :
    sys.Reachable { (s.toSnapshot.run sys.exec i p xs).2 with threads := s.threads } := by
  have started := reached.step (.call i p rests called)
  have ended := Reachable.alone (s := { s with threads := Function.update s.threads i p }) p xs
    allowed started (Function.update_self ..)
  have same : Function.update s.threads i (.ret ()) = s.threads := by
    rw [← rests, Function.update_eq_self]
  simpa only [returns, Prog.ofExcept_ok, Function.update_idem, same] using ended

end System

end Concurrent
