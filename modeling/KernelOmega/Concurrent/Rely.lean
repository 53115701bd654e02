import KernelOmega.Concurrent.System

/-!
# Rely-guarantee reasoning for interleaved programs

A `Discipline` says, for each thread, what it may assume of the others between
two of its own commands (`rely`), what each of its own commands does
(`guar`), an invariant of every snapshot (`inv`) and what is known of the thread
while it rests (`idle`). `known` holds the facts that an earlier discipline has
already established for every reachable state, so that invariants can be proved in
layers.

`Safe` is the meaning of a program under a discipline: whatever the others do
between its commands within `rely`, each command keeps the invariant and stays
within `guar`, and the program ends in its postcondition. It is a predicate of a
program and a snapshot, so the code is verified by following it, one command at a
time. `Reachable.safe` is the composition rule: when every thread's guarantee is
within the other threads' rely, the invariant holds in every reachable state.
-/

namespace Concurrent

variable {ι C : Type} {R : C → Type} {ε X W α β : Type}

/-- The assumptions and obligations of the threads of a system. -/
structure Discipline (ι C : Type) (R : C → Type) (ε W : Type) where
  known : Snapshot ι C R ε W → Prop
  inv : Snapshot ι C R ε W → Prop
  rely : ι → Snapshot ι C R ε W → Snapshot ι C R ε W → Prop
  guar : ι → Snapshot ι C R ε W → Snapshot ι C R ε W → Prop
  idle : ι → Snapshot ι C R ε W → Prop
  rely_refl : ∀ i s, rely i s s
  rely_trans : ∀ i s t u, rely i s t → rely i t u → rely i s u

/-- The program `p` of thread `i`, started in `s`, respects the discipline under any
interference, returns in `post` and raises in `err`. -/
def Safe (sys : System ι C R ε X W) (d : Discipline ι C R ε W) (i : ι)
    (post : α → Snapshot ι C R ε W → Prop) (err : ε → Snapshot ι C R ε W → Prop) :
    Prog C R ε α → Snapshot ι C R ε W → Prop
  | .ret a, s => post a s
  | .raise e, s => err e s
  | .cmd c k, s => ∀ t, d.rely i s t → d.known t → d.inv t → ∀ x, sys.may t i x c →
      d.known (t.after sys.exec i x c) →
        d.inv (t.after sys.exec i x c) ∧ d.guar i t (t.after sys.exec i x c) ∧
          Safe sys d i post err (k (sys.exec x c t.world).1) (t.after sys.exec i x c)

section Rules

variable {sys : System ι C R ε X W} {d : Discipline ι C R ε W} {i : ι}
  {err err' : ε → Snapshot ι C R ε W → Prop}

/-- A safe program may promise less. -/
theorem Safe.mono {post post' : α → Snapshot ι C R ε W → Prop}
    (weaker : ∀ a s, post a s → post' a s) (weakerErr : ∀ e s, err e s → err' e s)
    {p : Prog C R ε α} {s : Snapshot ι C R ε W}
    (safe : Safe sys d i post err p s) : Safe sys d i post' err' p s := by
  induction p generalizing s with
  | ret a => exact weaker a s safe
  | raise e => exact weakerErr e s safe
  | cmd c k ih =>
    intro t rely known inv x may known'
    obtain ⟨inv', guar, rest⟩ := safe t rely known inv x may known'
    exact ⟨inv', guar, ih _ rest⟩

/-- The sequencing rule: the continuation is verified from the first program's
postcondition. -/
theorem Safe.bind {mid : α → Snapshot ι C R ε W → Prop} {post : β → Snapshot ι C R ε W → Prop}
    {p : Prog C R ε α} {f : α → Prog C R ε β} {s : Snapshot ι C R ε W}
    (first : Safe sys d i mid err p s)
    (rest : ∀ a t, mid a t → Safe sys d i post err (f a) t) :
    Safe sys d i post err (p >>= f) s := by
  induction p generalizing s with
  | ret a => exact rest a s first
  | raise e => exact first
  | cmd c k ih =>
    intro t rely known inv x may known'
    obtain ⟨inv', guar, tail⟩ := first t rely known inv x may known'
    exact ⟨inv', guar, ih _ tail⟩

/-- The command rule: after any admissible interference the command keeps the
invariant and the guarantee, and each reply leads to its continuation. -/
theorem Safe.call {c : C} {post : R c → Snapshot ι C R ε W → Prop} {s : Snapshot ι C R ε W}
    (step : ∀ t, d.rely i s t → d.known t → d.inv t → ∀ x, sys.may t i x c →
      d.known (t.after sys.exec i x c) →
        d.inv (t.after sys.exec i x c) ∧ d.guar i t (t.after sys.exec i x c) ∧
          (∀ v, (sys.exec x c t.world).1 = .ok v → post v (t.after sys.exec i x c)) ∧
          ∀ e, (sys.exec x c t.world).1 = .error e → err e (t.after sys.exec i x c)) :
    Safe sys d i post err (Prog.call c) s := by
  intro t rely known inv x may known'
  obtain ⟨inv', guar, reply, failure⟩ := step t rely known inv x may known'
  refine ⟨inv', guar, ?_⟩
  cases h : (sys.exec x c t.world).1 with
  | ok v => exact reply v h
  | error e => exact failure e h

/-- The command rule in front of a continuation. -/
theorem Safe.call_bind {c : C} {f : R c → Prog C R ε β} {post : β → Snapshot ι C R ε W → Prop}
    {s : Snapshot ι C R ε W}
    (step : ∀ t, d.rely i s t → d.known t → d.inv t → ∀ x, sys.may t i x c →
      d.known (t.after sys.exec i x c) →
        d.inv (t.after sys.exec i x c) ∧ d.guar i t (t.after sys.exec i x c) ∧
          (∀ v, (sys.exec x c t.world).1 = .ok v →
            Safe sys d i post err (f v) (t.after sys.exec i x c)) ∧
          ∀ e, (sys.exec x c t.world).1 = .error e → err e (t.after sys.exec i x c)) :
    Safe sys d i post err (Prog.call c >>= f) s :=
  Safe.bind (Safe.call step) fun _ _ h => h

/-- A command that keeps the invariant, is within the thread's guarantee and disturbs
nothing the thread relies on. -/
def Quiet (sys : System ι C R ε X W) (d : Discipline ι C R ε W) (i : ι) (c : C) : Prop :=
  ∀ t x, d.known t → d.inv t → sys.may t i x c → d.known (t.after sys.exec i x c) →
    d.inv (t.after sys.exec i x c) ∧ d.guar i t (t.after sys.exec i x c) ∧
      d.rely i t (t.after sys.exec i x c)

/-- The rule for a quiet command whose reply is used: it is the reply in some snapshot
reached within `rely`. -/
theorem Safe.read_bind {c : C} {f : R c → Prog C R ε β} {post : β → Snapshot ι C R ε W → Prop}
    {s : Snapshot ι C R ε W} (quiet : Quiet sys d i c)
    (rest : ∀ t x v, d.rely i s t → d.known t → d.inv t → (sys.exec x c t.world).1 = .ok v →
      d.rely i t (t.after sys.exec i x c) →
        Safe sys d i post err (f v) (t.after sys.exec i x c))
    (error : ∀ e t, d.rely i s t → err e t) :
    Safe sys d i post err (Prog.call c >>= f) s := by
  refine Safe.call_bind fun t rely known inv x may known' => ?_
  obtain ⟨inv', guar, own⟩ := quiet t x known inv may known'
  exact ⟨inv', guar, fun v reply => rest t x v rely known inv reply own,
    fun e _ => error e _ (d.rely_trans i s t _ rely own)⟩

/-- The rule for a quiet command whose reply does not matter. -/
theorem Safe.quiet_bind {c : C} {f : R c → Prog C R ε β} {post : β → Snapshot ι C R ε W → Prop}
    {s : Snapshot ι C R ε W} (quiet : Quiet sys d i c)
    (rest : ∀ v t, d.rely i s t → Safe sys d i post err (f v) t)
    (error : ∀ e t, d.rely i s t → err e t) :
    Safe sys d i post err (Prog.call c >>= f) s :=
  Safe.read_bind quiet (fun t _ v rely _ _ _ own => rest v _ (d.rely_trans i s t _ rely own)) error

/-- A program of quiet commands keeps what the thread relies on. -/
theorem Safe.of_uses {P : C → Prop} (quiet : ∀ c, P c → Quiet sys d i c)
    {p : Prog C R ε α} (uses : p.Uses P) {s : Snapshot ι C R ε W}
    (error : ∀ e t, d.rely i s t → err e t) :
    Safe sys d i (fun _ t => d.rely i s t) err p s := by
  induction p generalizing s with
  | ret a => exact d.rely_refl i s
  | raise e => exact error e s (d.rely_refl i s)
  | cmd c k ih =>
    intro t rely known inv x may known'
    obtain ⟨inv', guar, own⟩ := quiet c uses.1 t x known inv may known'
    have later := d.rely_trans i s t _ rely own
    refine ⟨inv', guar, Safe.mono (fun _ u => d.rely_trans i s _ u later) (fun _ _ h => h) ?_⟩
    exact ih _ (uses.2 _) fun e u rely' => error e u (d.rely_trans i s _ u later rely')

/-- A part made of quiet commands, with the rest after it in a state that is relied on. -/
theorem Safe.uses_bind {P : C → Prop} (quiet : ∀ c, P c → Quiet sys d i c)
    {p : Prog C R ε α} {f : α → Prog C R ε β} {post : β → Snapshot ι C R ε W → Prop}
    (uses : p.Uses P) {s : Snapshot ι C R ε W}
    (rest : ∀ a t, d.rely i s t → Safe sys d i post err (f a) t)
    (error : ∀ e t, d.rely i s t → err e t) :
    Safe sys d i post err (p >>= f) s :=
  Safe.bind (Safe.of_uses quiet uses error) rest

/-- A value that may be an error. -/
theorem Safe.ofExcept {post : α → Snapshot ι C R ε W → Prop} {r : Except ε α}
    {s : Snapshot ι C R ε W} (ok : ∀ a, r = .ok a → post a s)
    (error : ∀ e, r = .error e → err e s) :
    Safe sys d i post err (Prog.ofExcept r) s := by
  cases r with
  | ok a => exact ok a rfl
  | error e => exact error e rfl

/-- The rule for a pure step in front of a continuation. -/
theorem Safe.ofExcept_bind {post : β → Snapshot ι C R ε W → Prop} {r : Except ε α}
    {f : α → Prog C R ε β} {s : Snapshot ι C R ε W}
    (ok : ∀ a, r = .ok a → Safe sys d i post err (f a) s) (error : ∀ e, r = .error e → err e s) :
    Safe sys d i post err (Prog.ofExcept r >>= f) s := by
  cases r with
  | ok a => exact ok a rfl
  | error e => exact error e rfl

/-- The rule for `try p finally q`: the finalizer is verified from both ends of `p`. -/
theorem Safe.tryFinally {mid post : α → Snapshot ι C R ε W → Prop}
    {p : Prog C R ε α} {q : Prog C R ε Unit} {s : Snapshot ι C R ε W}
    (body : Safe sys d i mid err' p s)
    (returned : ∀ a t, mid a t → Safe sys d i (fun _ => post a) err q t)
    (raised : ∀ e t, err' e t → Safe sys d i (fun _ => err e) err q t) :
    Safe sys d i post err (p.tryFinally q) s := by
  induction p generalizing s with
  | ret a => exact Safe.bind (returned a s body) fun _ _ h => h
  | raise e => exact Safe.bind (raised e s body) fun _ _ h => h
  | cmd c k ih =>
    intro t rely known inv x may known'
    obtain ⟨inv', guar, rest⟩ := body t rely known inv x may known'
    exact ⟨inv', guar, ih _ rest⟩

/-- A program that is safe stays safe while the others act. Only the postconditions of
a program that has already ended have to be stable. -/
theorem Safe.stable {post : α → Snapshot ι C R ε W → Prop} {p : Prog C R ε α}
    {s t : Snapshot ι C R ε W} (safe : Safe sys d i post err p s) (rely : d.rely i s t)
    (stable : ∀ a, post a s → post a t) (stableErr : ∀ e, err e s → err e t) :
    Safe sys d i post err p t := by
  cases p with
  | ret a => exact stable a safe
  | raise e => exact stableErr e safe
  | cmd c k => exact fun u later => safe u (d.rely_trans i s t u rely later)

end Rules

namespace System

variable [DecidableEq ι]

/-- What a discipline has to meet for a system: its known facts hold in every
reachable state, it holds at first, each thread's guarantee and the environment are
within the others' rely, and every call is safe from a resting thread. Nothing is
asked of a thread that has raised. -/
structure Obeys (sys : System ι C R ε X W) (d : Discipline ι C R ε W) : Prop where
  known : ∀ s, sys.Reachable s → d.known s.toSnapshot
  init : ∀ w, sys.init w → d.inv ⟨w, []⟩ ∧ ∀ i, d.idle i ⟨w, []⟩
  compatible : ∀ i j s t, i ≠ j → d.known s → d.known t → d.inv s → d.inv t → d.guar i s t →
    d.rely j s t
  env : ∀ s w, d.known s → d.known ⟨w, s.history⟩ → d.inv s → sys.env s w →
    d.inv ⟨w, s.history⟩ ∧ ∀ i, d.rely i s ⟨w, s.history⟩
  idle : ∀ i s t, d.inv t → d.idle i s → d.rely i s t → d.idle i t
  calls : ∀ i p s, sys.calls i p → d.inv s → d.idle i s →
    Safe sys d i (fun _ => d.idle i) (fun _ _ => True) p s

/-- The composition rule: in every reachable state the invariant holds and every
thread is safe from where it is. -/
theorem Reachable.safe {sys : System ι C R ε X W} {d : Discipline ι C R ε W}
    (obeys : sys.Obeys d) {s : State ι C R ε W} (reached : sys.Reachable s) :
    d.inv s.toSnapshot ∧
      ∀ i, Safe sys d i (fun _ => d.idle i) (fun _ _ => True) (s.threads i) s.toSnapshot := by
  induction reached with
  | init w start =>
    obtain ⟨inv, idle⟩ := obeys.init w start
    exact ⟨inv, idle⟩
  | @step s t before moved ih =>
    obtain ⟨inv, safe⟩ := ih
    have known := obeys.known s before
    have known' := obeys.known t (before.step moved)
    cases moved with
    | call i p rests called =>
      refine ⟨inv, fun j => ?_⟩
      by_cases same : j = i
      · subst same
        have idle : d.idle j s.toSnapshot := by simpa only [rests, Safe] using safe j
        simpa only [Function.update_self] using obeys.calls j p s.toSnapshot called inv idle
      · simpa only [Function.update_of_ne same] using safe j
    | cmd i x c k issues may =>
      have own := safe i
      rw [issues] at own
      obtain ⟨inv', guar, rest⟩ := own s.toSnapshot (d.rely_refl i _) known inv x may known'
      refine ⟨inv', fun j => ?_⟩
      by_cases same : j = i
      · subst same
        simpa only [Function.update_self] using rest
      · have rely := obeys.compatible i j _ _ (Ne.symm same) known known' inv inv' guar
        simpa only [Function.update_of_ne same] using
          (safe j).stable rely (fun _ idle => obeys.idle j _ _ inv' idle rely) fun _ h => h
    | env w acts =>
      obtain ⟨inv', rely⟩ := obeys.env s.toSnapshot w known known' inv acts
      exact ⟨inv', fun j => (safe j).stable (rely j)
        (fun _ idle => obeys.idle j _ _ inv' idle (rely j)) fun _ h => h⟩

/-- The invariant rule: a discipline the system obeys gives an invariant of every
reachable state. -/
theorem Reachable.inv {sys : System ι C R ε X W} {d : Discipline ι C R ε W}
    (obeys : sys.Obeys d) {s : State ι C R ε W} (reached : sys.Reachable s) :
    d.inv s.toSnapshot :=
  (reached.safe obeys).1

/-- The step rule: every command a thread issues in a reachable state is within its
guarantee. -/
theorem Reachable.guar {sys : System ι C R ε X W} {d : Discipline ι C R ε W}
    (obeys : sys.Obeys d) {s : State ι C R ε W} (reached : sys.Reachable s) {i : ι} {x : X}
    {c : C} {k : Except ε (R c) → Prog C R ε Unit} (issues : s.threads i = .cmd c k)
    (may : sys.may s.toSnapshot i x c) :
    d.guar i s.toSnapshot (s.toSnapshot.after sys.exec i x c) := by
  have own := (reached.safe obeys).2 i
  rw [issues] at own
  exact (own s.toSnapshot (d.rely_refl i _) (obeys.known s reached) (reached.inv obeys) x may
    (obeys.known _ (reached.step (.cmd i x c k issues may)))).2.1

/-- The growth rule: what every guarantee and every environment step implies holds
between a reachable state and any later one. -/
theorem Reachable.grows {sys : System ι C R ε X W} {d : Discipline ι C R ε W}
    (obeys : sys.Obeys d) {G : Snapshot ι C R ε W → Snapshot ι C R ε W → Prop}
    (refl : ∀ s, G s s) (trans : ∀ s t u, G s t → G t u → G s u)
    (own : ∀ i s t, d.guar i s t → G s t) (env : ∀ s w, sys.env s w → G s ⟨w, s.history⟩)
    {s t : State ι C R ε W} (reached : sys.Reachable s) (later : sys.Later s t) :
    G s.toSnapshot t.toSnapshot := by
  induction later with
  | refl => exact refl _
  | @tail t u passed moved ih =>
    have here := reached.later passed
    cases moved with
    | call i p rests called => exact ih
    | cmd i x c k issues may => exact trans _ _ _ ih (own i _ _ (here.guar obeys issues may))
    | env w acts => exact trans _ _ _ ih (env t.toSnapshot w acts)

end System

end Concurrent
