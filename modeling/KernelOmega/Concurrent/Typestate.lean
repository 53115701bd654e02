import KernelOmega.Concurrent.System
import Mathlib.Algebra.Order.BigOperators.Group.Finset

/-!
# What a thread has done

A `Typestate` follows one thread along its own commands and the replies they received:
a state that every command moves, and the commands each state allows. `Prog.Keeps` says
of a program that it only issues allowed commands, whatever the replies; it is proved by
following the code. Since the state depends on the thread's own commands alone, nothing
the other threads do can disturb it, and `Reachable.allows` gives the fact for every
command issued in a reachable state: an order the code keeps within one thread can be used
in an invariant of the whole system. `Typestate.total` adds up what the threads hold, when
each state of a thread weighs something.

`Reachable.invariant` is the plain invariant rule, stated so that a step may use everything
known of the reachable state it leaves.
-/

namespace Concurrent

variable {ι C : Type} {R : C → Type} {ε X W σ α β : Type}

/-- A state of a thread that its own commands move, and the commands it allows. -/
structure Typestate (C : Type) (R : C → Type) (ε σ : Type) where
  next : σ → (c : C) → Except ε (R c) → σ
  allows : σ → C → Prop

/-- The state of thread `i` after a history, latest command first. -/
def Typestate.current [DecidableEq ι] (T : Typestate C R ε σ) (start : σ) (i : ι) :
    List (Event ι C R ε) → σ
  | [] => start
  | e :: earlier =>
    if e.thread = i then T.next (T.current start i earlier) e.cmd e.reply
    else T.current start i earlier

section Current

variable [DecidableEq ι] (T : Typestate C R ε σ) (start : σ) {i : ι}

@[simp] theorem Typestate.current_nil : T.current start i [] = start := rfl

theorem Typestate.current_own (e : Event ι C R ε) (own : e.thread = i)
    (earlier : List (Event ι C R ε)) :
    T.current start i (e :: earlier) = T.next (T.current start i earlier) e.cmd e.reply :=
  if_pos own

theorem Typestate.current_other (e : Event ι C R ε) (other : e.thread ≠ i)
    (earlier : List (Event ι C R ε)) :
    T.current start i (e :: earlier) = T.current start i earlier :=
  if_neg other

end Current

/-! ## Sums over the threads -/

section Total

variable [DecidableEq ι] (T : Typestate C R ε σ) (start : ι → σ) (weight : σ → Int)

/-- The weights of all threads, over what they started with. Each command changes the weight
of one thread. -/
def Typestate.total : List (Event ι C R ε) → Int
  | [] => 0
  | e :: earlier =>
    Typestate.total earlier +
      (weight (T.next (T.current (start e.thread) e.thread earlier) e.cmd e.reply) -
        weight (T.current (start e.thread) e.thread earlier))

@[simp] theorem Typestate.total_nil : T.total start weight ([] : List (Event ι C R ε)) = 0 := rfl

theorem Typestate.total_cons (e : Event ι C R ε) (earlier : List (Event ι C R ε)) :
    T.total start weight (e :: earlier) = T.total start weight earlier +
      (weight (T.next (T.current (start e.thread) e.thread earlier) e.cmd e.reply) -
        weight (T.current (start e.thread) e.thread earlier)) := rfl

/-- The threads of a history contribute, and no others. -/
theorem Typestate.total_eq_sum (threads : Finset ι) {history : List (Event ι C R ε)}
    (within : ∀ e ∈ history, e.thread ∈ threads) :
    T.total start weight history =
      ∑ i ∈ threads, (weight (T.current (start i) i history) - weight (start i)) := by
  induction history with
  | nil => simp only [total_nil, current_nil, sub_self, Finset.sum_const_zero]
  | cons e earlier ih =>
    have mem := within e List.mem_cons_self
    rw [total_cons, ih fun e' mem' => within e' (List.mem_cons_of_mem e mem'),
      ← Finset.add_sum_erase _ _ mem, ← Finset.add_sum_erase threads
        (fun i => weight (T.current (start i) i (e :: earlier)) - weight (start i)) mem,
      current_own T _ e rfl]
    have others : ∑ i ∈ threads.erase e.thread,
          (weight (T.current (start i) i (e :: earlier)) - weight (start i)) =
        ∑ i ∈ threads.erase e.thread,
          (weight (T.current (start i) i earlier) - weight (start i)) := by
      refine Finset.sum_congr rfl fun i mem' => ?_
      rw [current_other T _ e (Finset.ne_of_mem_erase mem').symm]
    rw [others]
    omega

/-- With weights that start at zero and are never negative, one thread's is at most the total. -/
theorem Typestate.weight_le_total (zero : ∀ i, weight (start i) = 0) (positive : ∀ q, 0 ≤ weight q)
    (i : ι) (history : List (Event ι C R ε)) :
    weight (T.current (start i) i history) ≤ T.total start weight history := by
  rw [T.total_eq_sum start weight (insert i (history.map (·.thread)).toFinset) fun e mem =>
    Finset.mem_insert_of_mem (List.mem_toFinset.mpr (List.mem_map_of_mem mem))]
  have single := Finset.single_le_sum
    (f := fun j => weight (T.current (start j) j history) - weight (start j))
    (fun j _ => by rw [zero j, sub_zero]; exact positive _)
    (Finset.mem_insert_self i (history.map (·.thread)).toFinset)
  simpa only [zero, sub_zero] using single

theorem Typestate.total_nonneg (zero : ∀ i, weight (start i) = 0) (positive : ∀ q, 0 ≤ weight q)
    (history : List (Event ι C R ε)) : 0 ≤ T.total start weight history := by
  cases history with
  | nil => exact le_refl 0
  | cons e earlier => exact (positive _).trans (T.weight_le_total start weight zero positive e.thread _)

end Total

namespace Prog

/-- The program, started in state `q`, issues allowed commands only, returns in `post` and
raises in `err`. -/
def Keeps (T : Typestate C R ε σ) (post : α → σ → Prop) (err : ε → σ → Prop) :
    Prog C R ε α → σ → Prop
  | .ret a, q => post a q
  | .raise e, q => err e q
  | .cmd c k, q => T.allows q c ∧ ∀ r, (k r).Keeps T post err (T.next q c r)

variable {T : Typestate C R ε σ} {err err' : ε → σ → Prop}

/-- A program that keeps to its states may promise less of the last. -/
theorem Keeps.mono {post post' : α → σ → Prop} (weaker : ∀ a q, post a q → post' a q)
    (weakerErr : ∀ e q, err e q → err' e q) {p : Prog C R ε α} {q : σ}
    (keeps : p.Keeps T post err q) : p.Keeps T post' err' q := by
  induction p generalizing q with
  | ret a => exact weaker a q keeps
  | raise e => exact weakerErr e q keeps
  | cmd c k ih => exact ⟨keeps.1, fun r => ih r (keeps.2 r)⟩

/-- The sequencing rule. -/
theorem Keeps.bind {mid : α → σ → Prop} {post : β → σ → Prop} {p : Prog C R ε α}
    {f : α → Prog C R ε β} {q : σ} (first : p.Keeps T mid err q)
    (rest : ∀ a q', mid a q' → (f a).Keeps T post err q') : (p >>= f).Keeps T post err q := by
  induction p generalizing q with
  | ret a => exact rest a q first
  | raise e => exact first
  | cmd c k ih => exact ⟨first.1, fun r => ih r (first.2 r)⟩

/-- The command rule. -/
theorem Keeps.call {c : C} {post : R c → σ → Prop} {q : σ} (allowed : T.allows q c)
    (reply : ∀ v, post v (T.next q c (.ok v))) (failure : ∀ e, err e (T.next q c (.error e))) :
    (Prog.call c).Keeps T post err q := by
  refine ⟨allowed, fun r => ?_⟩
  cases r with
  | ok v => exact reply v
  | error e => exact failure e

/-- The command rule in front of a continuation. -/
theorem Keeps.call_bind {c : C} {f : R c → Prog C R ε β} {post : β → σ → Prop} {q : σ}
    (allowed : T.allows q c) (reply : ∀ v, (f v).Keeps T post err (T.next q c (.ok v)))
    (failure : ∀ e, err e (T.next q c (.error e))) :
    (Prog.call c >>= f).Keeps T post err q := by
  have called : (Prog.call c).Keeps T (fun v q' => (f v).Keeps T post err q') err q :=
    Keeps.call allowed reply failure
  exact called.bind fun _ _ keeps => keeps

theorem Keeps.ofExcept {post : α → σ → Prop} {r : Except ε α} {q : σ}
    (ok : ∀ a, r = .ok a → post a q) (error : ∀ e, r = .error e → err e q) :
    (Prog.ofExcept r).Keeps T post err q := by
  cases r with
  | ok a => exact ok a rfl
  | error e => exact error e rfl

/-- The rule for a pure step in front of a continuation. -/
theorem Keeps.ofExcept_bind {post : β → σ → Prop} {r : Except ε α} {f : α → Prog C R ε β} {q : σ}
    (ok : ∀ a, r = .ok a → (f a).Keeps T post err q) (error : ∀ e, r = .error e → err e q) :
    (Prog.ofExcept r >>= f).Keeps T post err q := by
  cases r with
  | ok a => exact ok a rfl
  | error e => exact error e rfl

/-- The rule for `try p except e: h e`. -/
theorem Keeps.tryCatch {post : α → σ → Prop} {p : Prog C R ε α} {h : ε → Prog C R ε α} {q : σ}
    (body : p.Keeps T post err' q) (handler : ∀ e q', err' e q' → (h e).Keeps T post err q') :
    (p.tryCatch h).Keeps T post err q := by
  induction p generalizing q with
  | ret a => exact body
  | raise e => exact handler e q body
  | cmd c k ih => exact ⟨body.1, fun r => ih r (body.2 r)⟩

/-- The rule for `try p finally q`: the finalizer is verified from both ends of `p`. -/
theorem Keeps.tryFinally {mid post : α → σ → Prop} {p : Prog C R ε α} {final : Prog C R ε Unit}
    {q : σ} (body : p.Keeps T mid err' q)
    (returned : ∀ a q', mid a q' → final.Keeps T (fun _ => post a) err q')
    (raised : ∀ e q', err' e q' → final.Keeps T (fun _ => err e) err q') :
    (p.tryFinally final).Keeps T post err q := by
  induction p generalizing q with
  | ret a => exact (returned a q body).bind fun _ _ ends => ends
  | raise e => exact (raised e q body).bind fun _ _ ends => ends
  | cmd c k ih => exact ⟨body.1, fun r => ih r (body.2 r)⟩

/-- A program of commands that are allowed everywhere in `I` and do not lead out of it. -/
theorem Keeps.of_uses {P : C → Prop} {I : σ → Prop}
    (stays : ∀ c, P c → ∀ q, I q → T.allows q c ∧ ∀ r, I (T.next q c r)) {p : Prog C R ε α}
    (uses : p.Uses P) {q : σ} (here : I q) : p.Keeps T (fun _ => I) (fun _ => I) q := by
  induction p generalizing q with
  | ret a => exact here
  | raise e => exact here
  | cmd c k ih =>
    obtain ⟨allowed, stay⟩ := stays c uses.1 q here
    exact ⟨allowed, fun r => ih r (uses.2 r) (stay r)⟩

/-- What a program keeps to says which commands it uses. -/
theorem Keeps.uses {P : C → Prop} (within : ∀ q c, T.allows q c → P c) {post : α → σ → Prop}
    {p : Prog C R ε α} {q : σ} (keeps : p.Keeps T post err q) : p.Uses P := by
  induction p generalizing q with
  | ret a => trivial
  | raise e => trivial
  | cmd c k ih => exact ⟨within q c keeps.1, fun r => ih r (keeps.2 r)⟩

/-- A typestate that another one contains is kept there. -/
theorem Keeps.embed {τ : Type} {T' : Typestate C R ε τ} (f : σ → τ)
    (next : ∀ q c r, T'.next (f q) c r = f (T.next q c r))
    (allows : ∀ q c, T.allows q c → T'.allows (f q) c) {post : α → σ → Prop} {p : Prog C R ε α}
    {q : σ} (keeps : p.Keeps T post err q) :
    p.Keeps T' (fun a q' => ∃ q, q' = f q ∧ post a q) (fun e q' => ∃ q, q' = f q ∧ err e q)
      (f q) := by
  induction p generalizing q with
  | ret a => exact ⟨q, rfl, keeps⟩
  | raise e => exact ⟨q, rfl, keeps⟩
  | cmd c k ih =>
    refine ⟨allows q c keeps.1, fun r => ?_⟩
    rw [next]
    exact ih r (keeps.2 r)

/-- What the program can return is known on top of its postcondition. -/
theorem Keeps.yields {post : α → σ → Prop} {Q : α → Prop} {p : Prog C R ε α} {q : σ}
    (keeps : p.Keeps T post err q) (yields : p.Yields Q) :
    p.Keeps T (fun a q' => Q a ∧ post a q') err q := by
  induction p generalizing q with
  | ret a => exact ⟨yields, keeps⟩
  | raise e => exact keeps
  | cmd c k ih => exact ⟨keeps.1, fun r => ih r (keeps.2 r) (yields r)⟩

end Prog

namespace System

variable [DecidableEq ι]

/-- Every call of thread `i` keeps the typestate from every state the thread may rest in, and
leaves it in such a state. Nothing is asked once it has raised. -/
structure FollowsAt (sys : System ι C R ε X W) (i : ι) (T : Typestate C R ε σ) (start : σ)
    (rest : σ → Prop) : Prop where
  start : rest start
  calls : ∀ p q, sys.calls i p → rest q → p.Keeps T (fun _ => rest) (fun _ _ => True) q

/-- Wherever the thread is, the rest of its program keeps what its calls keep. -/
theorem Reachable.keepsAtOf {sys : System ι C R ε X W} {T : Typestate C R ε σ} {i : ι} {start : σ}
    {rest : σ → Prop} {err : ε → σ → Prop} (here : rest start)
    (calls : ∀ p q, sys.calls i p → rest q → p.Keeps T (fun _ => rest) err q)
    {s : State ι C R ε W} (reached : sys.Reachable s) :
    (s.threads i).Keeps T (fun _ => rest) err (T.current start i s.history) := by
  induction reached with
  | init w start => exact here
  | @step s t _ moved ih =>
    cases moved with
    | call j p rests called =>
      by_cases same : i = j
      · subst same
        have resting : rest (T.current start i s.history) := by
          simpa only [rests, Prog.Keeps] using ih
        simpa only [Function.update_self] using calls p _ called resting
      · simpa only [Function.update_of_ne same] using ih
    | cmd j x c k issues may =>
      by_cases same : j = i
      · subst same
        rw [issues] at ih
        have moved := ih.2 (sys.exec x c s.world).1
        simpa only [Function.update_self, Snapshot.after_history, Typestate.current_own] using moved
      · have other := T.current_other start (i := i) ⟨j, c, (sys.exec x c s.world).1⟩ same s.history
        simpa only [Function.update_of_ne (Ne.symm same), Snapshot.after_history, other] using ih
    | env w acts => exact ih

theorem Reachable.keepsAt {sys : System ι C R ε X W} {T : Typestate C R ε σ} {i : ι} {start : σ}
    {rest : σ → Prop} (follows : sys.FollowsAt i T start rest) {s : State ι C R ε W}
    (reached : sys.Reachable s) :
    (s.threads i).Keeps T (fun _ => rest) (fun _ _ => True) (T.current start i s.history) :=
  reached.keepsAtOf follows.start follows.calls

/-- A command the thread issues in a reachable state is one its typestate allows. -/
theorem Reachable.allowsAt {sys : System ι C R ε X W} {T : Typestate C R ε σ} {i : ι} {start : σ}
    {rest : σ → Prop} (follows : sys.FollowsAt i T start rest) {s : State ι C R ε W}
    (reached : sys.Reachable s) {c : C} {k : Except ε (R c) → Prog C R ε Unit}
    (issues : s.threads i = .cmd c k) : T.allows (T.current start i s.history) c := by
  have keeps := reached.keepsAt follows
  rw [issues] at keeps
  exact keeps.1

/-- When the thread is at rest in a reachable state, it is in a state it may rest in. -/
theorem Reachable.restingAt {sys : System ι C R ε X W} {T : Typestate C R ε σ} {i : ι} {start : σ}
    {rest : σ → Prop} (follows : sys.FollowsAt i T start rest) {s : State ι C R ε W}
    (reached : sys.Reachable s) (rests : s.threads i = .ret ()) :
    rest (T.current start i s.history) := by
  have keeps := reached.keepsAt follows
  rw [rests] at keeps
  exact keeps

/-- What no allowed command ends holds of the thread's state throughout. -/
theorem Reachable.staysAt {sys : System ι C R ε X W} {T : Typestate C R ε σ} {i : ι} {start : σ}
    {rest : σ → Prop} (follows : sys.FollowsAt i T start rest) {I : σ → Prop} (here : I start)
    (stays : ∀ q c r, I q → T.allows q c → I (T.next q c r)) {s : State ι C R ε W}
    (reached : sys.Reachable s) : I (T.current start i s.history) := by
  induction reached with
  | init w start => exact here
  | @step s t before moved ih =>
    cases moved with
    | call j p rests called => exact ih
    | cmd j x c k issues may =>
      by_cases same : j = i
      · subst same
        rw [Snapshot.after_history, T.current_own start ⟨j, c, (sys.exec x c s.world).1⟩ rfl]
        exact stays _ _ _ ih (before.allowsAt follows issues)
      · rw [Snapshot.after_history, T.current_other start ⟨j, c, (sys.exec x c s.world).1⟩ same]
        exact ih
    | env w acts => exact ih

/-- Every thread follows the typestate. -/
structure Follows (sys : System ι C R ε X W) (T : Typestate C R ε σ) (start : ι → σ)
    (rest : ι → σ → Prop) : Prop where
  start : ∀ i, rest i (start i)
  calls : ∀ i p q, sys.calls i p → rest i q → p.Keeps T (fun _ => rest i) (fun _ _ => True) q

omit [DecidableEq ι] in
theorem Follows.at {sys : System ι C R ε X W} {T : Typestate C R ε σ} {start : ι → σ}
    {rest : ι → σ → Prop} (follows : sys.Follows T start rest) (i : ι) :
    sys.FollowsAt i T (start i) (rest i) :=
  ⟨follows.start i, follows.calls i⟩

/-- A command issued in a reachable state is one its thread's typestate allows. -/
theorem Reachable.allows {sys : System ι C R ε X W} {T : Typestate C R ε σ} {start : ι → σ}
    {rest : ι → σ → Prop} (follows : sys.Follows T start rest) {s : State ι C R ε W}
    (reached : sys.Reachable s) {i : ι} {c : C} {k : Except ε (R c) → Prog C R ε Unit}
    (issues : s.threads i = .cmd c k) : T.allows (T.current (start i) i s.history) c :=
  reached.allowsAt (follows.at i) issues

/-- A thread that is at rest in a reachable state is in a state it may rest in. -/
theorem Reachable.resting {sys : System ι C R ε X W} {T : Typestate C R ε σ} {start : ι → σ}
    {rest : ι → σ → Prop} (follows : sys.Follows T start rest) {s : State ι C R ε W}
    (reached : sys.Reachable s) {i : ι} (rests : s.threads i = .ret ()) :
    rest i (T.current (start i) i s.history) :=
  reached.restingAt (follows.at i) rests

/-- A thread issues only what its calls can issue. -/
theorem Reachable.uses {sys : System ι C R ε X W} {P : ι → C → Prop}
    (uses : ∀ i p, sys.calls i p → p.Uses (P i)) {s : State ι C R ε W} (reached : sys.Reachable s)
    {i : ι} {c : C} {k : Except ε (R c) → Prog C R ε Unit} (issues : s.threads i = .cmd c k) :
    P i c := by
  let T : Typestate C R ε Unit := { next := fun _ _ _ => (), allows := fun _ => P i }
  have follows : sys.FollowsAt i T () fun _ => True := by
    refine ⟨trivial, fun p q called _ => ?_⟩
    have keeps : p.Keeps T (fun _ _ => True) (fun _ _ => True) q :=
      Prog.Keeps.of_uses (fun c allowed _ _ => ⟨allowed, fun _ => trivial⟩) (uses i p called) trivial
    exact keeps
  exact reached.allowsAt follows issues

/-- The invariant rule. A step may use that the state it leaves is reachable and at which
command its thread is. -/
theorem Reachable.invariant {sys : System ι C R ε X W} {I : Snapshot ι C R ε W → Prop}
    (init : ∀ w, sys.init w → I ⟨w, []⟩)
    (cmd : ∀ (s : State ι C R ε W) i x c k, sys.Reachable s → I s.toSnapshot →
      s.threads i = .cmd c k → sys.may s.toSnapshot i x c → I (s.toSnapshot.after sys.exec i x c))
    (env : ∀ (s : State ι C R ε W) w, sys.Reachable s → I s.toSnapshot →
      sys.env s.toSnapshot w → I ⟨w, s.history⟩)
    {s : State ι C R ε W} (reached : sys.Reachable s) : I s.toSnapshot := by
  induction reached with
  | init w start => exact init w start
  | @step s t before moved ih =>
    cases moved with
    | call i p rests called => exact ih
    | cmd i x c k issues may => exact cmd s i x c k before ih issues may
    | env w acts => exact env s w before ih acts

/-- What one command and one environment step each keep holds between a reachable state and
any later one. -/
theorem Reachable.always {sys : System ι C R ε X W} {P : Snapshot ι C R ε W → Prop}
    (cmd : ∀ (s : State ι C R ε W) i x c k, sys.Reachable s → P s.toSnapshot →
      s.threads i = .cmd c k → sys.may s.toSnapshot i x c → P (s.toSnapshot.after sys.exec i x c))
    (env : ∀ (s : State ι C R ε W) w, sys.Reachable s → P s.toSnapshot →
      sys.env s.toSnapshot w → P ⟨w, s.history⟩)
    {s t : State ι C R ε W} (reached : sys.Reachable s) (later : sys.Later s t)
    (here : P s.toSnapshot) : P t.toSnapshot := by
  induction later with
  | refl => exact here
  | @tail t u passed moved ih =>
    have there := reached.later passed
    cases moved with
    | call i p rests called => exact ih
    | cmd i x c k issues may => exact cmd t i x c k there ih issues may
    | env w acts => exact env t w there ih acts

end System

end Concurrent
