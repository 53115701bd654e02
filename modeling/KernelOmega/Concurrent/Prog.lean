import Mathlib.Logic.Function.Basic

/-!
# Programs over a command signature

A daemon is a program that issues one command at a time to shared stores and
goes on with the reply. `Prog` is the free construction over a signature `C` of
commands with reply types `R`: a leaf returns or raises, a node issues a command
and continues with its reply, which may itself be an error. Nothing here says
what a command does; `Exec` gives that meaning, and the two ways of running a
program share it: `Prog.run` is the run with no other program around, and
`Concurrent.System` interleaves the commands of many.

A node is the unit of atomicity. Whatever has to happen in one step of the store
is one command, and everything else can be interleaved.
-/

namespace Concurrent

/-- A program that issues commands `c : C`, receives replies in `R c` or an error
in `ε`, and returns in `α`. -/
inductive Prog (C : Type) (R : C → Type) (ε α : Type) where
  | ret (a : α)
  | raise (e : ε)
  | cmd (c : C) (k : Except ε (R c) → Prog C R ε α)

/-- The meaning of one command: the scheduler's choice `x` settles what the
command itself leaves open (a fresh identifier, a lost connection). -/
abbrev Exec (C : Type) (R : C → Type) (ε X W : Type) :=
  X → (c : C) → W → Except ε (R c) × W

namespace Prog

variable {C : Type} {R : C → Type} {ε α β X W : Type}

/-- Sequencing: the continuation takes the place of every returning leaf. -/
def bind : Prog C R ε α → (α → Prog C R ε β) → Prog C R ε β
  | .ret a, f => f a
  | .raise e, _ => .raise e
  | .cmd c k, f => .cmd c fun r => (k r).bind f

instance : Monad (Prog C R ε) where
  pure := .ret
  bind := .bind

/-- Issue one command; its error is raised. -/
def call (c : C) : Prog C R ε (R c) :=
  .cmd c fun
    | .ok r => .ret r
    | .error e => .raise e

/-- A pure step that may raise. -/
def ofExcept : Except ε α → Prog C R ε α
  | .ok a => .ret a
  | .error e => .raise e

/-- `try p except e: h e`: the handler takes the place of every raising leaf. -/
def tryCatch : Prog C R ε α → (ε → Prog C R ε α) → Prog C R ε α
  | .ret a, _ => .ret a
  | .raise e, h => h e
  | .cmd c k, h => .cmd c fun r => (k r).tryCatch h

/-- `try p finally q`: `q` runs after `p` either way, and an error of `p` is
raised again after it. -/
def tryFinally : Prog C R ε α → Prog C R ε Unit → Prog C R ε α
  | .ret a, q => q.bind fun _ => .ret a
  | .raise e, q => q.bind fun _ => .raise e
  | .cmd c k, q => .cmd c fun r => (k r).tryFinally q

/-- The command the program issues next, if it has not ended. -/
def head : Prog C R ε α → Option C
  | .cmd c _ => some c
  | _ => none

/-- A program with a next command is that command and what comes after. -/
theorem eq_cmd_of_head {p : Prog C R ε α} {c : C} (next : p.head = some c) :
    ∃ k, p = .cmd c k := by
  cases p with
  | cmd c' k =>
    obtain rfl := Option.some.inj next
    exact ⟨k, rfl⟩
  | ret a => cases next
  | raise e => cases next

/-- Every command the program can issue, whatever the replies, satisfies `P`. -/
def Uses (P : C → Prop) : Prog C R ε α → Prop
  | .ret _ => True
  | .raise _ => True
  | .cmd c k => P c ∧ ∀ r, (k r).Uses P

/-- Every value the program can return, whatever the replies, satisfies `Q`. -/
def Yields (Q : α → Prop) : Prog C R ε α → Prop
  | .ret a => Q a
  | .raise _ => True
  | .cmd _ k => ∀ r, (k r).Yields Q

@[simp] theorem pure_eq (a : α) : (pure a : Prog C R ε α) = .ret a := rfl

@[simp] theorem ret_bind (a : α) (f : α → Prog C R ε β) : (.ret a >>= f) = f a := rfl

@[simp] theorem raise_bind (e : ε) (f : α → Prog C R ε β) :
    ((.raise e : Prog C R ε α) >>= f) = .raise e := rfl

@[simp] theorem cmd_bind (c : C) (k : Except ε (R c) → Prog C R ε α) (f : α → Prog C R ε β) :
    (.cmd c k >>= f) = .cmd c fun r => k r >>= f := rfl

theorem bind_ret (p : Prog C R ε α) : (p >>= .ret) = p := by
  induction p with
  | ret a => rfl
  | raise e => rfl
  | cmd c k ih => exact congrArg (Prog.cmd c) (funext ih)

theorem bind_bind {γ : Type} (p : Prog C R ε α) (f : α → Prog C R ε β) (g : β → Prog C R ε γ) :
    (p >>= f >>= g) = p >>= fun a => f a >>= g := by
  induction p with
  | ret a => rfl
  | raise e => rfl
  | cmd c k ih => exact congrArg (Prog.cmd c) (funext ih)

instance : LawfulMonad (Prog C R ε) :=
  .mk' (Prog C R ε) bind_ret (fun _ _ => rfl) bind_bind

@[simp] theorem ofExcept_ok (a : α) : (ofExcept (.ok a) : Prog C R ε α) = .ret a := rfl

@[simp] theorem ofExcept_error (e : ε) : (ofExcept (.error e) : Prog C R ε α) = .raise e := rfl

theorem uses_call {P : C → Prop} {c : C} (allowed : P c) :
    (call c : Prog C R ε (R c)).Uses P := by
  refine ⟨allowed, fun r => ?_⟩
  cases r <;> trivial

theorem uses_ofExcept {P : C → Prop} (r : Except ε α) :
    (ofExcept r : Prog C R ε α).Uses P := by
  cases r <;> trivial

theorem Uses.bind {P : C → Prop} {p : Prog C R ε α} {f : α → Prog C R ε β}
    (first : p.Uses P) (rest : ∀ a, (f a).Uses P) : (p >>= f).Uses P := by
  induction p with
  | ret a => exact rest a
  | raise e => trivial
  | cmd c k ih => exact ⟨first.1, fun r => ih r (first.2 r)⟩

/-- Sequencing when the continuation is only entered with the values of `Q`. -/
theorem Uses.bind_of_yields {P : C → Prop} {Q : α → Prop} {p : Prog C R ε α}
    {f : α → Prog C R ε β} (first : p.Uses P) (yields : p.Yields Q)
    (rest : ∀ a, Q a → (f a).Uses P) : (p >>= f).Uses P := by
  induction p with
  | ret a => exact rest a yields
  | raise e => trivial
  | cmd c k ih => exact ⟨first.1, fun r => ih r (first.2 r) (yields r)⟩

theorem Uses.tryCatch {P : C → Prop} {p : Prog C R ε α} {h : ε → Prog C R ε α}
    (body : p.Uses P) (handler : ∀ e, (h e).Uses P) : (p.tryCatch h).Uses P := by
  induction p with
  | ret a => trivial
  | raise e => exact handler e
  | cmd c k ih => exact ⟨body.1, fun r => ih r (body.2 r)⟩

theorem yields_ofExcept (r : Except ε α) :
    (ofExcept r : Prog C R ε α).Yields fun a => r = .ok a := by
  cases r <;> trivial

theorem yields_true (p : Prog C R ε α) : p.Yields fun _ => True := by
  induction p with
  | ret a => trivial
  | raise e => trivial
  | cmd c k ih => exact ih

theorem Yields.mono {Q Q' : α → Prop} (weaker : ∀ a, Q a → Q' a) {p : Prog C R ε α}
    (yields : p.Yields Q) : p.Yields Q' := by
  induction p with
  | ret a => exact weaker a yields
  | raise e => trivial
  | cmd c k ih => exact fun r => ih r (yields r)

theorem Yields.bind {Q : α → Prop} {Q' : β → Prop} {p : Prog C R ε α} {f : α → Prog C R ε β}
    (first : p.Yields Q) (rest : ∀ a, Q a → (f a).Yields Q') : (p >>= f).Yields Q' := by
  induction p with
  | ret a => exact rest a first
  | raise e => trivial
  | cmd c k ih => exact fun r => ih r (first r)

theorem Uses.mono {P Q : C → Prop} (weaker : ∀ c, P c → Q c) {p : Prog C R ε α}
    (uses : p.Uses P) : p.Uses Q := by
  induction p with
  | ret a => trivial
  | raise e => trivial
  | cmd c k ih => exact ⟨weaker c uses.1, fun r => ih r (uses.2 r)⟩

/-- The run of a program alone: `xs` lists the scheduler's choices, one for each
command in the order they are issued. -/
def run (exec : Exec C R ε X W) : Prog C R ε α → (Nat → X) → W → Except ε α × W
  | .ret a, _, w => (.ok a, w)
  | .raise e, _, w => (.error e, w)
  | .cmd c k, xs, w =>
    let (r, w') := exec (xs 0) c w
    (k r).run exec (fun n => xs (n + 1)) w'

/-- A program whose first part returns goes on with the second part. -/
theorem run_bind {exec : Exec C R ε X W} {p : Prog C R ε α} (f : α → Prog C R ε β) {x : X} {a : α}
    {w w' : W} (returns : p.run exec (fun _ => x) w = (.ok a, w')) :
    (p >>= f).run exec (fun _ => x) w = (f a).run exec (fun _ => x) w' := by
  induction p generalizing w with
  | ret b =>
    obtain ⟨same, rfl⟩ := Prod.mk.inj returns
    exact Except.ok.inj same ▸ rfl
  | raise e => cases (Prod.mk.inj returns).1
  | cmd c k ih => exact ih _ returns

/-- A program whose first part raises ends there. -/
theorem run_bind_error {exec : Exec C R ε X W} {p : Prog C R ε α} (f : α → Prog C R ε β) {x : X}
    {e : ε} {w w' : W} (raises : p.run exec (fun _ => x) w = (.error e, w')) :
    (p >>= f).run exec (fun _ => x) w = (.error e, w') := by
  induction p generalizing w with
  | ret b => cases (Prod.mk.inj raises).1
  | raise e' =>
    obtain ⟨same, rfl⟩ := Prod.mk.inj raises
    obtain rfl := Except.error.inj same
    rfl
  | cmd c k ih => exact ih _ raises

/-- A sequence returns when both parts do. -/
theorem run_bind_eq_ok {exec : Exec C R ε X W} {p : Prog C R ε α} {f : α → Prog C R ε β} {x : X}
    {b : β} {w w' : W} (returns : (p >>= f).run exec (fun _ => x) w = (.ok b, w')) :
    ∃ a w₁, p.run exec (fun _ => x) w = (.ok a, w₁) ∧ (f a).run exec (fun _ => x) w₁ = (.ok b, w') := by
  cases ran : p.run exec (fun _ => x) w with
  | mk result w₁ =>
    cases result with
    | ok a => exact ⟨a, w₁, rfl, (run_bind f ran).symm.trans returns⟩
    | error e =>
      rw [run_bind_error f ran] at returns
      cases (Prod.mk.inj returns).1

/-- The commands a program issues when it runs alone, in order. -/
def issued (exec : Exec C R ε X W) : Prog C R ε α → (Nat → X) → W → List C
  | .ret _, _, _ => []
  | .raise _, _, _ => []
  | .cmd c k, xs, w =>
    c :: (k (exec (xs 0) c w).1).issued exec (fun n => xs (n + 1)) (exec (xs 0) c w).2

/-- The commands of a sequence are those of its first part and those of the rest. -/
theorem issued_bind {exec : Exec C R ε X W} {p : Prog C R ε α} (f : α → Prog C R ε β) {x : X}
    {a : α} {w w' : W} (returns : p.run exec (fun _ => x) w = (.ok a, w')) :
    (p >>= f).issued exec (fun _ => x) w =
      p.issued exec (fun _ => x) w ++ (f a).issued exec (fun _ => x) w' := by
  induction p generalizing w with
  | ret b =>
    obtain ⟨same, rfl⟩ := Prod.mk.inj returns
    exact Except.ok.inj same ▸ rfl
  | raise e => cases (Prod.mk.inj returns).1
  | cmd c k ih => exact congrArg (c :: ·) (ih _ returns)

/-- A program issues only what it can issue. -/
theorem Uses.issued {P : C → Prop} {exec : Exec C R ε X W} {p : Prog C R ε α} (uses : p.Uses P)
    (xs : Nat → X) (w : W) : ∀ c ∈ p.issued exec xs w, P c := by
  induction p generalizing xs w with
  | ret a => exact fun _ mem => by cases mem
  | raise e => exact fun _ mem => by cases mem
  | cmd c k ih =>
    intro c' mem
    rcases List.mem_cons.mp mem with rfl | mem
    · exact uses.1
    · exact ih _ (uses.2 _) _ _ c' mem

/-- What a program returns when its commands find the worlds `ws` in turn, whatever
happened between them. -/
def replay (exec : Exec C R ε X W) : Prog C R ε α → (Nat → X) → (Nat → W) → Except ε α
  | .ret a, _, _ => .ok a
  | .raise e, _, _ => .error e
  | .cmd c k, xs, ws =>
    (k (exec (xs 0) c (ws 0)).1).replay exec (fun n => xs (n + 1)) fun n => ws (n + 1)

theorem replay_map (exec : Exec C R ε X W) (p : Prog C R ε α) (f : α → β) (xs : Nat → X)
    (ws : Nat → W) : (p >>= fun a => .ret (f a)).replay exec xs ws = (p.replay exec xs ws).map f := by
  induction p generalizing xs ws with
  | ret a => rfl
  | raise e => rfl
  | cmd c k ih => exact ih _ _ _

end Prog

end Concurrent
