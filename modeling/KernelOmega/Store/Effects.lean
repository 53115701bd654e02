import KernelOmega.Store.World
import Mathlib

/-!
# What a command adds

Streams only grow, and a counter moves by what `INCR` and `DECR` say. What a command adds
to each is a function of the command and its reply, so that a stream is what the history
of a run has added to it: a command that fails adds nothing.
-/

namespace KernelOmega

open Concurrent

/-- The entries a command appends to the dispatch stream. -/
def Cmd.requests : (c : Cmd) → Except PyError c.Reply → List ExecutionRequest
  | .redis (.xaddDispatch request) => fun
    | .ok _ => [request]
    | .error _ => []
  | _ => fun _ => []

/-- The packs a command appends to the results stream. -/
def Cmd.packs : (c : Cmd) → Except PyError c.Reply → List VerificationPack
  | .redis (.xaddResult pack) => fun
    | .ok _ => [pack]
    | .error _ => []
  | _ => fun _ => []

def RedisOp.payloads : RedisOp → List AcceptedPayload
  | .xaddAccepted payload => [payload]
  | _ => []

/-- The payloads a command appends to the accepted stream. -/
def Cmd.payloads : (c : Cmd) → Except PyError c.Reply → List AcceptedPayload
  | .redis (.pipeline ops) => fun
    | .ok _ => ops.flatMap RedisOp.payloads
    | .error _ => []
  | _ => fun _ => []

/-- The payloads whose patches a command applies. -/
def Cmd.patches : (c : Cmd) → Except PyError c.Reply → List AcceptedPayload
  | .applyPatch payload => fun
    | .ok _ => [payload]
    | .error _ => []
  | _ => fun _ => []

def RedisOp.adds (key : String) : RedisOp → Int
  | .incr key' => if key' = key then 1 else 0
  | _ => 0

/-- What a command adds to a counter. -/
def Cmd.adds (key : String) : (c : Cmd) → Except PyError c.Reply → Int
  | .redis (.incr key') => fun
    | .ok _ => if key' = key then 1 else 0
    | .error _ => 0
  | .redis (.decr key') => fun
    | .ok _ => if key' = key then -1 else 0
    | .error _ => 0
  | .redis (.pipeline ops) => fun
    | .ok _ => (ops.map (RedisOp.adds key)).sum
    | .error _ => 0
  | _ => fun _ => 0

/-- Only an `XADD` of the request appends it. -/
theorem Cmd.eq_of_mem_requests {c : Cmd} {reply : Except PyError c.Reply} {request : ExecutionRequest}
    (mem : request ∈ c.requests reply) : c = .redis (.xaddDispatch request) := by
  cases c with
  | redis c =>
    cases c with
    | xaddDispatch request' =>
      cases reply with
      | ok v =>
        obtain rfl := List.mem_singleton.mp mem
        rfl
      | error e => cases mem
    | _ => cases mem
  | _ => cases mem

/-- What a counter stands at. -/
def Redis.count (r : Redis) (key : String) : Int := (r.counters key).getD 0

/-- The payloads on the accepted stream. -/
def Redis.payloads (r : Redis) : List AcceptedPayload := r.accepted.map (·.payload)

/-- What the readers make of the results stream. -/
def Redis.packs (r : Redis) : List (Except PyError VerificationPack) := r.results.map (·.pack)

namespace Redis

/-- Adding to a counter moves that counter. -/
theorem count_addToCounter (r : Redis) (key key' : String) (n : Int) :
    (r.addToCounter key' n).count key = r.count key + if key' = key then n else 0 := by
  unfold count addToCounter
  dsimp only
  split
  · next same =>
    subst same
    rw [Function.update_self, Option.getD_some]
  · next other => rw [Function.update_of_ne (Ne.symm other), Int.add_zero]

/-- A pipeline puts nothing on the dispatch stream, -/
theorem applyAll_dispatch (r : Redis) (ops : List RedisOp) :
    (r.applyAll ops).dispatch = r.dispatch := by
  induction ops generalizing r with
  | nil => rfl
  | cons op rest ih =>
    refine (ih (r.apply op)).trans ?_
    cases op <;> rfl

/-- nothing on the results stream, -/
theorem applyAll_results (r : Redis) (ops : List RedisOp) :
    (r.applyAll ops).results = r.results := by
  induction ops generalizing r with
  | nil => rfl
  | cons op rest ih =>
    refine (ih (r.apply op)).trans ?_
    cases op <;> rfl

/-- and delivers nothing. -/
theorem applyAll_delivered (r : Redis) (ops : List RedisOp) :
    (r.applyAll ops).delivered = r.delivered := by
  induction ops generalizing r with
  | nil => rfl
  | cons op rest ih =>
    refine (ih (r.apply op)).trans ?_
    cases op <;> rfl

/-- The payloads of a pipeline are put on the stream in their order, -/
theorem applyAll_payloads (r : Redis) (ops : List RedisOp) :
    (r.applyAll ops).payloads = r.payloads ++ ops.flatMap RedisOp.payloads := by
  induction ops generalizing r with
  | nil => exact (List.append_nil _).symm
  | cons op rest ih =>
    have first : (r.apply op).payloads = r.payloads ++ op.payloads := by
      cases op with
      | xaddAccepted payload =>
        simp only [payloads, apply, RedisOp.payloads, List.map_append, List.map_cons, List.map_nil]
      | _ => exact (List.append_nil _).symm
    refine (ih (r.apply op)).trans ?_
    rw [first, List.flatMap_cons, List.append_assoc]

/-- and its increments add up. -/
theorem applyAll_count (r : Redis) (ops : List RedisOp) (key : String) :
    (r.applyAll ops).count key = r.count key + (ops.map (RedisOp.adds key)).sum := by
  induction ops generalizing r with
  | nil => exact (Int.add_zero _).symm
  | cons op rest ih =>
    have first : (r.apply op).count key = r.count key + op.adds key := by
      cases op with
      | incr key' => exact r.count_addToCounter key key' 1
      | _ => exact (Int.add_zero _).symm
    refine (ih (r.apply op)).trans ?_
    rw [first, List.map_cons, List.sum_cons, Int.add_assoc]

end Redis

namespace World

variable (x : Choice) (c : Cmd) (w : World)

/-- A part of Redis that only Redis commands change. -/
theorem exec_redis_part {α : Type} (part : Redis → α) (adds : (c : Cmd) → Except PyError c.Reply → α → α)
    (silent : ∀ c reply a, (∀ command, c ≠ .redis command) → adds c reply a = a)
    (failed : ∀ command e a, adds (.redis command) (.error e) a = a)
    (stored : ∀ command, part (w.redis.exec w.clock command).2 =
      adds (.redis command) (.ok (w.redis.exec w.clock command).1) (part w.redis)) :
    part (World.exec x c w).2.redis = adds c (World.exec x c w).1 (part w.redis) := by
  cases c with
  | redis command =>
    cases fails : x.fail with
    | true => rw [exec_redis_fail fails, failed]
    | false => rw [exec_redis_ok fails, stored]
  | _ =>
    rcases exec_redis_cases x _ w with same | ⟨command, other, -⟩
    · rw [same]
      exact (silent _ _ _ fun _ other => by cases other).symm
    · cases other

/-- The dispatch stream grows by what a command puts on it, -/
theorem exec_dispatch : (World.exec x c w).2.redis.dispatch =
    w.redis.dispatch ++ c.requests (World.exec x c w).1 := by
  refine exec_redis_part x c w Redis.dispatch (fun c reply old => old ++ c.requests reply) ?_ ?_ ?_
  · intro c reply a other
    cases c with
    | redis command => exact absurd rfl (other command)
    | _ => exact List.append_nil a
  · intro command e a
    cases command <;> exact List.append_nil a
  · intro command
    cases command with
    | xaddDispatch request => rfl
    | pipeline ops => exact (Redis.applyAll_dispatch w.redis ops).trans (List.append_nil _).symm
    | set key value nx ex =>
      simp only [Redis.exec, Cmd.requests, List.append_nil]
      split <;> rfl
    | _ => exact (List.append_nil _).symm

/-- the results stream by its packs, -/
theorem exec_packs : (World.exec x c w).2.redis.packs =
    w.redis.packs ++ (c.packs (World.exec x c w).1).map .ok := by
  refine exec_redis_part x c w Redis.packs (fun c reply old => old ++ (c.packs reply).map .ok) ?_ ?_ ?_
  · intro c reply a other
    cases c with
    | redis command => exact absurd rfl (other command)
    | _ => exact List.append_nil a
  · intro command e a
    cases command <;> exact List.append_nil a
  · intro command
    cases command with
    | xaddResult pack => exact List.map_append
    | pipeline ops =>
      refine Eq.trans ?_ (List.append_nil _).symm
      exact congrArg (List.map ResultMessage.pack) (Redis.applyAll_results w.redis ops)
    | set key value nx ex =>
      simp only [Redis.exec, Cmd.packs, List.map_nil, List.append_nil]
      split <;> rfl
    | _ => exact (List.append_nil _).symm

/-- and the accepted stream by its payloads. -/
theorem exec_payloads : (World.exec x c w).2.redis.payloads =
    w.redis.payloads ++ c.payloads (World.exec x c w).1 := by
  refine exec_redis_part x c w Redis.payloads (fun c reply old => old ++ c.payloads reply) ?_ ?_ ?_
  · intro c reply a other
    cases c with
    | redis command => exact absurd rfl (other command)
    | _ => exact List.append_nil a
  · intro command e a
    cases command <;> exact List.append_nil a
  · intro command
    cases command with
    | pipeline ops => exact Redis.applyAll_payloads w.redis ops
    | set key value nx ex =>
      simp only [Redis.exec, Cmd.payloads, List.append_nil]
      split <;> rfl
    | _ => exact (List.append_nil _).symm

/-- A counter moves by what a command adds to it. -/
theorem exec_count (key : String) : (World.exec x c w).2.redis.count key =
    w.redis.count key + c.adds key (World.exec x c w).1 := by
  refine exec_redis_part x c w (·.count key) (fun c reply old => old + c.adds key reply) ?_ ?_ ?_
  · intro c reply a other
    cases c with
    | redis command => exact absurd rfl (other command)
    | _ => exact Int.add_zero a
  · intro command e a
    cases command <;> exact Int.add_zero a
  · intro command
    cases command with
    | incr key' => exact w.redis.count_addToCounter key key' 1
    | decr key' => exact w.redis.count_addToCounter key key' (-1)
    | pipeline ops => exact Redis.applyAll_count w.redis ops key
    | set key' value nx ex =>
      simp only [Redis.exec, Cmd.adds, Int.add_zero]
      split <;> rfl
    | _ => exact (Int.add_zero _).symm

/-- The patches grow by the one that a command applies. -/
theorem exec_patched : (World.exec x c w).2.patched =
    w.patched ++ c.patches (World.exec x c w).1 := by
  cases c with
  | applyPatch payload =>
    cases fails : x.fail with
    | true => simp only [World.exec, fails, ↓reduceIte, Cmd.patches, List.append_nil]
    | false => simp only [World.exec, fails, Bool.false_eq_true, ↓reduceIte, Cmd.patches]
  | redis command =>
    simp only [World.exec, Cmd.patches, List.append_nil]
    split <;> rfl
  | pg statement =>
    simp only [World.exec, Cmd.patches, List.append_nil]
    split <;> rfl
  | host command =>
    obtain ⟨inbox, after⟩ := execHost_inbox x w command
    show (w.execHost x command).2.patched = _
    rw [after]
    exact (List.append_nil _).symm
  | _ => exact (List.append_nil _).symm

end World

end KernelOmega
