import KernelOmega.Store.Effects
import Mathlib.Data.List.Nodup

/-!
# Streams, acknowledgements and keys

An entry's id is its place in its stream, so an acknowledgement names one entry. This module
says what a command does to the numbering of the two streams that have readers with duties, to
the acknowledgements of a group, to how far the group has read, and to the string under a key.
-/

namespace KernelOmega

open Concurrent

/-- Every entry's id is its place. -/
def Numbered {α : Type} (id : α → Nat) (stream : List α) : Prop :=
  ∀ (k : Nat) (a : α), stream[k]? = some a → id a = k

namespace Numbered

variable {α : Type} {id : α → Nat} {stream : List α}

theorem nil : Numbered id [] := by
  intro k a found
  cases found

/-- The next entry has the next number. -/
theorem concat (numbered : Numbered id stream) {a : α} (next : id a = stream.length) :
    Numbered id (stream ++ [a]) := by
  intro k b found
  rcases Nat.lt_or_ge k stream.length with inside | outside
  · rw [List.getElem?_append_left inside] at found
    exact numbered k b found
  · rw [List.getElem?_append_right outside] at found
    obtain ⟨bound, same⟩ := List.getElem?_eq_some_iff.mp found
    simp only [List.length_singleton, Nat.lt_one_iff] at bound
    simp only [bound, List.getElem_cons_zero] at same
    subst same
    omega

/-- Two entries with one id are one entry. -/
theorem unique (numbered : Numbered id stream) {a b : α} (memA : a ∈ stream) (memB : b ∈ stream)
    (same : id a = id b) : a = b := by
  obtain ⟨j, foundA⟩ := List.mem_iff_getElem?.mp memA
  obtain ⟨k, foundB⟩ := List.mem_iff_getElem?.mp memB
  have places : j = k := by
    rw [← numbered j a foundA, ← numbered k b foundB, same]
  subst places
  exact Option.some.inj (foundA.symm.trans foundB)

/-- The entries from a place on have ids from there on, each one once. -/
theorem count_drop_take (numbered : Numbered id stream) (start count n : Nat) :
    (((stream.drop start).take count).map id).count n ≤
      if start ≤ n ∧ n < start + ((stream.drop start).take count).length then 1 else 0 := by
  have ids : ((stream.drop start).take count).map id =
      List.range' start ((stream.drop start).take count).length := by
    refine List.ext_getElem (by simp) fun k inside _ => ?_
    simp only [List.length_map, List.length_take, List.length_drop] at inside
    have here : stream[start + k]? = some stream[start + k] :=
      List.getElem?_eq_getElem (by omega)
    simp only [List.getElem_map, List.getElem_take, List.getElem_drop, List.getElem_range']
    rw [numbered _ _ here]
    omega
  rw [ids]
  split
  · exact List.nodup_iff_count_le_one.mp List.nodup_range' n
  · next outside =>
    refine (List.count_eq_zero.mpr fun mem => outside ?_).le
    rw [List.mem_range'_1] at mem
    exact mem

end Numbered

/-- The message ids a transaction acknowledges to a group. -/
def acksOf (group : String) (ops : List RedisOp) : List Nat :=
  ops.filterMap fun
    | .xack group' id => if group' = group then some id else none
    | _ => none

theorem acksOf_append (group : String) (ops ops' : List RedisOp) :
    acksOf group (ops ++ ops') = acksOf group ops ++ acksOf group ops' :=
  List.filterMap_append

/-- What a pipeline acknowledges it has an operation for. -/
theorem xack_mem_of_mem_acksOf {group : String} {ops : List RedisOp} {id : Nat}
    (mem : id ∈ acksOf group ops) : .xack group id ∈ ops := by
  obtain ⟨op, there, acked⟩ := List.mem_filterMap.mp mem
  cases op with
  | xack group' id' =>
    obtain ⟨rfl, same⟩ := Option.ite_none_right_eq_some.mp acked
    obtain rfl := Option.some.inj same
    exact there
  | _ => cases acked

theorem acksOf_eq_nil {group : String} {ops : List RedisOp}
    (none : ∀ op ∈ ops, ∀ id, op ≠ .xack group id) : acksOf group ops = [] := by
  refine List.filterMap_eq_nil_iff.mpr fun op mem => ?_
  cases op with
  | xack group' id =>
    refine if_neg fun same => ?_
    subst same
    exact none _ mem id rfl
  | _ => rfl

/-- The ids a group has acknowledged. -/
def Redis.acksOf (r : Redis) (group : String) : List Nat :=
  r.acked.filterMap fun ack => if ack.1 = group then some ack.2 else none

namespace Redis

theorem applyAll_induction {P : Redis → Prop} {ops : List RedisOp}
    (step : ∀ op ∈ ops, ∀ r, P r → P (r.apply op)) {r : Redis} (here : P r) : P (r.applyAll ops) := by
  induction ops generalizing r with
  | nil => exact here
  | cons op rest ih =>
    exact ih (fun op' mem => step op' (List.mem_cons_of_mem op mem)) (step op List.mem_cons_self r here)

/-- The acknowledgements of a pipeline are added to those there are. -/
theorem applyAll_acksOf (r : Redis) (ops : List RedisOp) (group : String) :
    (r.applyAll ops).acksOf group = r.acksOf group ++ KernelOmega.acksOf group ops := by
  induction ops generalizing r with
  | nil => exact (List.append_nil _).symm
  | cons op rest ih =>
    refine (ih (r.apply op)).trans ?_
    have first : (r.apply op).acksOf group = r.acksOf group ++ KernelOmega.acksOf group [op] := by
      cases op with
      | xack group' id =>
        simp only [Redis.acksOf, apply, List.filterMap_append, KernelOmega.acksOf, List.filterMap_cons,
          List.filterMap_nil]
      | _ => exact (List.append_nil _).symm
    rw [first, List.append_assoc, ← acksOf_append, List.singleton_append]

/-- The entries a pipeline adds are numbered on. -/
theorem applyAll_numbered {r : Redis} (numbered : Numbered AcceptedMessage.id r.accepted)
    (ops : List RedisOp) : Numbered AcceptedMessage.id (r.applyAll ops).accepted := by
  refine applyAll_induction (P := fun r => Numbered AcceptedMessage.id r.accepted) ?_ numbered
  intro op _ r numbered
  cases op with
  | xaddAccepted payload => exact numbered.concat rfl
  | _ => exact numbered

/-- A string changes only under a `SET` of its key. -/
theorem applyAll_strings (r : Redis) (ops : List RedisOp) (key : String) :
    (r.applyAll ops).strings key = r.strings key ∨
      ∃ value, RedisOp.set key value ∈ ops ∧ (r.applyAll ops).strings key = some { value := value } := by
  refine applyAll_induction (P := fun r' => r'.strings key = r.strings key ∨
    ∃ value, RedisOp.set key value ∈ ops ∧ r'.strings key = some { value := value }) ?_ (.inl rfl)
  intro op mem r' before
  cases op with
  | set key' value =>
    by_cases same : key' = key
    · subst same
      exact .inr ⟨value, mem, Function.update_self ..⟩
    · have kept : (r'.apply (.set key' value)).strings key = r'.strings key :=
        Function.update_of_ne (Ne.symm same) _ _
      rw [kept]
      exact before
  | _ => exact before

end Redis

namespace World

variable (x : Choice) (c : Cmd) (w : World)

/-- The acknowledgements of a group grow with the transactions. -/
theorem exec_acksOf (group : String) : (World.exec x c w).2.redis.acksOf group = w.redis.acksOf group ∨
    ∃ ops, c = .redis (.pipeline ops) ∧ x.fail = false ∧
      (World.exec x c w).2.redis.acksOf group = w.redis.acksOf group ++ acksOf group ops := by
  rcases exec_redis_cases x c w with same | ⟨command, rfl, after⟩
  · exact .inl (by rw [same])
  · cases fails : x.fail with
    | true => exact .inl (by rw [exec_redis_fail fails])
    | false =>
      rw [after]
      cases command with
      | pipeline ops => exact .inr ⟨ops, rfl, rfl, w.redis.applyAll_acksOf ops group⟩
      | set key value nx ex =>
        left
        simp only [Redis.exec]
        split <;> rfl
      | _ => exact .inl rfl

/-- The results stay numbered, -/
theorem exec_results_numbered (numbered : Numbered ResultMessage.id w.redis.results) :
    Numbered ResultMessage.id (World.exec x c w).2.redis.results := by
  rcases exec_redis_cases x c w with same | ⟨command, rfl, after⟩
  · rw [same]
    exact numbered
  · rw [after]
    cases command with
    | xaddResult pack => exact numbered.concat rfl
    | pipeline ops =>
      rw [show (w.redis.exec w.clock (.pipeline ops)).2.results = w.redis.results from
        w.redis.applyAll_results ops]
      exact numbered
    | set key value nx ex =>
      simp only [Redis.exec]
      split <;> exact numbered
    | _ => exact numbered

/-- and none is removed. -/
theorem exec_results_mem {message : ResultMessage} (mem : message ∈ w.redis.results) :
    message ∈ (World.exec x c w).2.redis.results := by
  rcases exec_redis_cases x c w with same | ⟨command, rfl, after⟩
  · rw [same]
    exact mem
  · rw [after]
    cases command with
    | xaddResult pack => exact List.mem_append_left _ mem
    | pipeline ops =>
      rw [show (w.redis.exec w.clock (.pipeline ops)).2.results = w.redis.results from
        w.redis.applyAll_results ops]
      exact mem
    | set key value nx ex =>
      simp only [Redis.exec]
      split <;> exact mem
    | _ => exact mem

/-- The accepted entries stay numbered, -/
theorem exec_accepted_numbered (numbered : Numbered AcceptedMessage.id w.redis.accepted) :
    Numbered AcceptedMessage.id (World.exec x c w).2.redis.accepted := by
  rcases exec_redis_cases x c w with same | ⟨command, rfl, after⟩
  · rw [same]
    exact numbered
  · rw [after]
    cases command with
    | pipeline ops => exact Redis.applyAll_numbered numbered ops
    | set key value nx ex =>
      simp only [Redis.exec]
      split <;> exact numbered
    | _ => exact numbered

/-- and none is removed. -/
theorem exec_accepted_mem {message : AcceptedMessage} (mem : message ∈ w.redis.accepted) :
    message ∈ (World.exec x c w).2.redis.accepted := by
  rcases exec_redis_cases x c w with same | ⟨command, rfl, after⟩
  · rw [same]
    exact mem
  · rw [after]
    cases command with
    | pipeline ops =>
      refine Redis.applyAll_induction (P := fun r => message ∈ r.accepted) ?_ mem
      intro op _ r mem
      cases op with
      | xaddAccepted payload => exact List.mem_append_left _ mem
      | _ => exact mem
    | set key value nx ex =>
      simp only [Redis.exec]
      split <;> exact mem
    | _ => exact mem

/-- A group does not read backwards. -/
theorem exec_delivered_le (group : String) :
    w.redis.delivered group ≤ (World.exec x c w).2.redis.delivered group := by
  have further : ∀ group' n, w.redis.delivered group ≤
      Function.update w.redis.delivered group' (w.redis.delivered group' + n) group := by
    intro group' n
    by_cases same : group = group'
    · rw [same, Function.update_self]
      exact Nat.le_add_right _ _
    · rw [Function.update_of_ne same]
  rcases exec_redis_cases x c w with same | ⟨command, rfl, after⟩
  · rw [same]
  · rw [after]
    cases command with
    | xreadgroupDispatch group' count => exact further group' _
    | xreadgroupResults group' count => exact further group' _
    | xreadgroupAccepted group' count => exact further group' _
    | pipeline ops =>
      refine Redis.applyAll_induction (P := fun r => w.redis.delivered group ≤ r.delivered group) ?_ le_rfl
      intro op _ r bound
      cases op <;> exact bound
    | set key value nx ex =>
      simp only [Redis.exec]
      split <;> exact le_rfl
    | _ => exact le_rfl

/-- What a command can do to the string under a key. -/
theorem exec_strings (key : String) :
    (World.exec x c w).2.redis.strings key = w.redis.strings key ∨
      (∃ value nx ex, c = .redis (.set key value nx ex) ∧
        (nx = true → w.redis.strings key = none) ∧ (World.exec x c w).2.redis.strings key =
          some { value := value, deadline := ex.map (w.clock + ·) }) ∨
      (c = .redis (.delete key) ∧ (World.exec x c w).2.redis.strings key = none) ∨
      ∃ ops value, c = .redis (.pipeline ops) ∧ RedisOp.set key value ∈ ops ∧
        (World.exec x c w).2.redis.strings key = some { value := value } := by
  rcases exec_redis_cases x c w with same | ⟨command, rfl, after⟩
  · exact .inl (by rw [same])
  · rw [after]
    cases command with
    | set key' value nx ex =>
      simp only [Redis.exec]
      split
      · exact .inl rfl
      · next free =>
        by_cases same : key' = key
        · subst same
          refine .inr (.inl ⟨value, nx, ex, rfl, fun nx => ?_, Function.update_self ..⟩)
          simpa only [nx, Bool.true_and, Option.not_isSome_iff_eq_none] using free
        · exact .inl (Function.update_of_ne (Ne.symm same) _ _)
    | delete key' =>
      by_cases same : key' = key
      · subst same
        exact .inr (.inr (.inl ⟨rfl, Function.update_self ..⟩))
      · exact .inl (Function.update_of_ne (Ne.symm same) _ _)
    | pipeline ops =>
      rcases w.redis.applyAll_strings ops key with same | ⟨value, mem, stored⟩
      · exact .inl same
      · exact .inr (.inr (.inr ⟨ops, value, rfl, mem, stored⟩))
    | _ => exact .inl rfl

end World

end KernelOmega
