import KernelOmega.Batch.Sequence
import KernelOmega.Batched.Register

/-!
# The summaries at the root

`best_reward` and `max_depth_seen` are compared with the store and written through the
pipeline: each is a register whose writes wait for the end of the batch. Neither ever falls,
and they are the maxima of what has come in exactly when every batch ends best.
-/

namespace KernelOmega

open Concurrent Batched

section Summaries

variable (taskId : String)

/-- The root's `best_reward`, as the code reads it. -/
def bestRewardOf (r : Redis) : Rat := (HashField.bestReward.of r (rootNodeId taskId)).getD 0

/-- The root's `max_depth_seen`, as the code reads it. -/
def maxDepthSeenOf (r : Redis) : Nat := (HashField.maxDepthSeen.of r (rootNodeId taskId)).getD 0

/-- What a batch says about the results for the task's nodes, one value for each. -/
def valuesIn {α : Type} (value : VerificationPack → NodeHash → α) (r : Redis)
    (batch : List VerificationPack) : List α :=
  batch.filterMap fun pack => (r.hashes pack.capsuleId).bind fun node =>
    if node.treeId = some taskId then some (value pack node) else none

/-- The rewards computed for a batch, against the store as the batch finds it. -/
def rewardsIn (r : Redis) (batch : List VerificationPack) : List Rat :=
  valuesIn taskId (GlobalMemory.reward r) r batch

/-- The depths of the nodes a batch has results for. -/
def depthsIn (r : Redis) (batch : List VerificationPack) : List Nat :=
  valuesIn taskId (fun _ node => node.depth.getD 0) r batch

/-- What the batches of a run say, each against the store it finds. -/
def World.alongRun {α : Type} (fuel : Nat) (say : Redis → List VerificationPack → List α) :
    World → List (List VerificationPack) → List (List α)
  | _, [] => []
  | w, batch :: rest =>
    say w.redis batch ::
      match w.turnOn fuel batch with
      | (.ok (), w') => World.alongRun fuel say w' rest
      | (.error _, _) => []

variable {taskId} {fuel : Nat} {w w' : World} {batch : List VerificationPack}
  {batches : List (List VerificationPack)}

/-- A summary field of the root is written when its value is above the stored one. -/
theorem summary_turned {α : Type} [LinearOrder α] {field : HashField α}
    (value : Redis → VerificationPack → NodeHash → α) {default : α}
    (sets : ∀ now r pack node task path id,
      (GlobalMemory.resultOps now r pack node task path).filterMap (field.set id) =
        if rootNodeId task = id ∧ (field.of r (rootNodeId task)).getD default < value r pack node
        then [value r pack node] else [])
    (turned : GlobalMemory.Turned fuel w w' batch) :
    (field.of w'.redis (rootNodeId taskId)).getD default =
      settle ((field.of w.redis (rootNodeId taskId)).getD default)
        (valuesIn taskId (value w.redis) w.redis batch) := by
  have queued : (batch.flatMap fun pack => (GlobalMemory.opsOf fuel w.clock w.redis pack).filterMap
      (field.set (rootNodeId taskId))) =
        (valuesIn taskId (value w.redis) w.redis batch).filter
          ((field.of w.redis (rootNodeId taskId)).getD default < ·) := by
    rw [valuesIn, List.filter_filterMap, List.filterMap_eq_flatMap_toList]
    refine List.flatMap_congr fun pack mem => ?_
    rcases GlobalMemory.queued_eq_ok (turned.queues pack mem) with
      ⟨missing, empty⟩ | ⟨node, task, path, found, named, -, own⟩
    · rw [empty, missing]
      rfl
    · rw [own, sets, found]
      by_cases same : task = taskId
      · subst same
        by_cases above : (field.of w.redis (rootNodeId task)).getD default < value w.redis pack node
        · simp [named, above, Option.filter]
        · simpa [named, above] using not_lt.mp above
      · have other : rootNodeId task ≠ rootNodeId taskId := fun h => same (rootNodeId_injective h)
        simp [named, other, same]
  rw [turned.field, queued, settle]
  cases ((valuesIn taskId (value w.redis) w.redis batch).filter _).getLast? <;> rfl

theorem bestReward_turned (turned : GlobalMemory.Turned fuel w w' batch) :
    bestRewardOf taskId w'.redis = settle (bestRewardOf taskId w.redis)
      (rewardsIn taskId w.redis batch) :=
  summary_turned GlobalMemory.reward (fun _ _ _ _ _ _ => GlobalMemory.resultOps_bestReward) turned

theorem maxDepthSeen_turned (turned : GlobalMemory.Turned fuel w w' batch) :
    maxDepthSeenOf taskId w'.redis = settle (maxDepthSeenOf taskId w.redis)
      (depthsIn taskId w.redis batch) :=
  summary_turned (fun _ _ node => node.depth.getD 0)
    (fun _ _ _ _ _ _ => GlobalMemory.resultOps_maxDepthSeen) turned

/-! ## Runs -/

/-- A run that returns is a turn that returns and a run from there. -/
theorem rememberAll_cons_eq_ok (returns : w.rememberAll fuel (batch :: batches) = .ok w') :
    ∃ between, w.turnOn fuel batch = (.ok (), between) ∧
      between.rememberAll fuel batches = .ok w' := by
  unfold World.rememberAll at returns
  split at returns
  · next between turn => exact ⟨between, turn, returns⟩
  · cases returns

/-- The first batches of a run that returns are such a run. -/
theorem rememberAll_take (n : Nat) (returns : w.rememberAll fuel batches = .ok w') :
    ∃ between, w.rememberAll fuel (batches.take n) = .ok between := by
  induction batches generalizing w n with
  | nil => exact ⟨w, by rw [List.take_nil]; rfl⟩
  | cons batch rest ih =>
    cases n with
    | zero => exact ⟨w, rfl⟩
    | succ n =>
      obtain ⟨between, turn, later⟩ := rememberAll_cons_eq_ok returns
      obtain ⟨last, runs⟩ := ih n later
      refine ⟨last, ?_⟩
      rw [List.take_succ_cons, World.rememberAll, turn]
      exact runs

/-- What is said along a front of the run is the front of what is said along all of it. -/
theorem alongRun_take {α : Type} (say : Redis → List VerificationPack → List α) (n : Nat)
    (w : World) (batches : List (List VerificationPack)) :
    w.alongRun fuel say (batches.take n) = (w.alongRun fuel say batches).take n := by
  induction batches generalizing w n with
  | nil => rw [List.take_nil, World.alongRun, List.take_nil]
  | cons batch rest ih =>
    cases n with
    | zero => rfl
    | succ n =>
      rw [List.take_succ_cons, World.alongRun, World.alongRun, List.take_succ_cons]
      split
      · rw [ih]
      · rw [List.take_nil]

/-- Along a run a summary settles batch by batch. -/
theorem summary_run {α : Type} [LinearOrder α] {summary : Redis → α}
    {say : Redis → List VerificationPack → List α}
    (turn : ∀ w w' batch, GlobalMemory.Turned fuel w w' batch →
      summary w'.redis = settle (summary w.redis) (say w.redis batch))
    (drained : w.redis.Drained) (short : ∀ batch ∈ batches, batch.length ≤ 50)
    (returns : w.rememberAll fuel batches = .ok w') :
    summary w'.redis = settleAll (summary w.redis) (w.alongRun fuel say batches) := by
  induction batches generalizing w with
  | nil =>
    obtain rfl := Except.ok.inj returns
    rfl
  | cons batch rest ih =>
    obtain ⟨between, first, later⟩ := rememberAll_cons_eq_ok returns
    have turned := GlobalMemory.turnOn_turned drained (short batch List.mem_cons_self) first
    rw [ih turned.drained (fun b mem => short b (List.mem_cons_of_mem batch mem)) later,
      turn w between batch turned, World.alongRun, first]
    rfl

/-- After every batch the summaries are the maxima of zero and of what the batches have said:
the rewards computed, and the depths of the nodes with a result. -/
def SummariesAreMaxima (fuel : Nat) (taskId : String) (w : World)
    (batches : List (List VerificationPack)) : Prop :=
  ∀ n wn, w.rememberAll fuel (batches.take n) = .ok wn →
    bestRewardOf taskId wn.redis =
      best 0 (w.alongRun fuel (rewardsIn taskId) (batches.take n)).flatten ∧
    maxDepthSeenOf taskId wn.redis =
      best 0 (w.alongRun fuel (depthsIn taskId) (batches.take n)).flatten

/-- In every batch, the last reward above zero and all rewards of earlier batches is the greatest
of the batch, and so is the last depth above all earlier ones. -/
def BatchesEndBest (fuel : Nat) (taskId : String) (w : World)
    (batches : List (List VerificationPack)) : Prop :=
  (∀ n, ∀ rewards ∈ (w.alongRun fuel (rewardsIn taskId) batches)[n]?,
    EndsBest (best 0 (w.alongRun fuel (rewardsIn taskId) (batches.take n)).flatten) rewards) ∧
  ∀ n, ∀ depths ∈ (w.alongRun fuel (depthsIn taskId) batches)[n]?,
    EndsBest (best 0 (w.alongRun fuel (depthsIn taskId) (batches.take n)).flatten) depths

/-- Starting from a fresh root, the summaries never fall, and they are the maxima exactly when
every batch ends best. -/
theorem summaries_are_maxima (fuel : Nat) (taskId : String) (w : World)
    (batches : List (List VerificationPack)) (drained : w.redis.Drained)
    (short : ∀ batch ∈ batches, batch.length ≤ 50) (freshReward : bestRewardOf taskId w.redis = 0)
    (freshDepth : maxDepthSeenOf taskId w.redis = 0) {w' : World}
    (returns : w.rememberAll fuel batches = .ok w') :
    (∀ m n wm wn, m ≤ n → w.rememberAll fuel (batches.take m) = .ok wm →
      w.rememberAll fuel (batches.take n) = .ok wn →
        bestRewardOf taskId wm.redis ≤ bestRewardOf taskId wn.redis ∧
        maxDepthSeenOf taskId wm.redis ≤ maxDepthSeenOf taskId wn.redis) ∧
    (SummariesAreMaxima fuel taskId w batches ↔ BatchesEndBest fuel taskId w batches) := by
  have rewardRun : ∀ n wn, w.rememberAll fuel (batches.take n) = .ok wn →
      bestRewardOf taskId wn.redis =
        settleAll 0 ((w.alongRun fuel (rewardsIn taskId) batches).take n) := by
    intro n wn runs
    rw [summary_run (fun _ _ _ => bestReward_turned) drained
      (fun b mem => short b (List.mem_of_mem_take mem)) runs, freshReward, alongRun_take]
  have depthRun : ∀ n wn, w.rememberAll fuel (batches.take n) = .ok wn →
      maxDepthSeenOf taskId wn.redis =
        settleAll 0 ((w.alongRun fuel (depthsIn taskId) batches).take n) := by
    intro n wn runs
    rw [summary_run (fun _ _ _ => maxDepthSeen_turned) drained
      (fun b mem => short b (List.mem_of_mem_take mem)) runs, freshDepth, alongRun_take]
  refine ⟨fun m n wm wn earlier before after => ?_, ?_⟩
  · rw [rewardRun m wm before, rewardRun n wn after, depthRun m wm before, depthRun n wn after]
    exact ⟨settleAll_take_le 0 _ earlier, settleAll_take_le 0 _ earlier⟩
  · have each : SummariesAreMaxima fuel taskId w batches ↔
        (∀ n, settleAll 0 ((w.alongRun fuel (rewardsIn taskId) batches).take n) =
          best 0 ((w.alongRun fuel (rewardsIn taskId) batches).take n).flatten) ∧
        ∀ n, settleAll 0 ((w.alongRun fuel (depthsIn taskId) batches).take n) =
          best 0 ((w.alongRun fuel (depthsIn taskId) batches).take n).flatten := by
      constructor
      · intro holds
        refine ⟨fun n => ?_, fun n => ?_⟩
        · obtain ⟨wn, runs⟩ := rememberAll_take n returns
          rw [← rewardRun n wn runs, (holds n wn runs).1, alongRun_take]
        · obtain ⟨wn, runs⟩ := rememberAll_take n returns
          rw [← depthRun n wn runs, (holds n wn runs).2, alongRun_take]
      · intro ⟨rewards, depths⟩ n wn runs
        rw [rewardRun n wn runs, depthRun n wn runs, rewards n, depths n, alongRun_take,
          alongRun_take]
        exact ⟨rfl, rfl⟩
    rw [each, settleAll_eq_best_iff, settleAll_eq_best_iff]
    simp only [BatchesEndBest, alongRun_take]

end Summaries

/-! ## Two results in one batch -/

namespace SmallSearch

/-- Both children of the root have results, the second one a worse one. -/
def falling : List VerificationPack := [result idA 5 1, result idB 4 1]

/-- The same results in batches of their own. -/
def fallingApart : List (List VerificationPack) := [[result idA 5 1], [result idB 4 1]]

/-- Both ways of delivering the two results run through, and in one batch the maximum comes out
wrong. -/
theorem falling_runs :
    (expandedRoot.world.redis.Drained ∧ bestRewardOf task.taskId expandedRoot.world.redis = 0 ∧
      maxDepthSeenOf task.taskId expandedRoot.world.redis = 0) ∧
    (expandedRoot.world.rememberAll 3 [falling]).isOk = true ∧
    (expandedRoot.world.rememberAll 3 fallingApart).isOk = true ∧
    (expandedRoot.world.rememberAll 3 [falling]).toOption.map
        (fun w => bestRewardOf task.taskId w.redis) ≠
      some (best 0 (expandedRoot.world.alongRun 3 (rewardsIn task.taskId) [falling]).flatten) := by
  decide +kernel

theorem rememberAll_of_isOk {fuel : Nat} {w : World} {batches : List (List VerificationPack)}
    (ok : (w.rememberAll fuel batches).isOk = true) : ∃ w', w.rememberAll fuel batches = .ok w' := by
  cases run : w.rememberAll fuel batches with
  | ok w' => exact ⟨w', rfl⟩
  | error e =>
    rw [run] at ok
    cases ok

end SmallSearch

open SmallSearch in
/-- The rewards fall from batch to batch, so that the last batch is not the best. -/
theorem summaries_are_maxima_fallingApart :
    SummariesAreMaxima 3 task.taskId expandedRoot.world fallingApart ↔
      BatchesEndBest 3 task.taskId expandedRoot.world fallingApart := by
  obtain ⟨⟨drained, freshReward, freshDepth⟩, -, returns, -⟩ := falling_runs
  obtain ⟨w', run⟩ := rememberAll_of_isOk returns
  exact (summaries_are_maxima 3 task.taskId expandedRoot.world fallingApart drained (by decide)
    freshReward freshDepth run).2

open SmallSearch in
/-- With both results in one batch the worse one stays. -/
theorem not_summaries_are_maxima :
    ¬ ∀ (fuel : Nat) (taskId : String) (w w' : World) (batches : List (List VerificationPack)),
      w.redis.Drained → (∀ batch ∈ batches, batch.length ≤ 50) →
      bestRewardOf taskId w.redis = 0 → maxDepthSeenOf taskId w.redis = 0 →
      w.rememberAll fuel batches = .ok w' →
        bestRewardOf taskId w'.redis =
          best 0 (w.alongRun fuel (rewardsIn taskId) batches).flatten := by
  intro maxima
  obtain ⟨⟨drained, freshReward, freshDepth⟩, returns, -, differs⟩ := falling_runs
  obtain ⟨w', run⟩ := rememberAll_of_isOk returns
  rw [run] at differs
  have same := maxima 3 task.taskId expandedRoot.world w' [falling] drained (by decide)
    freshReward freshDepth run
  exact differs (congrArg some same)

end KernelOmega
