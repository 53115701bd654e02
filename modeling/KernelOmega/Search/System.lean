import KernelOmega.Concurrent.Rely
import KernelOmega.ForestWorker
import KernelOmega.GlobalMemory
import KernelOmega.OmegaCli
import Mathlib

/-!
# The search system

The daemons that share one search tree: any number of processes, each running
`expand` calls, turns of the worker's loop, or turns of the
global memory, interleaved command by command over the world the seeded task
starts in. Around them time passes, keys with a deadline expire, results arrive on
the stream and other daemons write to the ledger.
-/

namespace KernelOmega

open Concurrent

-- A list is gone through before all of `Char` is.
attribute [local instance (high)] List.decidableBAll

/-- What a search runs with: the digest, the seeded task, the worker each process is
and the score its selection uses. -/
structure SearchSetup (ι S : Type) where
  sha256 : Sha256
  task : SeedTask
  workers : ι → ForestWorker
  ucb : UcbScore S

namespace SearchSetup

variable {ι S : Type} [LinearOrder S] (setup : SearchSetup ι S)

abbrev taskId : String := setup.task.taskId

abbrev rootId : String := rootNodeId setup.taskId

abbrev childId (nodeId candidate : String) : String :=
  ForestWorker.childId setup.sha256 setup.taskId nodeId candidate

/-- The calls a process may start. -/
inductive Call (i : ι) : Daemon Unit → Prop
  | expand (nodeId : String) :
      Call i ((setup.workers i).expand setup.sha256 setup.taskId nodeId)
  | visit (fuel : Nat) :
      Call i ((setup.workers i).visitTask setup.sha256 setup.ucb fuel setup.taskId)
  | remember (fuel : Nat) : Call i (GlobalMemory.remember fuel)

/-- What happens around the processes. -/
inductive Around : World → World → Prop
  | tick (w : World) (n : Nat) : Around w { w with clock := w.clock + n }
  | expire (w : World) (key : String) (entry : StringEntry) (deadline : Nat) :
      w.redis.strings key = some entry → entry.deadline = some deadline →
      deadline ≤ w.clock → Around w { w with redis := w.redis.putString key none }
  | deliver (w : World) (m : ResultMessage) :
      Around w { w with redis := { w.redis with results := w.redis.results ++ [m] } }
  | ledger (w : World) (pg : Postgres) : Around w { w with pg := pg }

/-- The system of one task's search, from the world it is seeded in. -/
def system : System ι Cmd Cmd.Reply PyError Choice World where
  exec := World.exec
  init := fun w => w = setup.task.seededWorld
  calls := setup.Call
  env := fun s w => Around s.world w
  may := fun _ _ _ _ => True

end SearchSetup

/-- The history of a search, latest command first. -/
abbrev History (ι : Type) := List (Event ι Cmd Cmd.Reply PyError)

abbrev Snap (ι : Type) := Snapshot ι Cmd Cmd.Reply PyError World

/-! ## A small search

A program with two comparisons, of which a plan may try three candidates down to depth
two. The digests are the real ones of the texts this search hashes. -/

namespace SmallSearch

def code : String := "x = a < b\ny = c < d\n"

/-- The first comparison swapped. -/
def codeA : String := "x = a <= b\ny = c < d\n"

/-- The second comparison swapped. -/
def codeB : String := "x = a < b\ny = c <= d\n"

def idA : String := "omega:tree:task_00000001:d4c9fbca0db9b04f0e6b5705101131d75d8d69696bab624fcd38d01a10c62ed5"

def idB : String := "omega:tree:task_00000001:72ac40f65caa5a91a3e12b700d8584dbbe42473e81e58effebcfa9d123e9acce"

/-- The id of the first candidate with its comparison swapped back. -/
def idC : String := "omega:tree:task_00000001:7dba96109f24237f0b31febb00ab206e2963bedab93e06fe0173dd30defb08ed"

/-- The digests of this search; all other texts get digests that do not collide with them. -/
def sha256 : Sha256 :=
  .ofTable
    [(codeA ++ "omega:tree:task_00000001:root", "d4c9fbca0db9b04f0e6b5705101131d75d8d69696bab624fcd38d01a10c62ed5"),
      (codeB ++ "omega:tree:task_00000001:root", "72ac40f65caa5a91a3e12b700d8584dbbe42473e81e58effebcfa9d123e9acce"),
      (code ++ idA, "7dba96109f24237f0b31febb00ab206e2963bedab93e06fe0173dd30defb08ed")]
    (by decide)

theorem sha256_collisionFree : sha256.CollisionFree :=
  Sha256.ofTable_collisionFree _ (by decide) (by decide)

/-- The patches of the codes this search expands. -/
def patcher : Patcher where
  generateTargetedPatches := fun source _ maxCandidates =>
    if source = code then .ok (if maxCandidates = 1 then [codeA] else [codeA, codeB])
    else if source = codeA then
      .ok (if maxCandidates = 1 then [code] else [code, "x = a <= b\ny = c <= d\n"])
    else .ok []
  comparisonLines := fun _ => .ok [1, 2]
  nodup := by
    intro source _ n candidates made
    split at made
    · obtain rfl := Except.ok.inj made
      split <;> decide
    · split at made
      · obtain rfl := Except.ok.inj made
        split <;> decide
      · obtain rfl := Except.ok.inj made
        decide

def worker (workerId : String) : ForestWorker where
  workerId := workerId
  budgets :=
    { maxCapsules := 3, maxDiffLines := 40, maxTouchedFiles := 1, maxDepth := 2,
      maxChildren := 2, suspiciousLineCount := 3 }
  executorHost := "127.0.0.1"
  executorBasePort := 9000
  executorCores := 4
  md5Head := fun id => ([(idA, 479790089), (idB, 4104458661), (idC, 1922986030)].lookup id).getD 0
  patcher := patcher
  isSemanticallyEquivalent := fun _ _ => .ok false

def task : SeedTask where
  taskId := "task_00000001"
  profile := "dev"
  code := code
  testCode := ""
  sourcePath := "/repo/app.py"
  testPath := "/repo/test_app.py"
  sourceRelpath := "app.py"
  testRelpath := "test_app.py"
  repoPath := "/repo"
  repoSnapshot := []
  repoSnapshotDigest := ""
  repoSnapshotBytes := 0
  testsFailed := 1
  testsPassed := 4
  suspiciousLines := [1, 2]
  plan :=
    { strategy := "focused"
      summary := "Focused plan: prioritize the top 2 suspicious lines first."
      focusLines := [1, 2], fallbackLines := [1, 2],
      ucbExploration := 105 / 100, maxChildren := 2, maxCapsules := 3, maxDepth := 2 }

/-- There is a first of two threads, and of three. -/
scoped instance two : NeZero 2 := ⟨by decide⟩

scoped instance three : NeZero 3 := ⟨by decide⟩

/-- Three processes on the task. -/
def setup {S : Type} (ucb : UcbScore S) : SearchSetup (Fin 3) S where
  sha256 := sha256
  task := task
  workers := fun i => worker
    (match i with
      | 0 => "worker_00000001"
      | 1 => "worker_00000002"
      | 2 => "worker_00000003")
  ucb := ucb

/-- The score without exploration. -/
def meanReward : UcbScore Rat := fun _ _ visits valueSum => valueSum / visits

/-- The search as it is seeded. -/
def seeded : Snap (Fin 3) := ⟨task.seededWorld, []⟩

/-- The first worker has expanded the root. -/
def expandedRoot : Snap (Fin 3) :=
  (seeded.run World.exec 0
    ((worker "worker_00000001").expand sha256 task.taskId (rootNodeId task.taskId))
    fun n => { fresh := toString n }).2

/-- The first worker's expansion of the root is a run, -/
theorem expandedRoot_reachable {S : Type} [LinearOrder S] (ucb : UcbScore S) :
    (setup ucb).system.Reachable { expandedRoot with threads := fun _ => .ret () } := by
  have start : (setup ucb).system.Reachable { seeded with threads := fun _ => .ret () } :=
    .init task.seededWorld rfl
  have called : (setup ucb).system.calls 0
      ((worker "worker_00000001").expand sha256 task.taskId (rootNodeId task.taskId)) :=
    SearchSetup.Call.expand (rootNodeId task.taskId)
  have returns : (seeded.run World.exec 0
      ((worker "worker_00000001").expand sha256 task.taskId (rootNodeId task.taskId))
      fun n => { fresh := toString n }).1 = .ok () := by
    decide
  exact start.call_alone called _ (System.allowed_of_forall (fun _ _ _ => trivial) _ _ _) rfl returns

/-- A failing result of a node. -/
def result (id : String) (testsPassed testsFailed : Int) : VerificationPack where
  capsuleId := id
  runId := "run_0"
  success := false
  runtime := 0
  nodeId := "rust_exec_1"
  hardwareIsolated := true
  inputsDigest := ""
  testsPassed := testsPassed
  testsFailed := testsFailed

/-- A result arrives. -/
def deliver (s : Snap (Fin 3)) (pack : VerificationPack) : Snap (Fin 3) :=
  { s with world := { s.world with redis :=
      { s.world.redis with results := s.world.redis.results ++ [⟨0, .ok pack⟩] } } }

/-- Results arrive and the memory takes a turn. -/
def remembered (s : Snap (Fin 3)) (packs : List VerificationPack) : Snap (Fin 3) :=
  ((packs.foldl deliver s).run World.exec 2 (GlobalMemory.remember 4) fun _ => {}).2

section Stages

variable {S : Type} [LinearOrder S] {ucb : UcbScore S}

/-- The delivery of a result is a step of what is around. -/
theorem delivered_reachable {s : Snap (Fin 3)}
    (reached : (setup ucb).system.Reachable { s with threads := fun _ => .ret () })
    (packs : List VerificationPack) :
    (setup ucb).system.Reachable { packs.foldl deliver s with threads := fun _ => .ret () } := by
  induction packs generalizing s with
  | nil => exact reached
  | cons pack rest ih => exact ih (reached.step (.env _ (.deliver s.world ⟨0, .ok pack⟩)))

/-- and so is the memory's turn after it. -/
theorem remembered_reachable {s : Snap (Fin 3)}
    (reached : (setup ucb).system.Reachable { s with threads := fun _ => .ret () })
    (packs : List VerificationPack)
    (returns : ((packs.foldl deliver s).run World.exec 2 (GlobalMemory.remember 4)
      fun _ => {}).1 = .ok ()) :
    (setup ucb).system.Reachable { remembered s packs with threads := fun _ => .ret () } := by
  have called : (setup ucb).system.calls 2 (GlobalMemory.remember 4) :=
    SearchSetup.Call.remember 4
  exact (delivered_reachable reached packs).call_alone called _
    (System.allowed_of_forall (fun _ _ _ => trivial) _ _ _) rfl returns

end Stages

/-- Both children of the root have results, the second one a bad one. -/
def scored : Snap (Fin 3) := remembered expandedRoot [result idA 5 1, result idB 1 4]

theorem scored_reachable {S : Type} [LinearOrder S] (ucb : UcbScore S) :
    (setup ucb).system.Reachable { scored with threads := fun _ => .ret () } :=
  remembered_reachable (expandedRoot_reachable ucb) _ (by decide)

end SmallSearch

end KernelOmega
