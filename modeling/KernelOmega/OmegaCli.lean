import KernelOmega.Store.World

/-!
# Seeding a task

`control_plane/omega_cli.py`: the store writes of `fix_tests`, in their order. What
it reads from the file system and from the coverage run comes in as a record; the
fields of the root hash that nothing reads back are left out.
-/

namespace KernelOmega

open Concurrent Daemon

/-- What `fix_tests` has gathered when it starts to write. -/
structure SeedTask where
  taskId : String
  profile : String
  code : String
  testCode : String
  sourcePath : String
  testPath : String
  sourceRelpath : String
  testRelpath : String
  repoPath : String
  repoSnapshot : List (String × String)
  repoSnapshotDigest : String
  repoSnapshotBytes : Int
  testsFailed : Int
  testsPassed : Int
  suspiciousLines : List Int
  plan : TaskPlan

namespace SeedTask

/-- The hash of the root as the seeding writes it: the capsule's fields, the plan and the statistics
of a node nobody has visited. -/
def rootMapping (task : SeedTask) : NodeHash where
  treeId := some task.taskId
  code := some task.code
  testCode := some task.testCode
  sourcePath := some task.sourcePath
  testPath := some task.testPath
  sourceRelpath := some task.sourceRelpath
  testRelpath := some task.testRelpath
  repoPath := some task.repoPath
  repoSnapshot := some task.repoSnapshot
  repoSnapshotDigest := some task.repoSnapshotDigest
  repoSnapshotBytes := some task.repoSnapshotBytes
  repoSnapshotFiles := some task.repoSnapshot.length
  parent := some ""
  visits := some 0
  valueSum := some 0
  testsFailed := some task.testsFailed
  testsPassed := some task.testsPassed
  isTerminal := some false
  expanded := some false
  depth := some 0
  bestReward := some 0
  maxDepthSeen := some 0
  generatedCapsules := some 0
  suspiciousLines := some task.suspiciousLines
  planJson := some task.plan

/-- The row of the task, -/
def taskRow (task : SeedTask) : TaskRow where
  repoPath := task.repoPath
  sourcePath := task.sourcePath
  testPath := task.testPath
  status := "seeded"

/-- and that of the root, which is a candidate without a parent. -/
def rootRow (task : SeedTask) : CandidateRow where
  taskId := task.taskId
  parentId := none
  patchKind := "seed"
  status := "seeded"
  sourceRelpath := task.sourceRelpath
  filesTouched := [task.sourceRelpath]
  diffSummary := "Initial task root candidate"
  staticScore := 0

/-- The store writes of `fix_tests`. -/
def fixTests (task : SeedTask) : Daemon Unit := do
  redis (.sadd treeIndex task.taskId)
  redis (.hset (rootNodeId task.taskId) task.rootMapping)
  pg (.insertTask task.taskId task.taskRow)
  pg (.insertCandidate (rootNodeId task.taskId) task.rootRow)

/-- The world after seeding a task into empty stores. -/
def seededWorld (task : SeedTask) : World :=
  (task.fixTests.run World.exec (fun _ => {}) {}).2

/-- The world after the seeding, spelled out. -/
theorem seededWorld_eq (task : SeedTask) : task.seededWorld =
    { redis :=
        { hashes := Function.update (fun _ => none) (rootNodeId task.taskId) (some task.rootMapping)
          sets := Function.update (fun _ => []) treeIndex [task.taskId] }
      pg :=
        { tasks := Function.update (fun _ => none) task.taskId (some task.taskRow)
          candidates :=
            Function.update (fun _ => none) (rootNodeId task.taskId) (some task.rootRow) } } := by
  simp only [seededWorld, fixTests, Daemon.redis, Daemon.pg, Prog.call, Prog.cmd_bind, Prog.ret_bind,
    Prog.run, World.exec, Bool.false_eq_true, ↓reduceIte, Redis.exec, Redis.apply, Redis.modifyHash,
    Redis.addMember, Postgres.exec, Postgres.putTask, Postgres.putCandidate, taskRow, rootRow,
    Function.update_self, Option.isSome_some, List.not_mem_nil, List.nil_append]
  rfl

theorem seededWorld_hashes (task : SeedTask) : task.seededWorld.redis.hashes =
    Function.update (fun _ => none) (rootNodeId task.taskId) (some task.rootMapping) := by
  rw [seededWorld_eq]

theorem seededWorld_sets (task : SeedTask) : task.seededWorld.redis.sets =
    Function.update (fun _ => []) treeIndex [task.taskId] := by
  rw [seededWorld_eq]

end SeedTask

end KernelOmega
