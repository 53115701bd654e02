import KernelOmega.Store.World

/-!
# The merger

`control_plane/merger.py`: the daemon that applies accepted patches. A message is skipped
when its tree is reserved for another capsule. Otherwise the patch is applied and the
merge recorded; whatever raises in between releases the tree and records the failure.
Acknowledgements are queued and sent after the batch.
-/

namespace KernelOmega

open Concurrent

namespace Merger

open Daemon

/-- Python's truth of a reply: there is a value and it is not empty. -/
def truthy (value : Option String) : Bool := value.any (· ≠ "")

/-- Whether the tree is this capsule's to merge, after taking it when nobody has it. -/
def claimTree (treeId capsuleId : String) : Daemon Bool := do
  let winningCapsule ← redis (.get (treeAcceptedKey treeId))
  if truthy winningCapsule then
    return decide (winningCapsule = some capsuleId)
  else do
    let reserved ← redis (.set (treeAcceptedKey treeId) capsuleId true)
    if reserved then
      return true
    else do
      let winner ← redis (.get (treeAcceptedKey treeId))
      return decide (winner = some capsuleId)

/-- The `try` body: the patch is applied and the merge recorded. -/
def mergeCapsule (payload : AcceptedPayload) : Daemon Unit := do
  Prog.call (Cmd.applyPatch payload)
  let _ ← updateCandidateStatus payload.capsuleId "merged"
  let _ ← updateTaskStatus payload.treeId "merged"
  pg (.mergeCandidateMetadata payload.capsuleId)

/-- The `except` branch: the tree is released and the failure recorded. -/
def releaseTree (payload : AcceptedPayload) : Daemon Unit := do
  redis (.delete (treeAcceptedKey payload.treeId))
  let _ ← updateCandidateStatus payload.capsuleId "merge_failed"
  pg (.mergeCandidateMetadata payload.capsuleId)

/-- One message of the batch. -/
def mergeMessage (payload : AcceptedPayload) : Daemon Unit := do
  let mine ← claimTree payload.treeId payload.capsuleId
  if mine then
    (mergeCapsule payload).tryCatch fun _ => releaseTree payload
  else
    return ()

/-- The batch loop; `pipe` is what the messages before have queued. -/
def mergeBatch : List AcceptedMessage → (pipe : List RedisOp) → Daemon Unit
  | [], pipe => redis (.pipeline pipe)
  | message :: rest, pipe => do
    mergeMessage message.payload
    mergeBatch rest (pipe ++ [.xack "merger_group" message.id])

/-- One turn of `run`. -/
def merge : Daemon Unit := do
  let messages ← redis (.xreadgroupAccepted "merger_group" 10)
  if messages.isEmpty then
    return ()
  else
    mergeBatch messages []

end Merger

end KernelOmega
