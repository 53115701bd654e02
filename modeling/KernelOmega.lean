import KernelOmega.Concurrent.Rely
import KernelOmega.ForestWorker
import KernelOmega.GlobalMemory
import KernelOmega.OmegaCli
import KernelOmega.Search.System
import KernelOmega.Search.Budget
import KernelOmega.Rooted.Route
import KernelOmega.Search.Tree
import KernelOmega.Search.Walk
import KernelOmega.Search.Growth
import KernelOmega.Search.SingleWriter
import KernelOmega.Search.Conservation
import KernelOmega.Search.Lease
import KernelOmega.Rooted.Greedy
import KernelOmega.Search.Selection
import KernelOmega.Concurrent.Typestate
import KernelOmega.Ledger.Calls
import KernelOmega.Ledger.Overlap
import KernelOmega.Dispatcher
import KernelOmega.Ledger.Consumers
import KernelOmega.Plant.Seeding
import KernelOmega.Plant.WriteAhead
import KernelOmega.Store.Effects
import KernelOmega.Plant.Publication
import KernelOmega.Plant.System
import KernelOmega.Plant.Guards
import KernelOmega.Plant.Outcome
import KernelOmega.Plant.Small
import KernelOmega.Plant.Agreement
import KernelOmega.Plant.Gating
import KernelOmega.Plant.Claiming
import KernelOmega.Plant.Flight
import KernelOmega.Plant.Posts
import KernelOmega.Plant.Started
import KernelOmega.Plant.InFlight
import KernelOmega.Plant.Desks
import KernelOmega.Plant.Reserved
import KernelOmega.Plant.Closed
import KernelOmega.Plant.Siege
import KernelOmega.Search.Descent
import KernelOmega.Batch.Turn
import KernelOmega.Batch.Fields
import KernelOmega.Batched.Register
import KernelOmega.Batch.Sequence
import KernelOmega.Batch.Summaries
import KernelOmega.Batch.Splits
import KernelOmega.Batch.BadMessage
import KernelOmega.Posix.MakeDirs
import KernelOmega.Posix.Below
import KernelOmega.Posix.Confined
import KernelOmega.Executors.Materialize
import KernelOmega.Python.Ast
import KernelOmega.Python.Position
import KernelOmega.Python.Layout
import KernelOmega.Oracle.Z3
import KernelOmega.Oracle.Equivalence
import KernelOmega.Oracle.Exactness
import KernelOmega.Patcher.Targeted
import KernelOmega.Patcher.Aim
import KernelOmega.Patcher.OnTarget
import KernelOmega.Patcher.Exactness
import KernelOmega.Git.Files
import KernelOmega.Git.Repository
import KernelOmega.Merging.ApplyPatch
import KernelOmega.Merging.Steps
import KernelOmega.Merging.Branches
import KernelOmega.Planning.Widening
import KernelOmega.Wire.Delimited
import KernelOmega.Executors.Framing
import KernelOmega.Coverage.Matrix
import KernelOmega.Ranking.TopK
import KernelOmega.Coverage.FaultLocalization
import KernelOmega.Funnel.Counts
import KernelOmega.Funnel.Summary
import KernelOmega.Funnel.Verdict
import KernelOmega.Gate.SemanticPolicy
import KernelOmega.Search.Mirror
import KernelOmega.Python.TextFile
import KernelOmega.Seeding.Snapshot
import KernelOmega.Executors.Overlay
import KernelOmega.Json.Escape
import KernelOmega.Json.Value
import KernelOmega.Signing.Canonical
import KernelOmega.Signing.Binding
import KernelOmega.Python.Base64
import KernelOmega.Signing.Attestation
import KernelOmega.Plant.Winner
import KernelOmega.Plant.Promise
import KernelOmega.Plant.Lineage
import KernelOmega.Plant.Conduct
import KernelOmega.Plant.Hostile
import KernelOmega.Python.Dict
import KernelOmega.Settings
import KernelOmega.Store.KeySpace
import KernelOmega.Signing.Tampering
import KernelOmega.Executors.Ports
import KernelOmega.Git.Return
import KernelOmega.Merging.Checkout
import KernelOmega.Distance.Changes
import KernelOmega.Python.Splice
import KernelOmega.Python.Raising
import KernelOmega.Patcher.Extent
import KernelOmega.Plant.Budding
import KernelOmega.Plant.Sourced
import KernelOmega.Plant.Origin
import KernelOmega.Json.Document
import KernelOmega.Json.Reader
import KernelOmega.Json.Writer
import KernelOmega.Json.Members
import KernelOmega.Python.Dataclass
import KernelOmega.Serde.Structs
import KernelOmega.Messages.Payloads
import KernelOmega.Messages.Contracts
import KernelOmega.Messages.Dispatch
import KernelOmega.Messages.Results
import KernelOmega.Messages.Guest
import KernelOmega.Executors.Exchange
import KernelOmega.Planning.Seeded
import KernelOmega.Messages.Artifacts
