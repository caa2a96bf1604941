import DatasetSync.Call
import DatasetSync.Config.File
import DatasetSync.Config.Reading
import DatasetSync.Config.Settings
import DatasetSync.Controller.Reconcile
import DatasetSync.Controller.Registry
import DatasetSync.FileTree.Diff
import DatasetSync.FileTree.Readiness
import DatasetSync.FileTree.Transition
import DatasetSync.Json.MergePatch
import DatasetSync.Json.Reading
import DatasetSync.Json.Text
import DatasetSync.Json.Value
import DatasetSync.Layout
import DatasetSync.Lineage
import DatasetSync.Ordered.Bisect
import DatasetSync.Ordered.Map
import DatasetSync.Ordered.Set
import DatasetSync.Ordered.Sort
import DatasetSync.Pool.Drive
import DatasetSync.Pool.Floor
import DatasetSync.Pool.Production
import DatasetSync.Pool.Step
import DatasetSync.Program
import DatasetSync.Proofs.Config.Written
import DatasetSync.Proofs.Controller.Agreement
import DatasetSync.Proofs.Controller.Backing
import DatasetSync.Proofs.Controller.Confinement
import DatasetSync.Proofs.Controller.Convergence
import DatasetSync.Proofs.Controller.Copying
import DatasetSync.Proofs.Controller.Crediting
import DatasetSync.Proofs.Controller.Deletion
import DatasetSync.Proofs.Controller.Descent
import DatasetSync.Proofs.Controller.Edits
import DatasetSync.Proofs.Controller.Effect
import DatasetSync.Proofs.Controller.Failure
import DatasetSync.Proofs.Controller.FirstCopy
import DatasetSync.Proofs.Controller.Forgetting
import DatasetSync.Proofs.Controller.Look
import DatasetSync.Proofs.Controller.Marking
import DatasetSync.Proofs.Controller.Purging
import DatasetSync.Proofs.Controller.Registration
import DatasetSync.Proofs.Controller.Resting
import DatasetSync.Proofs.Controller.Round
import DatasetSync.Proofs.Controller.Turn
import DatasetSync.Proofs.Engine.Absorption
import DatasetSync.Proofs.Engine.Courses
import DatasetSync.Proofs.Engine.Failure
import DatasetSync.Proofs.Engine.Finalizers
import DatasetSync.Proofs.Engine.Invariant
import DatasetSync.Proofs.Engine.Isolation
import DatasetSync.Proofs.Engine.LateCopy
import DatasetSync.Proofs.Engine.LostUpdate
import DatasetSync.Proofs.Engine.Move
import DatasetSync.Proofs.Engine.Open
import DatasetSync.Proofs.Engine.Purge
import DatasetSync.Proofs.Engine.Readiness
import DatasetSync.Proofs.Engine.Resurfacing
import DatasetSync.Proofs.Engine.Snapshots
import DatasetSync.Proofs.Engine.StaleLook
import DatasetSync.Proofs.Engine.Statuses
import DatasetSync.Proofs.Engine.Step
import DatasetSync.Proofs.Engine.Supersession
import DatasetSync.Proofs.Engine.Sweeping
import DatasetSync.Proofs.Engine.Writes
import DatasetSync.Proofs.FileTree.Aligned
import DatasetSync.Proofs.FileTree.Diff
import DatasetSync.Proofs.FileTree.Difference
import DatasetSync.Proofs.FileTree.Find
import DatasetSync.Proofs.FileTree.Fixpoint
import DatasetSync.Proofs.FileTree.Record
import DatasetSync.Proofs.FileTree.Report
import DatasetSync.Proofs.FileTree.Rewriting
import DatasetSync.Proofs.FileTree.Settled
import DatasetSync.Proofs.FileTree.Steady
import DatasetSync.Proofs.FileTree.Stepping
import DatasetSync.Proofs.FileTree.Target
import DatasetSync.Proofs.FileTree.Timeless
import DatasetSync.Proofs.FileTree.Verdict
import DatasetSync.Proofs.Json.Members
import DatasetSync.Proofs.Ordered.Lookup
import DatasetSync.Proofs.Ordered.Search
import DatasetSync.Proofs.Pool.Balance
import DatasetSync.Proofs.Pool.Delivery
import DatasetSync.Proofs.Pool.Passage
import DatasetSync.Proofs.Pool.Stations
import DatasetSync.Proofs.Program.Trail
import DatasetSync.Proofs.Remote.CopySource
import DatasetSync.Proofs.Remote.StatusPatch
import DatasetSync.Proofs.Resource.Condition
import DatasetSync.Proofs.Resource.RoundTrip
import DatasetSync.Proofs.Resource.Written
import DatasetSync.Proofs.Store.Account
import DatasetSync.Proofs.Store.Changes
import DatasetSync.Proofs.Store.Inheritance
import DatasetSync.Proofs.Store.Objects
import DatasetSync.Proofs.Store.Statuses
import DatasetSync.Proofs.Store.Versions
import DatasetSync.Proofs.Sync.Agenda
import DatasetSync.Proofs.Sync.Attribution
import DatasetSync.Proofs.Sync.Completeness
import DatasetSync.Proofs.Sync.Conclusion
import DatasetSync.Proofs.Sync.Copies
import DatasetSync.Proofs.Sync.CopyRun
import DatasetSync.Proofs.Sync.Course
import DatasetSync.Proofs.Sync.Driven
import DatasetSync.Proofs.Sync.Ending
import DatasetSync.Proofs.Sync.Footprint
import DatasetSync.Proofs.Sync.Fulfilment
import DatasetSync.Proofs.Sync.Handover
import DatasetSync.Proofs.Sync.Heritage
import DatasetSync.Proofs.Sync.Progress
import DatasetSync.Proofs.Sync.Removal
import DatasetSync.Proofs.Sync.Reporting
import DatasetSync.Proofs.Sync.Schedule
import DatasetSync.Proofs.Sync.Securing
import DatasetSync.Proofs.Sync.Sweep
import DatasetSync.Proofs.Sync.Ways
import DatasetSync.Proofs.Sync.Working
import DatasetSync.Proofs.Sync.Writing
import DatasetSync.Proofs.Text.Digits
import DatasetSync.Proofs.Text.PercentEncoding
import DatasetSync.Proofs.Text.Timestamp
import DatasetSync.Remote.ObjectService
import DatasetSync.Remote.ResourceService
import DatasetSync.Remote.Target
import DatasetSync.Resource.Condition
import DatasetSync.Resource.Datasource
import DatasetSync.Resource.Definition
import DatasetSync.Resource.Document
import DatasetSync.Resource.FileTree
import DatasetSync.Resource.Reference
import DatasetSync.Scenario.Act
import DatasetSync.Scenario.World
import DatasetSync.Store.Document
import DatasetSync.Store.Object
import DatasetSync.Store.Resolver
import DatasetSync.Sync.Job
import DatasetSync.Sync.Run
import DatasetSync.Sync.Step
import DatasetSync.Sync.Turn
import DatasetSync.Text.Affix
import DatasetSync.Text.Blank
import DatasetSync.Text.Digits
import DatasetSync.Text.PercentEncoding
import DatasetSync.Text.Timestamp
import DatasetSync.Text.Xml
import DatasetSync.Yaml.Cursor
import DatasetSync.Yaml.Lexer
import DatasetSync.Yaml.Node
import DatasetSync.Yaml.Reader
import DatasetSync.Yaml.Scalar
import DatasetSync.Yaml.Token
