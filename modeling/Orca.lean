import Orca.Approvals.Race
import Orca.Approvals.Store
import Orca.Auth.Login
import Orca.Auth.Throttle
import Orca.Backup.CalendarAxes
import Orca.Backup.Collision
import Orca.Backup.CreationOrder
import Orca.Backup.Holder
import Orca.Backup.Listing
import Orca.Backup.PruneFrame
import Orca.Backup.PruneReport
import Orca.Backup.Retention
import Orca.Backup.SizeCap
import Orca.Backup.SlotIds
import Orca.Backup.StoreTree
import Orca.Backup.Sync
import Orca.Basic
import Orca.Config.BadRows
import Orca.Config.Convergence
import Orca.Config.FailedMerge
import Orca.Config.Merge
import Orca.Config.Ownership
import Orca.Config.Rows
import Orca.Containers.Basic
import Orca.Containers.Breaker
import Orca.Containers.HeldStarts
import Orca.Containers.Reconciler
import Orca.Containers.Unhold
import Orca.Containers.Wedge
import Orca.Cron.Crontab
import Orca.Cron.Edit
import Orca.Cron.LineDiff
import Orca.Data.Canonical
import Orca.Data.Schema
import Orca.Data.Text
import Orca.Data.Value
import Orca.Database.LegacyMounts
import Orca.Database.Migrations
import Orca.Dispatch.ToolRoles
import Orca.Library.Budget
import Orca.Library.ByteStream
import Orca.Library.Check
import Orca.Library.Decimal
import Orca.Library.EditScript
import Orca.Library.Emission
import Orca.Library.Evolution
import Orca.Library.Handler
import Orca.Library.Invariant
import Orca.Library.KeyedTable
import Orca.Library.LastWriterWins
import Orca.Library.Numbered
import Orca.Library.Periods
import Orca.Library.RecordCodec
import Orca.Library.SlidingWindow
import Orca.Library.Sqlite
import Orca.Library.StablePage
import Orca.Library.Streak
import Orca.Library.UniqueTable
import Orca.Library.Words
import Orca.Mesh.BoundEnvelopes
import Orca.Mesh.CallerToken
import Orca.Mesh.Demotion
import Orca.Mesh.Envelope
import Orca.Mesh.Exec
import Orca.Mesh.FleetLock
import Orca.Mesh.NonceLedger
import Orca.Mesh.PeerFolds
import Orca.Mesh.Peers
import Orca.Mesh.PinnedCa
import Orca.Mesh.Pki
import Orca.Mesh.Reachability
import Orca.Mesh.RequireBound
import Orca.Mesh.Revocation
import Orca.Mesh.Roster
import Orca.Mesh.Rotation
import Orca.Mesh.TrustRegistry
import Orca.Mounts.Converge
import Orca.Mounts.Execution
import Orca.Mounts.GuestLedger
import Orca.Mounts.NoStacking
import Orca.Mounts.Ownership
import Orca.Mounts.Replicas
import Orca.Mounts.Satisfied
import Orca.Mounts.Source
import Orca.Mounts.Streaks
import Orca.Notifications.Dismissable
import Orca.OpenApi.Buckets
import Orca.OpenApi.JsonBodies
import Orca.OpenApi.KeywordGaps
import Orca.OpenApi.LiveKeywords
import Orca.OpenApi.Lower31
import Orca.OpenApi.Normalize
import Orca.OpenApi.OperationBodies
import Orca.OpenApi.Places
import Orca.OpenApi.Progenitor
import Orca.OpenApi.Readings
import Orca.OpenApi.Ready
import Orca.OpenApi.SchemasOnly
import Orca.PluginProto.Codec
import Orca.PluginProto.TornFrames
import Orca.PluginProto.Session
import Orca.PluginProto.SessionSafety
import Orca.PluginProto.Frame
import Orca.Plugins.DataIsolation
import Orca.Plugins.DbOps
import Orca.Plugins.DbPolicy
import Orca.Plugins.Namespaces
import Orca.Replication.Confinement
import Orca.Replication.MergeBundle
import Orca.Replication.OpConvergence
import Orca.Replication.OpLog
import Orca.Replication.Protection
import Orca.Replication.Recreate
import Orca.Replication.ReplicateTable
import Orca.Replication.Roots
import Orca.Replication.TableConvergence
import Orca.Replication.Tombstones
import Orca.Secrets.ColumnMigration
import Orca.Secrets.Deletion
import Orca.Secrets.Isolation
import Orca.Secrets.PluginColumns
import Orca.Secrets.Store
import Orca.Storage.Eviction
import Orca.Storage.FileTree
import Orca.Storage.Janitor
import Orca.Storage.Quota
import Orca.OpenApi.LoweredTwice
import Orca.OpenApi.OperationIds
import Orca.Library.Framing
import Orca.Mesh.SignedRecords
import Orca.Storage.PlanExact
import Orca.Contract.Paging
import Orca.Library.SqlLiteral
import Orca.Plugins.DefaultLiteral
import Orca.Library.FirstCome
import Orca.Plugins.Declarations
import Orca.Library.Scan
import Orca.Scrub.PemBlocks
import Orca.Library.GreedyCover
import Orca.Scrub.Values
import Orca.Validator.Agreement
import Orca.Library.Cut
import Orca.Library.Utf8
import Orca.Backup.RecordDate
import Orca.Library.RankedChoice
import Orca.Library.SemVer
import Orca.Updates.Versions
import Orca.Mesh.ClockSkew
import Orca.Library.Url
import Orca.Auth.LoopbackToken
import Orca.Library.MarkedBlocks
import Orca.Mounts.Autofs
import Orca.Secrets.DryRun
import Orca.Library.Loop
import Orca.Library.Inodes
import Orca.Storage.RemoveTree
import Orca.Storage.RemovalExact
import Orca.Storage.LayoutRemoval
import Orca.PluginProto.SessionSafety
import Orca.Library.TopCut
import Orca.Library.Standing
import Orca.Security.Findings
import Orca.Security.FindingsMerge
import Orca.Security.FindingsPrune
import Orca.Security.FindingsHistory
import Orca.Plugins.ToolCallSafety
import Orca.Mounts.StartsBounded
import Orca.Mesh.AdmissionSafety
