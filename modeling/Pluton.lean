import Pluton.Await.Pool
import Pluton.Agent.Store
import Pluton.Agent.Leases
import Pluton.Agent.SerialGate
import Pluton.Agent.Replay
import Pluton.Js
import Pluton.RemoteBackup.Completion
import Pluton.Agent.Request
import Pluton.RemoteBackup.Agreement
import Pluton.Run
import Pluton.Agent.Delivery
import Pluton.Export.Cipher
import Pluton.Export.RoundTrip
import Pluton.Tar.Field
import Pluton.Tar.Proof
import Pluton.Tar.Reader
import Pluton.Ends
import Pluton.Tar.Chunking
import Pluton.Tar.Record
import Pluton.Tar.Completeness
import Pluton.SourceAccess.Paths
import Pluton.Disk
import Pluton.SourceAccess.Policy
import Pluton.SourceAccess.Apply
import Pluton.SourceAccess.Spec
import Pluton.SourceAccess.Durability
import Pluton.SourceAccess.CrashSafety
import Pluton.SourceAccess.Writers
import Pluton.SourceAccess.Resurrection
import Pluton.Effect
import Pluton.WriteOnce.Diagnostics
import Pluton.WriteOnce.Publication
import Pluton.WriteOnce.Storage
import Pluton.WriteOnce.Race
import Pluton.WriteOnce.Steps
import Pluton.WriteOnce.Cleanup
import Pluton.WriteOnce.Verdict
import Pluton.Namespaces.Database
import Pluton.Namespaces.Assertions
import Pluton.Namespaces.Reserve
import Pluton.Namespaces.Stores
import Pluton.Namespaces.Clear
import Pluton.Namespaces.Checks
import Pluton.Namespaces.Isolation
import Pluton.Lifecycle.Remote
import Pluton.Lifecycle.Credentials
import Pluton.Envelope.Exclusions
import Pluton.Envelope.Payload
import Pluton.Envelope.Command
import Pluton.Lifecycle.Agreement
import Pluton.Envelope.Agreement
import Pluton.Replication.Jobs
import Pluton.Replication.Destinations
import Pluton.Replication.Copies
import Pluton.Replication.Service
import Pluton.Replication.Settlement
import Pluton.Export.Cancellation
import Pluton.SnapshotIndex.Cache
import Pluton.SnapshotIndex.Safety
import Pluton.SnapshotIndex.Cancellation
import Pluton.SourceControl.Report
import Pluton.SourceControl.Requests
import Pluton.SourceControl.History
import Pluton.SourceControl.Applied
import Pluton.Await.Chain
import Pluton.Mirrors.Store
import Pluton.Mirrors.Updates
import Pluton.RemoteBackup.PlanStats
import Pluton.Jobs.Processor
import Pluton.RemoteBackup.Snapshots
import Pluton.Jobs.Removal
import Pluton.Jobs.Conservation
import Pluton.LocalBackup.Handler
import Pluton.LocalBackup.EventService
import Pluton.LocalBackup.Finished
import Pluton.DatabaseRestore.Dispatch
import Pluton.DatabaseRestore.Service
import Pluton.DatabaseRestore.Invariant
import Pluton.DatabaseRestore.Dispatching
import Pluton.DatabaseRestore.Exclusion
import Pluton.DatabaseRestore.Deletion
import Pluton.AutomaticRecovery.Lifecycle
import Pluton.AutomaticRecovery.Mailbox
import Pluton.DownloadPreparation.Worker
import Pluton.DownloadPreparation.Admission
import Pluton.Notifications.Store
import Pluton.Notifications.Outbox
import Pluton.Notifications.Runs
import Pluton.Envelope.Normalised
import Pluton.BigEndian
import Pluton.SelfBackup.Blob
import Pluton.SelfBackup.Exact
import Pluton.Forest
import Pluton.Restore.Browser
import Pluton.Restore.Paths
import Pluton.Restore.Toggle
import Pluton.Restore.Agreement
import Pluton.OrderedMap
import Pluton.Schedules.Loading
import Pluton.Schedules.File
import Pluton.Schedules.Reconciler
import Pluton.Schedules.Running
import Pluton.Schedules.Reconciled
import Pluton.Schedules.Firing
import Pluton.Export.Multipart
import Pluton.Export.Parts
import Pluton.Log
import Pluton.Versioned.Cleanup
import Pluton.Mcp.Database
import Pluton.Mcp.Snapshot
import Pluton.Mcp.Actions
import Pluton.Mcp.Steps
import Pluton.Mcp.Changes
import Pluton.Mcp.Dispatch
import Pluton.Exclusions.Segments
import Pluton.Exclusions.Paths
import Pluton.Exclusions.Restic
import Pluton.PathNames
import Pluton.Tar.LinkGraph
import Pluton.SnapshotIndex.Manifest
import Pluton.SnapshotIndex.ExportLinks
import Pluton.SnapshotIndex.Page
import Pluton.Restore.Validation
import Pluton.Restore.Staged
import Pluton.SnapshotIndex.Comparison
import Pluton.Tar.Texts
import Pluton.Tar.PaxRecords
import Pluton.Tar.StoredTexts
import Pluton.Tar.Lossless
import Pluton.Lossy
import Pluton.RecoveryImport.Postgres
import Pluton.RecoveryImport.Envelope
import Pluton.RecoveryImport.Exact
import Pluton.AgentOutput.JsonLines
import Pluton.SnapshotIndex.MetadataLines
import Pluton.MysqlWorker.Frames
import Pluton.RemoteBackup.Progress
import Pluton.RemoteBackup.ProgressOrder
import Pluton.NodePath
import Pluton.StoragePaths.Sanitize
import Pluton.ProgressDelivery.Drain
import Pluton.ProgressDelivery.NothingLost
import Pluton.Escapes
import Pluton.Lifecycle.CredentialFiles
import Pluton.MysqlGrants
import Pluton.RecoveryImport.Grants
import Pluton.RecoveryImport.GrantsExact
import Pluton.CanonicalPath
import Pluton.SourcePreflight.Policy
import Pluton.Worklist
import Pluton.SourcePreflight.Scan
import Pluton.UniqueTable
import Pluton.Agent.Enrollment
import Pluton.Agent.EnrollmentChanges
import Pluton.Agent.EnrollmentRuns
import Pluton.Agent.DeviceRevocation
