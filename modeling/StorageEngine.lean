import StorageEngine.Lib.BigEndian
import StorageEngine.Lib.Cursor
import StorageEngine.Lib.BoundedCursor
import StorageEngine.Lib.UniqueIndex
import StorageEngine.Lib.MapTotal
import StorageEngine.Lib.ReadWriteLock
import StorageEngine.Lib.SortedPrefix
import StorageEngine.Lib.RoundRobin
import StorageEngine.Lib.NestedCalls
import StorageEngine.Lib.LastWrite
import StorageEngine.Lib.LexicalPath
import StorageEngine.Lib.Remote
import StorageEngine.Lib.Observed
import StorageEngine.Lib.Concurrent
import StorageEngine.Lib.Transition
import StorageEngine.Lib.BackgroundThread
import StorageEngine.Lib.Atomic
import StorageEngine.Lib.Interleaving
import StorageEngine.Lib.CheckedArray
import StorageEngine.Lib.MarkerPadding
import StorageEngine.Lib.Json.Grammar
import StorageEngine.Lib.Json.Lexer
import StorageEngine.Lib.Json.Pieces
import StorageEngine.Lib.Json.Utf8
import StorageEngine.Lib.Sha256
import StorageEngine.Lib.BitField
import StorageEngine.Common.Types
import StorageEngine.Common.Config
import StorageEngine.Common.ConfigLoading
import StorageEngine.Common.Checksum
import StorageEngine.Common.Padding
import StorageEngine.Common.Sha256
import StorageEngine.Common.Uuid
import StorageEngine.Common.ThreadPool
import StorageEngine.Chunk.Format
import StorageEngine.Chunk.Canonical
import StorageEngine.Chunk.FormatBounds
import StorageEngine.Chunk.Store
import StorageEngine.Chunk.Refinement
import StorageEngine.Chunk.Accounting
import StorageEngine.Chunk.Range
import StorageEngine.Chunk.Failures
import StorageEngine.Chunk.Paths
import StorageEngine.Chunk.Scan
import StorageEngine.Metadata.Store
import StorageEngine.Metadata.Index
import StorageEngine.Metadata.Plan
import StorageEngine.Metadata.PlanSize
import StorageEngine.Metadata.Selection
import StorageEngine.Metadata.Placement
import StorageEngine.Metadata.Snapshot
import StorageEngine.Metadata.SnapshotFile
import StorageEngine.Metadata.SnapshotJson
import StorageEngine.Metadata.Service
import StorageEngine.Metadata.Naming
import StorageEngine.Metadata.Listing
import StorageEngine.Cluster.Network
import StorageEngine.Cluster.Calls
import StorageEngine.Cluster.ChunkIds
import StorageEngine.Cluster.DeleteByName
import StorageEngine.Cluster.StoreSections
import StorageEngine.Cluster.Layout
import StorageEngine.Cluster.Files
import StorageEngine.Cluster.Accounted
import StorageEngine.Cluster.BackgroundThreads
import StorageEngine.Client.StorageClient
import StorageEngine.Client.WriteLoop
import StorageEngine.Client.Upload
import StorageEngine.Client.Tiling
import StorageEngine.Client.PutRun
import StorageEngine.Client.LocalFiles
import StorageEngine.Client.PutAvailable
import StorageEngine.Client.PutFailure
import StorageEngine.Client.PutSuccess
import StorageEngine.Client.Download
import StorageEngine.Client.PutReadable
import StorageEngine.Client.PutQuorum
import StorageEngine.Client.GetVerified
import StorageEngine.Cli.Main
import StorageEngine.Client.DeleteFailure
import StorageEngine.Client.DeleteRace
import StorageEngine.Client.Listing
import StorageEngine.Client.Leaks
import StorageEngine.Replication.ReplicationManager
import StorageEngine.Recovery.RecoveryManager
import StorageEngine.Recovery.RepairPass
import StorageEngine.Recovery.RepairLoop
import StorageEngine.Recovery.RepairRun
import StorageEngine.Recovery.OneObject
import StorageEngine.Recovery.Detection
import StorageEngine.Recovery.Versions
import StorageEngine.Recovery.Convergence
import StorageEngine.Recovery.Leaks
import StorageEngine.Recovery.LastCopy
import StorageEngine.Recovery.ReplicaCount
import StorageEngine.Recovery.TwoPaths
import StorageEngine.Recovery.StaticLoad
import StorageEngine.Recovery.Unattended
import StorageEngine.Heartbeat.HeartbeatManager
import StorageEngine.Integrity.System
import StorageEngine.Integrity.Calls
import StorageEngine.Integrity.Programs
import StorageEngine.Integrity.DataIntegrity
import StorageEngine.Integrity.Layout
import StorageEngine.Integrity.ReplicaVersions
import StorageEngine.Integrity.Faults
import StorageEngine.Integrity.Survival
import StorageEngine.FileMap.Contents
import StorageEngine.FileMap.Operations
import StorageEngine.FileMap.Maintenance
import StorageEngine.FileMap.Refinement
import StorageEngine.FileMap.Spread
import StorageEngine.FileMap.Restoration
import StorageEngine.FileMap.Endurance
import StorageEngine.Client.Settings
import StorageEngine.Metadata.NodeMain
import StorageEngine.Cli.Session
import StorageEngine.Coordinator.CoordinatorService
import StorageEngine.Coordinator.Moves
import StorageEngine.Coordinator.Priority
import StorageEngine.Coordinator.Electable
import StorageEngine.Coordinator.Cascade
import StorageEngine.Coordinator.BullySafety
import StorageEngine.Coordinator.Leaders
import StorageEngine.Coordinator.Generation
import StorageEngine.Coordinator.LeaderView
import StorageEngine.Coordinator.Agreement
import StorageEngine.Coordinator.Deployment
