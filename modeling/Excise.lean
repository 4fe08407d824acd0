import Excise.Path
import Excise.Lib.Machine
import Excise.Lib.Maps
import Excise.Lib.Saturating
import Excise.Coordinator.Queues
import Excise.Coordinator.State
import Excise.Coordinator.Indexes
import Excise.Coordinator.Invariant
import Excise.Coordinator.Conservation
import Excise.Coordinator.Prefix
import Excise.Coordinator.Bypass
import Excise.Lib.Keyed
import Excise.Coordinator.Actor
import Excise.Coordinator.Records
import Excise.Rail.State
import Excise.Rail.Invariant
import Excise.Rail.Steps
import Excise.Rail.Reachable
import Excise.Rail.Ownership
import Excise.Rail.History
import Excise.Lib.KWayMerge
import Excise.Lib.Triple
import Excise.Lib.Paging
import Excise.Lib.Interaction
import Excise.Store.Facts
import Excise.Store.Manifest
import Excise.Store.ManifestRuns
import Excise.Store.Runs
import Excise.Store.Reduction
import Excise.Store.PageIndex
import Excise.Store.Session
import Excise.Store.ScanStore
import Excise.Store.Publish
import Excise.Store.Admission
import Excise.Store.Accept
import Excise.Lib.Folds
import Excise.Lib.Sums
import Excise.Store.Publication
import Excise.Store.Summaries
import Excise.Store.Lifecycle
import Excise.Store.Generations
import Excise.Store.Replays
import Excise.Scanner.Sealing
import Excise.Scanner.TaskSpill
import Excise.Scanner.TaskSpillJournal
import Excise.Store.ProvisionalPage
import Excise.Store.Intake
import Excise.Store.PageTable
import Excise.Store.Pages
import Excise.Store.FilteredPages
import Excise.Deletion.Plan
import Excise.Deletion.Executor
import Excise.Deletion.StopProtocol
import Excise.Deletion.Stopped
import Excise.Scanner.Scheduler
import Excise.Scanner.Journal
import Excise.Scanner.Moves
import Excise.Scanner.Directories
import Excise.Scanner.Drain
import Excise.Lib.Processes
import Excise.Sweep.Scratch
import Excise.Sweep.Programs
import Excise.Sweep.Contract
import Excise.Sweep.Removal
import Excise.Sweep.Safety
import Excise.Store.IdentityGroups
import Excise.Lib.PrefixCode
import Excise.Codec.PathKey
import Excise.Lib.Bytes
import Excise.Lib.FileBytes
import Excise.Codec.Values
import Excise.Codec.PathObservation
import Excise.Codec.Identity
import Excise.Codec.Stored
import Excise.Codec.PageKeys
import Excise.Codec.RunWriter
import Excise.Codec.RunReader
import Excise.Codec.RunFile
import Excise.Codec.RunMerge
import Excise.Codec.RangeReader
import Excise.Codec.SparseIndex
import Excise.Codec.SealBatch
import Excise.Codec.PathCatalog
import Excise.Store.Doubts
import Excise.Store.StoreHandle
import Excise.Store.DoubtIndex
import Excise.Report.Canonical
import Excise.Report.Agreement
import Excise.Report.Exactness
import Excise.Storage.TemporaryStorage
import Excise.Storage.Accounting
import Excise.Store.DirectoryFold
import Excise.Store.ReducedTree
import Excise.Deletion.RecordSpill
import Excise.Deletion.SpillReads
import Excise.Deletion.SpillFrames
import Excise.Deletion.SpillRuns
import Excise.Lib.JsonText
import Excise.Deletion.PlanStorage
import Excise.Deletion.PlanWalk
import Excise.Deletion.ResultRecords
import Excise.Deletion.ReservedResults
import Excise.Store.FolderTotals
import Excise.Store.PublishedTotals
import Excise.Deletion.MountInfo
import Excise.Lib.CappedSet
import Excise.Store.NoteFlushes
import Excise.Tiles.Treemap
import Excise.Lib.TextCodes
import Excise.Codec.SafeDisplay
import Excise.Scanner.Unscanned
import Excise.Tiles.Board
import Excise.Deletion.ExecutionAccount
import Excise.Deletion.Restoration
import Excise.Deletion.SharedFolders
import Excise.Deletion.OwnRemovals
import Excise.Deletion.SharedExecution
import Excise.Deletion.FreedSpace
import Excise.Lib.TreeWalk
import Excise.Deletion.PlanContents
import Excise.Deletion.PlanCompleteness
import Excise.Deletion.PlanOrder
import Excise.Storage.PrivateFiles
import Excise.Lib.ByteLru
import Excise.Owner.SnapshotTree
import Excise.Owner.ListedPage
import Excise.Owner.PageCache
import Excise.Owner.App
import Excise.Owner.Handed
import Excise.Owner.RebuildIsolation
import Excise.Owner.Removals
import Excise.Owner.Settled
