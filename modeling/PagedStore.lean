import PagedStore.Bytes
import PagedStore.Contents
import PagedStore.Checksum.Crc32
import PagedStore.Field
import PagedStore.Ident
import PagedStore.Numeric.Fixed
import PagedStore.Row
import PagedStore.Schema
import PagedStore.Settings
import PagedStore.StoreError
import PagedStore.Text.Blank
import PagedStore.Text.Printable
import PagedStore.Text.Quoted
import PagedStore.Text.Utf8
import PagedStore.Page.Marks
import PagedStore.Page.Basic
import PagedStore.Page.Image
import PagedStore.Locks.Holders
import PagedStore.Locks.WaitGraph
import PagedStore.Locks.LockTable
import PagedStore.Locks.Service
import PagedStore.Cache.Counters
import PagedStore.Cache.Recency
import PagedStore.Disk
import PagedStore.TableFile
import PagedStore.Catalog.Basic
import PagedStore.Catalog.Definition
import PagedStore.Catalog.Load
import PagedStore.Cache.Basic
import PagedStore.Store.Basic
import PagedStore.Store.Fetch
import PagedStore.Store.Finish
import PagedStore.Tasks.Scan
import PagedStore.Tasks.Basic
import PagedStore.Tasks.Workload
import PagedStore.Session.Basic
import PagedStore.Session.Command
import PagedStore.Session.Serve
import PagedStore.Proofs.Images
import PagedStore.Proofs.FilePages
import PagedStore.Proofs.LockModes
import PagedStore.Proofs.Ledger
import PagedStore.Proofs.PageView
import PagedStore.Proofs.Agreement
import PagedStore.Proofs.Replay
import PagedStore.Proofs.StoreView
import PagedStore.Proofs.QuietSteps
import PagedStore.Proofs.Endings
import PagedStore.Proofs.Traffic
import PagedStore.Proofs.TaskSteps
import PagedStore.Proofs.TrafficTurns
import PagedStore.Proofs.Growth
import PagedStore.Proofs.SerialReplay
import PagedStore.Proofs.Undo
import PagedStore.Proofs.FailedCommit
import PagedStore.Proofs.Workloads
import PagedStore.Proofs.Sessions
import PagedStore.Proofs.Registration
import PagedStore.Proofs.Cycles
import PagedStore.Proofs.Waiting
import PagedStore.Proofs.Refusals
import PagedStore.Proofs.Exclusivity
import PagedStore.Proofs.Owners
import PagedStore.Proofs.Marks
import PagedStore.Proofs.Ownership
import PagedStore.Proofs.OwnChanges
import PagedStore.Proofs.HandleWrites
import PagedStore.Proofs.CleanPages
import PagedStore.Proofs.AlikePages
import PagedStore.Proofs.Outside
import PagedStore.Proofs.AlikeStores
import PagedStore.Proofs.AlikeSteps
import PagedStore.Proofs.AlikeTasks
import PagedStore.Proofs.AlikeTraffic
import PagedStore.Proofs.Transparency
import PagedStore.Proofs.SameCopies
import PagedStore.Proofs.InvisibleFlushes
import PagedStore.Proofs.PageHistories
import PagedStore.Proofs.CacheOrder
import PagedStore.Proofs.CacheRuns
import PagedStore.Proofs.CurrentPages
import PagedStore.Proofs.HeldPages
import PagedStore.Proofs.Insertions
import PagedStore.Proofs.InsertionRuns
import PagedStore.Proofs.TableNames
import PagedStore.Proofs.StoredRows
import PagedStore.Proofs.CanonicalImages
import PagedStore.Proofs.ContentChanges
import PagedStore.Proofs.ScanItems
import PagedStore.Proofs.DrivenScans
import PagedStore.Proofs.ScanProgress
import PagedStore.Proofs.Scans
import PagedStore.Proofs.BareForms
import PagedStore.Proofs.OwnTables
import PagedStore.Proofs.Likeness
import PagedStore.Proofs.PartedLocks
import PagedStore.Proofs.PartedStores
import PagedStore.Proofs.PartedTraffic
import PagedStore.Proofs.GroupsApart
import PagedStore.Proofs.LeavingLocks
import PagedStore.Proofs.Leftovers
import PagedStore.Proofs.UseOrder
import PagedStore.Proofs.InstalledPages
import PagedStore.Proofs.IntactPages
import PagedStore.Proofs.Evictions
import PagedStore.Proofs.AddedTables
import PagedStore.Proofs.AsideSteps
import PagedStore.Proofs.Placements
import PagedStore.Proofs.FailedTasks
import PagedStore.Proofs.DepthFirst
import PagedStore.Proofs.HeldIndex
import PagedStore.Proofs.SlotMaps
import PagedStore.Proofs.ImageSizes
import PagedStore.Proofs.FailedRestores
import PagedStore.Proofs.PageArrays
import PagedStore.Proofs.TextParts
import PagedStore.Proofs.PathParents
import PagedStore.Proofs.DefinitionLines
import PagedStore.Proofs.SchemaLoads
import PagedStore.Proofs.Bookkeeping
import PagedStore.Proofs.PassedPages
import PagedStore.Proofs.SlotValues
import PagedStore.Proofs.FullPages
import PagedStore.Proofs.CachedRows
import PagedStore.Proofs.ReloadedRows
import PagedStore.Proofs.CutTexts
import PagedStore.Proofs.AccessTicks
import PagedStore.Proofs.SlotSets
import PagedStore.Proofs.Slices
import PagedStore.Proofs.PageGeometry
import PagedStore.Proofs.RowHistories
