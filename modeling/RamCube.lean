import RamCube.Lib.Run
import RamCube.Lib.DList
import RamCube.Lib.Bytes
import RamCube.Store.Assoc
import RamCube.Store.AssocRun
import RamCube.Store.Items
import RamCube.Store.ItemsOk
import RamCube.Store.ItemsKeep
import RamCube.Store.ItemsRun
import RamCube.Store.Commands
import RamCube.Store.ItemsFrame
import RamCube.Store.ItemsHistory
import RamCube.Store.CommandRuns
import RamCube.Store.ItemsOrder
import RamCube.Store.Binding
import RamCube.Store.StoreCommand
import RamCube.Store.Clients
import RamCube.Backup.Segment
import RamCube.Backup.Interleaving
import RamCube.Backup.Recovery
import RamCube.Backup.Protocol
import RamCube.Store.Flushing
import RamCube.Backup.Sessions
import RamCube.Server.Ascii
import RamCube.Server.Binary
import RamCube.Server.Lengths
import RamCube.Backup.HeartBeat
import RamCube.Backup.Merged
import RamCube.Backup.Persisting
import RamCube.Backup.Placement
import RamCube.Server.BackupConn
import RamCube.Server.BackupReplies
import RamCube.Server.QuietRequests
import RamCube.Store.CommandFrames
import RamCube.Store.Expiry
import RamCube.Store.NoEviction
import RamCube.Backup.Exchange
import RamCube.Slabs.Allocation
import RamCube.Slabs.Counting
import RamCube.Server.Datagrams
import RamCube.Store.DataBlocks
import RamCube.Backup.Batches
import RamCube.Backup.SegmentMemory
import RamCube.Backup.PersistFailures
import RamCube.Backup.ReadBack
import RamCube.Server.BackupSplits
import RamCube.Backup.Mirror
import RamCube.Server.Numbers
import RamCube.Server.Retrieval
import RamCube.Server.StorageLines
import RamCube.Server.Parsing
import RamCube.Server.Roles
import RamCube.Store.Deltas
import RamCube.Backup.BodyBuffers
import RamCube.Server.CrashReports
import RamCube.Store.Flags
import RamCube.Server.Flags
import RamCube.Server.Guests
import RamCube.Stats.Prefixes
import RamCube.Stats.PrefixDump
import RamCube.Stats.StatsBuffer
import RamCube.Server.Dispatch
import RamCube.Slabs.Automove
import RamCube.Slabs.Sizes
import RamCube.Server.Errno
import RamCube.Store.ItemMemory
import RamCube.Store.Allocating
import RamCube.Store.ItemLocks
import RamCube.Store.AllocCases
import RamCube.Store.PageMoves
import RamCube.Store.Chunks
import RamCube.Store.Reserving
import RamCube.Store.MemoryRuns
import RamCube.Store.AllocSound
import RamCube.Store.Requested
import RamCube.Store.SlabLists
import RamCube.Slabs.Reassign
import RamCube.Server.ObjectCache
import RamCube.Store.StoreCalls
import RamCube.Store.Holders
import RamCube.Server.References
import RamCube.Server.ReferenceTurns
import RamCube.Server.ReferenceRuns
import RamCube.Server.ReferenceCalls
import RamCube.Server.LockSwitchEnds
import RamCube.Store.HashMixing
import RamCube.Server.ReadBufferRuns
import RamCube.Server.Replies
import RamCube.Server.PacketRuns
import RamCube.Backup.ReadCallback
import RamCube.Slabs.Rebalancer
import RamCube.Store.PageClearing
