import RocketFS.Client.Consistency
import RocketFS.Client.Filesystem
import RocketFS.Client.Handles
import RocketFS.Client.Kernel
import RocketFS.Client.Mount
import RocketFS.Client.Operations
import RocketFS.Client.ReadDir
import RocketFS.Client.Resume
import RocketFS.Client.Stream
import RocketFS.Client.Window
import RocketFS.Common.Clock
import RocketFS.Common.IDCarry
import RocketFS.Common.IDGen
import RocketFS.Common.IDSchedule
import RocketFS.Common.IDSerial
import RocketFS.Common.Status
import RocketFS.KV.Conflicts
import RocketFS.KV.Database
import RocketFS.KV.History
import RocketFS.KV.ReadSet
import RocketFS.KV.Serializability
import RocketFS.KV.Sessions
import RocketFS.KV.Store
import RocketFS.KV.Versions
import RocketFS.KV.Visibility
import RocketFS.Lib.Bytes
import RocketFS.Lib.CreationOrder
import RocketFS.Lib.Fitting
import RocketFS.Lib.GrowingPages
import RocketFS.Lib.Linearizability
import RocketFS.Lib.Paths
import RocketFS.Lib.Program
import RocketFS.Lib.Ratchet
import RocketFS.Lib.RowUpdates
import RocketFS.Lib.Run
import RocketFS.Lib.SortedMap
import RocketFS.Lib.WriteHistory
import RocketFS.Service.Agreement
import RocketFS.Service.Alone
import RocketFS.Service.Answers
import RocketFS.Service.Browsing
import RocketFS.Service.Calls
import RocketFS.Service.Completion
import RocketFS.Service.Creations
import RocketFS.Service.Decisions
import RocketFS.Service.Directory
import RocketFS.Service.Durability
import RocketFS.Service.Handlers
import RocketFS.Service.Lifetime
import RocketFS.Service.Linearizability
import RocketFS.Service.Listing
import RocketFS.Service.Namespace
import RocketFS.Service.Operations
import RocketFS.Service.Pages
import RocketFS.Service.Paging
import RocketFS.Service.Paths
import RocketFS.Service.Permissions
import RocketFS.Service.Progress
import RocketFS.Service.Restarts
import RocketFS.Service.StorageErrors
import RocketFS.Service.System
import RocketFS.Service.Threads
import RocketFS.Service.Tree
import RocketFS.Service.Uniqueness
import RocketFS.Table.FlatBuffers
import RocketFS.Table.Records
import RocketFS.Table.Serde
import RocketFS.Table.Tables
import RocketFS.Table.Updates
import RocketFS.Table.Writes
