import Pqfh.Core.Bytes
import Pqfh.Core.Stop
import Pqfh.Core.List2
import Pqfh.Table.Layout
import Pqfh.Foundation.LinkedHeap
import Pqfh.Foundation.SearchGraphPath
import Pqfh.Memfh.Index
import Pqfh.Memfh.IndexSound
import Pqfh.Memfh.File
import Pqfh.Memfh.Walk
import Pqfh.Table.KeyFlags
import Pqfh.Foundation.Decimal
import Pqfh.Foundation.JsonValue
import Pqfh.Postgres.Value
import Pqfh.Table.Field
import Pqfh.Table.Record
import Pqfh.Handler.Params
import Pqfh.Postgres.Session
import Pqfh.Handler.Ops
import Pqfh.Handler.Texts
import Pqfh.Handler.OpsSpec
import Pqfh.Handler.RoundTrip
import Pqfh.Postgres.Numeral
import Pqfh.Handler.KeyTexts
import Pqfh.Handler.KeyRows
import Pqfh.Handler.KeyAgree
import Pqfh.Handler.OpsTotal
import Pqfh.Handler.Delete
import Pqfh.Postgres.Query
import Pqfh.Handler.Scan
import Pqfh.Handler.Open
import Pqfh.Handler.Dispatch
import Pqfh.Handler.DualWrite
import Pqfh.Foundation.Transaction
import Pqfh.Handler.Ledger
import Pqfh.Handler.Commits
import Pqfh.Handler.CallStack
import Pqfh.Handler.StatusLog
import Pqfh.Handler.WholeKey
import Pqfh.Handler.Control
import Pqfh.Handler.Closed
import Pqfh.Memfh.Start
import Pqfh.Memfh.Runs
import Pqfh.Memfh.StartSpec
import Pqfh.Foundation.Align
import Pqfh.Sync.Cmp
import Pqfh.Handler.ScanSpec
import Pqfh.Sync.CmpSpec
import Pqfh.Sync.Merge
import Pqfh.Sync.Settle
import Pqfh.Sync.FixedPoint
import Pqfh.Changelog.Decode
import Pqfh.Changelog.Sync
import Pqfh.Changelog.Dispatch
import Pqfh.Changelog.Once
import Pqfh.Handler.ScanOrder
import Pqfh.Handler.StartText
import Pqfh.Handler.ScanRuns
import Pqfh.Handler.Returns
import Pqfh.Handler.Shadow
import Pqfh.Handler.Bulk
import Pqfh.Handler.MetaCache
import Pqfh.Json.Element
import Pqfh.Json.Navigate
import Pqfh.Json.Lex
import Pqfh.Json.Words
import Pqfh.Json.Parse
import Pqfh.Json.ParseSpec
import Pqfh.Json.Print
import Pqfh.Json.RoundTrip
import Pqfh.Json.Accept
import Pqfh.Replica.Clones
import Pqfh.Foundation.Interleave
import Pqfh.Central.Relay
import Pqfh.Central.Sessions
import Pqfh.Memfh.Cbl
import Pqfh.Memfh.Delivery
import Pqfh.Memfh.Isolation
import Pqfh.Memfh.Registry
import Pqfh.Handler.ScanLocal
import Pqfh.Handler.ScanIsolation
import Pqfh.Handler.Locks
import Pqfh.Replica.Carried
import Pqfh.Replica.Copies
import Pqfh.Api.Payload
import Pqfh.Terminal.Bounds
import Pqfh.Handler.Quote
import Pqfh.Handler.Numbers
import Pqfh.Handler.Rejected
import Pqfh.Handler.Adjacent
import Pqfh.Handler.Footprint
import Pqfh.Handler.Converted
import Pqfh.Foundation.Rewriting
import Pqfh.Handler.Renamed
import Pqfh.Memfh.Rewrite
import Pqfh.Memfh.WriteScan
import Pqfh.Terminal.Cuts
import Pqfh.Terminal.Arrives
import Pqfh.Handler.Directions
import Pqfh.Terminal.Alike
import Pqfh.Memfh.Extended
import Pqfh.Sql.Linha
import Pqfh.Terminal.Reference
import Pqfh.Foundation.Reencoded
import Pqfh.Terminal.Share
import Pqfh.Terminal.Shared
import Pqfh.Terminal.Dirty
import Pqfh.Terminal.MenuInterno
import Pqfh.Memfh.Capacity
import Pqfh.Memfh.Depth
import Pqfh.Table.KeyRanges
import Pqfh.Sync.KeyBytes
import Pqfh.Handler.Prepared
import Pqfh.Handler.CachePointers
import Pqfh.Foundation.KeyedStore
import Pqfh.Handler.RecordRows
import Pqfh.Handler.Keyed
import Pqfh.Handler.KeyedRuns
import Pqfh.Handler.Mirrored
import Pqfh.Changelog.Following
import Pqfh.Handler.Loaded
import Pqfh.Handler.Sessions
import Pqfh.Handler.Crashes
import Pqfh.Handler.Declared
import Pqfh.Sync.Copied
import Pqfh.Memfh.Stores
import Pqfh.Handler.Browse
import Pqfh.Handler.Snapshots
