import Rdbms.Catalog.Basic
import Rdbms.Catalog.Calls
import Rdbms.Catalog.Canonical
import Rdbms.Catalog.Codec
import Rdbms.Catalog.Direct
import Rdbms.Catalog.Heaps
import Rdbms.Catalog.Layout
import Rdbms.Catalog.Malformed
import Rdbms.Catalog.Rows
import Rdbms.Catalog.Store
import Rdbms.Catalog.Tables
import Rdbms.Catalog.WellFormed
import Rdbms.Codec
import Rdbms.Core
import Rdbms.Index.Basic
import Rdbms.Index.Bounded
import Rdbms.Index.Failed
import Rdbms.Index.Insert
import Rdbms.Index.Lookup
import Rdbms.Index.Loose
import Rdbms.Index.Node
import Rdbms.Index.NodeFormat
import Rdbms.Index.Shape
import Rdbms.Index.ShortKeys
import Rdbms.Index.Store
import Rdbms.Index.Stored
import Rdbms.Index.Tree
import Rdbms.Index.Unchanged
import Rdbms.Library.BPlusTree
import Rdbms.Library.BinarySearch
import Rdbms.Library.Checksum
import Rdbms.Library.Cursor
import Rdbms.Library.Exec
import Rdbms.Library.Failure
import Rdbms.Library.Hoare
import Rdbms.Library.LittleEndian
import Rdbms.Library.Lockstep
import Rdbms.Library.Matching
import Rdbms.Library.Parsing
import Rdbms.Library.Refinement
import Rdbms.Library.Slice
import Rdbms.Library.Utf8
import Rdbms.Library.Walk
import Rdbms.Page.Basic
import Rdbms.Page.Compaction
import Rdbms.Page.Corruption
import Rdbms.Page.Insert
import Rdbms.Page.Safety
import Rdbms.Page.SlotMap
import Rdbms.Page.Slots
import Rdbms.Recovery.Basic
import Rdbms.Recovery.Clean
import Rdbms.Recovery.Crash
import Rdbms.Recovery.Reopen
import Rdbms.Recovery.Replay
import Rdbms.Recovery.Restart
import Rdbms.Recovery.Reused
import Rdbms.Recovery.TornTail
import Rdbms.Recovery.Survival
import Rdbms.Sql.Agreement
import Rdbms.Sql.Answers
import Rdbms.Sql.Atomic
import Rdbms.Sql.Consistent
import Rdbms.Sql.Crash
import Rdbms.Sql.Depicts
import Rdbms.Sql.Durable
import Rdbms.Sql.Execute
import Rdbms.Sql.Extension
import Rdbms.Sql.Grammar
import Rdbms.Sql.Ideal
import Rdbms.Sql.Lexer
import Rdbms.Sql.PageIds
import Rdbms.Sql.Parser
import Rdbms.Sql.Reached
import Rdbms.Sql.Refinement
import Rdbms.Sql.Registry
import Rdbms.Sql.Row
import Rdbms.Sql.RowFormat
import Rdbms.Sql.Select
import Rdbms.Sql.Sessions
import Rdbms.Sql.Statements
import Rdbms.Sql.Stops
import Rdbms.Sql.Syntax
import Rdbms.Tx.Autocommit
import Rdbms.Tx.Basic
import Rdbms.Tx.Capacity
import Rdbms.Tx.Careful
import Rdbms.Tx.Committed
import Rdbms.Tx.Contents
import Rdbms.Tx.FailedCommit
import Rdbms.Tx.FaultFree
import Rdbms.Tx.History
import Rdbms.Tx.Limits
import Rdbms.Tx.Operations
import Rdbms.Tx.Outcomes
import Rdbms.Tx.Ownership
import Rdbms.Tx.Paths
import Rdbms.Tx.Protocol
import Rdbms.Tx.Rows
import Rdbms.Tx.Schema
import Rdbms.Tx.Scripts
import Rdbms.Tx.Session
import Rdbms.Tx.Staging
import Rdbms.Tx.Stops
import Rdbms.Tx.Unsaved
import Rdbms.Tx.View
import Rdbms.Tx.WriteAhead
import Rdbms.Vfs.Crash
import Rdbms.Vfs.Disk
import Rdbms.Vfs.PageFile
import Rdbms.Vfs.PageMap
import Rdbms.Vfs.Pages
import Rdbms.Vfs.Stops
import Rdbms.Vfs.Transfer
import Rdbms.Wal.Append
import Rdbms.Wal.Basic
import Rdbms.Wal.Corruption
import Rdbms.Wal.Log
import Rdbms.Wal.Record
import Rdbms.Wal.RoundTrip
