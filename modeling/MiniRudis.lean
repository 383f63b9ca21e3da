import MiniRudis.Lib.Accumulator
import MiniRudis.Lib.Chain
import MiniRudis.Lib.Decimals
import MiniRudis.Lib.Deque
import MiniRudis.Lib.Footprint
import MiniRudis.Lib.Guarded
import MiniRudis.Lib.Lease
import MiniRudis.Lib.Ledger
import MiniRudis.Lib.Local
import MiniRudis.Lib.Normal
import MiniRudis.Lib.Observe
import MiniRudis.Lib.Occurrences
import MiniRudis.Lib.Options
import MiniRudis.Lib.Patch
import MiniRudis.Lib.Program
import MiniRudis.Lib.Reads
import MiniRudis.Lib.Regions
import MiniRudis.Lib.Resumable
import MiniRudis.Lib.Returns
import MiniRudis.Lib.Simulation
import MiniRudis.Lib.Slice
import MiniRudis.Lib.Stream
import MiniRudis.Lib.Tally
import MiniRudis.Lib.Tasks
import MiniRudis.Lib.Wildcards
import MiniRudis.Error
import MiniRudis.Rust.Float
import MiniRudis.Rust.Integer
import MiniRudis.Rust.Printing
import MiniRudis.Rust.Rounding
import MiniRudis.Rust.Text
import MiniRudis.Rust.Time
import MiniRudis.Db.BulkWrites
import MiniRudis.Db.ByteRanges
import MiniRudis.Db.Cardinalities
import MiniRudis.Db.Cells
import MiniRudis.Db.Counters
import MiniRudis.Db.Database
import MiniRudis.Db.Deadlines
import MiniRudis.Db.Entries
import MiniRudis.Db.Errors
import MiniRudis.Db.Eviction
import MiniRudis.Db.Expired
import MiniRudis.Db.ExpiredKeys
import MiniRudis.Db.ExpiredWrites
import MiniRudis.Db.FailedUpdates
import MiniRudis.Db.Filled
import MiniRudis.Db.Footprints
import MiniRudis.Db.Hashes
import MiniRudis.Db.Invariant
import MiniRudis.Db.KeySets
import MiniRudis.Db.Layouts
import MiniRudis.Db.Lists
import MiniRudis.Db.Locality
import MiniRudis.Db.LogicalDb
import MiniRudis.Db.Moves
import MiniRudis.Db.Object
import MiniRudis.Db.Operations
import MiniRudis.Db.Panics
import MiniRudis.Db.Patterns
import MiniRudis.Db.Pops
import MiniRudis.Db.Presence
import MiniRudis.Db.Queues
import MiniRudis.Db.RankOrder
import MiniRudis.Db.Ranks
import MiniRudis.Db.Related
import MiniRudis.Db.Removals
import MiniRudis.Db.Renames
import MiniRudis.Db.Runs
import MiniRudis.Db.ScoreChanges
import MiniRudis.Db.ScoreRanges
import MiniRudis.Db.Scores
import MiniRudis.Db.SetAlgebra
import MiniRudis.Db.Sets
import MiniRudis.Db.Shedding
import MiniRudis.Db.SkipList
import MiniRudis.Db.SkipListLayout
import MiniRudis.Db.SkipListRefines
import MiniRudis.Db.SkipListRuns
import MiniRudis.Db.SkipListSplice
import MiniRudis.Db.Slices
import MiniRudis.Db.Stocks
import MiniRudis.Db.Strings
import MiniRudis.Db.Transfers
import MiniRudis.Db.Views
import MiniRudis.Db.Writes
import MiniRudis.Db.WrongType
import MiniRudis.Db.ZSet
import MiniRudis.Db.ZSetRuns
import MiniRudis.Db.ZSets
import MiniRudis.Proto.Decode
import MiniRudis.Proto.Frame
import MiniRudis.Proto.Grammar
import MiniRudis.Proto.Lines
import MiniRudis.Proto.Panics
import MiniRudis.Proto.Resume
import MiniRudis.Proto.RoundTrip
import MiniRudis.Proto.Splitting
import MiniRudis.Cmd.Arguments
import MiniRudis.Cmd.Calls
import MiniRudis.Cmd.Command
import MiniRudis.Cmd.Dispatch
import MiniRudis.Cmd.Expiry
import MiniRudis.Cmd.Generic
import MiniRudis.Cmd.Hashes
import MiniRudis.Cmd.Lists
import MiniRudis.Cmd.Panics
import MiniRudis.Cmd.Parsed
import MiniRudis.Cmd.Ranges
import MiniRudis.Cmd.Replies
import MiniRudis.Cmd.ScoreFlags
import MiniRudis.Cmd.SetOptions
import MiniRudis.Cmd.Sets
import MiniRudis.Cmd.Strings
import MiniRudis.Cmd.ZSets
import MiniRudis.Script.Engine
import MiniRudis.Script.Values
import MiniRudis.Server.Cache
import MiniRudis.Server.Calls
import MiniRudis.Server.Clients
import MiniRudis.Server.Connections
import MiniRudis.Server.Decrements
import MiniRudis.Server.Expiry
import MiniRudis.Server.Filled
import MiniRudis.Server.Frames
import MiniRudis.Server.Handler
import MiniRudis.Server.Histories
import MiniRudis.Server.Increments
import MiniRudis.Server.Isolation
import MiniRudis.Server.KeySets
import MiniRudis.Server.Keys
import MiniRudis.Server.Leases
import MiniRudis.Server.Levels
import MiniRudis.Server.Lifetimes
import MiniRudis.Server.Panics
import MiniRudis.Server.Progress
import MiniRudis.Server.Replies
import MiniRudis.Server.Requests
import MiniRudis.Server.Serial
import MiniRudis.Server.Sessions
import MiniRudis.Server.SetCommand
import MiniRudis.Server.Stocks
import MiniRudis.Server.Sweeps
import MiniRudis.Server.Timestamps
