import Idhan.Lib.Total
import Idhan.Lib.Table
import Idhan.Lib.Digraph
import Idhan.Lib.Derivation
import Idhan.Lib.DerivationChanges
import Idhan.Lib.ReadCommitted
import Idhan.Lib.Chains
import Idhan.Lib.Groups
import Idhan.Lib.SortedMerge
import Idhan.Lib.Grouping
import Idhan.Lib.StableSort
import Idhan.Lib.Codec
import Idhan.Lib.Overwrite
import Idhan.Lib.Rounding
import Idhan.Lib.Threads
import Idhan.Lib.Faulty
import Idhan.Tags.Schema
import Idhan.Tags.Counts
import Idhan.Tags.Inherited
import Idhan.Tags.Active
import Idhan.Tags.Aliases
import Idhan.Tags.Parents
import Idhan.Tags.Api
import Idhan.Tags.Cascade
import Idhan.Tags.Frames
import Idhan.Tags.Resolution
import Idhan.Tags.AliasStatements
import Idhan.Tags.Runs
import Idhan.Tags.Conservation
import Idhan.Tags.ParentGraph
import Idhan.Tags.Support
import Idhan.Tags.Exactness
import Idhan.Tags.Rebuild
import Idhan.Tags.Concurrency
import Idhan.Tags.Names
import Idhan.Duplicates.Schema
import Idhan.Duplicates.Statements
import Idhan.Duplicates.Groups
import Idhan.Duplicates.Pairing
import Idhan.Duplicates.Undecided
import Idhan.Duplicates.Offered
import Idhan.Search.Set
import Idhan.Search.Algebra
import Idhan.Search.Query
import Idhan.Search.Paging
import Idhan.Search.Terms
import Idhan.Flatten.Chunk
import Idhan.Flatten.RoundTrip
import Idhan.Flatten.Scan
import Idhan.Flatten.Collapse
import Idhan.Flatten.Runs
import Idhan.Flatten.Replay
import Idhan.Flatten.Relations
import Idhan.Flatten.Publish
import Idhan.Ipc.Frame
import Idhan.Ipc.Delivery
import Idhan.Workers.Calls
import Idhan.Workers.Answers
import Idhan.Workers.Runner
import Idhan.Workers.Replies
import Idhan.Workers.Shutdown
import Idhan.Downloader.Http
import Idhan.Downloader.Cookies
import Idhan.Downloader.CookieHosts
import Idhan.Downloader.CookieHistory
import Idhan.Downloader.CookieClock
import Idhan.Downloader.Completion
import Idhan.Downloader.Redirects
import Idhan.Downloader.LanePolicy
import Idhan.Downloader.LaneRate
import Idhan.Downloader.Lane
import Idhan.Downloader.Retiring
import Idhan.Downloader.Shard
import Idhan.Downloader.Exchanges
import Idhan.Downloader.ScriptRunner
import Idhan.Downloader.WorkAccounts
import Idhan.Downloader.Discarding
import Idhan.Downloader.Queries
import Idhan.Downloader.HostRates
import Idhan.Files.Library
import Idhan.Files.Scan
import Idhan.Files.Import
import Idhan.Files.Attempts
import Idhan.Files.Deletion
import Idhan.Files.Writing
import Idhan.Files.ClusterUsage
import Idhan.Http.FileResponse
import Idhan.Http.Upload
import Idhan.Database.Transactions
import Idhan.Database.Leases
import Idhan.Database.Framing
import Idhan.Database.Operation
import Idhan.Database.Commit
import Idhan.Database.Connection
import Idhan.Database.Pipeline
import Idhan.Database.Draining
import Idhan.Database.Reactor
import Idhan.Psd.Raster
