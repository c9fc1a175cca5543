import Hiqlite.Lib.Region
import Hiqlite.Lib.Exec
import Hiqlite.Lib.Device
import Hiqlite.Lib.Consec
import Hiqlite.Lib.Path
import Hiqlite.Lib.PowerLoss
import Hiqlite.Lib.Lease
import Hiqlite.Lib.Expiring
import Hiqlite.Lib.Coupling
import Hiqlite.Lib.Dialogue
import Hiqlite.Lib.BigEndian
import Hiqlite.Lib.Session
import Hiqlite.Lib.Rows
import Hiqlite.Lib.SwapRemove
import Hiqlite.Wal.Format
import Hiqlite.Wal.File
import Hiqlite.Wal.Set
import Hiqlite.Wal.Writer
import Hiqlite.Wal.Layout
import Hiqlite.Wal.Journal
import Hiqlite.Wal.JournalOk
import Hiqlite.Wal.FileSpec
import Hiqlite.Wal.SetSpec
import Hiqlite.Wal.RemoveSpec
import Hiqlite.Wal.Mirror
import Hiqlite.Wal.WriterSpec
import Hiqlite.Wal.Run
import Hiqlite.Wal.Refine
import Hiqlite.Wal.Check
import Hiqlite.Wal.Recover
import Hiqlite.Wal.Grow
import Hiqlite.Wal.Kill
import Hiqlite.Wal.Durable
import Hiqlite.Wal.PowerLoss
import Hiqlite.Wal.Restart
import Hiqlite.Wal.Lifetimes
import Hiqlite.Logs.Memory
import Hiqlite.Cluster.Init
import Hiqlite.Snapshot.Cleanup
import Hiqlite.Backup.Restore
import Hiqlite.Client.Retry
import Hiqlite.Sqlite.Replicas
import Hiqlite.Sqlite.Transaction
import Hiqlite.Sqlite.Migrate
import Hiqlite.Sqlite.MigrateOnce
import Hiqlite.Client.Migrate
import Hiqlite.Network.Handshake
import Hiqlite.Network.CacheApi
import Hiqlite.Network.RaftClient
import Hiqlite.Client.Cache
import Hiqlite.Dlock.Handler
import Hiqlite.Dlock.Moves
import Hiqlite.Dlock.Exclusion
import Hiqlite.Dlock.Line
import Hiqlite.Dlock.Waiters
import Hiqlite.Dlock.Panics
import Hiqlite.Dlock.Cluster
import Hiqlite.Dlock.Ticker
import Hiqlite.Dlock.Same
import Hiqlite.Cache.Handler
import Hiqlite.Cache.Ttl
import Hiqlite.Cache.Same
import Hiqlite.Cache.Converge
import Hiqlite.Cache.Snapshot
import Hiqlite.Cache.Apply
import Hiqlite.Cache.Cut
import Hiqlite.External.Tables
import Hiqlite.External.Engine
import Hiqlite.External.Exact
import Hiqlite.External.Calls
import Hiqlite.External.Snapshot
import Hiqlite.External.Window
import Hiqlite.External.Once
import Hiqlite.External.Converge
import Hiqlite.External.Trace
import Hiqlite.External.Install
import Hiqlite.External.Frontier
import Hiqlite.External.Installs
import Hiqlite.Client.RateLimit
import Hiqlite.Backup.Keep
import Hiqlite.Backup.Create
import Hiqlite.Backup.Cycle
import Hiqlite.Backup.Cleanup
import Hiqlite.Wal.Single
import Hiqlite.Wal.Memo
import Hiqlite.Wal.Reader
import Hiqlite.Wal.ReadBack
import Hiqlite.Wal.Damage
import Hiqlite.Wal.Shallow
import Hiqlite.Wal.Meta
import Hiqlite.Wal.Names
import Hiqlite.Cache.Notify
import Hiqlite.Cache.Expiry
import Hiqlite.Cluster.Rejoin
import Hiqlite.Query.Rows
