import DedupServer.Foundations.Pieces
import DedupServer.Foundations.OwnedLog
import DedupServer.Foundations.Interleaving
import DedupServer.Foundations.Accounting
import DedupServer.Model.Define
import DedupServer.Model.Util
import DedupServer.Model.Server
import DedupServer.Model.Client
import DedupServer.Model.Conn
import DedupServer.Model.System
import DedupServer.Model.Script
import DedupServer.Upload.Chunks
import DedupServer.Upload.StoreLoop
import DedupServer.Upload.ReceiveBody
import DedupServer.Upload.Batches
import DedupServer.Upload.Renamed
import DedupServer.Protocol.Writers
import DedupServer.Protocol.Phase
import DedupServer.Protocol.ClientSteps
import DedupServer.Protocol.ServerSteps
import DedupServer.Protocol.Lockstep
import DedupServer.Protocol.Frame
import DedupServer.Protocol.Refs
import DedupServer.Protocol.Progress
import DedupServer.Protocol.Residue
import DedupServer.Protocol.Again
import DedupServer.Store.Pool
import DedupServer.Store.StoreChunks
import DedupServer.Store.Ownership
import DedupServer.Store.Runs
import DedupServer.Store.Recipe
import DedupServer.Store.Bytes
import DedupServer.Download.SendFile
import DedupServer.Store.Retrieve
import DedupServer.Store.Records
import DedupServer.Store.Returned
import DedupServer.Alone.Complete
import DedupServer.Alone.Download
import DedupServer.Alone.Upload
import DedupServer.Alone.Sequential
import DedupServer.Alone.Counted
import DedupServer.Results.Soundness
import DedupServer.Results.Visible
import DedupServer.Results.Acceptance
import DedupServer.Results.RoundTrip
import DedupServer.Results.Isolation
import DedupServer.Results.Known
import DedupServer.Results.Dedup
import DedupServer.Store.Extents
import DedupServer.Protocol.Buffers
import DedupServer.Results.InStep
import DedupServer.Foundations.Transfer
import DedupServer.Model.Socket
import DedupServer.Results.Framing
import DedupServer.Results.Residue
import DedupServer.Foundations.Machine
import DedupServer.Threads.BlockQueue
import DedupServer.Threads.Fifo
import DedupServer.Results.Queue
import DedupServer.Threads.ThreadPool
import DedupServer.Results.Pool
import DedupServer.Foundations.Slots
import DedupServer.Threads.MysqlConnPool
import DedupServer.Results.ConnPool
import DedupServer.Threads.EventLoop
import DedupServer.Results.Clients
import DedupServer.Foundations.SqlText
import DedupServer.Model.Registry
import DedupServer.Results.Registry
import DedupServer.Foundations.Heap
import DedupServer.Threads.Pipeline
import DedupServer.Threads.Drain
import DedupServer.Threads.Written
import DedupServer.Results.Pipeline
import DedupServer.Model.Control
import DedupServer.Results.Control
import DedupServer.Results.Names
import DedupServer.Results.Chunking
import DedupServer.Results.Packing
import DedupServer.Model.Syscalls
import DedupServer.Results.Failures
import DedupServer.Results.Endless
import DedupServer.Download.RecipeFile
import DedupServer.Results.Recipes
import DedupServer.Foundations.Tiling
import DedupServer.Threads.Packed
import DedupServer.Results.Containers
import DedupServer.Upload.Accesses
import DedupServer.Results.Bounds
import DedupServer.Foundations.Files
import DedupServer.Threads.Logger
import DedupServer.Threads.Rotation
import DedupServer.Results.Logger
import DedupServer.Results.HashText
import DedupServer.Foundations.Wakeups
import DedupServer.Threads.Sleepers
import DedupServer.Results.Producers
import DedupServer.Threads.SharedPool
import DedupServer.Results.Release
import DedupServer.Threads.SyncLogger
import DedupServer.Threads.LogFiles
import DedupServer.Results.LogFiles
import DedupServer.Results.LocalFile
import DedupServer.Download.Delivery
import DedupServer.Results.Delivery
import DedupServer.Foundations.Ledger
import DedupServer.Store.Counters
import DedupServer.Results.Counters
import DedupServer.Foundations.Lifetimes
import DedupServer.Foundations.WriteOnce
import DedupServer.Model.Lifetimes
import DedupServer.Store.Lives
import DedupServer.Store.Lasting
import DedupServer.Download.Amid
import DedupServer.Results.Durability
import DedupServer.Store.Calm
import DedupServer.Foundations.Settling
import DedupServer.Protocol.Rest
import DedupServer.Results.Recovery
import DedupServer.Results.WriteOnce
import DedupServer.Threads.Service
import DedupServer.Results.Service
import DedupServer.Threads.ReadAhead
import DedupServer.Threads.ReadBuffers
import DedupServer.Threads.ReadEnds
import DedupServer.Results.ReadAhead
import DedupServer.Threads.Entries
import DedupServer.Threads.UploadPool
import DedupServer.Results.Uploads
