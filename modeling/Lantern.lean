import Lantern.ByteStrings
import Lantern.ByteText
import Lantern.CharText
import Lantern.FuelLoop
import Lantern.Fallible
import Lantern.ResultLists
import Lantern.NodeLayout
import Lantern.PageLayout
import Lantern.IndexRelation
import Lantern.PageChain
import Lantern.StoreNodes
import Lantern.StoreIndex
import Lantern.StoreStreaming
import Lantern.StoreRewrite
import Lantern.InsertTuple
import Lantern.SystemRuns
import Lantern.RangeTiling
import Lantern.ProductQuantization
import Lantern.BulkDelete
import Lantern.IndexRuns
import Lantern.NodeEdits
import Lantern.WalReplay
import Lantern.IndexScan
import Lantern.IndexServer
import Lantern.EmbeddingDaemon
import Lantern.SegmentedStream
import Lantern.SocketClient
import Lantern.SocketProtocol
import Lantern.StreamShortfall
import Lantern.ScanBuffers
import Lantern.BufferEviction
import Lantern.ExtraDirtied
import Lantern.LockTable
import Lantern.BufferLocks
import Lantern.StreamSplits
import Lantern.CopyText
import Lantern.EmbeddingExport
import Lantern.QuantizeTable
import Lantern.QuantizationTasks
import Lantern.TriggerCodes
import Lantern.LockLedger
import Lantern.RowLocks
import Lantern.InitStreaming
import Lantern.PageRoom
import Lantern.StagingBuffer
import Lantern.ServerLocks
import Lantern.ServerStall
import Lantern.AutotuneJobs
import Lantern.ClientJobs
import Lantern.DaemonJobs
import Lantern.ClientSessions
import Lantern.ClientListeners
import Lantern.Bm25Table
import Lantern.Bm25Scores
import Lantern.CollectionInsert
import Lantern.NodeSizes
import Lantern.StoredLabels
import Lantern.VacuumSweep
import Lantern.VacuumLabels
import Lantern.EventTrail
import Lantern.SocketReads
import Lantern.SocketErrors
import Lantern.BuildCapacity
import Lantern.LeastSquares
import Lantern.KMeans
import Lantern.SubvectorSlices
import Lantern.TrainingWindow
import Lantern.CodebookInverse
import Lantern.BlockWrites
import Lantern.LoadCodebook
import Lantern.DatasetArray
import Lantern.DecimalText
import Lantern.PqvecCasts
import Lantern.VecsFiles
import Lantern.Bm25Aggregate
import Lantern.BitFilters
import Lantern.BloomCasts
import Lantern.BatchCollector
import Lantern.Bm25Consolidation
import Lantern.EmbeddingWorker
import Lantern.JobBatches
import Lantern.ConnectionUris
import Lantern.NotificationPayloads
import Lantern.QuotedNames
import Lantern.Bm25Statements
import Lantern.ImageEmbeddings
import Lantern.SessionChunks
import Lantern.OrderedLimit
import Lantern.RecallQueries
import Lantern.ExportUpdate
import Lantern.JobClaims
import Lantern.WeightedSearch
import Lantern.DaemonViews
