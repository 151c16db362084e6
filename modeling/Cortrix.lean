import Cortrix.Store.WalDurability
import Cortrix.Store.DocLocks
import Cortrix.Store.PendingLogExact
import Cortrix.Store.Phnsw.SnapshotSafety
import Cortrix.Store.Phnsw.HeaderRepair
import Cortrix.Store.Phnsw.RecoveryHoles
import Cortrix.Store.Phnsw.DeletedCount
import Cortrix.Store.Phnsw.BatchValidation
import Cortrix.Store.Phnsw.AckedLive
import Cortrix.Store.DocVersions
import Cortrix.Async.CrashRecovery
import Cortrix.Async.DocReservation
import Cortrix.Async.Submission
import Cortrix.Async.ManagedInput
import Cortrix.Catalog.BlobObligations
import Cortrix.Auth.DisabledAccounts
import Cortrix.Auth.LoginLock
import Cortrix.Auth.PasswordReset
import Cortrix.Auth.Logout
import Cortrix.Retrieval.PostingCache
import Cortrix.Store.ArbitraryLogs
import Cortrix.Store.Compaction
import Cortrix.Catalog.BloomFilter
import Cortrix.Catalog.RefCounts
import Cortrix.Spc.StaleDelivery
import Cortrix.Spc.OneBackfillTask
import Cortrix.Spc.ProviderSpend
import Cortrix.Memory.MemoryQueue
import Cortrix.Import.CancelSafety
import Cortrix.Tenant.LastOwner
import Cortrix.Memory.EditForks
import Cortrix.Connector.MergedEvents
import Cortrix.Store.IngestRecovery
import Cortrix.Connector.WatchTeardown
import Cortrix.Connector.WatchPersistence
import Cortrix.Catalog.RouterPoolAgreement
import Cortrix.Memory.UserIsolation
import Cortrix.Memory.SessionRecovery
import Cortrix.DocSummary.SummaryDelivery
import Cortrix.Query.HiddenDocuments
import Cortrix.Store.AcceptedBlocks
import Cortrix.Chunker.ChildParentDedup
import Cortrix.Store.SourcePrefix
import Cortrix.Memory.SessionDeletion
import Cortrix.Chunker.ParentOverflow
import Cortrix.Spc.ChunkOffsets
import Cortrix.Query.RerankPermutation
import Cortrix.Spc.LedgerAudit
import Cortrix.Store.Fts5Query
import Cortrix.Query.ParentExpansion
import Cortrix.Query.RagFusion
import Cortrix.Query.RrfFusion
import Cortrix.Query.HybridFusion
import Cortrix.Spc.DataCleaner
import Cortrix.Spc.UnigramOptimal
import Cortrix.Auth.JwtUtils
import Cortrix.Middleware.RateLimiter
import Cortrix.Catalog.DeletedContent
import Cortrix.Retrieval.SparseCodec
import Cortrix.Query.PromptBuilding
import Cortrix.Catalog.CacheHistory
import Cortrix.Import.FilterSql
import Cortrix.Query.AuthorizedQuery
import Cortrix.Reranker.CircuitBreaker
