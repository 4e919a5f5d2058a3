import ContestManagement.Lib.Relational
import ContestManagement.Lib.Machine
import ContestManagement.Lib.Ledger
import ContestManagement.Lib.Python
import ContestManagement.Lib.Decimal
import ContestManagement.Lib.Sweep
import ContestManagement.Lib.Dict
import ContestManagement.Lib.IndexedHeap
import ContestManagement.Lib.TimedMerge
import ContestManagement.Lib.Journal
import ContestManagement.Lib.SlidingWindow
import ContestManagement.Lib.Sql
import ContestManagement.Lib.Slots
import ContestManagement.Lib.Worklist
import ContestManagement.Lib.GreedyOrder
import ContestManagement.Lib.Rounding
import ContestManagement.Lib.Binary64
import ContestManagement.Lib.Lines
import ContestManagement.Lib.Maxima
import ContestManagement.Lib.DecimalText
import ContestManagement.Lib.Timeline
import ContestManagement.Lib.EventStream
import ContestManagement.Lib.MergeOrder
import ContestManagement.Lib.FirstTime
import ContestManagement.Lib.Attempt
import ContestManagement.Lib.Json
import ContestManagement.Lib.PrefixCode
import ContestManagement.Lib.Filenames
import ContestManagement.Lib.Joining
import ContestManagement.Lib.Abstraction
import ContestManagement.Lib.Standings
import ContestManagement.Lib.WriteAhead
import ContestManagement.Lib.Framing
import ContestManagement.Lib.Counting
import ContestManagement.Common.Crypto
import ContestManagement.Common.Datetime
import ContestManagement.Db.Files
import ContestManagement.Db.FileCacher
import ContestManagement.Db.FileCacherRuns
import ContestManagement.Db.PutThenGet
import ContestManagement.Io.PriorityQueue
import ContestManagement.Io.PriorityHeap
import ContestManagement.Io.AsyncRpc
import ContestManagement.Io.AsyncRpcInvariant
import ContestManagement.Io.AsyncRpcMoves
import ContestManagement.Io.AsyncRpcRuns
import ContestManagement.Io.AsyncRpcCalls
import ContestManagement.Io.AsyncRpcServer
import ContestManagement.Io.AsyncRpcServerRuns
import ContestManagement.Io.AsyncRpcLink
import ContestManagement.Io.AsyncRpcLinkMoves
import ContestManagement.Io.AsyncRpcLinkRuns
import ContestManagement.Io.NotificationLatch
import ContestManagement.Dump.Values
import ContestManagement.Dump.Exporter
import ContestManagement.Dump.Importer
import ContestManagement.Dump.ExportRuns
import ContestManagement.Dump.ImportRuns
import ContestManagement.Dump.RoundTrip
import ContestManagement.Service.WorkerPool
import ContestManagement.Service.Roster
import ContestManagement.Service.WorkerPoolInvariants
import ContestManagement.Service.WorkerPoolRuns
import ContestManagement.Service.FlushingDict
import ContestManagement.Service.Operations
import ContestManagement.Service.EvaluationService
import ContestManagement.Service.OperationCopies
import ContestManagement.Service.CopyMoves
import ContestManagement.Service.CopyInvariant
import ContestManagement.Service.LiveCopies
import ContestManagement.Service.Refusals
import ContestManagement.Service.Invalidation
import ContestManagement.Service.ScoringService
import ContestManagement.Service.StoredScores
import ContestManagement.Service.ProxyExecutor
import ContestManagement.Service.ProxyRounds
import ContestManagement.Service.ProxyQueue
import ContestManagement.Service.LatestData
import ContestManagement.Service.ProxyRequests
import ContestManagement.Service.RoundAccounts
import ContestManagement.Service.SettingsFirst
import ContestManagement.Service.Regenerate
import ContestManagement.Service.RegenerateThreads
import ContestManagement.Service.RegenerateKept
import ContestManagement.Service.NoLostScores
import ContestManagement.Service.Reinitialize
import ContestManagement.Service.ReinitializeRuns
import ContestManagement.Service.SweepQueries
import ContestManagement.Service.SweepEquality
import ContestManagement.Service.Recoveries
import ContestManagement.Service.ScoreOperations
import ContestManagement.Service.ScoreAgreement
import ContestManagement.Service.CumulativeStatus
import ContestManagement.Service.FlushAccounts
import ContestManagement.Service.EntityIds
import ContestManagement.Grading.SubtaskDag
import ContestManagement.Grading.ScoreTypes
import ContestManagement.Grading.Reduction
import ContestManagement.Grading.TwoPhase
import ContestManagement.Grading.SubtaskGate
import ContestManagement.Grading.Gates
import ContestManagement.Grading.GateInvariant
import ContestManagement.Grading.ScoreFacts
import ContestManagement.Grading.GateScores
import ContestManagement.Grading.GateProgress
import ContestManagement.Grading.Sum
import ContestManagement.Grading.GateStability
import ContestManagement.Grading.DependencyOrder
import ContestManagement.Grading.DependencyParsing
import ContestManagement.Grading.Zeroing
import ContestManagement.Grading.GateAgreement
import ContestManagement.Grading.StaysDead
import ContestManagement.Grading.Scorable
import ContestManagement.Grading.Feedback
import ContestManagement.Grading.PublicDetails
import ContestManagement.Grading.FeedbackPrefix
import ContestManagement.Grading.ScoreBounds
import ContestManagement.Grading.WhiteDiff
import ContestManagement.Grading.TaskScore
import ContestManagement.Ranking.Entities
import ContestManagement.Ranking.Score
import ContestManagement.Ranking.Stores
import ContestManagement.Ranking.Integrity
import ContestManagement.Ranking.Padding
import ContestManagement.Ranking.Replay
import ContestManagement.Ranking.Holds
import ContestManagement.Ranking.Readable
import ContestManagement.Ranking.Mirror
import ContestManagement.Ranking.MirrorRuns
import ContestManagement.Ranking.Restart
import ContestManagement.Ranking.DeliveryOrder
import ContestManagement.Ranking.Visibility
import ContestManagement.Ranking.Streams
import ContestManagement.Ranking.Frozen
import ContestManagement.Ranking.Freeze
import ContestManagement.Ranking.FinalResults
import ContestManagement.Ranking.Acceptance
import ContestManagement.Ranking.GlobalHistory
import ContestManagement.Ranking.Attempts
import ContestManagement.Ranking.Tidy
import ContestManagement.Ranking.Wiring
import ContestManagement.Ranking.Atomicity
import ContestManagement.Ranking.References
import ContestManagement.Ranking.Layers
import ContestManagement.Ranking.Watcher
import ContestManagement.Ranking.Viewers
import ContestManagement.Ranking.ViewersRuns
import ContestManagement.Ranking.PageRanks
import ContestManagement.Ranking.Files
import ContestManagement.Ranking.FilesRuns
import ContestManagement.Server.Tokening
import ContestManagement.Server.TokenRuns
import ContestManagement.Server.LimitChecks
import ContestManagement.Server.LimitRuns
import ContestManagement.Server.Phases
import ContestManagement.Server.LastMinutes
import ContestManagement.Server.TokenPeriods
import ContestManagement.Server.TokenForecast
import ContestManagement.Server.Authentication
import ContestManagement.Server.Sessions
import ContestManagement.Server.FileMatching
import ContestManagement.Server.MatchedFiles
import ContestManagement.Server.Activity
import ContestManagement.Server.ActivityBuffer
import ContestManagement.Server.ActivityRuns
import ContestManagement.Watchdog.Ledger
import ContestManagement.Watchdog.LedgerFile
import ContestManagement.Watchdog.Policy
import ContestManagement.Watchdog.Runs
import ContestManagement.Watchdog.Actions
import ContestManagement.Watchdog.Budgets
import ContestManagement.Watchdog.Liveness
import ContestManagement.Watchdog.Forecast
import ContestManagement.Watchdog.Incidents
import ContestManagement.Watchdog.Crashes
import ContestManagement.Events.Format
import ContestManagement.Events.FilteredStream
import ContestManagement.Events.Replay
import ContestManagement.Events.Publisher
import ContestManagement.Admin.ReadRows
import ContestManagement.Admin.ImportPlan
import ContestManagement.Admin.PasswordSecrecy
import ContestManagement.Admin.ImportRuns
import ContestManagement.Admin.ImportOutcome
import ContestManagement.Admin.BulkImport
import ContestManagement.Admin.RemovalPlan
import ContestManagement.Admin.BulkRemove
