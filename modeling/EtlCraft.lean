import EtlCraft.AccountAdmins
import EtlCraft.AccountCore
import EtlCraft.AgentCore
import EtlCraft.AgentEndings
import EtlCraft.AgentFence
import EtlCraft.AgentLeases
import EtlCraft.AgentUploads
import EtlCraft.ArchiveCore
import EtlCraft.ArchiveOnce
import EtlCraft.ArchiveSafety
import EtlCraft.AttemptCore
import EtlCraft.AttemptEffects
import EtlCraft.AttemptLifecycle
import EtlCraft.AutomaticRetries
import EtlCraft.Binary64
import EtlCraft.BusinessCalendars
import EtlCraft.CalendarMoves
import EtlCraft.CalendarSkips
import EtlCraft.CalendarTicks
import EtlCraft.CapacityBounds
import EtlCraft.CapacityCore
import EtlCraft.ColumnMoves
import EtlCraft.ColumnPositions
import EtlCraft.ColumnReapplied
import EtlCraft.ColumnRetirements
import EtlCraft.ConfigHistory
import EtlCraft.ConfigMoments
import EtlCraft.ConfigRetention
import EtlCraft.ControlCore
import EtlCraft.ControlFences
import EtlCraft.ControlKeys
import EtlCraft.CronCore
import EtlCraft.CronFields
import EtlCraft.CronSearch
import EtlCraft.CronZones
import EtlCraft.CycleListing
import EtlCraft.DepthFirst
import EtlCraft.EventConsumption
import EtlCraft.EventDelivery
import EtlCraft.EventFiles
import EtlCraft.EventVisibility
import EtlCraft.FanOut
import EtlCraft.FanOutRuns
import EtlCraft.FileWaits
import EtlCraft.GateConsumption
import EtlCraft.GateCore
import EtlCraft.GateRepairs
import EtlCraft.GateRuns
import EtlCraft.GateWait
import EtlCraft.GraphClosure
import EtlCraft.GraphCore
import EtlCraft.GraphCycles
import EtlCraft.GraphReady
import EtlCraft.GraphWaves
import EtlCraft.Gregorian
import EtlCraft.HashInputs
import EtlCraft.ItemCore
import EtlCraft.ItemRuns
import EtlCraft.ItemSafety
import EtlCraft.JsonTexts
import EtlCraft.Keyed
import EtlCraft.KeyedSource
import EtlCraft.LeaseRows
import EtlCraft.LeaseSound
import EtlCraft.LevelWalk
import EtlCraft.LineageCore
import EtlCraft.LineageDrawing
import EtlCraft.LineageHistory
import EtlCraft.LineageOrder
import EtlCraft.LineageVersions
import EtlCraft.LineageWalks
import EtlCraft.LockCore
import EtlCraft.LockExclusion
import EtlCraft.LockWait
import EtlCraft.MarkCore
import EtlCraft.MarkFinality
import EtlCraft.Masking
import EtlCraft.Meter
import EtlCraft.MigrationCore
import EtlCraft.MigrationResume
import EtlCraft.MigrationSafety
import EtlCraft.Moves
import EtlCraft.Numerals
import EtlCraft.Occurrences
import EtlCraft.OffsetJson
import EtlCraft.OffsetNumbers
import EtlCraft.OffsetStamps
import EtlCraft.OffsetValues
import EtlCraft.PartitionOffsets
import EtlCraft.Peeling
import EtlCraft.ProtectedLocks
import EtlCraft.ProtectedMerge
import EtlCraft.ProtectionCore
import EtlCraft.ProtectionEvents
import EtlCraft.ProtectionLog
import EtlCraft.ProtectionOrder
import EtlCraft.ProtectionRecovery
import EtlCraft.ProtectionState
import EtlCraft.Ranked
import EtlCraft.Redaction
import EtlCraft.RedactionScopes
import EtlCraft.RefreshAdmission
import EtlCraft.RefreshBundles
import EtlCraft.RefreshCore
import EtlCraft.RefreshSafety
import EtlCraft.RejectScreen
import EtlCraft.RejectScreening
import EtlCraft.Replacement
import EtlCraft.Results
import EtlCraft.Retaining
import EtlCraft.RetryRuns
import EtlCraft.RuleFlagRuns
import EtlCraft.RuleFlags
import EtlCraft.RunCore
import EtlCraft.RunEndings
import EtlCraft.Runs
import EtlCraft.ScheduleCatchUp
import EtlCraft.SecretPipe
import EtlCraft.Serialization
import EtlCraft.SerializationReread
import EtlCraft.SerializationRoundTrip
import EtlCraft.SessionCore
import EtlCraft.SessionEndings
import EtlCraft.Skipping
import EtlCraft.SqlAgreement
import EtlCraft.SqlLexemes
import EtlCraft.SqlReadOnly
import EtlCraft.SqlReadings
import EtlCraft.SqlScanner
import EtlCraft.StatementSplitting
import EtlCraft.Substitution
import EtlCraft.Successions
import EtlCraft.ThreeValued
import EtlCraft.UploadCore
import EtlCraft.UploadSafety
import EtlCraft.Utf8Reading
import EtlCraft.VersionAgreement
import EtlCraft.VersionConvergence
import EtlCraft.VersionCore
import EtlCraft.Walks
import EtlCraft.WindowCore
import EtlCraft.WindowTiling
import EtlCraft.ZipLimits
