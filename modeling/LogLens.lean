import LogLens.Library.LabelledMachine
import LogLens.Library.MessageBroker
import LogLens.Models
import LogLens.Fingerprint
import LogLens.Ingestion
import LogLens.GroupBookkeeping
import LogLens.SeenWindow
import LogLens.Grouping
import LogLens.CrashRetry
import LogLens.ProgressCounters
import LogLens.BatchRefinement
import LogLens.CreateJobRace
import LogLens.JobSystem
import LogLens.AbandonedJobs
import LogLens.JobLifecycle
import LogLens.OrphanedAnalyses
import LogLens.AnalysisOutcomes
import LogLens.RepeatedRequests
import LogLens.RefreshHistory
import LogLens.LoneRequests
import LogLens.SingleUse
import LogLens.Revocation
import LogLens.RevocationRecord
import LogLens.Lockout
import LogLens.LoginThrottling
import LogLens.LoginRace
import LogLens.Cleanup
import LogLens.Listing
import LogLens.TextSearch
import LogLens.Prompts
import LogLens.Storability
import LogLens.Masking
import LogLens.MaskedNumerals
import LogLens.Renormalising
import LogLens.LineLabels
import LogLens.Library.Unwinding
import LogLens.LoginPrivacy
import LogLens.StackFrames
import LogLens.Library.SerialOrder
import LogLens.GroupRequests
import LogLens.GroupSerialization
import LogLens.Analytics
import LogLens.JobGauge
import LogLens.StackTraces
import LogLens.CurrentUser
import LogLens.UserRequests
import LogLens.Registration
import LogLens.UserAuthority
import LogLens.UserEdits
import LogLens.AccessTokens
import LogLens.SpacedMatches
import LogLens.PageWalks
import LogLens.CleanupRaces
import LogLens.Tokens
import LogLens.WhitespaceStyle
import LogLens.CrossedSpaces
import LogLens.Library.PrefixCode
import LogLens.RequestHash
import LogLens.BulkKeys
import LogLens.TraceLines
import LogLens.AnalyticsCache
import LogLens.TriageAuthority
