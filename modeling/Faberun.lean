import Faberun.Machine.Core
import Faberun.Machine.HandOff
import Faberun.Model.Engine.SettlementOverlap
import Faberun.Soundness.SettlementOverlap
import Faberun.Machine.KeyedGate
import Faberun.Model.Engine.ProofGate
import Faberun.Model.Engine.Settlement
import Faberun.Soundness.SettlementProgress
import Faberun.Model.Run.Lock
import Faberun.Soundness.RunLock
import Faberun.Model.Contract.Status
import Faberun.Model.Engine.Admission
import Faberun.Soundness.Admission
import Faberun.Soundness.RuntimeBound
import Faberun.Machine.CommitGraph
import Faberun.Model.Repo.Integrate
import Faberun.Soundness.IntegrationHistory
import Faberun.Soundness.Integration
import Faberun.Soundness.CrashConsistency
import Faberun.Model.Contract.Graph
import Faberun.Model.Engine.FinalVerification
import Faberun.Soundness.IntegrationStretch
import Faberun.Soundness.FinalVerification
import Faberun.Model.Engine.DriveLoop
import Faberun.Soundness.DriveLoop
import Faberun.Model.Engine.JudgeGate
import Faberun.Model.Engine.JudgeRound
import Faberun.Soundness.JudgeGate
import Faberun.Model.Contract.Verification
import Faberun.Soundness.VerificationLists
import Faberun.Text.CodeUnits
import Faberun.Text.JsonText
import Faberun.Model.Campaign.Journal
import Faberun.Text.JsonRoundTrip
import Faberun.Soundness.JournalEntry
import Faberun.Soundness.Journal
import Faberun.Soundness.JournalRuns
import Faberun.Machine.Watermark
import Faberun.Model.Campaign.Watch
import Faberun.Soundness.Watch
import Faberun.Model.Campaign.Coordinator
import Faberun.Soundness.Coordinator
import Faberun.Model.Contract.VerificationResult
import Faberun.Model.Engine.RunCommand
import Faberun.Soundness.CheckpointReuse
import Faberun.Model.Campaign.Chain
import Faberun.Soundness.Chain
import Faberun.Model.Contract.Snapshot
import Faberun.Model.Engine.Verify
import Faberun.Soundness.SnapshotBytes
import Faberun.Soundness.SnapshotWrites
import Faberun.Soundness.SnapshotBudget
import Faberun.Model.Campaign.Projection
import Faberun.Soundness.ProjectionLines
import Faberun.Soundness.Projection
import Faberun.Soundness.ProjectionRuns
import Faberun.Model.Contract.JudgeIndependence
import Faberun.Model.Plan.Routing
import Faberun.Soundness.Routing
import Faberun.Soundness.RoutingContract
import Faberun.Model.Plan.Rounds
import Faberun.Soundness.Rounds
import Faberun.Machine.KeyedStore
import Faberun.Model.Engine.Cancel
import Faberun.Soundness.CancelRefs
import Faberun.Soundness.Cancel
import Faberun.Model.Run.Migrate
import Faberun.Soundness.Migrate
import Faberun.Soundness.MigrateRuns
import Faberun.Soundness.Migration
import Faberun.Model.Engine.Recover
import Faberun.Soundness.Recover
import Faberun.Model.Run.DiskGc
import Faberun.Soundness.DiskGc
import Faberun.Model.Engine.PhaseSession
import Faberun.Soundness.PhaseSession
import Faberun.Model.Repo.Seal
import Faberun.Soundness.Seal
import Faberun.Machine.Digraph
import Faberun.Machine.FirstByKey
import Faberun.Machine.Loop
import Faberun.Model.Contract.DefinitionOfDone
import Faberun.Model.Plan.Template
import Faberun.Model.Plan.Sizing
import Faberun.Soundness.SizingMerges
import Faberun.Soundness.SizingOrder
import Faberun.Machine.Absorption
import Faberun.Model.Plan.Declarations
import Faberun.Soundness.PhaseCarry
import Faberun.Model.Plan.HumanSteps
import Faberun.Soundness.HumanSteps
import Faberun.Model.Run.Jsonl
import Faberun.Soundness.Jsonl
import Faberun.Model.Engine.Mutation
import Faberun.Soundness.Mutation
import Faberun.Model.Repo.SignalBlock
import Faberun.Soundness.SignalBlock
import Faberun.Soundness.ProofIndex
import Faberun.Model.UtilWords
import Faberun.Model.Engine.Scope
import Faberun.Soundness.Scope
import Faberun.Model.Contract.TaskPacket
import Faberun.Model.Repo.Workspace
import Faberun.Soundness.ScopePaths
import Faberun.Soundness.ScopeBoundary
import Faberun.Soundness.SizingProofs
import Faberun.Soundness.ProofSlots
import Faberun.Model.Campaign.Reserve
import Faberun.Soundness.Reserve
import Faberun.Model.Run.Operations
import Faberun.Soundness.Operations
import Faberun.Model.Engine.JudgeList
import Faberun.Soundness.JudgeList
import Faberun.Machine.OnePass
import Faberun.Model.Engine.RetryPlan
import Faberun.Soundness.RetryPlan
import Faberun.Machine.Window
import Faberun.Model.Engine.Backoff
import Faberun.Model.Engine.NodeRoutes
import Faberun.Soundness.NodeRoutes
import Faberun.Soundness.NetworkWaits
import Faberun.Soundness.OneHop
import Faberun.Soundness.TierFailover
import Faberun.Model.Repo.Release
import Faberun.Soundness.Release
import Faberun.Machine.LineBudget
import Faberun.Model.Campaign.Handoff
import Faberun.Soundness.Handoff
import Faberun.Soundness.ShellWords
import Faberun.Model.Plan.Freeze
import Faberun.Soundness.BoundedTail
import Faberun.Soundness.MeasuredTimeouts
import Faberun.Model.Engine.PreviousAttempt
import Faberun.Model.Harnesses.Protocol
import Faberun.Soundness.ExtractJson
import Faberun.Soundness.OperatorAnswer
import Faberun.Soundness.PromptAssembly
import Faberun.Model.Harnesses.SessionMetrics
import Faberun.Soundness.SessionMetrics
import Faberun.Model.Plan.ProofScope
import Faberun.Model.Plan.Spec
import Faberun.Soundness.SpecBullets
import Faberun.Soundness.SpecRequirements
import Faberun.Machine.Countdown
import Faberun.Machine.TornLog
import Faberun.Machine.UnlockedFile
import Faberun.Model.Campaign.Record
import Faberun.Model.Engine.Gate
import Faberun.Model.Engine.NotifyQueue
import Faberun.Model.Engine.RunProgress
import Faberun.Model.Engine.Supervise
import Faberun.Model.Run.Availability
import Faberun.Model.Run.UsageWindows
import Faberun.Soundness.Availability
import Faberun.Soundness.CampaignRecord
import Faberun.Soundness.Gate
import Faberun.Soundness.Heartbeat
import Faberun.Soundness.NotifyQueue
import Faberun.Soundness.OneProvider
import Faberun.Soundness.RunProgress
import Faberun.Soundness.Supervise
import Faberun.Soundness.UsageWindows
import Faberun.Model.Engine.Reauthor
import Faberun.Model.Engine.RunRecord
import Faberun.Soundness.Reauthor
import Faberun.Soundness.RunRecord
import Faberun.Soundness.Stranded
import Faberun.Model.Campaign.Ledger
import Faberun.Soundness.Ledger
