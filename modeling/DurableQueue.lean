import DurableQueue.Data.Document
import DurableQueue.Data.Fill
import DurableQueue.Data.Shape
import DurableQueue.Data.Value
import DurableQueue.Decimal.Binary64
import DurableQueue.Dispatch.Attempt
import DurableQueue.Dispatch.Bus
import DurableQueue.Dispatch.ClaimManager
import DurableQueue.Dispatch.Config
import DurableQueue.Dispatch.Document
import DurableQueue.Dispatch.Error
import DurableQueue.Dispatch.Handler
import DurableQueue.Dispatch.Hub
import DurableQueue.Dispatch.Mode
import DurableQueue.Dispatch.Node
import DurableQueue.Dispatch.Outcome
import DurableQueue.Dispatch.Tasks
import DurableQueue.Entry.Basic
import DurableQueue.Entry.Document
import DurableQueue.Entry.State
import DurableQueue.Json.Fault
import DurableQueue.Json.Reader
import DurableQueue.Json.Scan
import DurableQueue.Json.Value
import DurableQueue.Json.Writer
import DurableQueue.Lock.Acquisition
import DurableQueue.Lock.Call
import DurableQueue.Lock.Client
import DurableQueue.Lock.Coordinator
import DurableQueue.Lock.Coordinator.Lemmas
import DurableQueue.Lock.Error
import DurableQueue.Lock.Local
import DurableQueue.Lock.Locker
import DurableQueue.Lock.State
import DurableQueue.Notifier.Basic
import DurableQueue.Notifier.Document
import DurableQueue.Proofs.Store.Effect
import DurableQueue.Retry.Document
import DurableQueue.Retry.Policy
import DurableQueue.Schedule
import DurableQueue.Settings.Basic
import DurableQueue.Settings.Document
import DurableQueue.Settings.Environment
import DurableQueue.Settings.Load
import DurableQueue.Settings.Url
import DurableQueue.Store.Basic
import DurableQueue.Store.Document
import DurableQueue.Store.Error
import DurableQueue.Store.Reap
import DurableQueue.Store.Relational
import DurableQueue.Store.TableNames
import DurableQueue.Text.Blank
import DurableQueue.Text.Escaped
import DurableQueue.Text.Hidden
import DurableQueue.Text.Padded
import DurableQueue.Text.Quoted
import DurableQueue.Text.Split
import DurableQueue.Time.Clock
import DurableQueue.Time.Rfc3339
import DurableQueue.Time.Span
import DurableQueue.Time.Timestamp
import DurableQueue.Toml.Number
import DurableQueue.Toml.Reader
import DurableQueue.Toml.Scan
import DurableQueue.Toml.Table
import DurableQueue.Trial.Events
import DurableQueue.Trial.Fixture
import DurableQueue.Trial.Generator
import DurableQueue.Trial.Handlers
import DurableQueue.Trial.Invariant
import DurableQueue.Trial.Locks
import DurableQueue.Trial.Wait
import DurableQueue.Proofs.Store.WellFormed
import DurableQueue.Proofs.Store.Fate
import DurableQueue.Proofs.Store.Lifecycle
import DurableQueue.Proofs.Store.ClaimHistory
import DurableQueue.Proofs.Lock.NodePath
import DurableQueue.Proofs.Lock.Tree
import DurableQueue.Proofs.Lock.Alert
import DurableQueue.Proofs.Lock.ServiceChange
import DurableQueue.Proofs.Lock.Contender
import DurableQueue.Proofs.Lock.ContenderInvariant
import DurableQueue.Proofs.Lock.Parked
import DurableQueue.Proofs.Lock.Run
import DurableQueue.Proofs.Lock.CallInvariant
import DurableQueue.Proofs.Lock.RunInvariant
import DurableQueue.Proofs.Lock.History
import DurableQueue.Proofs.Lock.HandOff
import DurableQueue.Proofs.Lock.Exclusion
import DurableQueue.Proofs.Lock.Origin
import DurableQueue.Proofs.Lock.Release
import DurableQueue.Proofs.Lock.Leftover
import DurableQueue.Proofs.Lock.WakeQueue
import DurableQueue.Proofs.Lock.LocalRun
import DurableQueue.Proofs.Lock.LocalInvariant
import DurableQueue.Proofs.Lock.LocalWake
import DurableQueue.Proofs.Lock.LocalProgress
import DurableQueue.Proofs.Time.Order
import DurableQueue.Proofs.Lists
import DurableQueue.Proofs.Store.Chronology
import DurableQueue.Proofs.Store.Reaping
import DurableQueue.Proofs.Store.SingleUse
import DurableQueue.Proofs.Store.Tables
import DurableQueue.Proofs.Store.Conservation
import DurableQueue.Proofs.Store.Undisturbed
import DurableQueue.Proofs.Store.Recovery
import DurableQueue.Proofs.Store.Purging
import DurableQueue.Proofs.Store.Settling
import DurableQueue.Proofs.Store.Failures
import DurableQueue.Proofs.Notifier.Run
import DurableQueue.Proofs.Notifier.Queues
import DurableQueue.Proofs.Notifier.Delivery
import DurableQueue.Proofs.Dispatch.Terms
import DurableQueue.Proofs.Dispatch.Run
import DurableQueue.Proofs.Dispatch.Within
import DurableQueue.Proofs.Dispatch.TasksWithin
import DurableQueue.Proofs.Dispatch.Budget
import DurableQueue.Proofs.Dispatch.AttemptLog
import DurableQueue.Proofs.Dispatch.Turn
import DurableQueue.Proofs.Dispatch.TaskTurn
import DurableQueue.Proofs.Dispatch.BusTurn
import DurableQueue.Proofs.Dispatch.ActionTurn
import DurableQueue.Proofs.Dispatch.Course
import DurableQueue.Proofs.Dispatch.Attempts
import DurableQueue.Proofs.Dispatch.SingleAttempt
import DurableQueue.Proofs.Dispatch.Ledger
import DurableQueue.Proofs.Dispatch.Foreground
import DurableQueue.Proofs.Dispatch.Balance
import DurableQueue.Proofs.Dispatch.Passage
import DurableQueue.Proofs.Dispatch.Settlement
import DurableQueue.Proofs.Dispatch.Accounting
import DurableQueue.Proofs.Dispatch.NodeStep
import DurableQueue.Proofs.Dispatch.BusChange
import DurableQueue.Proofs.Dispatch.Pipeline
import DurableQueue.Proofs.Dispatch.Backpressure
import DurableQueue.Proofs.Dispatch.Shutdown
import DurableQueue.Proofs.Dispatch.Listening
import DurableQueue.Proofs.Dispatch.LocalCommits
import DurableQueue.Proofs.Dispatch.CallStep
import DurableQueue.Proofs.Dispatch.Custody
import DurableQueue.Proofs.Dispatch.Invocation
import DurableQueue.Proofs.Dispatch.Delivered
import DurableQueue.Proofs.Dispatch.HandedOver
import DurableQueue.Proofs.Dispatch.Batch
import DurableQueue.Proofs.Dispatch.Resolution
import DurableQueue.Proofs.Dispatch.BatchOrder
import DurableQueue.Proofs.Dispatch.BatchRun
import DurableQueue.Proofs.Notifier.AppendRun
import DurableQueue.Proofs.Notifier.Appends
import DurableQueue.Proofs.Json.Strings
import DurableQueue.Proofs.Json.Records
import DurableQueue.Proofs.Lock.Ranks
import DurableQueue.Proofs.Lock.Directories
import DurableQueue.Proofs.Lock.OneDirectory
import DurableQueue.Proofs.Lock.OneContender
import DurableQueue.Proofs.Lock.OneSlot
import DurableQueue.Proofs.Lock.OneLock
import DurableQueue.Proofs.Lock.OneCall
import DurableQueue.Proofs.Lock.OneAction
import DurableQueue.Proofs.Lock.Isolation
import DurableQueue.Proofs.Store.Claiming
import DurableQueue.Proofs.Retry.Backoff
import DurableQueue.Proofs.Retry.Delays
import DurableQueue.Proofs.Time.Later
import DurableQueue.Proofs.Retry.Decisions
import DurableQueue.Proofs.Dispatch.StickyClaims
import DurableQueue.Proofs.Dispatch.Outcomes
import DurableQueue.Proofs.Dispatch.Quota
import DurableQueue.Proofs.Dispatch.Drain
import DurableQueue.Proofs.Dispatch.Drained
import DurableQueue.Proofs.Lock.ServiceRun
import DurableQueue.Proofs.Lock.TreeHistory
import DurableQueue.Proofs.Lock.Children
import DurableQueue.Proofs.Lock.CreationOrder
import DurableQueue.Proofs.Dispatch.Tending
import DurableQueue.Proofs.Dispatch.Progression
import DurableQueue.Proofs.Dispatch.Sparing
import DurableQueue.Proofs.Dispatch.LostRaces
import DurableQueue.Proofs.Lock.Deletion
import DurableQueue.Proofs.Lock.Steady
import DurableQueue.Proofs.Lock.SteadyRun
import DurableQueue.Proofs.Lock.Freedom
import DurableQueue.Proofs.Settings.Redaction
import DurableQueue.Proofs.Store.Relational
import DurableQueue.Proofs.Store.TableNames
import DurableQueue.Proofs.Time.Clock
import DurableQueue.Proofs.Lock.Signals
import DurableQueue.Proofs.Trial.Watching
import DurableQueue.Proofs.Dispatch.Waits
