import TransactionRelay.Address
import TransactionRelay.Amount
import TransactionRelay.BlockRange
import TransactionRelay.Event
import TransactionRelay.Failure
import TransactionRelay.Json.Basic
import TransactionRelay.Json.Decode
import TransactionRelay.Json.Events
import TransactionRelay.Json.GasPrice
import TransactionRelay.Json.PingAnswer
import TransactionRelay.Json.Read
import TransactionRelay.Json.Records
import TransactionRelay.Json.Reports
import TransactionRelay.Json.Write
import TransactionRelay.LogFile.Path
import TransactionRelay.LogFile.Rolling
import TransactionRelay.LogFile.Setup
import TransactionRelay.LogFile.Tree
import TransactionRelay.Polling.Poller
import TransactionRelay.Polling.RetryPolicy
import TransactionRelay.Registration.Attempt
import TransactionRelay.Registration.Command
import TransactionRelay.Registration.Cycle
import TransactionRelay.Registration.DelayedQueue
import TransactionRelay.Registration.Journal
import TransactionRelay.Registration.Manager
import TransactionRelay.Registration.Session
import TransactionRelay.Registration.Sweep
import TransactionRelay.Rehearsal.Ledger
import TransactionRelay.Rehearsal.Network
import TransactionRelay.Relay
import TransactionRelay.Requirement
import TransactionRelay.Selection.Directory
import TransactionRelay.Selection.PingFilter
import TransactionRelay.Selection.Race
import TransactionRelay.Selection.Selector
import TransactionRelay.Selection.TierPool
import TransactionRelay.Settings.Client
import TransactionRelay.Settings.Environment
import TransactionRelay.Settings.Logging
import TransactionRelay.Settings.Server
import TransactionRelay.Text.Blank
import TransactionRelay.Text.Cased
import TransactionRelay.Text.Digits
import TransactionRelay.Text.Hidden
import TransactionRelay.Text.LowerCase
import TransactionRelay.Text.Quoted
import TransactionRelay.Text.Ranges
import TransactionRelay.Transaction
import TransactionRelay.Url
import TransactionRelay.Url.Target
import TransactionRelay.Proofs.Registration.Handling
import TransactionRelay.Proofs.Registration.AfterLeaving
import TransactionRelay.Proofs.Registration.DueUnlocks
import TransactionRelay.Proofs.Registration.RetriedSweeps
import TransactionRelay.Proofs.Registration.Spending
import TransactionRelay.Proofs.Registration.Aside
import TransactionRelay.Proofs.Polling.Polls
import TransactionRelay.Proofs.Registration.Announcements
import TransactionRelay.Proofs.Polling.HandledOnce
import TransactionRelay.Proofs.Polling.DueTransfers
import TransactionRelay.Proofs.Registration.Composed
import TransactionRelay.Proofs.Registration.Yielding
import TransactionRelay.Proofs.Registration.Repeating
import TransactionRelay.Proofs.Registration.Interrupted
import TransactionRelay.Proofs.Registration.Questions
import TransactionRelay.Proofs.Polling.ContiguousScans
import TransactionRelay.Proofs.Polling.PollGate
import TransactionRelay.Proofs.Polling.InFlight
import TransactionRelay.Proofs.Polling.Decision
import TransactionRelay.Proofs.Registration.Standing
import TransactionRelay.Proofs.Registration.Granularity
import TransactionRelay.Proofs.Registration.StakeHistory
import TransactionRelay.Proofs.Selection.Places
import TransactionRelay.Proofs.Selection.HandingOut
import TransactionRelay.Proofs.Selection.Racing
import TransactionRelay.Proofs.Selection.Selecting
import TransactionRelay.Proofs.Selection.Fates
import TransactionRelay.Proofs.Polling.Journaling
import TransactionRelay.Proofs.Polling.Stopping
import TransactionRelay.Proofs.Registration.Evidence
import TransactionRelay.Proofs.Registration.AddedWorkers
import TransactionRelay.Proofs.Polling.FreshReadings
import TransactionRelay.Proofs.Registration.Stages
import TransactionRelay.Proofs.Registration.Listing
import TransactionRelay.Proofs.Selection.Usable
import TransactionRelay.Proofs.Selection.Preferred
import TransactionRelay.Proofs.Registration.Submissions
import TransactionRelay.Proofs.Registration.Emptying
import TransactionRelay.Proofs.Selection.Completions
import TransactionRelay.Proofs.Selection.Termination
import TransactionRelay.Proofs.Registration.Delistings
import TransactionRelay.Proofs.Registration.Waiting
import TransactionRelay.Proofs.Url.PortPlace
import TransactionRelay.Proofs.Text.Numerals
import TransactionRelay.Proofs.Json.GasPrices
import TransactionRelay.Proofs.Json.RoundTrip
import TransactionRelay.Proofs.Json.PricedRecords
import TransactionRelay.Proofs.Registration.Flips
import TransactionRelay.Proofs.Registration.Explanations
import TransactionRelay.Proofs.Json.EventForms
import TransactionRelay.Proofs.LogFile.FirstUsable
import TransactionRelay.Proofs.Address.Topics
