import Parley.Error.Report
import Parley.EventBus
import Parley.Main
import Parley.Summary
import Parley.Proofs.Arena
import Parley.Proofs.Execution
import Parley.Proofs.Tree
import Parley.Proofs.Turn
import Parley.Proofs.Provider
import Parley.Proofs.Manager.Calls
import Parley.Proofs.Manager.Step
import Parley.Proofs.Manager.Run
import Parley.Proofs.Lifecycle
import Parley.Proofs.Custody
import Parley.Proofs.Quota
import Parley.Proofs.Continuation
import Parley.Proofs.Manager.Turns
import Parley.Proofs.Opening
import Parley.Proofs.Grammar
import Parley.Proofs.Json
import Parley.Proofs.Replay
import Parley.Proofs.Chance
import Parley.Proofs.Manager.Requests
import Parley.Proofs.Manager.Alike
import Parley.Proofs.Isolation
import Parley.Proofs.Expiry
import Parley.Proofs.Walk
import Parley.Proofs.Display
import Parley.Proofs.Document.Lexemes
import Parley.Proofs.Document.Printed
import Parley.Proofs.Instant.Calendar
import Parley.Proofs.Instant.Rfc3339
import Parley.Proofs.Document.Records
import Parley.Proofs.Document.Content
import Parley.Proofs.Document.Snapshots
import Parley.Proofs.Document.Heard
import Parley.Proofs.Fidelity
import Parley.Proofs.Store
import Parley.Proofs.Manager.Twin
import Parley.Proofs.Restart
import Parley.Proofs.Agreement
import Parley.Proofs.Handover
import Parley.Proofs.Address
import Parley.Proofs.Restoration
import Parley.Proofs.Election
import Parley.Proofs.Placeholder
import Parley.Proofs.Rendering
import Parley.Proofs.Turn.Sound
import Parley.Proofs.Manager.Holdings
import Parley.Proofs.Delivery
import Parley.Proofs.Dismissal
import Parley.Proofs.Manager.Held
import Parley.Proofs.Admission
import Parley.Proofs.Progress
import Parley.Proofs.Bookkeeping
import Parley.Proofs.Text.Words
import Parley.Proofs.Text.Lowercase
import Parley.Proofs.Selection
import Parley.Proofs.Substitution
import Parley.Proofs.Understanding
import Parley.Proofs.Skipping
import Parley.Proofs.Membership
import Parley.Proofs.Confinement
import Parley.Proofs.Standstill
import Parley.Proofs.Directory
import Parley.Proofs.Preparation
import Parley.Proofs.Saving
import Parley.Proofs.Turn.Asking
import Parley.Proofs.Turn.Repeats
import Parley.Proofs.Pauses
import Parley.Proofs.Instant.Order
import Parley.Proofs.Document.Front
import Parley.Proofs.Chronology
import Parley.Proofs.Abandonment
