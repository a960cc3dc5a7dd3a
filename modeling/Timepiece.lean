import Timepiece.Link.Simulation.Transfers
import Timepiece.Link.Simulation.Waiting
import Timepiece.Main
import Timepiece.Proofs.Json.Calls
import Timepiece.Proofs.Json.Storage
import Timepiece.Proofs.Link.Alerts
import Timepiece.Proofs.Link.AnsweredUploads
import Timepiece.Proofs.Link.Callbacks
import Timepiece.Proofs.Link.Handshakes
import Timepiece.Proofs.Link.NotificationRuns
import Timepiece.Proofs.Link.Releases
import Timepiece.Proofs.Link.Repetitions
import Timepiece.Proofs.Link.Reports
import Timepiece.Proofs.Link.Retries
import Timepiece.Proofs.Link.Waiters
import Timepiece.Proofs.Link.Writes
import Timepiece.Proofs.Numbers.Bounds
import Timepiece.Proofs.Program.HandlerTables
import Timepiece.Proofs.Program.Lossless
import Timepiece.Proofs.Program.Payloads
import Timepiece.Proofs.Resolution.Buffers
import Timepiece.Proofs.Resolution.Catalogs
import Timepiece.Proofs.Resolution.ListsOfOne
import Timepiece.Proofs.Resolution.Options
import Timepiece.Proofs.Text.Folding
import Timepiece.Proofs.Workshop.Errands
