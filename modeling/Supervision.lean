import Supervision.Main
import Supervision.Listener.Ledger
import Supervision.Session.Rehearsal
import Supervision.Watcher.Rehearsal
import Supervision.Worker.Rehearsal
import Supervision.Frame.Writer
import Supervision.Broadcast
import Supervision.Proofs.Task.Pool
import Supervision.Proofs.Worker.Run
import Supervision.Proofs.Worker.Phase
import Supervision.Proofs.Worker.Succession
import Supervision.Proofs.Worker.Flow
import Supervision.Proofs.Worker.Moment
import Supervision.Proofs.Worker.Wakeup
import Supervision.Proofs.Worker.Progress
import Supervision.Proofs.Worker.Barrier
import Supervision.Proofs.Worker.Custody
import Supervision.Proofs.Worker.Listening
import Supervision.Proofs.Worker.Teardown
import Supervision.Proofs.Worker.Workspace
import Supervision.Proofs.Listener.Registry
import Supervision.Proofs.Worker.Tidings
import Supervision.Proofs.Worker.Refresh
import Supervision.Proofs.Worker.Completion
import Supervision.Proofs.Link.History
import Supervision.Proofs.Link.Answer
import Supervision.Proofs.Link.Routing
import Supervision.Proofs.Text.RoundTrip
import Supervision.Proofs.Json.Numeral
import Supervision.Proofs.Json.RoundTrip
import Supervision.Proofs.Frame.Source
import Supervision.Proofs.Frame.RoundTrip
import Supervision.Proofs.Watcher.Report
import Supervision.Proofs.Watcher.Retry
import Supervision.Proofs.Watcher.Disposal
import Supervision.Proofs.Watcher.Cancellation
import Supervision.Proofs.Watcher.Airing
import Supervision.Proofs.Worker.Roster
import Supervision.Proofs.Worker.Dispatch
import Supervision.Proofs.Worker.Attempt
import Supervision.Proofs.Worker.Silence
import Supervision.Proofs.Session.Handshake
import Supervision.Proofs.Number.Rounding
import Supervision.Proofs.Number.Shortest
import Supervision.Proofs.Json.Double
import Supervision.Proofs.Json.Reread
import Supervision.Proofs.Message.RoundTrip
import Supervision.Proofs.Text.Recognition
import Supervision.Proofs.Frame.Grammar
import Supervision.Proofs.Frame.Sink
import Supervision.Proofs.Session.Group
import Supervision.Proofs.Worker.Tidying
import Supervision.Proofs.Worker.Chronicle
import Supervision.Proofs.Worker.Launching
import Supervision.Proofs.Worker.Launcher
import Supervision.Proofs.Worker.Search
import Supervision.Proofs.Link.Sorting
import Supervision.Proofs.Listener.Ledger
import Supervision.Proofs.Worker.Trackers
import Supervision.Proofs.Worker.Tracking
import Supervision.Proofs.Text.Expansion
import Supervision.Proofs.Environment
