import Runnerd.Daemon
import Runnerd.FrameStream
import Runnerd.SubmitCodec
import Runnerd.TimeoutRefinement
import Runnerd.PidRouting
import Runnerd.Settlement
import Runnerd.SignalDiscipline
import Runnerd.JobRecords
import Runnerd.JobIds
import Runnerd.Consistency
import Runnerd.Bookkeeping
import Runnerd.StartOrder
import Runnerd.NaturalExit
import Runnerd.SchedulerRefinement
import Runnerd.TimerArming
import Runnerd.Requests
import Runnerd.StartOutcome
import Runnerd.WorkConservation
import Runnerd.SignalAtomicity
import Runnerd.CancelAnswers
import Runnerd.JobIsolation
import Runnerd.ClientAgreement
import Runnerd.DecimalParsers
import Runnerd.Library.Interaction
import Runnerd.UnixSocket
import Runnerd.SocketPath
import Runnerd.Punctuality
import Runnerd.ExecutionDeadlines
import Runnerd.SignalFailures
import Runnerd.SlotCoherence
import Runnerd.Responses
import Runnerd.ClientFailures
import Runnerd.StaleEvents
import Runnerd.Arrivals
import Runnerd.RunnerctlMain
import Runnerd.Sessions
import Runnerd.ChildStartup
