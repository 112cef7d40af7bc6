import WorkBundle.Gate.Calls
import WorkBundle.Schedule
import WorkBundle.Builder
import WorkBundle.ConfigError
import WorkBundle.ConfigFile
import WorkBundle.Demo
import WorkBundle.Main
import WorkBundle.Session
import WorkBundle.Proofs.OneFailure
import WorkBundle.Proofs.Output
import WorkBundle.Proofs.Counts
import WorkBundle.Proofs.Holdings
import WorkBundle.Proofs.AfterFailure
import WorkBundle.Proofs.Sequential
import WorkBundle.Proofs.OneByOne
import WorkBundle.Proofs.SequentialBundle
import WorkBundle.Proofs.Totals
import WorkBundle.Proofs.Settled
import WorkBundle.Proofs.Foreseen
import WorkBundle.Proofs.AnySchedule
import WorkBundle.Proofs.Lock
import WorkBundle.Proofs.WorkLeft
import WorkBundle.Proofs.Lifecycle
import WorkBundle.Proofs.Return
import WorkBundle.Proofs.Records
import WorkBundle.Proofs.Cancellation
import WorkBundle.Proofs.GateOrder
import WorkBundle.Proofs.FailureCounts
import WorkBundle.Proofs.WorkConserving
import WorkBundle.Proofs.WriteOnce
import WorkBundle.Proofs.GateSettled
import WorkBundle.Proofs.Outstanding
import WorkBundle.Proofs.Numbering
import WorkBundle.Proofs.Registry
import WorkBundle.Proofs.Validation
import WorkBundle.Proofs.Collected
import WorkBundle.Proofs.Wrapping
import WorkBundle.Proofs.RaisedErrors
