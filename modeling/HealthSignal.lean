import HealthSignal.Main
import HealthSignal.Proofs.Probe.Readiness
import HealthSignal.Proofs.RoundTrip.NoFalseAlarm
import HealthSignal.Proofs.RoundTrip.Pace
import HealthSignal.Transport.Channel
import HealthSignal.Proofs.Membership.Feed
import HealthSignal.Proofs.Membership.View
import HealthSignal.Proofs.Membership.Audience
import HealthSignal.Proofs.Membership.Peers
import HealthSignal.Proofs.Sync.Decisions
import HealthSignal.Proofs.Sync.Transcript
import HealthSignal.Proofs.Probe.Delivery
import HealthSignal.Proofs.Sync.Account
import HealthSignal.Proofs.Sync.Episode
import HealthSignal.Proofs.Sync.Carrier
import HealthSignal.Proofs.Sync.Unfolding
import HealthSignal.Proofs.Sync.Convergence
import HealthSignal.Proofs.Sync.FailSafe
import HealthSignal.Proofs.Sync.Coverage
import HealthSignal.Proofs.Journal.Call
import HealthSignal.Proofs.Journal.Isolation
import HealthSignal.Proofs.Journal.Reference
import HealthSignal.Proofs.Probe.History
import HealthSignal.Proofs.Probe.Desk
import HealthSignal.Proofs.Probe.Law
import HealthSignal.Proofs.Sync.Ending
import HealthSignal.Proofs.Sync.Outcome
import HealthSignal.Proofs.RoundTrip.Loss
import HealthSignal.Proofs.Sync.Shutdown
import HealthSignal.Proofs.Probe.Undisturbed
import HealthSignal.Proofs.RoundTrip.SnapshotLoss
import HealthSignal.Proofs.RoundTrip.Discipline
import HealthSignal.Proofs.RoundTrip.Retention
import HealthSignal.Proofs.Supervision
import HealthSignal.Proofs.Probe.Closing
import HealthSignal.Proofs.Journal.Provenance
import HealthSignal.Proofs.Duration
import HealthSignal.Proofs.Config.Printed
import HealthSignal.Proofs.RoundTrip.Axes
import HealthSignal.Proofs.Transport.Directories
import HealthSignal.Proofs.Transport.SignalFile
import HealthSignal.Proofs.Assembly
import HealthSignal.Proofs.Journal.Opening
import HealthSignal.Proofs.Probe.Build
import HealthSignal.Proofs.Daemon
