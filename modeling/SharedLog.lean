import SharedLog.Main
import SharedLog.Proofs.Bootstrapper.Redelivery
import SharedLog.Proofs.Bootstrapper.Visibility
import SharedLog.Proofs.HoleFill.Configured
import SharedLog.Proofs.Sequencer.Fencing
import SharedLog.Proofs.Sequencer.Linearization
import SharedLog.Proofs.Sequencer.Tails
import SharedLog.Proofs.Stream.Ending
import SharedLog.Proofs.Stream.Order
import SharedLog.Proofs.Succession.Recovery
import SharedLog.Proofs.Wire.Forms
import SharedLog.Wire
import SharedLog.Proofs.World.Alone
import SharedLog.Proofs.Sequencer.Resubmission
import SharedLog.Proofs.Sequencer.Merging
import SharedLog.Proofs.Sequencer.Traceless
import SharedLog.Proofs.Run.Extent
import SharedLog.Proofs.Run.Law
import SharedLog.Proofs.Run.Reading
import SharedLog.Proofs.Chain.Probes
import SharedLog.Proofs.Bootstrapper.Batches
import SharedLog.Proofs.Bootstrapper.Acceptance
import SharedLog.Proofs.HoleFill.Schedule
import SharedLog.Proofs.Client.Outcome
import SharedLog.Proofs.Client.Epochs
import SharedLog.Proofs.HoleFill.Patient
import SharedLog.Proofs.Sequencer.Metrics
import SharedLog.Proofs.Bootstrapper.Retries
import SharedLog.Proofs.Config.Start
import SharedLog.Proofs.Node.Confluence
