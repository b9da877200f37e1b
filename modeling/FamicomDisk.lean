import FamicomDisk.Adapter
import FamicomDisk.Command.Run
import FamicomDisk.Main
import FamicomDisk.Proofs.Faultless
import FamicomDisk.Proofs.Fidelity
import FamicomDisk.Proofs.KnownDecoding
import FamicomDisk.Proofs.Framing
import FamicomDisk.Proofs.SlotHeaders
import FamicomDisk.Proofs.Slots
import FamicomDisk.Proofs.Storing
import FamicomDisk.Proofs.Disks
import FamicomDisk.Proofs.Moving
import FamicomDisk.Proofs.Splices
import FamicomDisk.Proofs.Preceding
import FamicomDisk.Proofs.Controller
import FamicomDisk.Proofs.Transitions
import FamicomDisk.Proofs.Containers
import FamicomDisk.Proofs.Converting
import FamicomDisk.Proofs.Damage
import FamicomDisk.Proofs.AnyCapture
import FamicomDisk.Proofs.Paths
import FamicomDisk.Proofs.Writing
import FamicomDisk.Proofs.Sessions
import FamicomDisk.Proofs.Unordered
import FamicomDisk.Proofs.NoisyGaps
import FamicomDisk.Proofs.NoisyRecovery
import FamicomDisk.Proofs.Consistency
import FamicomDisk.Proofs.LeadIns
import FamicomDisk.Proofs.Trailers
import FamicomDisk.Proofs.Dumps
import FamicomDisk.Proofs.FirstEnd
import FamicomDisk.Proofs.Seeking
import FamicomDisk.Proofs.Filling
import FamicomDisk.Proofs.AnyRecovery
import FamicomDisk.Proofs.Words
import FamicomDisk.Proofs.Updating
import FamicomDisk.Proofs.Verdicts
import FamicomDisk.Proofs.Accepting
import FamicomDisk.Proofs.Endings
import FamicomDisk.Proofs.Extents
import FamicomDisk.Proofs.Sending
import FamicomDisk.Proofs.StoredChecks
import FamicomDisk.Proofs.Listing
import FamicomDisk.Proofs.TitledDumps
import FamicomDisk.Proofs.Rounds
import FamicomDisk.Proofs.Refusals
import FamicomDisk.Proofs.GlitchGaps
import FamicomDisk.Proofs.GapZeros
import FamicomDisk.Proofs.Numerals
import FamicomDisk.Proofs.Selecting
import FamicomDisk.Proofs.Rereading
import FamicomDisk.Proofs.Settings
