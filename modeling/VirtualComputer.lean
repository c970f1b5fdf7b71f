import VirtualComputer.Main
import VirtualComputer.Proofs.Grammar.Lines
import VirtualComputer.Proofs.Grammar.Precedence
import VirtualComputer.Proofs.Guest.Assignments
import VirtualComputer.Proofs.Guest.Ceiling
import VirtualComputer.Proofs.Guest.Deliveries
import VirtualComputer.Proofs.Guest.Leavings
import VirtualComputer.Proofs.Guest.LoopControl
import VirtualComputer.Proofs.Guest.Loopless
import VirtualComputer.Proofs.Guest.Nesting
import VirtualComputer.Proofs.Guest.Operators
import VirtualComputer.Proofs.Guest.Refinement
import VirtualComputer.Proofs.Guest.Scoping
import VirtualComputer.Proofs.Guest.Snapshots
import VirtualComputer.Proofs.Machine.Accounting
import VirtualComputer.Proofs.Machine.Announcements
import VirtualComputer.Proofs.Machine.Beginnings
import VirtualComputer.Proofs.Machine.Budget
import VirtualComputer.Proofs.Machine.Calls
import VirtualComputer.Proofs.Machine.Failures
import VirtualComputer.Proofs.Machine.Marking
import VirtualComputer.Proofs.Machine.Messages
import VirtualComputer.Proofs.Machine.Reachable
import VirtualComputer.Proofs.Machine.RoundTrip
import VirtualComputer.Proofs.Machine.Signals
import VirtualComputer.Proofs.Machine.Stopping
import VirtualComputer.Proofs.Text.Wrapping
