import StackLift.Listing.Json
import StackLift.Main
import StackLift.Proofs.Execution.Idle
import StackLift.Proofs.Execution.Refinement
import StackLift.Proofs.Lift.Depth
import StackLift.Proofs.Lift.Marks
import StackLift.Proofs.Lift.Meaning
import StackLift.Proofs.Lift.Perform
import StackLift.Proofs.Lift.Scratch
import StackLift.Proofs.Listing.Alias
import StackLift.Proofs.Listing.Columns
import StackLift.Proofs.Listing.Growth
import StackLift.Proofs.Listing.Overlap
import StackLift.Proofs.Listing.Rounds
import StackLift.Proofs.Listing.Tokens
import StackLift.Proofs.Listing.Window
import StackLift.Proofs.Literal.Grammar
import StackLift.Proofs.Machine.Arithmetic
import StackLift.Proofs.Machine.Stack
import StackLift.Proofs.Opcode.History
import StackLift.Proofs.Project
import StackLift.Proofs.Relocation.Scan
import StackLift.Proofs.Revision.Reordered
import StackLift.Proofs.Statement.Json
import StackLift.Proofs.Statement.Text
