import Offspring.Command.Emission
import Offspring.ForkProgram.Pair
import Offspring.Machine.Host
import Offspring.Main
import Offspring.Proofs.Process.Family
import Offspring.Runner.Session
import Offspring.Proofs.Capture.Reader
import Offspring.Proofs.Capture.Watch
import Offspring.Proofs.Runner.Wait
import Offspring.Proofs.Capture.Lines
import Offspring.Proofs.System.Stdout
import Offspring.Proofs.Text.Operand
import Offspring.Proofs.ForkProgram.Run
import Offspring.Proofs.Capture.Log
import Offspring.Proofs.ForkProgram.Law
import Offspring.Process.Twins
import Offspring.Proofs.Process.Steps
import Offspring.Capture.Vigil
import Offspring.Proofs.Capture.Vigil
import Offspring.Proofs.Runner.Waits
import Offspring.Proofs.Runner.Logs
import Offspring.Proofs.Process.Handles
import Offspring.Proofs.Text.LeadingInt
import Offspring.Proofs.Capture.Failure
import Offspring.Proofs.ForkProgram.Killed
import Offspring.Proofs.Runner.Collect
import Offspring.Proofs.ForkProgram.ReadBack
import Offspring.Proofs.ForkProgram.Sleep
import Offspring.Proofs.Runner.Workspace
import Offspring.Runner.Workshop
import Offspring.Proofs.System.Files
import Offspring.Proofs.Text.Octets
import Offspring.Proofs.Runner.Workshop
import Offspring.Proofs.Text.Subparts
import Offspring.Proofs.Text.LossyPath
import Offspring.Proofs.ForkProgram.Name
import Offspring.Proofs.Process.Arguments
import Offspring.Proofs.Capture.Pending
import Offspring.Text.Register
import Offspring.Proofs.Text.Register
