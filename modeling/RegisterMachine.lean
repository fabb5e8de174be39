import RegisterMachine.Assembly
import RegisterMachine.Command
import RegisterMachine.Image.Wire
import RegisterMachine.Listing
import RegisterMachine.Machine
import RegisterMachine.Main
import RegisterMachine.Proofs.Assembly.Entry
import RegisterMachine.Proofs.Assembly.Placement
import RegisterMachine.Proofs.Assembly.Safety
import RegisterMachine.Proofs.Command.Build
import RegisterMachine.Proofs.Image.Truncation
import RegisterMachine.Proofs.Listing.Headers
import RegisterMachine.Proofs.Listing.Printed
import RegisterMachine.Proofs.Literal.Accepted
import RegisterMachine.Proofs.Machine.Extension
import RegisterMachine.Proofs.Program.Stop
import RegisterMachine.Proofs.Program.Viable
import RegisterMachine.Proofs.SourceUnit.Canonical
import RegisterMachine.Proofs.SourceUnit.Carets
import RegisterMachine.Proofs.SourceUnit.Coverage
import RegisterMachine.Proofs.SourceUnit.FirstError
import RegisterMachine.Proofs.SourceUnit.FloatConstants
import RegisterMachine.Proofs.SourceUnit.Lexemes
import RegisterMachine.Proofs.SourceUnit.Linewise
import RegisterMachine.Proofs.SourceUnit.Linking
import RegisterMachine.Proofs.SourceUnit.LiteralReports
import RegisterMachine.Proofs.SourceUnit.Places
import RegisterMachine.Proofs.SourceUnit.Respelling
import RegisterMachine.Proofs.Token.Malformed
import RegisterMachine.SourceUnit.Report
import RegisterMachine.Token.Table
