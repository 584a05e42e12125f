import Nss.CommandLine.Run
import Nss.Unit.Bench
import Nss.Main
import Nss.Proofs.Machine.Preservation
import Nss.Proofs.Verifier.Functions
import Nss.Proofs.Bytecode.Reading
import Nss.Proofs.Syntax.Declarations
import Nss.Proofs.Unit.Records
import Nss.Proofs.Lowering.Targets
import Nss.Proofs.Unit.Bodies
import Nss.Proofs.Unit.Scripts
import Nss.Proofs.Unit.Emission
import Nss.Proofs.Unit.Root
import Nss.Proofs.Program.Encoding
import Nss.Proofs.Program.Linking
import Nss.Proofs.Program.Reachable
import Nss.Proofs.Program.ReadBack
import Nss.Proofs.Program.Success
import Nss.Proofs.Unit.Seeded
import Nss.Proofs.Unit.InPlace
import Nss.Proofs.Session.Alone
import Nss.Proofs.Unit.Repeated
import Nss.Proofs.Unit.Tiling
import Nss.Proofs.Program.Selective
import Nss.Proofs.Session.Order
import Nss.Proofs.Files.Writing
import Nss.Proofs.Unit.Enduring
import Nss.Proofs.Session.Reports
import Nss.Proofs.Places.View
import Nss.Proofs.Session.Debug
import Nss.Proofs.Session.Formatting
import Nss.Proofs.Printing.Declarations
import Nss.Proofs.Unit.Once
import Nss.Proofs.Unit.Origins
import Nss.Proofs.Session.Compiled
import Nss.Proofs.Lowering.References
import Nss.Proofs.Program.Loading
import Nss.Proofs.Session.LoadTime
import Nss.Proofs.Lowering.Balance
import Nss.Proofs.Session.StartUp
import Nss.Proofs.Unit.Checked
import Nss.Proofs.Unit.Loaded
import Nss.Proofs.Syntax.Nesting
import Nss.Proofs.Parsing.Progress
import Nss.Proofs.Token.Pieces
import Nss.Proofs.Token.Lossless
import Nss.Proofs.Token.Spacing
import Nss.Proofs.Parsing.Constants
import Nss.Proofs.Recovery.Confined
import Nss.Proofs.Recovery.Follows
import Nss.Proofs.Recovery.Blocks
import Nss.Proofs.Recovery.Places
import Nss.Proofs.Recovery.Units
import Nss.Proofs.Recovery.Replaced
import Nss.Proofs.Spans.Units
import Nss.Proofs.Bytecode.Accounting
import Nss.Proofs.Program.Prediction
import Nss.Proofs.Program.Exact
import Nss.Proofs.Include.Directories
import Nss.Proofs.Unit.Diagnosed
import Nss.Proofs.Session.Registered
import Nss.Proofs.Bytecode.Requests
import Nss.Proofs.Symbols.Indexed
import Nss.Proofs.Lowering.Settled
import Nss.Proofs.Session.Directory
import Nss.Proofs.Include.Arena
import Nss.Proofs.Unit.Lifetime
import Nss.Proofs.Parsing.Refusals
