import StackAsm.Files.Store
import StackAsm.Machine.Lemmas
import StackAsm.Main
import StackAsm.Proofs.Acceptance
import StackAsm.Proofs.AddedLabel
import StackAsm.Proofs.Bodies
import StackAsm.Proofs.CallStack
import StackAsm.Proofs.Console
import StackAsm.Proofs.Continuation
import StackAsm.Proofs.DirectRun
import StackAsm.Proofs.Failures
import StackAsm.Proofs.Image.FailedWrites
import StackAsm.Proofs.ImageRun
import StackAsm.Proofs.InstructionLimit
import StackAsm.Proofs.Isolation
import StackAsm.Proofs.JournalReplay
import StackAsm.Proofs.LineEnds
import StackAsm.Proofs.Rejection
import StackAsm.Proofs.Renaming
import StackAsm.Proofs.Rendering
import StackAsm.Proofs.Renumbering
import StackAsm.Proofs.Resumption
import StackAsm.Proofs.Scanning
import StackAsm.Proofs.SourceMap
import StackAsm.Proofs.SymbolTables
import StackAsm.Proofs.EmitterReuse
import StackAsm.Proofs.LiteralDefects
import StackAsm.Proofs.JsonListing
import StackAsm.Proofs.TextListing
import StackAsm.Proofs.BareRun
import StackAsm.Proofs.BuildOutput
import StackAsm.Proofs.Factorial
import StackAsm.Proofs.ForwardPrograms
