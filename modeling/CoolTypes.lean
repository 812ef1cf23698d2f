import CoolTypes.CommandLine.Surroundings
import CoolTypes.Dump.Diagnostics
import CoolTypes.Main
import CoolTypes.Proofs.Classes.Acceptance
import CoolTypes.Proofs.Classes.Subtyping
import CoolTypes.Proofs.CommandLine.Files
import CoolTypes.Proofs.CommandLine.Lines
import CoolTypes.Proofs.Diagnostics.Chains
import CoolTypes.Proofs.Dump.Determination
import CoolTypes.Proofs.Extension
import CoolTypes.Proofs.Installation
import CoolTypes.Proofs.Placement
import CoolTypes.Proofs.Reanalysis
import CoolTypes.Proofs.Renaming.Analysis
import CoolTypes.Proofs.Reordering
import CoolTypes.Proofs.Safety
import CoolTypes.Proofs.Symbols.Runs
import CoolTypes.Proofs.Syntax.DanglingSymbols
import CoolTypes.Proofs.Syntax.Traversal
import CoolTypes.Proofs.Typing.DeclaredTypes
import CoolTypes.Proofs.Typing.Dispatch
import CoolTypes.Proofs.Typing.Inheritance
import CoolTypes.Proofs.Typing.Recovery
import CoolTypes.Proofs.Typing.Scoping
import CoolTypes.Proofs.Unit.RoundTrip
import CoolTypes.Session
