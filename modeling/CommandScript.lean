import CommandScript.CommandLine
import CommandScript.Main
import CommandScript.Proofs.Command.Keys
import CommandScript.Proofs.Grammar.Bracing
import CommandScript.Proofs.Grammar.Capping
import CommandScript.Proofs.Grammar.Commands
import CommandScript.Proofs.Grammar.Composition
import CommandScript.Proofs.Grammar.Legibility
import CommandScript.Proofs.Grammar.Limit
import CommandScript.Proofs.Grammar.Nesting
import CommandScript.Proofs.Grammar.Progress
import CommandScript.Proofs.Grammar.Recovery
import CommandScript.Proofs.Grammar.Terminators
import CommandScript.Proofs.Grammar.Watching
import CommandScript.Proofs.Grammar.WellFormed
import CommandScript.Proofs.Machine.Commands
import CommandScript.Proofs.Machine.Confinement
import CommandScript.Proofs.Machine.Cutting
import CommandScript.Proofs.Machine.Dispatch
import CommandScript.Proofs.Machine.Release
import CommandScript.Proofs.Machine.Restoring
import CommandScript.Proofs.Machine.Returning
import CommandScript.Proofs.Resolution.Scoping
import CommandScript.Proofs.Scope.Distances
import CommandScript.Proofs.Scope.Sweeping
import CommandScript.Proofs.Session.Collection
import CommandScript.Proofs.Session.LookupRules
import CommandScript.Proofs.Session.Numbering
import CommandScript.Proofs.Session.Registration
import CommandScript.Proofs.Session.Rejection
import CommandScript.Proofs.Session.Renaming
import CommandScript.Proofs.Session.ResolvedWrites
import CommandScript.Proofs.Session.Splitting
import CommandScript.Proofs.Syntax.Braces
import CommandScript.Proofs.Token.Lines
import CommandScript.Proofs.Token.Respacing
