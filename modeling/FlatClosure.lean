import FlatClosure.Text.Basic
import FlatClosure.Text.Printable
import FlatClosure.Text.Quoted
import FlatClosure.Token.Basic
import FlatClosure.Token.Scan
import FlatClosure.Names
import FlatClosure.Fault
import FlatClosure.Tree.Basic
import FlatClosure.Tree.Partial
import FlatClosure.Tree.Parse
import FlatClosure.Tree.FreeVars
import FlatClosure.Tree.Hygiene
import FlatClosure.Program.Basic
import FlatClosure.Program.FreeVars
import FlatClosure.Program.Substitute
import FlatClosure.Program.OfTree
import FlatClosure.Machine
import FlatClosure.Target.CUnit
import FlatClosure.Target.CUnitOfProgram
import FlatClosure.Target.SsaModule
import FlatClosure.Target.SsaModuleOfProgram
import FlatClosure.Excerpt
import FlatClosure.Target.Basic
import FlatClosure.Compile
import FlatClosure.Files.Path
import FlatClosure.Files.Folder
import FlatClosure.Command.Script
import FlatClosure.Support
import FlatClosure.Dump
import FlatClosure.Command.Flags
import FlatClosure.NativeCompiler
import FlatClosure.Command.Build
import FlatClosure.Command.Basic
import FlatClosure.Main
import FlatClosure.Proofs.FreeVars
import FlatClosure.Proofs.Hygiene
import FlatClosure.Proofs.Conversion
import FlatClosure.Proofs.ClosureConversion
import FlatClosure.Proofs.CTranslation
import FlatClosure.Proofs.CSemantics
import FlatClosure.Proofs.Evaluation
import FlatClosure.Proofs.CSimulation
import FlatClosure.Proofs.CCompilation
import FlatClosure.Proofs.CReader
import FlatClosure.Proofs.CNames
import FlatClosure.Proofs.SsaSemantics
import FlatClosure.Proofs.SsaSimulation
import FlatClosure.Proofs.SsaCompilation
import FlatClosure.Proofs.Grammar
import FlatClosure.Proofs.Parsing
import FlatClosure.Proofs.Safety
import FlatClosure.Proofs.LexicalGrammar
import FlatClosure.Proofs.Offsets
import FlatClosure.Proofs.Scanning
import FlatClosure.Proofs.RoundTrip
import FlatClosure.Proofs.ViablePrefixes
import FlatClosure.Proofs.Stepping
import FlatClosure.Proofs.Outcomes
import FlatClosure.Proofs.CReferences
import FlatClosure.Proofs.UnboundNames
import FlatClosure.Proofs.HygienicRenaming
import FlatClosure.Proofs.TokenRendering
import FlatClosure.Proofs.Captures
import FlatClosure.Proofs.DrawnNumbers
import FlatClosure.Proofs.CLocals
import FlatClosure.Proofs.CKeywords
import FlatClosure.Proofs.SsaForm
import FlatClosure.Proofs.DepthLimit
import FlatClosure.Proofs.Carets
import FlatClosure.Proofs.Renumbering
import FlatClosure.Proofs.Whitespace
import FlatClosure.Proofs.Substitution
import FlatClosure.Proofs.FreeOccurrences
import FlatClosure.Proofs.Folders
import FlatClosure.Proofs.Scripts
import FlatClosure.Proofs.CommandEffects
