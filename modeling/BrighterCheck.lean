import BrighterCheck.Main
import BrighterCheck.Proofs.Tree.Covering
import BrighterCheck.Proofs.Program.LetterCase
import BrighterCheck.Proofs.Program.Join
import BrighterCheck.Proofs.Lexer.Tiling
import BrighterCheck.Proofs.Program.Files
import BrighterCheck.Proofs.Symbol.Tables
import BrighterCheck.Proofs.Symbol.Lookup
import BrighterCheck.Proofs.Rule.Alignment
import BrighterCheck.Proofs.Program.Diagnostics
import BrighterCheck.Proofs.Program.LineEnding
import BrighterCheck.Proofs.Program.Contents
import BrighterCheck.Proofs.Tree.Blocks
import BrighterCheck.Proofs.CommandLine.Exit
import BrighterCheck.Proofs.Diagnostic.Suppression
import BrighterCheck.Proofs.Parser.Layers.Soundness
import BrighterCheck.Proofs.Tree.Traversal
import BrighterCheck.Proofs.Rule.Continue
import BrighterCheck.Proofs.Report.Locus
import BrighterCheck.Proofs.Rule.Enumeration
import BrighterCheck.Proofs.Rule.AssignmentTarget
import BrighterCheck.Proofs.Rule.Return
import BrighterCheck.Proofs.Rule.Placement
import BrighterCheck.Proofs.Rule.Directive
import BrighterCheck.Proofs.Tree.Order
import BrighterCheck.Proofs.Diagnostic.Flag
import BrighterCheck.Proofs.Parser.Edit
import BrighterCheck.Proofs.Symbol.Table
import BrighterCheck.Proofs.Tree.Outline
import BrighterCheck.Proofs.Tree.Separation
