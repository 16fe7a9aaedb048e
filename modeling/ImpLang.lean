import ImpLang.Main
import ImpLang.Artifact
import ImpLang.Session
import ImpLang.Cli.World
import ImpLang.Ir.Dump
import ImpLang.Tree.Edit
import ImpLang.Tree.Equality
import ImpLang.Tree.Walk
import ImpLang.Proofs.Scope.Lexical
import ImpLang.Proofs.Scope.Resolution
import ImpLang.Proofs.Parser.Steps
import ImpLang.Proofs.Parser.Grammar
import ImpLang.Proofs.Parser.Runs
import ImpLang.Proofs.Parser.Soundness
import ImpLang.Proofs.Parser.Source
import ImpLang.Proofs.Ir.Emission
import ImpLang.Proofs.Ir.Simulation
import ImpLang.Proofs.Ir.Tracing
import ImpLang.Proofs.Ir.Compiled
import ImpLang.Proofs.Tree.Alike
import ImpLang.Proofs.Parser.Accepts
import ImpLang.Proofs.Parser.Completeness
import ImpLang.Proofs.Parser.Reading
import ImpLang.Proofs.Cli.Independence
import ImpLang.Proofs.Parser.Progress
import ImpLang.Proofs.Parser.Fence
import ImpLang.Proofs.Parser.Keeping
import ImpLang.Proofs.Parser.Coverage
import ImpLang.Proofs.Parser.Located
import ImpLang.Proofs.Scope.Located
import ImpLang.Proofs.Parser.Isolation
import ImpLang.Proofs.Parser.Layout
import ImpLang.Proofs.Symbol.Interleaving
import ImpLang.Proofs.Passes
import ImpLang.Proofs.Parser.Climbing
import ImpLang.Proofs.Token.Spelling
import ImpLang.Proofs.Parser.Blocks
import ImpLang.Proofs.Token.Literals
import ImpLang.Proofs.Ir.Ordering
import ImpLang.Proofs.Scope.Reporting
import ImpLang.Proofs.Ir.Shifting
import ImpLang.Proofs.Scope.Exchange
import ImpLang.Proofs.Scope.Settling
import ImpLang.Proofs.Frame
import ImpLang.Proofs.Parser.Blame
import ImpLang.Proofs.Token.Floats
import ImpLang.Proofs.Parser.SourceOrder
import ImpLang.Proofs.Parser.Words
import ImpLang.Proofs.Parser.Shape
import ImpLang.Proofs.Parser.RoundTrip
