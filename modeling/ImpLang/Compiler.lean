import ImpLang.Proofs.Parser.Growth
import ImpLang.Scope.Binder
import ImpLang.Token.Reader
import ImpLang.Tree.Printer
import ImpLang.Text.Quoted

/-!
Compilers: the name table, the file table and the reports of one compilation run, and the passes run
over a source in it.
-/

namespace ImpLang

/-- Where reports are written as they are made. -/
inductive Sink where
  | none
  | recording (text : String)
  /-- Every write fails; nothing but the text is lost. -/
  | broken
deriving DecidableEq, Repr, Inhabited

namespace Sink

def writeLine (sink : Sink) (line : String) : Sink :=
  match sink with
  | recording text => recording (text ++ line ++ "\n")
  | sink => sink

/-- What has been written so far. -/
def text : Sink → String
  | recording text => text
  | _ => ""

end Sink

/-- A compiler. It knows the reserved words by their symbols in its name table, which may be that of
other compilers too. -/
structure Compiler extends Lexicon where
  files : Array String
  diagnostics : Array Diagnostic
  counts : DiagnosticCounts
  sink : Sink

namespace Compiler

/-- A compiler that shares a name table, to which it adds the reserved words. -/
def withNames (names : Interner) (sink : Sink) : Compiler where
  toLexicon := Lexicon.ofNames names
  files := #[]
  diagnostics := #[]
  counts := DiagnosticCounts.zero
  sink := sink

/-- A compiler with a name table of its own. -/
def new : Compiler := withNames Interner.empty .none

instance : Inhabited Compiler := ⟨new⟩

/-- The compiler with another state of its name table. -/
def adopt (c : Compiler) (lexicon : Lexicon) : Compiler := { c with toLexicon := lexicon }

def addFile (c : Compiler) (name : String) : FileId × Compiler :=
  (⟨c.files.size⟩, { c with files := c.files.push name })

def fileName (c : Compiler) (file : FileId) : String :=
  (c.files[file.index]?).getD "<unknown>"

def render (c : Compiler) (d : Diagnostic) : String := d.render (c.fileName d.span.file)

/-- Record, count and write a report. -/
def report (c : Compiler) (d : Diagnostic) : Compiler :=
  { c with
    diagnostics := c.diagnostics.push d
    counts := c.counts.add d.severity
    sink := c.sink.writeLine (c.render d) }

def reportAll (c : Compiler) (ds : Array Diagnostic) : Compiler := ds.foldl report c

def rendered (c : Compiler) : List String := c.diagnostics.toList.map c.render

def intern (c : Compiler) (text : String) : Symbol × Compiler :=
  let (symbol, lexicon) := c.toLexicon.intern text
  (symbol, c.adopt lexicon)

/-- The first tokens of a source. -/
def pull (c : Compiler) (rounds : Nat) (file : FileId) (source : String) : List Token × Compiler :=
  let (tokens, lexicon) := c.lexed rounds file source
  (tokens.map Lexed.token,
    (c.adopt lexicon).reportAll (tokens.flatMap Lexed.reports).toArray)

/-- The tokens of a source. -/
def lex (c : Compiler) (file : FileId) (source : String) : List Token × Compiler :=
  c.pull (source.toList.length + 1) file source

/-- The first tokens of a source, the last of which repeats if there are fewer. -/
def lexSome (c : Compiler) (count : Nat) (file : FileId) (source : String) :
    List Token × Compiler :=
  let (tokens, c) := c.pull count file source
  let last := tokens.getLast?.getD default
  (tokens ++ List.replicate (count - tokens.length) last, c)

example : let (symbol, c) := new.intern "while"; c.keyword? symbol = some .kwWhile := by
  decide +kernel

/-- Read a source without resolving its names. The parser has all tokens made beforehand; it numbers
their texts in the order in which they come into its window. -/
def parseSource (c : Compiler) (name source : String) : Module × Compiler :=
  let (file, c) := c.addFile name
  let tokens := (c.lexed (source.toList.length + 1) file source).1
  let parsed := Module.ofTokens file tokens c.names
  let lexicon := c.grow parsed.names (Module.names_ofTokens file tokens c.names)
  (parsed.result, (c.adopt lexicon).reportAll parsed.reports)

/-- Resolve the names of a module. -/
def bind (c : Compiler) (module : Module) : Module × Compiler :=
  let bound := module.resolveNames c.names
  let lexicon := c.grow bound.names (module.names_resolveNames c.names)
  (bound.module, (c.adopt lexicon).reportAll bound.reports)

/-- Read a source and resolve its names, whatever is wrong with it. -/
def compile (c : Compiler) (name source : String) : Module × Compiler :=
  let (module, c) := c.parseSource name source
  c.bind module

/-- Several expressions read one behind the other from a source. -/
def parseExprs (c : Compiler) (count : Nat) (construct name source : String) :
    List Expr × Compiler :=
  let (file, c) := c.addFile name
  let tokens := (c.lexed (source.toList.length + 1) file source).1
  let parsed := Expr.ofTokens count construct file tokens c.names
  let lexicon := c.grow parsed.names (Expr.names_ofTokens count construct file tokens c.names)
  (parsed.result, (c.adopt lexicon).reportAll parsed.reports)

/-- The state of a compiler on one line. -/
def summary (c : Compiler) : String :=
  let files := String.intercalate ", " (c.files.toList.map Text.quoted)
  "Compiler \x7b files: [" ++ files ++ "], counts: DiagnosticCounts \x7b errors: " ++
    toString c.counts.errors ++ ", warnings: " ++ toString c.counts.warnings ++
    " \x7d, interner: Interner \x7b len: " ++ toString c.names.size ++ " \x7d, .. \x7d"

end Compiler

end ImpLang
