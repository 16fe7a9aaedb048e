import ImpLang.Compiler
import ImpLang.Ir.Listing
import ImpLang.Ir.Emit

/-!
Compilation of one unit to one output format. Units share nothing but a name table.
-/

namespace ImpLang.Cli

inductive Format where
  | tokens
  | ast
  | ir
  | none
deriving DecidableEq, Repr

def Format.ofName? (name : String) : Option Format :=
  if name = "tokens" then some tokens
  else if name = "ast" then some ast
  else if name = "ir" then some ir
  else if name = "none" then some none
  else .none

/-- A named source. -/
structure Source where
  name : String
  text : String
deriving DecidableEq, Repr

/-- What the compilation of a unit gives. -/
structure UnitResult where
  rendered : List String
  counts : DiagnosticCounts
  output : Except SlotError String

/-- A token on a line: place, kind and text between tabs. -/
def tokenLine (token : Token) : String :=
  toString token.span ++ "\t" ++ token.kind.text ++ "\t" ++ token.text ++ "\n"

/-- A module in the textual intermediate representation. -/
def irText (names : Interner) (module : Module) : Except SlotError String :=
  let emitted := module.emit Listing.empty
  emitted.values.map fun _ => emitted.builder.text names

/-- The output of a unit in a format, and its compiler. A unit with errors is not emitted. -/
def Source.output (source : Source) (format : Format) (c : Compiler) :
    Except SlotError String × Compiler :=
  match format with
  | .tokens =>
    let (file, c) := c.addFile source.name
    let (tokens, c) := c.lex file source.text
    (.ok (String.join (tokens.map tokenLine)), c)
  | .ast =>
    let (module, c) := c.compile source.name source.text
    (.ok (module.print c.names), c)
  | .ir =>
    let (module, c) := c.compile source.name source.text
    (if 0 < c.counts.errors then .ok "" else irText c.names module, c)
  | .none =>
    let (_, c) := c.compile source.name source.text
    (.ok "", c)

/-- Compile a unit with a compiler of its own on a name table, which goes on to the next unit. -/
def Source.compile (source : Source) (format : Format) (names : Interner) :
    UnitResult × Interner :=
  let (output, c) := source.output format (Compiler.withNames names .none)
  (⟨c.rendered, c.counts, output⟩, c.names)

/-- Compile units one behind the other. -/
def compileAll (format : Format) : List Source → Interner → List (Source × UnitResult)
  | [], _ => []
  | source :: sources, names =>
    let (result, names) := source.compile format names
    (source, result) :: compileAll format sources names

end ImpLang.Cli
