import ImpLang.Parser.Rules

/-!
Parsing whole sources.
-/

namespace ImpLang

/-- What a run of the parser leaves: a result, the name table, and the reports in their order. -/
structure Parsed (α : Type) where
  result : α
  names : Interner
  reports : Array Diagnostic

namespace Parser

/-- Nested calls that are enough for the tokens ahead. -/
def callLimit (s : State) : Nat := 16 * (s.beyond.length + 4)

/-- Run a parser that depends on the productions from a state on. -/
def runFrom {α : Type} (parser : Rules → Parser α) (default : α) (s : State) : α × State :=
  (parser (rules (callLimit s)) s).getD (default, s)

/-- Run a parser that depends on the productions at the beginning of a source. -/
def run {α : Type} (parser : Rules → Parser α) (default : α) (file : FileId) (source : String)
    (names : Interner) : α × State :=
  runFrom parser default (State.start file source names)

end Parser

/-- The module that the tokens of a source spell. Its span begins with the source and ends with its
last token. -/
def Module.ofTokens (file : FileId) (tokens : List Lexed) (names : Interner) : Parsed Module :=
  let (stmnts, s) := Parser.runFrom (fun r => Parser.stmnts r (tokens.length + 1)) []
    (Parser.State.opening file (Parser.significant tokens) names)
  { result :=
      { span := (Span.origin file).cover s.here.span
        file := file
        stmnts := stmnts
        decls := s.decls
        bound := false }
    names := s.names
    reports := s.reports }

/-- The module that a source text spells. -/
def Module.parse (file : FileId) (source : String) (names : Interner) : Parsed Module :=
  Module.ofTokens file (Token.lex file source) names

theorem Module.parse_eq_run (file : FileId) (source : String) (names : Interner) :
    Module.parse file source names =
      let out := Parser.run (fun r => Parser.stmnts r ((Token.lex file source).length + 1)) [] file
        source names
      ⟨⟨(Span.origin file).cover out.2.here.span, file, out.1, out.2.decls, false⟩, out.2.names,
        out.2.reports⟩ := rfl

/-- Several expressions read one behind the other. -/
def Expr.ofTokens (count : Nat) (construct : String) (file : FileId) (tokens : List Lexed)
    (names : Interner) : Parsed (List Expr) :=
  let (exprs, s) := Parser.runFrom
    (fun r => (List.replicate count ()).mapM fun _ => Parser.expr r .bottom construct) []
    (Parser.State.opening file (Parser.significant tokens) names)
  ⟨exprs, s.names, s.reports⟩

end ImpLang
