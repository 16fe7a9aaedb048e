import ImpLang.Token.Lexer

/-!
What the parser missed, and the wording of its reports.
-/

namespace ImpLang

/-- What would have been accepted where something else was found. -/
inductive Expected where
  | token (kind : TokenKind)
  | expression
  | pattern
  | statement
  | blockElement
deriving DecidableEq, Repr

namespace Expected

def code : Expected → String
  | token _ => "E0101"
  | expression => "E0102"
  | pattern => "E0103"
  | statement => "E0104"
  | blockElement => "E0104"

/-- Fixed lexemes stand between quotes. -/
def text : Expected → String
  | token .identifier => TokenKind.identifier.text
  | token .literal => TokenKind.literal.text
  | token .eof => TokenKind.eof.text
  | token kind => "'" ++ kind.text ++ "'"
  | expression => "expression"
  | pattern => "pattern"
  | statement => "statement"
  | blockElement => "statement or expression"

end Expected

/-- How a report names the token it is about: the kind, with the text where that is open. -/
def Token.describe (token : Token) : String :=
  match token.kind with
  | .identifier | .literal => token.kind.text ++ " '" ++ token.text ++ "'"
  | .eof => token.kind.text
  | kind => "'" ++ kind.text ++ "'"

/-- A token that does not fit the construct being parsed. -/
structure ParseError where
  expected : Expected
  found : Token
  construct : String

namespace ParseError

def message (e : ParseError) : String :=
  "expected " ++ e.expected.text ++ ", got " ++ e.found.describe ++ " while parsing " ++ e.construct

def report (e : ParseError) : Diagnostic :=
  ⟨.error, e.message, e.found.span, some e.expected.code⟩

end ParseError

end ImpLang
