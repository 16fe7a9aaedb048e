import ImpLang.Diagnostic

/-!
What can be wrong with a lexeme or with the gap in front of one, and where in it.
-/

namespace ImpLang

inductive LexError where
  | unexpectedCharacter (c : Char)
  | unterminatedComment
  | unknownCommand (text : String)
  | missingDigits
  | integerTooLarge
  | integerSuffixOnFloat (suffix : String)
  | invalidSuffix (suffix : String)
  | unterminatedString
  | unterminatedChar
  | emptyChar
  | longChar
  | invalidEscape
deriving DecidableEq, Repr

namespace LexError

def code : LexError → String
  | unexpectedCharacter _ => "E0001"
  | unterminatedComment => "E0002"
  | unknownCommand _ => "E0003"
  | missingDigits => "E0004"
  | integerTooLarge => "E0005"
  | integerSuffixOnFloat _ => "E0006"
  | invalidSuffix _ => "E0006"
  | unterminatedString => "E0007"
  | unterminatedChar => "E0007"
  | emptyChar => "E0008"
  | longChar => "E0008"
  | invalidEscape => "E0009"

def message : LexError → String
  | unexpectedCharacter c => "unexpected character '" ++ c.toString ++ "'"
  | unterminatedComment => "unterminated block comment"
  | unknownCommand text => "unknown command `" ++ text ++ "`"
  | missingDigits => "missing digits after integer base prefix"
  | integerTooLarge => "integer literal is too large"
  | integerSuffixOnFloat suffix => "integer suffix `" ++ suffix ++ "` on a float literal"
  | invalidSuffix suffix => "invalid literal suffix `" ++ suffix ++ "`"
  | unterminatedString => "unterminated string literal"
  | unterminatedChar => "unterminated character literal"
  | emptyChar => "empty character literal"
  | longChar => "character literal may only contain one character"
  | invalidEscape => "invalid escape sequence"

def report (e : LexError) (span : Span) : Diagnostic :=
  ⟨.error, e.message, span, some e.code⟩

end LexError

/-- An error within a piece of text, from one character of the piece up to another. -/
structure Fault where
  error : LexError
  first : Nat
  last : Nat
deriving DecidableEq, Repr

namespace Fault

/-- The report of a fault in a piece of text that begins at a given place. -/
def report (fault : Fault) (file : FileId) (start : Place) (text : List Char) : Diagnostic :=
  fault.error.report
    ⟨file, start.past (text.take fault.first), start.past (text.take fault.last)⟩

end Fault

end ImpLang
