import ImpLang.Token.Gap
import ImpLang.Token.Quote

/-!
From text to tokens. `Token.lex` splits a whole text; malformed pieces are reported and become
invalid tokens or literals of a default value, so every text has tokens and a last one of kind
`eof`.
-/

namespace ImpLang

/-- A lexeme with its place and its text. -/
structure Token where
  kind : TokenKind
  span : Span
  text : String
  payload : Payload
deriving Repr, Inhabited

/-- A token together with the reports made while it was read, those on the gap in front of it
included. -/
structure Lexed where
  token : Token
  reports : List Diagnostic
deriving Repr, Inhabited

/-- The lexeme at the front of a text that begins with the character `c`. -/
def Lexeme.scan (c : Char) (text : List Char) : Lexeme :=
  match fixedLexeme? text with
  | some lexeme => lexeme
  | none =>
    if c = '\\' then Lexeme.command text
    else if c = '"' then Quote.stringLexeme text
    else if c = '\'' then Quote.charLexeme text
    else if c.isDigit then Number.lexeme text
    else if isIdentStart c then Lexeme.identifier text
    else ⟨.invalid, 1, .none, [⟨.unexpectedCharacter c, 0, 1⟩]⟩

namespace Token

/-- The tokens of a text that begins at a given place. The number of rounds has to exceed the length
of the text. -/
def lexFrom (file : FileId) : Nat → Place → List Char → List Lexed
  | 0, _, _ => []
  | rounds + 1, place, text =>
    let gap := Gap.scan text
    let gapReports := gap.faults.map (·.report file place text)
    let start := place.past (text.take gap.size)
    match text.drop gap.size with
    | [] => [⟨⟨.eof, ⟨file, start, start⟩, "", .none⟩, gapReports⟩]
    | c :: rest =>
      let lexeme := Lexeme.scan c (c :: rest)
      let chars := (c :: rest).take lexeme.size
      let stop := start.past chars
      let token : Token :=
        ⟨lexeme.kind, ⟨file, start, stop⟩, String.ofList chars, lexeme.payload⟩
      let reports := lexeme.faults.map (·.report file start (c :: rest))
      ⟨token, gapReports ++ reports⟩ ::
        lexFrom file rounds stop ((c :: rest).drop lexeme.size)

/-- The tokens of a source text. -/
def lex (file : FileId) (source : String) : List Lexed :=
  lexFrom file (source.toList.length + 1) Place.first source.toList

/-- The text that a token adds to the name table. -/
def internedText? (token : Token) : Option String := token.payload.text?

end Token

end ImpLang
