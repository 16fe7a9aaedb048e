import ImpLang.Token.Lexer
import ImpLang.Token.Lexicon

/-!
Tokens with symbols. A reader goes over a source with a name table at hand: names and strings are
numbered as they come, and a word is reserved if its symbol is. `Token.lex` knows a reserved word by
its text alone; both find the same tokens, whatever is in the name table (`Lexicon.lexed_eq`).
-/

namespace ImpLang

/-- What a token carries besides its kind, with texts by their symbols. -/
inductive SymbolPayload where
  | none
  | name (symbol : Symbol)
  | literal (value : Literal Symbol)
deriving DecidableEq, Repr, Inhabited

/-- What a lexeme carries, with its text spelled out. -/
def SymbolPayload.spell (names : Interner) : SymbolPayload → Payload
  | none => .none
  | name symbol => .name (names.name symbol)
  | literal value => .literal (value.map names.name)

/-- A lexeme at the front of a text whose name or string has a number. -/
structure SymbolLexeme where
  kind : TokenKind
  size : Nat
  payload : SymbolPayload
  faults : List Fault
deriving Repr

def SymbolLexeme.spell (names : Interner) (lexeme : SymbolLexeme) : Lexeme :=
  ⟨lexeme.kind, lexeme.size, lexeme.payload.spell names, lexeme.faults⟩

/-- A token whose name or string has a number, together with the reports made while it was read. -/
structure SymbolToken where
  kind : TokenKind
  span : Span
  text : String
  payload : SymbolPayload
  reports : List Diagnostic
deriving Repr, Inhabited

def SymbolToken.spell (names : Interner) (token : SymbolToken) : Lexed :=
  ⟨⟨token.kind, token.span, token.text, token.payload.spell names⟩, token.reports⟩

namespace Lexicon

/-- Number the text that a payload has. -/
def enter (lexicon : Lexicon) : Payload → SymbolPayload × Lexicon
  | .none => (.none, lexicon)
  | .name text =>
    let (symbol, lexicon) := lexicon.intern text
    (.name symbol, lexicon)
  | .literal (.str text) =>
    let (symbol, lexicon) := lexicon.intern text
    (.literal (.str symbol), lexicon)
  | .literal (.int value kind) => (.literal (.int value kind), lexicon)
  | .literal (.float value kind) => (.literal (.float value kind), lexicon)
  | .literal (.bool value) => (.literal (.bool value), lexicon)
  | .literal (.char value) => (.literal (.char value), lexicon)

/-- A lexeme that does not depend on the reserved words. -/
def plain (lexicon : Lexicon) (lexeme : Lexeme) : SymbolLexeme × Lexicon :=
  let (payload, lexicon) := lexicon.enter lexeme.payload
  (⟨lexeme.kind, lexeme.size, payload, lexeme.faults⟩, lexicon)

/-- The longest run of identifier characters. Unless it is a truth value it is numbered, also if it
turns out to be a reserved word. -/
def identifier (lexicon : Lexicon) (text : List Char) : SymbolLexeme × Lexicon :=
  let chars := text.takeWhile isIdentContinue
  let name := String.ofList chars
  if name = "true" then (⟨.literal, chars.length, .literal (.bool true), []⟩, lexicon)
  else if name = "false" then (⟨.literal, chars.length, .literal (.bool false), []⟩, lexicon)
  else
    let (symbol, lexicon) := lexicon.intern name
    match lexicon.keyword? symbol with
    | some kind => (⟨kind, chars.length, .none, []⟩, lexicon)
    | none => (⟨.identifier, chars.length, .name symbol, []⟩, lexicon)

/-- A backslash with the word behind it. It is looked up and not numbered, so a wrong one leaves the
name table alone. -/
def command (lexicon : Lexicon) (text : List Char) : SymbolLexeme :=
  let word := text.tail.takeWhile Char.isAlphanum
  if (text.tail.head?.map Char.isAlpha).getD false then
    let name := String.ofList ('\\' :: word)
    match (lexicon.names.get? name).bind lexicon.keyword? with
    | some kind => ⟨kind, word.length + 1, .none, []⟩
    | none =>
      ⟨.invalid, word.length + 1, .none, [⟨.unknownCommand name, 0, word.length + 1⟩]⟩
  else ⟨.lambda, 1, .none, []⟩

/-- The lexeme at the front of a text that begins with the character `c`. -/
def scan (lexicon : Lexicon) (c : Char) (text : List Char) : SymbolLexeme × Lexicon :=
  match fixedLexeme? text with
  | some lexeme => lexicon.plain lexeme
  | none =>
    if c = '\\' then (lexicon.command text, lexicon)
    else if c = '"' then lexicon.plain (Quote.stringLexeme text)
    else if c = '\'' then lexicon.plain (Quote.charLexeme text)
    else if c.isDigit then lexicon.plain (Number.lexeme text)
    else if isIdentStart c then lexicon.identifier text
    else lexicon.plain ⟨.invalid, 1, .none, [⟨.unexpectedCharacter c, 0, 1⟩]⟩

/-- The first tokens of a text that begins at a given place. -/
def readFrom (file : FileId) : Nat → Place → List Char → Lexicon → List SymbolToken × Lexicon
  | 0, _, _, lexicon => ([], lexicon)
  | rounds + 1, place, text, lexicon =>
    let gap := Gap.scan text
    let gapReports := gap.faults.map (·.report file place text)
    let start := place.past (text.take gap.size)
    match text.drop gap.size with
    | [] => ([⟨.eof, ⟨file, start, start⟩, "", .none, gapReports⟩], lexicon)
    | c :: rest =>
      let (lexeme, lexicon) := lexicon.scan c (c :: rest)
      let chars := (c :: rest).take lexeme.size
      let stop := start.past chars
      let reports := lexeme.faults.map (·.report file start (c :: rest))
      let token : SymbolToken :=
        ⟨lexeme.kind, ⟨file, start, stop⟩, String.ofList chars, lexeme.payload,
          gapReports ++ reports⟩
      let (tokens, lexicon) := lexicon.readFrom file rounds stop ((c :: rest).drop lexeme.size)
      (token :: tokens, lexicon)

/-- The first tokens of a source text. -/
def read (lexicon : Lexicon) (rounds : Nat) (file : FileId) (source : String) :
    List SymbolToken × Lexicon :=
  readFrom file rounds Place.first source.toList lexicon

/-- The first tokens of a source text with their names and strings spelled out. -/
def lexed (lexicon : Lexicon) (rounds : Nat) (file : FileId) (source : String) :
    List Lexed × Lexicon :=
  let (tokens, lexicon) := lexicon.read rounds file source
  (tokens.map (·.spell lexicon.names), lexicon)

end Lexicon

end ImpLang
