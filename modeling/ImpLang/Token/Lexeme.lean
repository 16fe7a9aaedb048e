import ImpLang.Token.Fault
import ImpLang.Token.Kind
import ImpLang.Token.Literal
import ImpLang.Text.Alphabetic
import ImpLang.Text.Numeric

/-!
The result of reading one lexeme, and the characters of identifiers.
-/

namespace ImpLang

/-- What a token carries besides its kind. -/
inductive Payload where
  | none
  | name (text : String)
  | literal (value : Literal String)
deriving DecidableEq, Repr, Inhabited

/-- The text that a payload adds to the name table: a name or the value of a string. -/
def Payload.text? : Payload → Option String
  | name text => some text
  | literal (.str text) => some text
  | _ => Option.none

/-- A lexeme at the front of a text: its size in characters and what is wrong with it. -/
structure Lexeme where
  kind : TokenKind
  size : Nat
  payload : Payload := .none
  faults : List Fault := []
deriving Repr

/-- The lexemes with a fixed spelling of their own, longer ones first, so that the first that fits
is the longest. -/
def fixedLexemes : List (List Char × TokenKind) :=
  [(['<', '<', '='], .shlAssign), (['>', '>', '='], .shrAssign),
   ([':', ':'], .doubleColon), (['^', '='], .xorAssign), (['%', '='], .percentAssign),
   (['*', '='], .starAssign), (['/', '='], .slashAssign), (['!', '='], .ne), (['=', '='], .eqEq),
   (['=', '>'], .fatArrow), (['+', '+'], .inc), (['+', '='], .plusAssign), (['-', '-'], .dec),
   (['-', '>'], .arrow), (['-', '='], .minusAssign), (['&', '&'], .andAnd),
   (['&', '='], .andAssign), (['|', '|'], .orOr), (['|', '='], .orAssign), (['<', '<'], .shl),
   (['<', '='], .le), (['>', '>'], .shr), (['>', '='], .ge),
   (['\x7b'], .lBrace), (['\x7d'], .rBrace), (['('], .lParen), ([')'], .rParen),
   (['['], .lBracket), ([']'], .rBracket), (['‹'], .lPack), (['›'], .rPack),
   (['«'], .lVariadic), (['»'], .rVariadic), ([','], .comma), ([';'], .semi), (['?'], .question),
   (['~'], .tilde), (['Π'], .pi), (['λ'], .lambda), (['⊥'], .bottom), (['→'], .arrow),
   (['ᵁ'], .unlimited), (['ᴿ'], .relevant), (['ᴬ'], .affine), (['ᴸ'], .linear), (['.'], .dot),
   ([':'], .colon), (['^'], .xor), (['%'], .percent), (['*'], .star), (['/'], .slash),
   (['!'], .not), (['='], .assign), (['+'], .plus), (['-'], .minus), (['&'], .and), (['|'], .or),
   (['<'], .lt), (['>'], .gt)]

/-- The longest fixed lexeme at the front of a text. -/
def fixedLexeme? (text : List Char) : Option Lexeme :=
  (fixedLexemes.find? fun entry => entry.1.isPrefixOf text).map fun entry =>
    { kind := entry.2, size := entry.1.length }

/-- Characters that are tokens of their own and so never part of an identifier. -/
def isReserved (c : Char) : Bool :=
  ['Π', 'λ', '⊥', '→', 'ᵁ', 'ᴿ', 'ᴬ', 'ᴸ', '‹', '›', '«', '»'].contains c

def isIdentStart (c : Char) : Bool :=
  (Text.isAlphabetic c || c == '_') && !isReserved c

def isIdentContinue (c : Char) : Bool :=
  (Text.isAlphabetic c || Text.isNumeric c || c == '_') && !isReserved c

/-- The longest run of identifier characters: a truth value, a reserved word or an identifier. -/
def Lexeme.identifier (text : List Char) : Lexeme :=
  let chars := text.takeWhile isIdentContinue
  let name := String.ofList chars
  if name = "true" then ⟨.literal, chars.length, .literal (.bool true), []⟩
  else if name = "false" then ⟨.literal, chars.length, .literal (.bool false), []⟩
  else
    match TokenKind.keyword? name with
    | some kind => ⟨kind, chars.length, .none, []⟩
    | none => ⟨.identifier, chars.length, .name name, []⟩

/-- A backslash with the word behind it, which has to be a reserved one. A lone backslash is a
lambda. -/
def Lexeme.command (text : List Char) : Lexeme :=
  let word := text.tail.takeWhile Char.isAlphanum
  if (text.tail.head?.map Char.isAlpha).getD false then
    let name := String.ofList ('\\' :: word)
    match TokenKind.keyword? name with
    | some kind => ⟨kind, word.length + 1, .none, []⟩
    | none =>
      ⟨.invalid, word.length + 1, .none, [⟨.unknownCommand name, 0, word.length + 1⟩]⟩
  else ⟨.lambda, 1, .none, []⟩

end ImpLang
