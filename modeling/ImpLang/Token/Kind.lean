import ImpLang.Operator

/-!
Kinds of tokens. A kind stands for a lexeme, not for its role: `-` is always `minus`, and the parser
tells from its place whether it is a prefix or an infix operator.
-/

namespace ImpLang

inductive TokenKind where
  | eof
  | invalid
  | identifier
  | literal
  | lBrace
  | rBrace
  | lParen
  | rParen
  | lBracket
  | rBracket
  | lPack
  | rPack
  | lVariadic
  | rVariadic
  | comma
  | semi
  | colon
  | doubleColon
  | dot
  | arrow
  | fatArrow
  | question
  | kwDef
  | kwFn
  | kwLet
  | kwIf
  | kwElse
  | kwMatch
  | kwFor
  | kwIn
  | kwWhile
  | kwCn
  | pi
  | lambda
  | bottom
  | unlimited
  | relevant
  | affine
  | linear
  | plus
  | minus
  | star
  | slash
  | percent
  | inc
  | dec
  | not
  | tilde
  | and
  | andAnd
  | or
  | orOr
  | xor
  | shl
  | shr
  | eqEq
  | ne
  | lt
  | le
  | gt
  | ge
  | assign
  | plusAssign
  | minusAssign
  | starAssign
  | slashAssign
  | percentAssign
  | andAssign
  | orAssign
  | xorAssign
  | shlAssign
  | shrAssign
deriving DecidableEq, Repr, Inhabited

namespace TokenKind

/-- The lexeme of a fixed token, or a description of the others. -/
def text : TokenKind → String
  | eof => "end of file"
  | invalid => "invalid token"
  | identifier => "identifier"
  | literal => "literal"
  | lBrace => "\x7b"
  | rBrace => "\x7d"
  | lParen => "("
  | rParen => ")"
  | lBracket => "["
  | rBracket => "]"
  | lPack => "‹"
  | rPack => "›"
  | lVariadic => "«"
  | rVariadic => "»"
  | comma => ","
  | semi => ";"
  | colon => ":"
  | doubleColon => "::"
  | dot => "."
  | arrow => "->"
  | fatArrow => "=>"
  | question => "?"
  | kwDef => "def"
  | kwFn => "fn"
  | kwLet => "let"
  | kwIf => "if"
  | kwElse => "else"
  | kwMatch => "match"
  | kwFor => "for"
  | kwIn => "in"
  | kwWhile => "while"
  | kwCn => "cn"
  | pi => "\\pi"
  | lambda => "\\lambda"
  | bottom => "\\bot"
  | unlimited => "ᵁ"
  | relevant => "ᴿ"
  | affine => "ᴬ"
  | linear => "ᴸ"
  | plus => "+"
  | minus => "-"
  | star => "*"
  | slash => "/"
  | percent => "%"
  | inc => "++"
  | dec => "--"
  | not => "!"
  | tilde => "~"
  | and => "&"
  | andAnd => "&&"
  | or => "|"
  | orOr => "||"
  | xor => "^"
  | shl => "<<"
  | shr => ">>"
  | eqEq => "=="
  | ne => "!="
  | lt => "<"
  | le => "<="
  | gt => ">"
  | ge => ">="
  | assign => "="
  | plusAssign => "+="
  | minusAssign => "-="
  | starAssign => "*="
  | slashAssign => "/="
  | percentAssign => "%="
  | andAssign => "&="
  | orAssign => "|="
  | xorAssign => "^="
  | shlAssign => "<<="
  | shrAssign => ">>="

/-- The reserved words and commands and the tokens they are, in the order in which a name table numbers
them. -/
def keywordTable : List (String × TokenKind) :=
  [("def", kwDef), ("fn", kwFn), ("let", kwLet), ("if", kwIf), ("else", kwElse), ("match", kwMatch),
   ("for", kwFor), ("in", kwIn), ("while", kwWhile), ("cn", kwCn), ("\\pi", pi),
   ("\\lambda", lambda), ("\\bot", bottom)]

/-- The tokens that are reserved words and commands. -/
def keywords : List TokenKind :=
  [kwDef, kwFn, kwLet, kwIf, kwElse, kwMatch, kwFor, kwIn, kwWhile, kwCn, pi, lambda, bottom]

/-- The reserved word or command that a text spells. -/
def keyword? (text : String) : Option TokenKind := keywordTable.lookup text

/-- A reserved word is spelled like its token. -/
theorem keywordTable_eq : keywordTable = keywords.map fun kind => (kind.text, kind) := rfl

theorem lookup_map_text (kinds : List TokenKind) (text : String) :
    (kinds.map fun kind => (kind.text, kind)).lookup text =
      kinds.find? fun kind => text == kind.text := by
  induction kinds with
  | nil => rfl
  | cons kind kinds ih =>
    rw [List.map_cons, List.lookup_cons, List.find?_cons, ih]

theorem keyword?_eq_find? (text : String) :
    keyword? text = keywords.find? fun kind => text == kind.text := by
  rw [keyword?, keywordTable_eq, lookup_map_text]

theorem keyword?_eq_none_iff {text : String} :
    keyword? text = none ↔ ∀ kind ∈ keywords, text ≠ kind.text := by
  simp [keyword?_eq_find?]

/-- The operator a token is in front of its operand. -/
def prefixOp? : TokenKind → Option PrefixOp
  | inc => some .inc
  | dec => some .dec
  | plus => some .plus
  | minus => some .minus
  | not => some .not
  | tilde => some .tilde
  | and => some .ref
  | star => some .deref
  | _ => none

/-- The operator a token is behind its operand. -/
def postfixOp? : TokenKind → Option PostfixOp
  | inc => some .inc
  | dec => some .dec
  | _ => none

/-- The operator a token is between two operands. -/
def infixOp? : TokenKind → Option InfixOp
  | assign => some .assign
  | plusAssign => some .addAssign
  | minusAssign => some .subAssign
  | starAssign => some .mulAssign
  | slashAssign => some .divAssign
  | percentAssign => some .remAssign
  | andAssign => some .andAssign
  | orAssign => some .orAssign
  | xorAssign => some .xorAssign
  | shlAssign => some .shlAssign
  | shrAssign => some .shrAssign
  | orOr => some .orOr
  | andAnd => some .andAnd
  | eqEq => some .eq
  | ne => some .ne
  | lt => some .lt
  | le => some .le
  | gt => some .gt
  | ge => some .ge
  | or => some .or
  | xor => some .xor
  | and => some .and
  | shl => some .shl
  | shr => some .shr
  | plus => some .add
  | minus => some .sub
  | star => some .mul
  | slash => some .div
  | percent => some .rem
  | _ => none

/-- The qualifier a token spells. -/
def qualifier? : TokenKind → Option Qualifier
  | unlimited => some .unlimited
  | relevant => some .relevant
  | affine => some .affine
  | linear => some .linear
  | _ => none

/-- Whether an expression can begin with the token. -/
def startsExpr (kind : TokenKind) : Bool :=
  match kind with
  | identifier | literal | lParen | lBracket | lBrace | lPack | lVariadic | kwIf | kwMatch
  | kwFor | kwWhile | lambda | pi | kwCn | bottom | question | unlimited | relevant | affine
  | linear => true
  | kind => kind.prefixOp?.isSome

/-- Whether a statement can begin with the token. -/
def startsStmnt (kind : TokenKind) : Bool :=
  match kind with
  | kwLet | kwDef | kwFn => true
  | kind => kind.startsExpr

end TokenKind

end ImpLang
