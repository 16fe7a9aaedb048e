import ImpLang.Parser.Fault
import ImpLang.Tree.Basic

/-!
The state of a parser: a window of two tokens that slides over the tokens of a source and never
back.

A token counts from the moment it enters the window: from then on its reports are made and its text
has a symbol, so reports and symbols come in the order of the source, those of the parser between
them. Invalid tokens never enter; their reports stay with the token behind them.
-/

namespace ImpLang

namespace Parser

/-- The tokens of a source without the invalid ones. -/
def significant : List Lexed → List Lexed
  | [] => []
  | lexed :: rest =>
    if lexed.token.kind = .invalid then
      match significant rest with
      | [] => []
      | next :: rest => ⟨next.token, lexed.reports ++ next.reports⟩ :: rest
    else lexed :: significant rest

structure State where
  /-- The tokens consumed, the last one first. -/
  behind : List Token
  /-- The token in front. -/
  here : Token
  /-- The tokens that follow it; the first of them is in the window. -/
  beyond : List Lexed
  /-- Where the last syntax error was reported. -/
  lastError : Option Nat
  decls : Decls
  names : Interner
  reports : Array Diagnostic

namespace State

/-- The number of a text in the name table, which it may join. -/
def intern (s : State) (text : String) : Symbol × State :=
  let (symbol, names) := s.names.intern text
  (symbol, { s with names := names })

/-- Make the reports on a token and number its text. -/
def enter (s : State) (lexed : Lexed) : State :=
  let s := { s with reports := s.reports ++ lexed.reports.toArray }
  match lexed.token.internedText? with
  | some text => (s.intern text).2
  | none => s

/-- The window over the first two of some tokens. -/
def opening (file : FileId) (tokens : List Lexed) (names : Interner) : State :=
  let blank (here : Token) (beyond : List Lexed) : State :=
    { behind := [], here, beyond, lastError := none
      decls := Decls.empty, names, reports := #[] }
  match tokens with
  | [] => blank ⟨.eof, Span.origin file, "", .none⟩ []
  | [first] => (blank first.token []).enter first
  | first :: second :: rest => ((blank first.token (second :: rest)).enter first).enter second

/-- The window over the first two tokens of a source. -/
def start (file : FileId) (source : String) (names : Interner) : State :=
  opening file (significant (Token.lex file source)) names

def kind (s : State) : TokenKind := s.here.kind

/-- The kind of the second token in the window. The last token of a source repeats. -/
def nextKind (s : State) : TokenKind :=
  match s.beyond with
  | [] => s.here.kind
  | lexed :: _ => lexed.token.kind

/-- The span of the last token consumed, and that of the begin of the source in front of the first
one. -/
def prev (s : State) : Span :=
  match s.behind with
  | [] => Span.origin s.here.span.file
  | last :: _ => last.span

/-- The kind of the last token consumed. -/
def prevKind (s : State) : TokenKind :=
  match s.behind with
  | [] => .eof
  | last :: _ => last.kind

/-- Consume the token in front. The last token of a source stays in front. -/
def bump (s : State) : State :=
  match s.beyond with
  | [] => { s with behind := s.here :: s.behind }
  | lexed :: rest =>
    let s := { s with behind := s.here :: s.behind, here := lexed.token, beyond := rest }
    match rest with
    | [] => s
    | next :: _ => s.enter next

/-- The span from a token up to the last token consumed, or the empty span in front of that token if
nothing was consumed since. -/
def finish (s : State) (start : Span) : Span :=
  if s.prev.stop.offset < start.start.offset then { start with stop := start.start }
  else { start with stop := s.prev.stop }

/-- Report that the token in front does not fit. One complaint about a token is enough. -/
def complain (s : State) (expected : Expected) (construct : String) : State :=
  let offset := s.here.span.start.offset
  if s.lastError = some offset then s
  else
    { s with
      lastError := some offset
      reports := s.reports.push (ParseError.report ⟨expected, s.here, construct⟩) }

def declare (s : State) (id : Id) (kind : DeclKind) : DeclId × State :=
  let (decl, decls) := s.decls.push ⟨id.symbol, id.span, kind⟩
  (decl, { s with decls := decls })

/-- A round of a search for a likely statement boundary outside of brackets: where the search ends,
or how many brackets are open behind the token in front. -/
def searchTurn (depth : Nat) (s : State) : State ⊕ Nat :=
  match s.kind with
  | .eof => .inl s
  | .semi => if depth = 0 then .inl s.bump else .inr depth
  | .kwLet | .kwDef | .kwFn => if depth = 0 then .inl s else .inr depth
  | .lBrace | .lParen | .lBracket => .inr (depth + 1)
  | .rBrace | .rParen | .rBracket => .inr (depth - 1)
  | _ => .inr depth

/-- Skip to a likely statement boundary outside all brackets opened since: behind a semicolon, or in
front of a word that begins a statement. -/
def synchronize : (rounds depth : Nat) → State → State
  | 0, _, s => s
  | rounds + 1, depth, s =>
    match s.searchTurn depth with
    | .inl found => found
    | .inr depth => synchronize rounds depth s.bump

/-- Behind a statement with an error in it, unless it ended like one, search for the next likely
statement. -/
def recover (reported : Nat) (s : State) : State :=
  if reported < s.reports.size ∧ s.prevKind ≠ .semi ∧ s.prevKind ≠ .rBrace then
    s.synchronize (s.beyond.length + 1) 0
  else s

end State

end Parser

/-- A parser: it reads and moves the window, and gives up only when its rounds are used up. -/
abbrev Parser := StateT Parser.State Option

namespace Parser

def kind : Parser TokenKind := return (← get).kind

def nextKind : Parser TokenKind := return (← get).nextKind

def isAt (kind : TokenKind) : Parser Bool := return (← get).kind = kind

/-- The token in front. -/
def peek : Parser Token := return (← get).here

/-- The span of the token in front, where a construct begins. -/
def track : Parser Span := return (← get).here.span

/-- The span of the last token consumed. -/
def prev : Parser Span := return (← get).prev

def finish (start : Span) : Parser Span := return (← get).finish start

/-- How many reports have been made. -/
def reported : Parser Nat := return (← get).reports.size

def bump : Parser Unit := modify State.bump

def intern (text : String) : Parser Symbol := modifyGet (·.intern text)

def declare (id : Id) (kind : DeclKind) : Parser DeclId := modifyGet (·.declare id kind)

def unexpected (expected : Expected) (construct : String) : Parser Unit :=
  modify (·.complain expected construct)

def recover (reported : Nat) : Parser Unit := modify (·.recover reported)

/-- Consume the token in front if it is of the given kind. -/
def accept (kind : TokenKind) : Parser Bool := do
  if (← get).kind = kind then
    bump
    return true
  else return false

/-- Consume the token in front if it is of the given kind, or report it as missing. -/
def expect (kind : TokenKind) (construct : String) : Parser Bool := do
  if (← get).kind = kind then
    bump
    return true
  else
    unexpected (.token kind) construct
    return false

/-- Elements of a list are separated by commas or semicolons. -/
def acceptSeparator : Parser Bool := do
  if (← get).kind = .comma then
    bump
    return true
  else accept .semi

/-- An identifier. A missing one is reported and replaced by the wildcard. -/
def ident (construct : String) : Parser Id := do
  let token ← peek
  match token.kind, token.payload with
  | .identifier, .name text =>
    bump
    return ⟨← intern text, token.span⟩
  | _, _ =>
    unexpected (.token .identifier) construct
    return ⟨← intern Interner.wildcard, ← finish token.span⟩

end Parser

end ImpLang
