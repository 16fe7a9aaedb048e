import ImpLang.Parser.Window

/-!
The grammar by recursive descent.

Every production is a function of `Rules`, the productions it may call. They are tied together in
`rules`, which allows a number of nested calls; `Parser.run` allows enough of them for any source,
because a few nested calls consume a token.

Unfit tokens are reported and give error nodes. No production consumes the last token of a source.
Lists are read by loops whose rounds either are the last or consume a token.
-/

namespace ImpLang

namespace Parser

/-- The productions that call each other. -/
structure Rules where
  /-- An expression whose operators bind at least as strongly as given. -/
  expr : Prec → String → Parser Expr
  /-- What follows an operand: calls, fields, and operators that bind strongly enough. -/
  operators : Span → Prec → Expr → Parser Expr
  ptrn : Bool → String → Parser Ptrn
  ptrnElems : Bool → Parser (List Ptrn)
  /-- The elements of a tuple, and whether a separator stands behind one of them. -/
  tupleElems : Parser (List Elem × Bool)
  sigmaElems : Parser (List Ptrn)
  block : String → Parser Expr
  blockBody : Parser (List Stmnt × Expr)
  branch : Parser Expr
  arms : Parser (List Arm)

variable (r : Rules)

/-! ## Loops -/

/-- How a round of a loop ends: with the result of the loop, or with what is to be made of the result
of the rounds behind it. -/
inductive Turn (α : Type) where
  | leave (result : α)
  | goOn (wrap : α → α)

namespace Turn

def goesOn {α : Type} : Turn α → Bool
  | leave _ => false
  | goOn _ => true

end Turn

/-- A round of a loop, and the rounds behind it unless it leaves the loop. -/
def loop {α : Type} (round : Parser (Turn α)) (rest : Parser α) : Parser α := do
  match ← round with
  | .leave result => return result
  | .goOn wrap => return wrap (← rest)

/-! ## Patterns -/

/-- The ascription behind a pattern. Types bind more strongly than assignments. -/
def ascription : Parser (Option Expr) := do
  if ← accept .colon then return some (← r.expr .orOr "type ascription") else return none

/-- A name or a tuple of patterns, with an ascription or without. -/
def ptrn (typed : Bool) (construct : String) : Parser Ptrn := do
  let start ← track
  match ← kind with
  | .identifier =>
    let id ← ident construct
    let decl ← declare id .binding
    let ty ← ascription r
    return .name (← finish start) id decl ty typed
  | .lParen =>
    bump
    let elems ← r.ptrnElems typed
    let _ ← expect .rParen "tuple pattern"
    let ty ← ascription r
    return .tuple (← finish start) elems ty typed
  | _ =>
    unexpected .pattern construct
    return .error (← finish start)

/-- The elements of a tuple pattern; an unfit one is the last. -/
def ptrnElemsTurn (typed : Bool) : Parser (Turn (List Ptrn)) := do
  match ← kind with
  | .rParen | .eof => return .leave []
  | _ =>
    let elem ← r.ptrn typed "tuple pattern"
    if elem.isError then return .leave [elem]
    else if ← acceptSeparator then return .goOn (elem :: ·)
    else return .leave [elem]

def ptrnElems (typed : Bool) : Parser (List Ptrn) := loop (ptrnElemsTurn r typed) (r.ptrnElems typed)

/-! ## Tuples and dependent tuples -/

/-- The name in front of a tuple element: an identifier directly before an assignment sign. -/
def elemName : Parser (Option Id) := do
  if (← kind) = .identifier ∧ (← nextKind) = .assign then
    let id ← ident "tuple element"
    bump
    return some id
  else return none

def tupleElemsTurn : Parser (Turn (List Elem × Bool)) := do
  match ← kind with
  | .rParen | .eof => return .leave ([], false)
  | _ =>
    let id ← elemName
    let expr ← r.expr .bottom "tuple element"
    if expr.isError then return .leave ([⟨id, expr⟩], false)
    else if ← acceptSeparator then return .goOn fun (elems, _) => (⟨id, expr⟩ :: elems, true)
    else return .leave ([⟨id, expr⟩], false)

def tupleElems : Parser (List Elem × Bool) := loop (tupleElemsTurn r) r.tupleElems

/-- What a parenthesised list stands for. A single element without name and separator is no tuple: it
stands for itself, widened to the parentheses. -/
def grouping (span : Span) : List Elem × Bool → Expr
  | ([⟨none, expr⟩], false) => expr.withSpan span
  | (elems, _) => .tuple span elems

def tuple : Parser Expr := do
  let start ← track
  bump
  let elems ← r.tupleElems
  let _ ← expect .rParen "tuple"
  return grouping (← finish start) elems

/-- An element of a dependent tuple type: a name with its type, or a type alone, which binds the
wildcard. -/
def sigmaElem : Parser Ptrn := do
  let start ← track
  if (← kind) = .identifier ∧ (← nextKind) = .colon then
    let id ← ident "sigma element"
    let decl ← declare id .binding
    bump
    let ty ← r.expr .bottom "sigma element type"
    return .name (← finish start) id decl (some ty) true
  else
    let ty ← r.expr .bottom "sigma element"
    let id : Id := ⟨← intern Interner.wildcard, ty.span⟩
    let decl ← declare id .binding
    return .name ty.span id decl (some ty) true

def sigmaElemsTurn : Parser (Turn (List Ptrn)) := do
  match ← kind with
  | .rBracket | .eof => return .leave []
  | _ =>
    let elem ← sigmaElem r
    if (elem.ty?.map Expr.isError).getD false then return .leave [elem]
    else if ← acceptSeparator then return .goOn (elem :: ·)
    else return .leave [elem]

def sigmaElems : Parser (List Ptrn) := loop (sigmaElemsTurn r) r.sigmaElems

def sigma : Parser Expr := do
  let start ← track
  bump
  let elems ← r.sigmaElems
  let _ ← expect .rBracket "sigma type"
  return .sigma (← finish start) elems

/-! ## Functions and their types -/

/-- The result type behind an arrow; without an arrow it is left open. -/
def codomain (construct : String) : Parser Expr := do
  if ← accept .arrow then r.expr .orOr construct
  else return .unknown (← prev).endPoint

def lambda : Parser Expr := do
  let start ← track
  bump
  let domain ← r.ptrn true "parameter of lambda"
  let codomain ← codomain r "codomain of lambda"
  let body ← r.block "body of lambda"
  return .lambda (← finish start) domain codomain body

def pi : Parser Expr := do
  let start ← track
  bump
  let domain ← r.ptrn true "domain of pi type"
  let _ ← expect .arrow "pi type"
  let codomain ← r.expr .bottom "codomain of pi type"
  return .pi (← finish start) domain codomain

/-- A continuation type is a function type that has no values to return. -/
def continuation : Parser Expr := do
  let start ← track
  bump
  let domain ← r.ptrn true "continuation type"
  let codomain := Expr.bottom (← prev).endPoint
  return .pi (← finish start) domain codomain

def pack : Parser Expr := do
  let start ← track
  bump
  let domain ← r.ptrn false "pack"
  let _ ← expect .semi "pack"
  let body ← r.expr .bottom "body of pack"
  let _ ← expect .rPack "pack"
  return .pack (← finish start) domain body

def variadic : Parser Expr := do
  let start ← track
  bump
  let domain ← r.ptrn false "variadic"
  let _ ← expect .semi "variadic"
  let body ← r.expr .bottom "body of variadic"
  let _ ← expect .rVariadic "variadic"
  return .variadic (← finish start) domain body

/-! ## Control flow -/

/-- The alternative of a branch; without an `else` it is an empty block. -/
def otherwise : Parser Expr := do
  if ← accept .kwElse then
    if ← isAt .kwIf then r.branch else r.block "alternative of if expression"
  else return .emptyBlock (← prev).endPoint

def branch : Parser Expr := do
  let start ← track
  bump
  let cond ← r.expr .bottom "condition of if expression"
  let yes ← r.block "consequence of if expression"
  let no ← otherwise r
  return .branch (← finish start) cond yes no

/-- The cases of a `match`. An attempt that consumes nothing skips a token instead. -/
def armsTurn : Parser (Turn (List Arm)) := do
  match ← kind with
  | .rBrace | .eof => return .leave []
  | _ =>
    let start ← track
    let ptrn ← r.ptrn false "match arm"
    let _ ← expect .fatArrow "match arm"
    let body ← r.expr .bottom "match arm"
    let consumed := start.start.offset < (← prev).stop.offset
    let span ← finish start
    unless ← acceptSeparator do
      unless consumed do bump
    return .goOn (⟨span, ptrn, body⟩ :: ·)

def arms : Parser (List Arm) := loop (armsTurn r) r.arms

def select : Parser Expr := do
  let start ← track
  bump
  let scrutinee ← r.expr .bottom "scrutinee of match expression"
  if ← expect .lBrace "match expression" then
    let arms ← r.arms
    let _ ← expect .rBrace "match expression"
    return .select (← finish start) scrutinee arms
  else return .select (← finish start) scrutinee []

def forLoop : Parser Expr := do
  let start ← track
  bump
  let ptrn ← r.ptrn false "for loop"
  let _ ← expect .kwIn "for loop"
  let iter ← r.expr .bottom "iterable of for loop"
  let body ← r.block "body of for loop"
  return .forLoop (← finish start) ptrn iter body

def whileLoop : Parser Expr := do
  let start ← track
  bump
  let cond ← r.expr .bottom "condition of while loop"
  let body ← r.block "body of while loop"
  return .whileLoop (← finish start) cond body

/-! ## Expressions -/

/-- An expression that is one token. -/
def single (expr : Span → Expr) : Parser Expr := do
  let span ← track
  bump
  return expr span

def literal : Parser Expr := do
  let token ← peek
  bump
  match token.payload with
  | .literal (.str text) => return .literal token.span (.str (← intern text))
  | .literal (.int value kind) => return .literal token.span (.int value kind)
  | .literal (.float value kind) => return .literal token.span (.float value kind)
  | .literal (.bool value) => return .literal token.span (.bool value)
  | .literal (.char value) => return .literal token.span (.char value)
  | _ => return .error token.span

/-- An operand. -/
def primary (construct : String) : Parser Expr := do
  match ← kind with
  | .identifier =>
    let id ← ident construct
    return .name id.span id Slot.unset
  | .literal => literal
  | .lParen => tuple r
  | .lBracket => sigma r
  | .lBrace => r.block construct
  | .kwIf => r.branch
  | .kwMatch => select r
  | .kwFor => forLoop r
  | .kwWhile => whileLoop r
  | .lambda => lambda r
  | .pi => pi r
  | .kwCn => continuation r
  | .lPack => pack r
  | .lVariadic => variadic r
  | .unlimited => single (.qualifier · .unlimited)
  | .relevant => single (.qualifier · .relevant)
  | .affine => single (.qualifier · .affine)
  | .linear => single (.qualifier · .linear)
  | .bottom => single .bottom
  | .question => single .unknown
  | _ =>
    let start ← track
    unexpected .expression construct
    return .error (← finish start)

def expr (min : Prec) (construct : String) : Parser Expr := do
  let start ← track
  match (← kind).prefixOp? with
  | some op =>
    bump
    let operand ← r.expr .prefixed construct
    r.operators start min (.prefixed (← finish start) op operand)
  | none =>
    let operand ← primary r construct
    if operand.isError then return operand else r.operators start min operand

def operators (start : Span) (min : Prec) (left : Expr) : Parser Expr := do
  let kind ← kind
  match kind.postfixOp? with
  | some op =>
    bump
    r.operators start min (.postfixed (← finish start) left op)
  | none =>
    if kind = .lParen then
      let arg ← tuple r
      r.operators start min (.app (← finish start) left arg false)
    else if kind = .not ∧ (← nextKind) = .lParen then
      bump
      let arg ← tuple r
      r.operators start min (.app (← finish start) left arg true)
    else if kind = .dot then
      bump
      let id ← ident "field expression"
      r.operators start min (.field (← finish start) left id)
    else
      match kind.infixOp? with
      | some op =>
        if op.prec < min then return left
        else
          bump
          let right ← r.expr op.rightLevel "right-hand side of binary expression"
          r.operators start min (.binary (← finish start) left op right)
      | none => return left

/-- An expression where a statement may stand: a form that ends in a block is taken on its own and
never continues as an operand. -/
def stmntExpr (construct : String) : Parser Expr := do
  match ← kind with
  | .lBrace => r.block construct
  | .kwIf => r.branch
  | .kwMatch => select r
  | .kwFor => forLoop r
  | .kwWhile => whileLoop r
  | _ => r.expr .bottom construct

/-! ## Statements and blocks -/

def letStmnt : Parser Stmnt := do
  let start ← track
  bump
  let ptrn ← r.ptrn false "let statement"
  let _ ← expect .assign "let statement"
  let init ← r.expr .bottom "initialization of let statement"
  let _ ← expect .semi "let statement"
  return .bind (← finish start) ptrn init

def defItem : Parser Item := do
  let start ← track
  bump
  let id ← ident "def item"
  let decl ← declare id .item
  let _ ← expect .assign "def item"
  let expr ← r.expr .bottom "def item"
  let _ ← expect .semi "def item"
  return ⟨← finish start, id, expr, decl, Slot.unset⟩

/-- A named function: an item whose value is a lambda. -/
def fnItem : Parser Item := do
  let start ← track
  bump
  let id ← ident "fn item"
  let decl ← declare id .item
  let lambdaStart ← track
  let domain ← r.ptrn true "parameter of fn item"
  let codomain ← codomain r "fn item"
  let body ← r.block "body of fn item"
  let expr := Expr.lambda (← finish lambdaStart) domain codomain body
  return ⟨← finish start, id, expr, decl, Slot.unset⟩

/-- A block: braces around statements and a value. -/
def block (construct : String) : Parser Expr := do
  let start ← track
  if ← expect .lBrace construct then
    let body ← r.blockBody
    let _ ← expect .rBrace "block"
    return .block (← finish start) body.1 body.2
  else return .error (← finish start)

/-- To put a statement in front of the rest of a block. -/
def blockRest (stmnt : Stmnt) : Turn (List Stmnt × Expr) :=
  .goOn fun (stmnts, value) => (stmnt :: stmnts, value)

/-- The inside of a block. An expression is a statement if a semicolon follows, or if it needs none
and the block goes on; otherwise it is the value of the block. -/
def blockBodyTurn : Parser (Turn (List Stmnt × Expr)) := do
  match ← kind with
  | .semi =>
    bump
    return .goOn id
  | .rBrace | .eof => return .leave ([], .emptyTuple (← track))
  | .kwLet => return blockRest (← letStmnt r)
  | .kwDef => return blockRest (.item (← defItem r))
  | .kwFn => return blockRest (.item (← fnItem r))
  | kind =>
    if kind.startsExpr then
      let start ← track
      let expr ← stmntExpr r "block"
      if ← accept .semi then return blockRest (.expr (← finish start) expr)
      else if ← isAt .rBrace then return .leave ([], expr)
      else
        unless expr.isStmntLike do
          let _ ← expect .rBrace "block"
        return blockRest (.expr expr.span expr)
    else
      unexpected .blockElement "block"
      bump
      return .goOn id

def blockBody : Parser (List Stmnt × Expr) := loop (blockBodyTurn r) r.blockBody

/-- A statement outside of blocks, where every expression is a statement. -/
def stmnt (construct : String) : Parser Stmnt := do
  match ← kind with
  | .kwLet => letStmnt r
  | .kwDef => return .item (← defItem r)
  | .kwFn => return .item (← fnItem r)
  | _ =>
    let start ← track
    let expr ← stmntExpr r construct
    unless ← accept .semi do
      unless expr.isStmntLike do
        let _ ← expect .semi "expression statement"
    return .expr (← finish start) expr

/-- The statements of a source up to its end. The parser recovers from errors behind each. -/
def stmntsTurn : Parser (Turn (List Stmnt)) := do
  match ← kind with
  | .eof => return .leave []
  | .semi =>
    bump
    return .goOn id
  | kind =>
    if kind.startsStmnt then
      let reported ← reported
      let stmnt ← stmnt r "module"
      recover reported
      return .goOn (stmnt :: ·)
    else
      unexpected .statement "module"
      bump
      return .goOn id

def stmnts : (rounds : Nat) → Parser (List Stmnt)
  | 0 => failure
  | rounds + 1 => loop (stmntsTurn r) (stmnts rounds)

/-! ## Tying the knot -/

/-- The productions with a number of nested calls left. -/
def rules : Nat → Rules
  | 0 =>
    { expr := fun _ _ => failure
      operators := fun _ _ _ => failure
      ptrn := fun _ _ => failure
      ptrnElems := fun _ => failure
      tupleElems := failure
      sigmaElems := failure
      block := fun _ => failure
      blockBody := failure
      branch := failure
      arms := failure }
  | calls + 1 =>
    { expr := fun min construct => expr (rules calls) min construct
      operators := fun start min left => operators (rules calls) start min left
      ptrn := fun typed construct => ptrn (rules calls) typed construct
      ptrnElems := fun typed => ptrnElems (rules calls) typed
      tupleElems := fun s => tupleElems (rules calls) s
      sigmaElems := fun s => sigmaElems (rules calls) s
      block := fun construct => block (rules calls) construct
      blockBody := fun s => blockBody (rules calls) s
      branch := fun s => branch (rules calls) s
      arms := fun s => arms (rules calls) s }

end Parser

end ImpLang
