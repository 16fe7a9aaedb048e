import ImpLang.Token.Lexer
import ImpLang.Tree.Basic

/-!
The grammar of the language: which parts of a tree are spelled by which tokens. It says nothing of
how a parser finds a tree.

Names and strings are compared through a name table. How far spans are fixed is a parameter.

The grammar is not ambiguous. An expression that ends in another one, such as a function type, goes
as far as it can, so what stands behind it may not be an operator that the inner one would take.
-/

namespace ImpLang

/-- The least strength an operator accepts in its left operand. -/
def InfixOp.leftLevel (op : InfixOp) : Prec :=
  if op.isRightAssoc then op.prec.next else op.prec

namespace Prec

theorem le_refl (p : Prec) : p ≤ p := Nat.le_refl p.rank

theorem le_trans {p q r : Prec} (h : p ≤ q) (h' : q ≤ r) : p ≤ r := Nat.le_trans h h'

theorem le_postfixed (p : Prec) : p ≤ .postfixed := by cases p <;> decide

end Prec

theorem InfixOp.prec_lt_postfixed (op : InfixOp) : op.prec < .postfixed := by cases op <;> decide

/-- What binds too weakly for the right operand of an operator takes all of it for its left one. -/
theorem InfixOp.leftLevel_le_of_lt (op op' : InfixOp) (h : op'.prec < op.rightLevel) :
    op'.leftLevel ≤ op.prec := by
  have hlevels : ∀ p p' : Prec, p' ≠ .bottom → (p' < if p == .assign then p else p.next) →
      (if p' == .assign then p'.next else p') ≤ p := by
    intro p p'
    cases p <;> cases p' <;> decide
  exact hlevels op.prec op'.prec (by cases op' <;> decide) h

namespace TokenKind

/-- Elements of a list are separated by commas or semicolons. -/
def isSeparator (kind : TokenKind) : Bool := kind = .comma ∨ kind = .semi

/-- Whether a token begins a form that is taken as a statement on its own. -/
def startsForm : TokenKind → Bool
  | lBrace | kwIf | kwMatch | kwFor | kwWhile => true
  | _ => false

end TokenKind

/-- The kind of the first of a list of tokens. -/
def Token.firstKind (tokens : List Token) : TokenKind := (tokens.head?.map kind).getD .eof

/-- Two tokens that do not continue an operand, and no infix operator of a given strength or more.
-/
structure Stops (min : Prec) (kind next : TokenKind) : Prop where
  postfixOp : kind.postfixOp? = none
  call : kind ≠ .lParen
  callCps : ¬ (kind = .not ∧ next = .lParen)
  field : kind ≠ .dot
  infixOp : ∀ op, kind.infixOp? = some op → op.prec < min

/-- A list of tokens that stands apart from an expression in front of it. -/
def Token.Apart (tokens : List Token) : Prop :=
  Stops .bottom (firstKind tokens) (firstKind tokens.tail)

/-- What is asked of the spans in a tree. -/
structure Placement where
  /-- A span that covers tokens, of which there is one at least. -/
  covers : Span → List Token → Prop
  /-- An empty span directly behind tokens. -/
  behind : Span → List Token → Prop

namespace Placement

/-- Spans from the first token on up to the end of the last. -/
def exact : Placement where
  covers span tokens := ∃ first last, tokens.head? = some first ∧ tokens.getLast? = some last ∧
    span = { first.span with stop := last.span.stop }
  behind span tokens := ∃ last, tokens.getLast? = some last ∧ span = last.span.endPoint

/-- Any spans at all. -/
def free : Placement := ⟨fun _ _ => True, fun _ _ => True⟩

end Placement

variable (names : Interner) (place : Placement)

/-- A token that spells a name. -/
structure Token.Spells (token : Token) (id : Id) : Prop where
  kind : token.kind = .identifier
  text : ∃ text, token.payload = .name text ∧ names.resolve? id.symbol = some text
  span : place.covers id.span [token]

/-- What the grammar derives: parts of a tree, with what matters of the place they stand in. The
end of a phrase takes any infix operator behind it that is as strong as its `reach`; nothing reaches
as far as `postfixed`. -/
inductive Phrase where
  /-- An expression whose operators bind at least as strongly as given. -/
  | expr (min reach : Prec) (expr : Expr)
  /-- An expression that is no operator with its operands, or one of calls, fields and postfix
  operators. -/
  | operand (reach : Prec) (expr : Expr)
  /-- A parenthesised list. -/
  | parens (expr : Expr)
  /-- Elements of a tuple, and whether a separator stands behind the first. -/
  | elems (elems : List Elem) (separated : Bool)
  | elem (elem : Elem)
  | sigmaElems (elems : List Ptrn)
  | sigmaElem (elem : Ptrn)
  | ptrn (typed : Bool) (reach : Prec) (ptrn : Ptrn)
  | ptrns (typed : Bool) (ptrns : List Ptrn)
  | ascription (reach : Prec) (ty : Option Expr)
  /-- The result type of a function, behind the tokens of its domain. -/
  | codomain (domain : List Token) (codomain : Expr)
  /-- A function from its domain on. -/
  | function (domain : Ptrn) (codomain body : Expr)
  | block (expr : Expr)
  /-- Statements and value of a block that the given token closes. -/
  | body (close : Token) (stmnts : List Stmnt) (value : Expr)
  | branch (expr : Expr)
  /-- The alternative of a branch, behind the tokens of its consequence. -/
  | otherwise (consequence : List Token) (expr : Expr)
  | arms (arms : List Arm)
  /-- An expression that ends in a block. -/
  | form (expr : Expr)
  /-- An expression where a statement may stand. -/
  | stmntExpr (expr : Expr)
  /-- A statement that introduces names. -/
  | binding (stmnt : Stmnt)
  /-- The statements of a module. -/
  | stmnts (stmnts : List Stmnt)

/-- The tokens that spell a phrase. -/
inductive Derives : Phrase → List Token → Prop
  -- Expressions.
  | exprOperand {min reach e ts} (operand : Derives (.operand reach e) ts) :
      Derives (.expr min reach e) ts
  | exprPrefixed {min reach span t op e ts} (kind : t.kind.prefixOp? = some op)
      (operand : Derives (.expr .prefixed reach e) ts) (extent : place.covers span (t :: ts)) :
      Derives (.expr min reach (.prefixed span op e)) (t :: ts)
  | exprBinary {min inner reach span t op left right ts us} (kind : t.kind.infixOp? = some op)
      (strength : min ≤ op.prec) (lhs : Derives (.expr op.leftLevel inner left) ts)
      (beyond : op.prec < inner) (rhs : Derives (.expr op.rightLevel reach right) us)
      (extent : place.covers span (ts ++ t :: us)) :
      Derives (.expr min reach (.binary span left op right)) (ts ++ t :: us)
  -- Operands.
  | name {span t id} (spells : t.Spells names place id) (extent : place.covers span [t]) :
      Derives (.operand .postfixed (.name span id .unset)) [t]
  | literal {span t value text} (kind : t.kind = .literal) (payload : t.payload = .literal text)
      (same : value.map names.resolve? = text.map some) (extent : place.covers span [t]) :
      Derives (.operand .postfixed (.literal span value)) [t]
  | parens {e ts} (parens : Derives (.parens e) ts) : Derives (.operand .postfixed e) ts
  | sigma {span es t u ts} (opens : t.kind = .lBracket) (elems : Derives (.sigmaElems es) ts)
      (closes : u.kind = .rBracket) (extent : place.covers span (t :: (ts ++ [u]))) :
      Derives (.operand .postfixed (.sigma span es)) (t :: (ts ++ [u]))
  | operandForm {e ts} (form : Derives (.form e) ts) : Derives (.operand .postfixed e) ts
  | lambda {span d c b t ts} (kind : t.kind = .lambda) (function : Derives (.function d c b) ts)
      (extent : place.covers span (t :: ts)) :
      Derives (.operand .postfixed (.lambda span d c b)) (t :: ts)
  | pi {reach reach' span d c t u ts us} (kind : t.kind = .pi)
      (domain : Derives (.ptrn true reach d) ts) (arrow : u.kind = .arrow)
      (codomain : Derives (.expr .bottom reach' c) us)
      (extent : place.covers span (t :: (ts ++ u :: us))) :
      Derives (.operand .bottom (.pi span d c)) (t :: (ts ++ u :: us))
  | continuation {reach span inner d t ts} (kind : t.kind = .kwCn)
      (domain : Derives (.ptrn true reach d) ts) (behind : place.behind inner ts)
      (extent : place.covers span (t :: ts)) :
      Derives (.operand reach (.pi span d (.bottom inner))) (t :: ts)
  | pack {reach reach' span d b t u v ts us} (opens : t.kind = .lPack)
      (domain : Derives (.ptrn false reach d) ts) (semi : u.kind = .semi)
      (body : Derives (.expr .bottom reach' b) us) (closes : v.kind = .rPack)
      (extent : place.covers span (t :: (ts ++ u :: (us ++ [v])))) :
      Derives (.operand .postfixed (.pack span d b)) (t :: (ts ++ u :: (us ++ [v])))
  | variadic {reach reach' span d b t u v ts us} (opens : t.kind = .lVariadic)
      (domain : Derives (.ptrn false reach d) ts) (semi : u.kind = .semi)
      (body : Derives (.expr .bottom reach' b) us) (closes : v.kind = .rVariadic)
      (extent : place.covers span (t :: (ts ++ u :: (us ++ [v])))) :
      Derives (.operand .postfixed (.variadic span d b)) (t :: (ts ++ u :: (us ++ [v])))
  | qualifier {span value t} (kind : t.kind.qualifier? = some value)
      (extent : place.covers span [t]) : Derives (.operand .postfixed (.qualifier span value)) [t]
  | bottom {span t} (kind : t.kind = .bottom) (extent : place.covers span [t]) :
      Derives (.operand .postfixed (.bottom span)) [t]
  | unknown {span t} (kind : t.kind = .question) (extent : place.covers span [t]) :
      Derives (.operand .postfixed (.unknown span)) [t]
  | postfixed {span e op t ts} (operand : Derives (.operand .postfixed e) ts)
      (kind : t.kind.postfixOp? = some op) (extent : place.covers span (ts ++ [t])) :
      Derives (.operand .postfixed (.postfixed span e op)) (ts ++ [t])
  | app {span f a ts us} (callee : Derives (.operand .postfixed f) ts)
      (arg : Derives (.parens a) us) (extent : place.covers span (ts ++ us)) :
      Derives (.operand .postfixed (.app span f a false)) (ts ++ us)
  | appCps {span f a t ts us} (callee : Derives (.operand .postfixed f) ts) (mark : t.kind = .not)
      (arg : Derives (.parens a) us) (extent : place.covers span (ts ++ t :: us)) :
      Derives (.operand .postfixed (.app span f a true)) (ts ++ t :: us)
  | field {span e id t u ts} (value : Derives (.operand .postfixed e) ts) (dot : t.kind = .dot)
      (spells : u.Spells names place id) (extent : place.covers span (ts ++ [t, u])) :
      Derives (.operand .postfixed (.field span e id)) (ts ++ [t, u])
  -- Parenthesised lists. A single element without name and separator stands for itself.
  | grouped {span e t u ts} (opens : t.kind = .lParen)
      (elems : Derives (.elems [⟨none, e⟩] false) ts) (closes : u.kind = .rParen)
      (extent : place.covers span (t :: (ts ++ [u]))) :
      Derives (.parens (e.withSpan span)) (t :: (ts ++ [u]))
  | tuple {span es separated t u ts} (opens : t.kind = .lParen)
      (elems : Derives (.elems es separated) ts) (closes : u.kind = .rParen)
      (several : separated = false → ∀ e, es ≠ [⟨none, e⟩])
      (extent : place.covers span (t :: (ts ++ [u]))) :
      Derives (.parens (.tuple span es)) (t :: (ts ++ [u]))
  | elemsNil : Derives (.elems [] false) []
  | elemsOne {e ts} (elem : Derives (.elem e) ts) : Derives (.elems [e] false) ts
  | elemsCons {e es separated t ts us} (elem : Derives (.elem e) ts)
      (separator : t.kind.isSeparator = true) (elems : Derives (.elems es separated) us) :
      Derives (.elems (e :: es) true) (ts ++ t :: us)
  | elemNamed {reach id e t u ts} (spells : t.Spells names place id) (assign : u.kind = .assign)
      (expr : Derives (.expr .bottom reach e) ts) : Derives (.elem ⟨some id, e⟩) (t :: u :: ts)
  -- An identifier in front of an assignment sign is always a name.
  | elemPlain {reach e ts} (expr : Derives (.expr .bottom reach e) ts)
      (plain : ∀ t u us, ts = t :: u :: us → t.kind = .identifier → u.kind ≠ .assign) :
      Derives (.elem ⟨none, e⟩) ts
  -- Elements of dependent tuples. A type alone binds the wildcard.
  | sigmaElemsNil : Derives (.sigmaElems []) []
  | sigmaElemsOne {p ts} (elem : Derives (.sigmaElem p) ts) : Derives (.sigmaElems [p]) ts
  | sigmaElemsCons {p ps t ts us} (elem : Derives (.sigmaElem p) ts)
      (separator : t.kind.isSeparator = true) (elems : Derives (.sigmaElems ps) us) :
      Derives (.sigmaElems (p :: ps)) (ts ++ t :: us)
  | sigmaElemNamed {reach span id decl ty t u ts} (spells : t.Spells names place id)
      (colon : u.kind = .colon) (type : Derives (.expr .bottom reach ty) ts)
      (extent : place.covers span (t :: u :: ts)) :
      Derives (.sigmaElem (.name span id decl (some ty) true)) (t :: u :: ts)
  | sigmaElemPlain {reach symbol decl ty ts} (type : Derives (.expr .bottom reach ty) ts)
      (plain : ∀ t u us, ts = t :: u :: us → t.kind = .identifier → u.kind ≠ .colon)
      (wildcard : names.resolve? symbol = some Interner.wildcard) :
      Derives (.sigmaElem (.name ty.span ⟨symbol, ty.span⟩ decl (some ty) true)) ts
  -- Patterns.
  | ptrnName {typed reach span id decl ty t ts} (spells : t.Spells names place id)
      (type : Derives (.ascription reach ty) ts) (extent : place.covers span (t :: ts)) :
      Derives (.ptrn typed reach (.name span id decl ty typed)) (t :: ts)
  | ptrnTuple {typed reach span ps ty t u ts us} (opens : t.kind = .lParen)
      (elems : Derives (.ptrns typed ps) ts) (closes : u.kind = .rParen)
      (type : Derives (.ascription reach ty) us)
      (extent : place.covers span (t :: (ts ++ u :: us))) :
      Derives (.ptrn typed reach (.tuple span ps ty typed)) (t :: (ts ++ u :: us))
  | ptrnsNil {typed} : Derives (.ptrns typed []) []
  | ptrnsOne {typed reach p ts} (elem : Derives (.ptrn typed reach p) ts) :
      Derives (.ptrns typed [p]) ts
  | ptrnsCons {typed reach p ps t ts us} (elem : Derives (.ptrn typed reach p) ts)
      (separator : t.kind.isSeparator = true) (elems : Derives (.ptrns typed ps) us) :
      Derives (.ptrns typed (p :: ps)) (ts ++ t :: us)
  | ascriptionNone : Derives (.ascription .postfixed none) []
  | ascriptionSome {reach inner ty t ts} (colon : t.kind = .colon)
      (type : Derives (.expr .orOr inner ty) ts) (within : reach ≤ inner)
      (level : reach ≤ .orOr) :
      Derives (.ascription reach (some ty)) (t :: ts)
  -- Functions.
  | codomainOpen {span ds} (behind : place.behind span ds) :
      Derives (.codomain ds (.unknown span)) []
  | codomainWritten {reach c ds t ts} (arrow : t.kind = .arrow)
      (ty : Derives (.expr .orOr reach c) ts) : Derives (.codomain ds c) (t :: ts)
  | function {reach d c b ds cs bs} (domain : Derives (.ptrn true reach d) ds)
      (codomain : Derives (.codomain ds c) cs) (body : Derives (.block b) bs) :
      Derives (.function d c b) (ds ++ (cs ++ bs))
  -- Forms that end in a block.
  | formBlock {e ts} (block : Derives (.block e) ts) : Derives (.form e) ts
  | formBranch {e ts} (branch : Derives (.branch e) ts) : Derives (.form e) ts
  | formSelect {reach span e as t u v ts us} (kind : t.kind = .kwMatch)
      (scrutinee : Derives (.expr .bottom reach e) ts) (opens : u.kind = .lBrace)
      (arms : Derives (.arms as) us) (closes : v.kind = .rBrace)
      (extent : place.covers span (t :: (ts ++ u :: (us ++ [v])))) :
      Derives (.form (.select span e as)) (t :: (ts ++ u :: (us ++ [v])))
  | formFor {reach reach' span p e b t u ts us vs} (kind : t.kind = .kwFor)
      (ptrn : Derives (.ptrn false reach p) ts) (sign : u.kind = .kwIn)
      (iter : Derives (.expr .bottom reach' e) us) (body : Derives (.block b) vs)
      (extent : place.covers span (t :: (ts ++ u :: (us ++ vs)))) :
      Derives (.form (.forLoop span p e b)) (t :: (ts ++ u :: (us ++ vs)))
  | formWhile {reach span e b t ts us} (kind : t.kind = .kwWhile)
      (cond : Derives (.expr .bottom reach e) ts) (body : Derives (.block b) us)
      (extent : place.covers span (t :: (ts ++ us))) :
      Derives (.form (.whileLoop span e b)) (t :: (ts ++ us))
  | branch {reach span c y n t ts us vs} (kind : t.kind = .kwIf)
      (cond : Derives (.expr .bottom reach c) ts) (yes : Derives (.block y) us)
      (no : Derives (.otherwise us n) vs)
      (extent : place.covers span (t :: (ts ++ (us ++ vs)))) :
      Derives (.branch (.branch span c y n)) (t :: (ts ++ (us ++ vs)))
  | otherwiseNone {span ys} (behind : place.behind span ys) :
      Derives (.otherwise ys (.emptyBlock span)) []
  | otherwiseBranch {e ys t ts} (kind : t.kind = .kwElse) (branch : Derives (.branch e) ts) :
      Derives (.otherwise ys e) (t :: ts)
  | otherwiseBlock {e ys t ts} (kind : t.kind = .kwElse) (block : Derives (.block e) ts) :
      Derives (.otherwise ys e) (t :: ts)
  | armsNil : Derives (.arms []) []
  | armsCons {reach reach' span p e as t ts us separator vs}
      (ptrn : Derives (.ptrn false reach p) ts) (arrow : t.kind = .fatArrow)
      (body : Derives (.expr .bottom reach' e) us) (extent : place.covers span (ts ++ t :: us))
      (atMostOne : separator = [] ∧ Token.Apart vs ∨
        ∃ u : Token, separator = [u] ∧ u.kind.isSeparator = true)
      (arms : Derives (.arms as) vs) :
      Derives (.arms (⟨span, p, e⟩ :: as)) (ts ++ t :: (us ++ (separator ++ vs)))
  -- Blocks.
  | block {span ss value t u ts} (opens : t.kind = .lBrace) (body : Derives (.body u ss value) ts)
      (closes : u.kind = .rBrace) (extent : place.covers span (t :: (ts ++ [u]))) :
      Derives (.block (.block span ss value)) (t :: (ts ++ [u]))
  | bodyEnd {close span} (extent : place.covers span [close]) :
      Derives (.body close [] (.emptyTuple span)) []
  | bodyValue {close e ts} (expr : Derives (.stmntExpr e) ts) : Derives (.body close [] e) ts
  | bodySemi {close ss value t ts} (semi : t.kind = .semi)
      (rest : Derives (.body close ss value) ts) : Derives (.body close ss value) (t :: ts)
  | bodyBinding {close s ss value ts us} (stmnt : Derives (.binding s) ts)
      (rest : Derives (.body close ss value) us) : Derives (.body close (s :: ss) value) (ts ++ us)
  | bodyExpr {close span e ss value t ts us} (expr : Derives (.stmntExpr e) ts)
      (semi : t.kind = .semi) (extent : place.covers span (ts ++ [t]))
      (rest : Derives (.body close ss value) us) :
      Derives (.body close (.expr span e :: ss) value) (ts ++ t :: us)
  -- Without a semicolon an expression is a statement only if the block goes on behind it, and
  -- unless it is a form, with something that does not continue it.
  | bodyForm {close e ss value ts us} (expr : Derives (.stmntExpr e) ts)
      (form : e.isStmntLike = true) (goesOn : us ≠ [])
      (unfinished : Token.firstKind us ≠ .semi)
      (apart : (Token.firstKind ts).startsForm = true ∨ Token.Apart us)
      (rest : Derives (.body close ss value) us) :
      Derives (.body close (.expr e.span e :: ss) value) (ts ++ us)
  -- Statements. A form is taken on its own and never continues as an operand.
  | stmntForm {e ts} (form : Derives (.form e) ts) : Derives (.stmntExpr e) ts
  | stmntPlain {reach e t ts} (expr : Derives (.expr .bottom reach e) (t :: ts))
      (plain : t.kind.startsForm = false) : Derives (.stmntExpr e) (t :: ts)
  | bindLet {reach reach' span p e t u v ts us} (kind : t.kind = .kwLet)
      (ptrn : Derives (.ptrn false reach p) ts) (beyond : Prec.assign < reach)
      (assign : u.kind = .assign)
      (init : Derives (.expr .bottom reach' e) us) (semi : v.kind = .semi)
      (extent : place.covers span (t :: (ts ++ u :: (us ++ [v])))) :
      Derives (.binding (.bind span p e)) (t :: (ts ++ u :: (us ++ [v])))
  | bindDef {reach span id e decl t u v w us} (kind : t.kind = .kwDef)
      (spells : u.Spells names place id) (assign : v.kind = .assign)
      (value : Derives (.expr .bottom reach e) us) (semi : w.kind = .semi)
      (extent : place.covers span (t :: u :: v :: (us ++ [w]))) :
      Derives (.binding (.item ⟨span, id, e, decl, .unset⟩)) (t :: u :: v :: (us ++ [w]))
  | bindFn {span inner id d c b decl t u ts} (kind : t.kind = .kwFn)
      (spells : u.Spells names place id) (function : Derives (.function d c b) ts)
      (innerExtent : place.covers inner ts) (extent : place.covers span (t :: u :: ts)) :
      Derives (.binding (.item ⟨span, id, .lambda inner d c b, decl, .unset⟩)) (t :: u :: ts)
  | stmntsNil : Derives (.stmnts []) []
  | stmntsSemi {ss t ts} (semi : t.kind = .semi) (rest : Derives (.stmnts ss) ts) :
      Derives (.stmnts ss) (t :: ts)
  | stmntsBinding {s ss ts us} (stmnt : Derives (.binding s) ts) (rest : Derives (.stmnts ss) us) :
      Derives (.stmnts (s :: ss)) (ts ++ us)
  | stmntsExpr {span e ss t ts us} (expr : Derives (.stmntExpr e) ts) (semi : t.kind = .semi)
      (extent : place.covers span (ts ++ [t])) (rest : Derives (.stmnts ss) us) :
      Derives (.stmnts (.expr span e :: ss)) (ts ++ t :: us)
  | stmntsForm {span e ss ts us} (expr : Derives (.stmntExpr e) ts) (form : e.isStmntLike = true)
      (unfinished : Token.firstKind us ≠ .semi)
      (apart : (Token.firstKind ts).startsForm = true ∨ Token.Apart us)
      (extent : place.covers span ts) (rest : Derives (.stmnts ss) us) :
      Derives (.stmnts (.expr span e :: ss)) (ts ++ us)

/-- The phrases that are spelled by one token at least. -/
def Phrase.isSolid : Phrase → Bool
  | elems .. | sigmaElems _ | ptrns .. | ascription .. | codomain .. | body .. | otherwise .. | arms _
  | stmnts _ => false
  | _ => true

theorem Derives.ne_nil {names : Interner} {place : Placement} {phrase : Phrase} {ts : List Token}
    (h : Derives names place phrase ts) (hsolid : phrase.isSolid = true) : ts ≠ [] := by
  induction h <;> simp_all [Phrase.isSolid]

/-- Where weaker operators are allowed, so are stronger ones. -/
theorem Derives.mono {names : Interner} {place : Placement} {level min reach : Prec} {e : Expr}
    {ts : List Token} (h : Derives names place (.expr level reach e) ts) (hle : min ≤ level) :
    Derives names place (.expr min reach e) ts := by
  cases h with
  | exprOperand operand => exact .exprOperand operand
  | exprPrefixed kind operand extent => exact .exprPrefixed kind operand extent
  | exprBinary kind strength lhs beyond rhs extent =>
    exact .exprBinary kind (Prec.le_trans hle strength) lhs beyond rhs extent

/-- Whether a phrase can begin with a kind of token. -/
def Phrase.startsWith (kind : TokenKind) : Phrase → Bool
  | expr .. | elem _ | elems .. | sigmaElem _ | sigmaElems _ | stmntExpr _ => kind.startsExpr
  | operand .. => kind.startsExpr && kind.prefixOp?.isNone
  | parens _ => kind = .lParen
  | ptrn .. | ptrns .. | function .. | arms _ => kind = .identifier ∨ kind = .lParen
  | ascription .. => kind = .colon
  | codomain .. => kind = .arrow
  | block _ => kind = .lBrace
  | branch _ => kind = .kwIf
  | otherwise .. => kind = .kwElse
  | form _ => kind.startsForm
  | binding _ => kind = .kwLet ∨ kind = .kwDef ∨ kind = .kwFn
  | body .. | stmnts _ => kind = .semi ∨ kind.startsStmnt

theorem Token.firstKind_cons (t : Token) (ts : List Token) : firstKind (t :: ts) = t.kind := rfl

theorem Token.firstKind_append {ts : List Token} (hts : ts ≠ []) (us : List Token) :
    firstKind (ts ++ us) = firstKind ts := by
  cases ts with
  | nil => exact absurd rfl hts
  | cons t ts => rfl

theorem TokenKind.startsExpr_of_prefixOp {kind : TokenKind} {op : PrefixOp}
    (h : kind.prefixOp? = some op) : kind.startsExpr = true := by
  cases kind <;> first | rfl | cases h

theorem TokenKind.startsOperand_of_qualifier {kind : TokenKind} {value : Qualifier}
    (h : kind.qualifier? = some value) : (kind.startsExpr && kind.prefixOp?.isNone) = true := by
  cases kind <;> first | rfl | cases h

theorem TokenKind.startsOperand_of_form {kind : TokenKind} (h : kind.startsForm = true) :
    (kind.startsExpr && kind.prefixOp?.isNone) = true := by
  cases kind <;> first | rfl | cases h

theorem TokenKind.startsStmnt_of_expr {kind : TokenKind} (h : kind.startsExpr = true) :
    kind.startsStmnt = true := by
  cases kind <;> first | rfl | cases h

theorem TokenKind.startsStmnt_of_binding {kind : TokenKind}
    (h : kind = .kwLet ∨ kind = .kwDef ∨ kind = .kwFn) : kind.startsStmnt = true := by
  rcases h with rfl | rfl | rfl <;> rfl

theorem Derives.starts {names : Interner} {place : Placement} {phrase : Phrase} {ts : List Token}
    (h : Derives names place phrase ts) (hts : ts ≠ []) :
    phrase.startsWith (Token.firstKind ts) = true := by
  -- What a phrase begins with is what its first part begins with, which is not empty.
  have hfirst : ∀ {first : Phrase} {ts us : List Token}, Derives names place first ts →
      first.isSolid = true → (ts ≠ [] → first.startsWith (Token.firstKind ts) = true) →
      first.startsWith (Token.firstKind (ts ++ us)) = true := by
    intro first ts us h hsolid ih
    have hne := h.ne_nil hsolid
    rw [Token.firstKind_append hne]
    exact ih hne
  have hstmnt : ∀ {ts : List Token}, (Token.firstKind ts).startsStmnt = true →
      decide (Token.firstKind ts = .semi ∨ (Token.firstKind ts).startsStmnt = true) = true :=
    fun h => decide_eq_true (.inr h)
  induction h
  case exprOperand ih => exact (Bool.and_eq_true_iff.1 (ih hts)).1
  case exprPrefixed kind _ _ _ => exact TokenKind.startsExpr_of_prefixOp kind
  case exprBinary lhs _ _ _ ih _ => exact (hfirst lhs rfl ih :)
  case qualifier kind _ => exact TokenKind.startsOperand_of_qualifier kind
  case name spells _ =>
    rw [Token.firstKind_cons, spells.kind]
    rfl
  case parens ih =>
    have hparen : Token.firstKind _ = .lParen := of_decide_eq_true (ih hts)
    show (TokenKind.startsExpr _ && _) = true
    rw [hparen]
    rfl
  case operandForm ih => exact TokenKind.startsOperand_of_form (ih hts)
  case postfixed operand _ _ ih => exact (hfirst operand rfl ih :)
  case app callee _ _ ih _ => exact (hfirst callee rfl ih :)
  case appCps callee _ _ _ ih _ => exact (hfirst callee rfl ih :)
  case field value _ _ _ ih => exact (hfirst value rfl ih :)
  case elemsOne ih | elemPlain ih | sigmaElemsOne ih | sigmaElemPlain ih | ptrnsOne ih |
      stmntPlain ih => exact ih hts
  case elemsCons elem _ _ ih _ => exact (hfirst elem rfl ih :)
  case elemNamed spells _ _ _ =>
    rw [Token.firstKind_cons, spells.kind]
    rfl
  case sigmaElemsCons elem _ _ ih _ => exact (hfirst elem rfl ih :)
  case sigmaElemNamed spells _ _ _ _ =>
    rw [Token.firstKind_cons, spells.kind]
    rfl
  case ptrnName spells _ _ _ =>
    rw [Token.firstKind_cons, spells.kind]
    rfl
  case ptrnsCons elem _ _ ih _ => exact (hfirst elem rfl ih :)
  case function domain _ _ ih _ _ => exact (hfirst domain rfl ih :)
  case formBlock ih =>
    have hbrace : Token.firstKind _ = .lBrace := of_decide_eq_true (ih hts)
    show TokenKind.startsForm _ = true
    rw [hbrace]
    rfl
  case formBranch ih =>
    have hif : Token.firstKind _ = .kwIf := of_decide_eq_true (ih hts)
    show TokenKind.startsForm _ = true
    rw [hif]
    rfl
  case armsCons ptrn _ _ _ _ _ ih _ _ => exact (hfirst ptrn rfl ih :)
  case bodyValue ih => exact hstmnt (TokenKind.startsStmnt_of_expr (ih hts))
  case bodyBinding stmnt _ ih _ =>
    exact hstmnt (TokenKind.startsStmnt_of_binding (of_decide_eq_true (hfirst stmnt rfl ih)))
  case bodyExpr expr _ _ _ ih _ => exact hstmnt (TokenKind.startsStmnt_of_expr (hfirst expr rfl ih))
  case bodyForm expr _ _ _ _ _ ih _ =>
    exact hstmnt (TokenKind.startsStmnt_of_expr (hfirst expr rfl ih))
  case stmntForm ih => exact (Bool.and_eq_true_iff.1 (TokenKind.startsOperand_of_form (ih hts))).1
  case stmntsBinding stmnt _ ih _ =>
    exact hstmnt (TokenKind.startsStmnt_of_binding (of_decide_eq_true (hfirst stmnt rfl ih)))
  case stmntsExpr expr _ _ _ ih _ =>
    exact hstmnt (TokenKind.startsStmnt_of_expr (hfirst expr rfl ih))
  case stmntsForm expr _ _ _ _ _ ih _ =>
    exact hstmnt (TokenKind.startsStmnt_of_expr (hfirst expr rfl ih))
  -- Elsewhere the first token is given.
  all_goals first
    | exact absurd rfl hts
    | (simp only [Token.firstKind_cons, *]; rfl)

end ImpLang
