import ImpLang.Tree.Basic

/-!
The canonical text of a tree. Parentheses stand only where the grammar needs them, statements of a
block on lines of their own, four columns deeper than the block.
-/

namespace ImpLang

namespace Print

/-- The start of a line at a nesting depth. -/
def newline (depth : Nat) : String :=
  String.ofList ('\n' :: List.replicate (4 * depth) ' ')

def wrap (parens : Bool) (text : String) : String :=
  if parens then "(" ++ text ++ ")" else text

def commas (texts : List String) : String := String.intercalate ", " texts

/-- The forms that need no parentheses as an operand. -/
def isAtomic : Expr → Bool
  | .name .. | .literal .. | .tuple .. | .sigma .. | .app .. | .field .. | .postfixed .. | .pack ..
  | .variadic .. | .qualifier .. | .bottom _ | .unknown _ | .error _ => true
  | _ => false

/-- Whether an expression needs parentheses as a type: types are read above assignments. -/
def typeParens : Expr → Bool
  | .binary _ _ op _ => op.prec < .orOr
  | .prefixed .. => false
  | expr => !isAtomic expr

/-- Whether an expression needs parentheses as the left or the right operand of an infix operator:
if it binds more weakly, or equally and stands on the side away from which the operator groups. -/
def infixParens (op : InfixOp) (isLeft : Bool) : Expr → Bool
  | .binary _ _ inner _ =>
    inner.prec < op.prec || (inner.prec == op.prec && isLeft == op.isRightAssoc)
  | .prefixed .. => false
  | expr => !isAtomic expr

def isName : Expr → Bool
  | .name .. => true
  | _ => false

def isTuple : Expr → Bool
  | .tuple .. => true
  | _ => false

def isBottom : Expr → Bool
  | .bottom _ => true
  | _ => false

def isUnknown : Expr → Bool
  | .unknown _ => true
  | _ => false

/-- A single element without name needs a comma to be a tuple. -/
def isLone : List Elem → Bool
  | [⟨none, _⟩] => true
  | _ => false

/-- A function from its domain on. A result type that is left open is not written. -/
def function (domain : String) (codomain : Expr) (codomainText body : String) : String :=
  let result :=
    if isUnknown codomain then "" else " -> " ++ wrap (typeParens codomain) codomainText
  domain ++ result ++ " " ++ body

/-- A block from the texts of its statements and its value. -/
def block (depth : Nat) (stmnts : List String) (value : Option String) : String :=
  match stmnts, value with
  | [], none => "\x7b\x7d"
  | [], some value => "\x7b " ++ value ++ " \x7d"
  | stmnts, value =>
    let lines := (stmnts ++ value.toList).map (newline (depth + 1) ++ ·)
    "\x7b" ++ String.join lines ++ newline depth ++ "\x7d"

variable (names : Interner)

mutual

/-- As an `element` of a tuple, an assignment to a plain name would read as a named element, so its
target is parenthesised. -/
def expr (depth : Nat) (element : Bool) : Expr → String
  | .name _ id _ => names.name id.symbol
  | .literal _ value => (value.map names.name).print
  | .tuple _ es => "(" ++ commas (elems depth es) ++ (if isLone es then "," else "") ++ ")"
  | .sigma _ ps => "[" ++ commas (sigma depth ps) ++ "]"
  | .pi _ domain codomain =>
    if isBottom codomain then "cn " ++ ptrn depth domain
    else "Π " ++ ptrn depth domain ++ " → " ++ expr depth false codomain
  | .lambda _ domain codomain body =>
    "λ" ++ function (ptrn depth domain) codomain (expr depth false codomain)
      (expr depth false body)
  | .app _ callee arg cps =>
    wrap (!isAtomic callee) (expr depth false callee) ++ (if cps then "!" else "") ++
      (if isTuple arg then expr depth false arg else "(" ++ expr depth true arg ++ ")")
  | .field _ value id =>
    wrap (!isAtomic value) (expr depth false value) ++ "." ++ names.name id.symbol
  | .prefixed _ op operand => op.text ++ wrap (!isAtomic operand) (expr depth false operand)
  | .postfixed _ operand op => wrap (!isAtomic operand) (expr depth false operand) ++ op.text
  | .binary _ left op right =>
    let target := element && op == .assign && isName left
    wrap (target || infixParens op true left) (expr depth false left) ++ " " ++ op.text ++ " " ++
      wrap (infixParens op false right) (expr depth false right)
  | .block _ ss value =>
    block depth (stmnts (depth + 1) ss)
      (if value.isUnit then none
        else some (expr (if ss.isEmpty then depth else depth + 1) false value))
  | .branch _ cond yes no =>
    "if " ++ expr depth false cond ++ " " ++ expr depth false yes ++
      (if no.isEmptyBlock then "" else " else " ++ expr depth false no)
  | .select _ scrutinee as =>
    "match " ++ expr depth false scrutinee ++ " \x7b" ++ String.join (arms (depth + 1) as) ++
      newline depth ++ "\x7d"
  | .forLoop _ p iter body =>
    "for " ++ ptrn depth p ++ " in " ++ expr depth false iter ++ " " ++ expr depth false body
  | .whileLoop _ cond body => "while " ++ expr depth false cond ++ " " ++ expr depth false body
  | .pack _ domain body => "‹" ++ ptrn depth domain ++ "; " ++ expr depth false body ++ "›"
  | .variadic _ domain body => "«" ++ ptrn depth domain ++ "; " ++ expr depth false body ++ "»"
  | .qualifier _ value => value.text
  | .bottom _ => "⊥"
  | .unknown _ => "?"
  | .error _ => "<error>"

/-- The ascription of a pattern. -/
def ascription (depth : Nat) : Option Expr → String
  | none => ""
  | some ty => ": " ++ wrap (typeParens ty) (expr depth false ty)

def ptrn (depth : Nat) : Ptrn → String
  | .name _ id _ ty _ => names.name id.symbol ++ ascription depth ty
  | .tuple _ ps ty _ => "(" ++ commas (ptrns depth ps) ++ ")" ++ ascription depth ty
  | .error _ => "<error>"

def ptrns (depth : Nat) : List Ptrn → List String
  | [] => []
  | p :: ps => ptrn depth p :: ptrns depth ps

/-- The elements of a dependent tuple: one that binds the wildcard is written as its type alone. -/
def sigma (depth : Nat) : List Ptrn → List String
  | [] => []
  | .name span id decl (some ty) typed :: ps =>
    (if names.resolve? id.symbol = some Interner.wildcard then expr depth false ty
      else ptrn depth (.name span id decl (some ty) typed)) :: sigma depth ps
  | p :: ps => ptrn depth p :: sigma depth ps

def elems (depth : Nat) : List Elem → List String
  | [] => []
  | ⟨none, e⟩ :: es => expr depth true e :: elems depth es
  | ⟨some id, e⟩ :: es => (names.name id.symbol ++ " = " ++ expr depth false e) :: elems depth es

/-- Every case stands on a line of its own. -/
def arms (depth : Nat) : List Arm → List String
  | [] => []
  | ⟨_, p, e⟩ :: as =>
    (newline depth ++ ptrn depth p ++ " => " ++ expr depth false e ++ ",") :: arms depth as

/-- An item whose value is a lambda is written as a named function. -/
def stmnt (depth : Nat) : Stmnt → String
  | .expr _ e => expr depth false e ++ ";"
  | .bind _ p init => "let " ++ ptrn depth p ++ " = " ++ expr depth false init ++ ";"
  | .item ⟨_, id, .lambda _ domain codomain body, _, _⟩ =>
    "fn " ++ names.name id.symbol ++
      function (ptrn depth domain) codomain (expr depth false codomain) (expr depth false body)
  | .item ⟨_, id, e, _, _⟩ => "def " ++ names.name id.symbol ++ " = " ++ expr depth false e ++ ";"

def stmnts (depth : Nat) : List Stmnt → List String
  | [] => []
  | s :: ss => stmnt depth s :: stmnts depth ss

end

end Print

def Expr.print (names : Interner) (expr : Expr) : String := Print.expr names 0 false expr

def Ptrn.print (names : Interner) (ptrn : Ptrn) : String := Print.ptrn names 0 ptrn

def Stmnt.print (names : Interner) (stmnt : Stmnt) : String := Print.stmnt names 0 stmnt

/-- One statement behind the other, each with a line end. -/
def Module.print (names : Interner) (module : Module) : String :=
  String.join ((Print.stmnts names 0 module.stmnts).map (· ++ "\n"))

end ImpLang
