import ImpLang.Tree.Decl
import ImpLang.Tree.Slot
import ImpLang.Token.Literal
import ImpLang.Operator

/-!
Syntax trees. Every node has the span of the text it was read from, and a part that could not be
read is an error node.
-/

namespace ImpLang

/-- The number of an emitted value, in 32 bits. -/
structure Value where
  index : UInt32
deriving DecidableEq, Repr, Inhabited

/-- The number that a value gets behind `n` others. Behind 2 ^ 32 values numbers begin anew. -/
def Value.ofNat (n : Nat) : Value := ⟨UInt32.ofNat n⟩

instance : ToString Value := ⟨fun v => "%" ++ toString v.index⟩

mutual

inductive Expr where
  /-- The use of a name, with the declaration that name resolution finds for it. -/
  | name (span : Span) (id : Id) (decl : Slot DeclId)
  | literal (span : Span) (value : Literal Symbol)
  | tuple (span : Span) (elems : List Elem)
  /-- A dependent tuple type: a later element may mention an earlier one. -/
  | sigma (span : Span) (elems : List Ptrn)
  /-- A dependent function type. -/
  | pi (span : Span) (domain : Ptrn) (codomain : Expr)
  | lambda (span : Span) (domain : Ptrn) (codomain body : Expr)
  /-- A call; `cps` marks the continuation-passing form `f!(x)`. -/
  | app (span : Span) (callee arg : Expr) (cps : Bool)
  | field (span : Span) (value : Expr) (id : Id)
  | prefixed (span : Span) (op : PrefixOp) (operand : Expr)
  | postfixed (span : Span) (operand : Expr) (op : PostfixOp)
  | binary (span : Span) (left : Expr) (op : InfixOp) (right : Expr)
  /-- Statements and a value, which is the empty tuple unless written. -/
  | block (span : Span) (stmnts : List Stmnt) (value : Expr)
  | branch (span : Span) (cond yes no : Expr)
  | select (span : Span) (scrutinee : Expr) (arms : List Arm)
  | forLoop (span : Span) (ptrn : Ptrn) (iter body : Expr)
  | whileLoop (span : Span) (cond body : Expr)
  | pack (span : Span) (domain : Ptrn) (body : Expr)
  | variadic (span : Span) (domain : Ptrn) (body : Expr)
  | qualifier (span : Span) (value : Qualifier)
  | bottom (span : Span)
  /-- A type left open. -/
  | unknown (span : Span)
  | error (span : Span)

/-- A pattern. An ascription of a tuple applies to the tuple as a whole. Patterns of parameters are
`typed`: every name in them has to be covered by an ascription. -/
inductive Ptrn where
  | name (span : Span) (id : Id) (decl : DeclId) (ty : Option Expr) (typed : Bool)
  | tuple (span : Span) (elems : List Ptrn) (ty : Option Expr) (typed : Bool)
  | error (span : Span)

/-- An element of a tuple, with a name or without. -/
structure Elem where
  id : Option Id
  expr : Expr

/-- A case of a `match`. -/
structure Arm where
  span : Span
  ptrn : Ptrn
  body : Expr

inductive Stmnt where
  | expr (span : Span) (expr : Expr)
  | bind (span : Span) (ptrn : Ptrn) (init : Expr)
  | item (item : Item)

/-- A named declaration, with the value that emission gives it. -/
structure Item where
  span : Span
  id : Id
  expr : Expr
  decl : DeclId
  value : Slot Value

end

namespace Expr

instance : Inhabited Expr := ⟨error default⟩

def span : Expr → Span
  | name span .. => span
  | literal span .. => span
  | tuple span .. => span
  | sigma span .. => span
  | pi span .. => span
  | lambda span .. => span
  | app span .. => span
  | field span .. => span
  | prefixed span .. => span
  | postfixed span .. => span
  | binary span .. => span
  | block span .. => span
  | branch span .. => span
  | select span .. => span
  | forLoop span .. => span
  | whileLoop span .. => span
  | pack span .. => span
  | variadic span .. => span
  | qualifier span .. => span
  | bottom span => span
  | unknown span => span
  | error span => span

/-- The same expression at another span. -/
def withSpan (span : Span) : Expr → Expr
  | name _ id decl => name span id decl
  | literal _ value => literal span value
  | tuple _ elems => tuple span elems
  | sigma _ elems => sigma span elems
  | pi _ domain codomain => pi span domain codomain
  | lambda _ domain codomain body => lambda span domain codomain body
  | app _ callee arg cps => app span callee arg cps
  | field _ value id => field span value id
  | prefixed _ op operand => prefixed span op operand
  | postfixed _ operand op => postfixed span operand op
  | binary _ left op right => binary span left op right
  | block _ stmnts value => block span stmnts value
  | branch _ cond yes no => branch span cond yes no
  | select _ scrutinee arms => select span scrutinee arms
  | forLoop _ ptrn iter body => forLoop span ptrn iter body
  | whileLoop _ cond body => whileLoop span cond body
  | pack _ domain body => pack span domain body
  | variadic _ domain body => variadic span domain body
  | qualifier _ value => qualifier span value
  | bottom _ => bottom span
  | unknown _ => unknown span
  | error _ => error span

def emptyTuple (span : Span) : Expr := tuple span []

/-- A block without statements whose value is the empty tuple. -/
def emptyBlock (span : Span) : Expr := block span [] (emptyTuple span)

def isError : Expr → Bool
  | error _ => true
  | _ => false

/-- The empty tuple. -/
def isUnit : Expr → Bool
  | tuple _ [] => true
  | _ => false

/-- A block without statements and without a value of its own. -/
def isEmptyBlock : Expr → Bool
  | block _ [] value => value.isUnit
  | _ => false

/-- The forms that end in a block and need no semicolon to become statements. -/
def isStmntLike : Expr → Bool
  | block .. | branch .. | select .. | forLoop .. | whileLoop .. => true
  | _ => false

end Expr

namespace Ptrn

instance : Inhabited Ptrn := ⟨error default⟩

def span : Ptrn → Span
  | name span .. => span
  | tuple span .. => span
  | error span => span

/-- The ascription of a pattern. -/
def ty? : Ptrn → Option Expr
  | name _ _ _ ty _ => ty
  | tuple _ _ ty _ => ty
  | error _ => none

/-- Whether every name in the pattern has to be covered by an ascription. -/
def isTyped : Ptrn → Bool
  | name _ _ _ _ typed => typed
  | tuple _ _ _ typed => typed
  | error _ => false

def isError : Ptrn → Bool
  | error _ => true
  | _ => false

end Ptrn

namespace Stmnt

instance : Inhabited Stmnt := ⟨expr default default⟩

def span : Stmnt → Span
  | expr span _ => span
  | bind span _ _ => span
  | item it => it.span

end Stmnt

/-- A source unit. `bound` is set once its names have been resolved. -/
structure Module where
  span : Span
  file : FileId
  stmnts : List Stmnt
  decls : Decls
  bound : Bool
deriving Inhabited

namespace Module

/-- The items written directly in the module. -/
def items (module : Module) : List Item :=
  module.stmnts.filterMap fun
    | .item it => some it
    | _ => none

end Module

end ImpLang
