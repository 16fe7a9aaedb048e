import ImpLang.Scope.Binder

/-!
Lexical scoping, as a judgement on annotated trees. An environment goes down the tree, one frame for
each scope around a place, and every use of a name has to carry the declaration that the environment
has for it there, or one that stands for a missing declaration if the environment has none.

Nothing is threaded through the tree: what a place sees is a function of what stands around it.
-/

namespace ImpLang

/-- What the names of one scope stand for. -/
abbrev Frame := Symbol → Option DeclId

def Frame.empty : Frame := fun _ => none

/-- The frames around a place, innermost first. -/
abbrev Env := List Frame

namespace Env

/-- The innermost frame that has a name decides. -/
def lookup (env : Env) (name : Symbol) : Option DeclId := env.findSome? fun frame => frame name

/-- A new frame, in which nothing is bound yet. -/
def inner (env : Env) : Env := Frame.empty :: env

variable (wildcard : Symbol)

/-- The environment behind the place where a name is bound. The wildcard is never bound. -/
def bind (env : Env) (name : Symbol) (decl : DeclId) : Env :=
  match env with
  | [] => []
  | frame :: outer =>
    if name = wildcard then frame :: outer
    else (fun other => if other = name then some decl else frame other) :: outer

mutual

/-- The environment behind a pattern, whose names are bound from left to right. -/
def bindPtrn (env : Env) : Ptrn → Env
  | .name _ id decl _ _ => env.bind wildcard id.symbol decl
  | .tuple _ elems _ _ => bindPtrns env elems
  | .error _ => env

def bindPtrns (env : Env) : List Ptrn → Env
  | [] => env
  | ptrn :: ptrns => bindPtrns (bindPtrn env ptrn) ptrns

end

/-- The environment behind a statement: only a `let` binds names there. -/
def bindStmnt (env : Env) : Stmnt → Env
  | .bind _ ptrn _ => env.bindPtrn wildcard ptrn
  | .expr .. | .item _ => env

def bindStmnts (env : Env) (stmnts : List Stmnt) : Env := stmnts.foldl (bindStmnt wildcard) env

end Env

/-- The items written directly in a list of statements. -/
def Stmnt.items (stmnts : List Stmnt) : List Item :=
  stmnts.filterMap fun
    | .item it => some it
    | _ => none

/-- The frame that a list of statements begins with: it has all their items, of several with one
name the last. -/
def Frame.ofItems (wildcard : Symbol) (stmnts : List Stmnt) : Frame := fun name =>
  if name = wildcard then none
  else ((Stmnt.items stmnts).reverse.find? fun item => item.id.symbol == name).map Item.decl

/-- Whether the use of a name carries what an environment has for it: that declaration, or one
that stands for a missing declaration. -/
def Slot.Chosen (decls : Decls) (slot : Slot DeclId) : Option DeclId → Prop
  | some decl => slot.get? = some decl
  | none => ∃ decl, slot.get? = some decl ∧ decls.isError decl = true

variable (wildcard : Symbol) (decls : Decls)

mutual

def Expr.Scoped (env : Env) : Expr → Prop
  | .name _ id slot => slot.Chosen decls (env.lookup id.symbol)
  | .literal .. | .qualifier .. | .bottom _ | .unknown _ | .error _ => True
  | .tuple _ elems => Elem.ScopedList env elems
  | .sigma _ elems => Ptrn.ScopedList env.inner elems
  | .pi _ domain codomain =>
    domain.Scoped env.inner ∧ codomain.Scoped (env.inner.bindPtrn wildcard domain)
  | .lambda _ domain codomain body =>
    let inner := env.inner.bindPtrn wildcard domain
    domain.Scoped env.inner ∧ codomain.Scoped inner ∧ body.Scoped inner
  | .app _ callee arg _ => callee.Scoped env ∧ arg.Scoped env
  | .field _ value _ => value.Scoped env
  | .prefixed _ _ operand => operand.Scoped env
  | .postfixed _ operand _ => operand.Scoped env
  | .binary _ left _ right => left.Scoped env ∧ right.Scoped env
  | .block _ stmnts value =>
    let inner : Env := .ofItems wildcard stmnts :: env
    Stmnt.ScopedList inner stmnts ∧ value.Scoped (inner.bindStmnts wildcard stmnts)
  | .branch _ cond yes no => cond.Scoped env ∧ yes.Scoped env ∧ no.Scoped env
  | .select _ scrutinee arms => scrutinee.Scoped env ∧ Arm.ScopedList env arms
  | .forLoop _ ptrn iter body =>
    iter.Scoped env ∧ ptrn.Scoped env.inner ∧
      body.Scoped (env.inner.bindPtrn wildcard ptrn)
  | .whileLoop _ cond body => cond.Scoped env ∧ body.Scoped env
  | .pack _ domain body =>
    domain.Scoped env.inner ∧ body.Scoped (env.inner.bindPtrn wildcard domain)
  | .variadic _ domain body =>
    domain.Scoped env.inner ∧ body.Scoped (env.inner.bindPtrn wildcard domain)

def Expr.Scoped? (env : Env) : Option Expr → Prop
  | none => True
  | some expr => expr.Scoped env

/-- The ascription of a pattern sees none of the pattern's names; an element of a tuple sees the
names of the elements in front of it. -/
def Ptrn.Scoped (env : Env) : Ptrn → Prop
  | .name _ _ _ ty _ => Expr.Scoped? env ty
  | .tuple _ elems ty _ => Expr.Scoped? env ty ∧ Ptrn.ScopedList env elems
  | .error _ => True

def Ptrn.ScopedList (env : Env) : List Ptrn → Prop
  | [] => True
  | ptrn :: ptrns => ptrn.Scoped env ∧ Ptrn.ScopedList (env.bindPtrn wildcard ptrn) ptrns

def Elem.ScopedList (env : Env) : List Elem → Prop
  | [] => True
  | ⟨_, expr⟩ :: elems => expr.Scoped env ∧ Elem.ScopedList env elems

/-- Every arm has a frame of its own. -/
def Arm.ScopedList (env : Env) : List Arm → Prop
  | [] => True
  | ⟨_, ptrn, body⟩ :: arms =>
    ptrn.Scoped env.inner ∧ body.Scoped (env.inner.bindPtrn wildcard ptrn) ∧
      Arm.ScopedList env arms

/-- The initial value of a `let` and the ascription of its pattern see what stands in front of the
`let`. -/
def Stmnt.Scoped (env : Env) : Stmnt → Prop
  | .expr _ expr => expr.Scoped env
  | .bind _ ptrn init => init.Scoped env ∧ ptrn.Scoped env
  | .item ⟨_, _, expr, _, _⟩ => expr.Scoped env

def Stmnt.ScopedList (env : Env) : List Stmnt → Prop
  | [] => True
  | stmnt :: stmnts => stmnt.Scoped env ∧ Stmnt.ScopedList (env.bindStmnt wildcard stmnt) stmnts

end

/-- A module is a scope of its own, with nothing around it. -/
def Module.Scoped (module : Module) : Prop :=
  Stmnt.ScopedList wildcard module.decls [.ofItems wildcard module.stmnts] module.stmnts

end ImpLang
