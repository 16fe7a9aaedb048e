import ImpLang.Proofs.Symbol
import ImpLang.Scope.Fault
import ImpLang.Tree.Basic

/-!
Name resolution. Modules, blocks, functions, function types, dependent tuples, packs, loops and the
arms of a match open scopes.

A scope of statements is bound in two passes: first all items written directly in it are declared,
so they see each other whatever their order, then the statements are visited one by one. The names
of a pattern are visible behind it. Every use of a name gets the declaration of the innermost scope
that has one, or a declaration made to stand for the missing one.
-/

namespace ImpLang

/-- The names declared in one scope, the latest first. -/
abbrev Scope := List (Symbol × DeclId)

/-- The open scopes, innermost first. -/
abbrev Scopes := List Scope

namespace Scopes

/-- The declaration that a name refers to. -/
def lookup (scopes : Scopes) (symbol : Symbol) : Option DeclId :=
  scopes.findSome? fun scope => scope.lookup symbol

/-- Declare a name in the innermost scope, where it hides an earlier one of the same name. -/
def declare (scopes : Scopes) (symbol : Symbol) (decl : DeclId) : Scopes :=
  match scopes with
  | [] => []
  | scope :: outer => ((symbol, decl) :: scope) :: outer

theorem lookup_declare (scope : Scope) (outer : Scopes) (symbol name : Symbol) (decl : DeclId) :
    lookup (declare (scope :: outer) symbol decl) name =
      if name = symbol then some decl else lookup (scope :: outer) name := by
  by_cases h : name = symbol
  · subst h; simp only [lookup, declare, List.findSome?_cons, List.lookup_cons_self, if_true]
  · have hne : (name == symbol) = false := by simpa using h
    simp only [lookup, declare, List.findSome?_cons, List.lookup_cons, hne, if_neg h]

end Scopes

/-- What stays fixed while a module is bound. -/
structure BindContext where
  names : Interner
  wildcard : Symbol
  /-- The module has been bound before, and what it lacks has been reported. -/
  rebinding : Bool

structure BindState where
  scopes : Scopes
  decls : Decls
  reports : Array Diagnostic

/-- A step of name resolution. -/
abbrev Binder := StateM BindState

namespace Binder

variable (context : BindContext)

def report (error : ScopeError) (span : Span) : Binder Unit :=
  modify fun s => { s with reports := s.reports.push (error.report span) }

/-- Run a step in a scope of its own. -/
def inScope {α : Type} (step : Binder α) : Binder α := do
  modify fun s => { s with scopes := [] :: s.scopes }
  let result ← step
  modify fun s => { s with scopes := s.scopes.tail }
  return result

/-- Make a declaration visible. The wildcard never is. -/
def declare (symbol : Symbol) (decl : DeclId) : Binder Unit :=
  if symbol = context.wildcard then return ()
  else modify fun s => { s with scopes := s.scopes.declare symbol decl }

/-- Report a name without declaration and record one in its place. -/
def placeholder (id : Id) : Binder DeclId := do
  report (.undeclared (context.names.name id.symbol)) id.span
  modifyGet fun s =>
    let (decl, decls) := s.decls.push ⟨id.symbol, id.span, .error⟩
    (decl, { s with decls := decls })

/-- The declaration of a name. One that was missing before and still is keeps its placeholder. -/
def target (id : Id) (slot : Slot DeclId) : Binder DeclId := do
  let s ← get
  match s.scopes.lookup id.symbol with
  | some decl => return decl
  | none =>
    match slot.get? with
    | some decl => if s.decls.isError decl then return decl else placeholder context id
    | none => placeholder context id

/-- Annotate the use of a name. -/
def resolve (id : Id) (slot : Slot DeclId) : Binder (Slot DeclId) := do
  let decl ← target context id slot
  match slot.set decl with
  | .ok slot => return slot
  | .error _ =>
    report (.rebound (context.names.name id.symbol)) id.span
    return slot

/-- Declare the items written directly in a list of statements. -/
def declareItems : List Stmnt → Binder Unit
  | [] => return ()
  | .item item :: stmnts => do
    declare context item.id.symbol item.decl
    declareItems stmnts
  | _ :: stmnts => declareItems stmnts

mutual

def bindExpr : Expr → Binder Expr
  | .name span id slot => return .name span id (← resolve context id slot)
  | .literal span value => return .literal span value
  | .tuple span elems => return .tuple span (← bindElems elems)
  | .sigma span elems => inScope do return .sigma span (← bindPtrns false elems)
  | .pi span domain codomain => inScope do
    let domain ← bindPtrn false domain
    let codomain ← bindExpr codomain
    return .pi span domain codomain
  | .lambda span domain codomain body => inScope do
    let domain ← bindPtrn false domain
    let codomain ← bindExpr codomain
    let body ← bindExpr body
    return .lambda span domain codomain body
  | .app span callee arg cps => do
    let callee ← bindExpr callee
    let arg ← bindExpr arg
    return .app span callee arg cps
  | .field span value id => return .field span (← bindExpr value) id
  | .prefixed span op operand => return .prefixed span op (← bindExpr operand)
  | .postfixed span operand op => return .postfixed span (← bindExpr operand) op
  | .binary span left op right => do
    let left ← bindExpr left
    let right ← bindExpr right
    return .binary span left op right
  | .block span stmnts value => inScope do
    declareItems context stmnts
    let stmnts ← bindStmnts stmnts
    let value ← bindExpr value
    return .block span stmnts value
  | .branch span cond yes no => do
    let cond ← bindExpr cond
    let yes ← bindExpr yes
    let no ← bindExpr no
    return .branch span cond yes no
  | .select span scrutinee arms => do
    let scrutinee ← bindExpr scrutinee
    let arms ← bindArms arms
    return .select span scrutinee arms
  | .forLoop span ptrn iter body => do
    let iter ← bindExpr iter
    inScope do
      let ptrn ← bindPtrn false ptrn
      let body ← bindExpr body
      return .forLoop span ptrn iter body
  | .whileLoop span cond body => do
    let cond ← bindExpr cond
    let body ← bindExpr body
    return .whileLoop span cond body
  | .pack span domain body => inScope do
    let domain ← bindPtrn false domain
    let body ← bindExpr body
    return .pack span domain body
  | .variadic span domain body => inScope do
    let domain ← bindPtrn false domain
    let body ← bindExpr body
    return .variadic span domain body
  | .qualifier span value => return .qualifier span value
  | .bottom span => return .bottom span
  | .unknown span => return .unknown span
  | .error span => return .error span

def bindExpr? : Option Expr → Binder (Option Expr)
  | none => return none
  | some expr => return some (← bindExpr expr)

/-- A pattern is `covered` if a tuple around it has an ascription. -/
def bindPtrn (covered : Bool) : Ptrn → Binder Ptrn
  | .name span id decl ty typed => do
    let ty ← bindExpr? ty
    if typed && !(covered || ty.isSome) && !context.rebinding then
      report (.untyped (context.names.name id.symbol)) span
    declare context id.symbol decl
    return .name span id decl ty typed
  | .tuple span elems ty typed => do
    let ty ← bindExpr? ty
    let elems ← bindPtrns (covered || ty.isSome) elems
    return .tuple span elems ty typed
  | .error span => return .error span

def bindPtrns (covered : Bool) : List Ptrn → Binder (List Ptrn)
  | [] => return []
  | ptrn :: ptrns => do
    let ptrn ← bindPtrn covered ptrn
    let ptrns ← bindPtrns covered ptrns
    return ptrn :: ptrns

def bindElems : List Elem → Binder (List Elem)
  | [] => return []
  | ⟨id, expr⟩ :: elems => do
    let expr ← bindExpr expr
    let elems ← bindElems elems
    return ⟨id, expr⟩ :: elems

def bindArms : List Arm → Binder (List Arm)
  | [] => return []
  | ⟨span, ptrn, body⟩ :: arms => do
    let arm ← inScope do
      let ptrn ← bindPtrn false ptrn
      let body ← bindExpr body
      return Arm.mk span ptrn body
    let arms ← bindArms arms
    return arm :: arms

/-- The initial value of a `let` does not see the names it is bound to. -/
def bindStmnt : Stmnt → Binder Stmnt
  | .expr span expr => return .expr span (← bindExpr expr)
  | .bind span ptrn init => do
    let init ← bindExpr init
    let ptrn ← bindPtrn false ptrn
    return .bind span ptrn init
  | .item ⟨span, id, expr, decl, value⟩ => do
    let expr ← bindExpr expr
    return .item ⟨span, id, expr, decl, value⟩

def bindStmnts : List Stmnt → Binder (List Stmnt)
  | [] => return []
  | stmnt :: stmnts => do
    let stmnt ← bindStmnt stmnt
    let stmnts ← bindStmnts stmnts
    return stmnt :: stmnts

end

/-- Bind the statements of a module in a scope of their own. -/
def bindModule (stmnts : List Stmnt) : Binder (List Stmnt) := inScope do
  declareItems context stmnts
  bindStmnts context stmnts

end Binder

/-- What name resolution leaves. -/
structure Bound where
  module : Module
  names : Interner
  reports : Array Diagnostic

/-- Resolve every name in a module. Doing so again writes the same annotations and makes no new
declarations. -/
def Module.resolveNames (names : Interner) (module : Module) : Bound :=
  let (wildcard, names) := names.intern Interner.wildcard
  let context : BindContext := ⟨names, wildcard, module.bound⟩
  let (stmnts, s) := (Binder.bindModule context module.stmnts).run ⟨[], module.decls, #[]⟩
  { module := { module with stmnts := stmnts, decls := s.decls, bound := true }
    names := names
    reports := s.reports }

/-- Resolving names numbers texts only. -/
theorem Module.names_resolveNames (module : Module) (names : Interner) :
    names ≤ (module.resolveNames names).names := names.le_intern Interner.wildcard

end ImpLang
