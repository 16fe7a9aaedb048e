import ImpLang.Tree.Basic

/-!
All nodes of a tree in the order of the source, parents before their children.
-/

namespace ImpLang

/-- A node of any family. -/
inductive Node where
  | stmnt (stmnt : Stmnt)
  | item (item : Item)
  | expr (expr : Expr)
  | ptrn (ptrn : Ptrn)

namespace Node

def span : Node → Span
  | stmnt s => s.span
  | item i => i.span
  | expr e => e.span
  | ptrn p => p.span

def isError : Node → Bool
  | expr e => e.isError
  | ptrn p => p.isError
  | stmnt _ => false
  | item _ => false

end Node

mutual

def Expr.nodes (expr : Expr) : List Node :=
  .expr expr ::
    match expr with
    | .tuple _ elems => Elem.nodesOf elems
    | .sigma _ elems => Ptrn.nodesOf elems
    | .pi _ domain codomain => domain.nodes ++ codomain.nodes
    | .lambda _ domain codomain body => domain.nodes ++ codomain.nodes ++ body.nodes
    | .app _ callee arg _ => callee.nodes ++ arg.nodes
    | .field _ value _ => value.nodes
    | .prefixed _ _ operand => operand.nodes
    | .postfixed _ operand _ => operand.nodes
    | .binary _ left _ right => left.nodes ++ right.nodes
    | .block _ stmnts value => Stmnt.nodesOf stmnts ++ value.nodes
    | .branch _ cond yes no => cond.nodes ++ yes.nodes ++ no.nodes
    | .select _ scrutinee arms => scrutinee.nodes ++ Arm.nodesOf arms
    | .forLoop _ ptrn iter body => ptrn.nodes ++ iter.nodes ++ body.nodes
    | .whileLoop _ cond body => cond.nodes ++ body.nodes
    | .pack _ domain body => domain.nodes ++ body.nodes
    | .variadic _ domain body => domain.nodes ++ body.nodes
    | .name .. | .literal .. | .qualifier .. | .bottom _ | .unknown _ | .error _ => []

def Expr.nodesOf? : Option Expr → List Node
  | none => []
  | some expr => expr.nodes

def Ptrn.nodes (ptrn : Ptrn) : List Node :=
  .ptrn ptrn ::
    match ptrn with
    | .name _ _ _ ty _ => Expr.nodesOf? ty
    | .tuple _ elems ty _ => Expr.nodesOf? ty ++ Ptrn.nodesOf elems
    | .error _ => []

def Ptrn.nodesOf : List Ptrn → List Node
  | [] => []
  | ptrn :: ptrns => ptrn.nodes ++ Ptrn.nodesOf ptrns

def Elem.nodesOf : List Elem → List Node
  | [] => []
  | ⟨_, expr⟩ :: elems => expr.nodes ++ Elem.nodesOf elems

def Arm.nodesOf : List Arm → List Node
  | [] => []
  | ⟨_, ptrn, body⟩ :: arms => ptrn.nodes ++ body.nodes ++ Arm.nodesOf arms

def Stmnt.nodes (stmnt : Stmnt) : List Node :=
  .stmnt stmnt ::
    match stmnt with
    | .expr _ expr => expr.nodes
    | .bind _ ptrn init => ptrn.nodes ++ init.nodes
    | .item ⟨span, id, expr, decl, value⟩ => .item ⟨span, id, expr, decl, value⟩ :: expr.nodes

def Stmnt.nodesOf : List Stmnt → List Node
  | [] => []
  | stmnt :: stmnts => stmnt.nodes ++ Stmnt.nodesOf stmnts

end

/-- The nodes of a module. -/
def Module.walk (module : Module) : List Node := Stmnt.nodesOf module.stmnts

end ImpLang
