import ImpLang.Proofs.Parser.Grammar
import ImpLang.Tree.Walk

/-!
The grammar derives no error nodes.
-/

namespace ImpLang

/-- All nodes of the trees in a phrase. -/
def Phrase.nodes : Phrase → List Node
  | .expr _ _ e | .operand _ e | .parens e | .codomain _ e | .block e | .branch e | .otherwise _ e
  | .form e | .stmntExpr e => e.nodes
  | .elems es _ => Elem.nodesOf es
  | .elem e => e.expr.nodes
  | .sigmaElems ps | .ptrns _ ps => Ptrn.nodesOf ps
  | .sigmaElem p | .ptrn _ _ p => p.nodes
  | .ascription _ ty => Expr.nodesOf? ty
  | .function d c b => d.nodes ++ c.nodes ++ b.nodes
  | .body _ ss value => Stmnt.nodesOf ss ++ value.nodes
  | .arms as => Arm.nodesOf as
  | .binding s => s.nodes
  | .stmnts ss => Stmnt.nodesOf ss

/-- With another span an expression has the same nodes below it. -/
theorem Expr.nodes_withSpan (span : Span) (e : Expr) :
    (e.withSpan span).nodes = .expr (e.withSpan span) :: e.nodes.tail := by
  cases e <;> simp [withSpan, nodes]

theorem Expr.isError_withSpan (span : Span) (e : Expr) :
    (e.withSpan span).isError = e.isError := by
  cases e <;> rfl

theorem Expr.mem_nodes (e : Expr) : .expr e ∈ e.nodes := by
  cases e <;> simp [nodes]

theorem Elem.nodesOf_cons (e : Elem) (es : List Elem) :
    Elem.nodesOf (e :: es) = e.expr.nodes ++ Elem.nodesOf es := by
  cases e
  simp only [Elem.nodesOf]

/-- There are no error nodes. -/
def Node.Faultless (nodes : List Node) : Prop := ∀ node ∈ nodes, node.isError = false

namespace Node

theorem faultless_nil : Faultless [] := by simp [Faultless]

theorem faultless_cons {node : Node} {nodes : List Node} :
    Faultless (node :: nodes) ↔ node.isError = false ∧ Faultless nodes := by
  simp [Faultless]

theorem faultless_append {nodes nodes' : List Node} :
    Faultless (nodes ++ nodes') ↔ Faultless nodes ∧ Faultless nodes' := by
  simp [Faultless, or_imp, forall_and]

end Node

theorem Derives.faultless {names : Interner} {place : Placement} {phrase : Phrase}
    {ts : List Token} (h : Derives names place phrase ts) : Node.Faultless phrase.nodes := by
  induction h
  case grouped span e t u ts opens elems closes extent ih =>
    simp only [Phrase.nodes, Elem.nodesOf, List.append_nil] at ih ⊢
    rw [Expr.nodes_withSpan, Node.faultless_cons]
    refine ⟨?_, fun node hnode => ih node (List.mem_of_mem_tail hnode)⟩
    have hroot := ih _ e.mem_nodes
    rwa [Node.isError, ← Expr.isError_withSpan span] at hroot
  all_goals
    simp only [Phrase.nodes, Expr.nodes, Expr.nodesOf?, Ptrn.nodes, Ptrn.nodesOf, Elem.nodesOf,
      Elem.nodesOf_cons, Arm.nodesOf, Stmnt.nodes, Stmnt.nodesOf, Expr.emptyTuple,
      Expr.emptyBlock, Node.faultless_nil, Node.faultless_cons, Node.faultless_append,
      Node.isError, Expr.isError, Ptrn.isError, true_and, and_true, and_self] at *
    try simp only [*, and_self]

end ImpLang
