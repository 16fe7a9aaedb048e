import ImpLang.Proofs.Parser.Grammar
import Mathlib.Logic.Relation

/-!
Where the parts of a tree stand in its source. A part that is written covers whole tokens. Some
nodes stand for what a source leaves out; they are empty and stand directly behind a token.
-/

namespace ImpLang

/-- A part of a tree that has a span. -/
inductive Part where
  | module (module : Module)
  | stmnt (stmnt : Stmnt)
  | item (item : Item)
  | expr (expr : Expr)
  | ptrn (ptrn : Ptrn)
  | arm (arm : Arm)

/-- The parts directly below an expression, as they are written. -/
def Expr.parts : Expr → List Part
  | .tuple _ elems => elems.map fun elem => .expr elem.expr
  | .sigma _ elems => elems.map .ptrn
  | .pi _ domain codomain => [.ptrn domain, .expr codomain]
  | .lambda _ domain codomain body => [.ptrn domain, .expr codomain, .expr body]
  | .app _ callee arg _ => [.expr callee, .expr arg]
  | .field _ value _ => [.expr value]
  | .prefixed _ _ operand => [.expr operand]
  | .postfixed _ operand _ => [.expr operand]
  | .binary _ left _ right => [.expr left, .expr right]
  | .block _ stmnts value => stmnts.map .stmnt ++ [.expr value]
  | .branch _ cond yes no => [.expr cond, .expr yes, .expr no]
  | .select _ scrutinee arms => .expr scrutinee :: arms.map .arm
  | .forLoop _ ptrn iter body => [.ptrn ptrn, .expr iter, .expr body]
  | .whileLoop _ cond body => [.expr cond, .expr body]
  | .pack _ domain body => [.ptrn domain, .expr body]
  | .variadic _ domain body => [.ptrn domain, .expr body]
  | .name .. | .literal .. | .qualifier .. | .bottom _ | .unknown _ | .error _ => []

/-- The parts directly below a pattern, its ascription last. -/
def Ptrn.parts : Ptrn → List Part
  | .name _ _ _ ty _ => ty.toList.map .expr
  | .tuple _ elems ty _ => elems.map .ptrn ++ ty.toList.map .expr
  | .error _ => []

def Stmnt.parts : Stmnt → List Part
  | .expr _ e => [.expr e]
  | .bind _ ptrn init => [.ptrn ptrn, .expr init]
  | .item it => [.item it]

namespace Part

def span : Part → Span
  | module m => m.span
  | stmnt s => s.span
  | item it => it.span
  | expr e => e.span
  | ptrn p => p.span
  | arm a => a.span

/-- The parts directly below a part, in the order of the source. -/
def children : Part → List Part
  | module m => m.stmnts.map .stmnt
  | stmnt s => s.parts
  | item it => [.expr it.expr]
  | expr e => e.parts
  | ptrn p => p.parts
  | arm a => [.ptrn a.ptrn, .expr a.body]

/-- A part of a tree at any depth, the tree itself included. -/
def Has (tree part : Part) : Prop := Relation.ReflTransGen (fun a b => b ∈ a.children) tree part

end Part

variable (tokens : List Token)

/-- A span from the start of a token to the end of one, with whole tokens between. -/
def Span.Whole (s : Span) : Prop := ∃ ts, ts <:+: tokens ∧ Placement.exact.covers s ts

/-- An empty span behind another one, where a token ends. -/
structure Span.Behind (front s : Span) : Prop where
  start : s.start = front.stop
  stop : s.stop = front.stop
  token : ∃ token ∈ tokens, token.span.stop = front.stop

/-- The child of a part that the source leaves out: the alternative of a branch and its value, the
result type of a function, and the result of a continuation. -/
inductive Part.Implied : Part → Part → Prop
  | alternative {span s : Span} {cond yes : Expr} (h : yes.span.Behind tokens s) :
      Implied (.expr (.branch span cond yes (.emptyBlock s))) (.expr (.emptyBlock s))
  | alternativeValue {s : Span} (h : s.Behind tokens s) :
      Implied (.expr (.emptyBlock s)) (.expr (.emptyTuple s))
  | codomain {span s : Span} {domain : Ptrn} {body : Expr} (h : domain.span.Behind tokens s) :
      Implied (.expr (.lambda span domain (.unknown s) body)) (.expr (.unknown s))
  | bottom {span s : Span} {domain : Ptrn} (h : domain.span.Behind tokens s) :
      Implied (.expr (.pi span domain (.bottom s))) (.expr (.bottom s))

/-- The tokens of a block, perhaps in parentheses, and where its value stands: between the braces if
it is written, and otherwise on the closing brace. -/
def Expr.Braced (ts : List Token) (value : Expr) : Prop :=
  ∃ lefts inner rights opens closes, ts = lefts ++ opens :: (inner ++ closes :: rights) ∧
    (∀ token ∈ lefts, token.kind = .lParen) ∧ opens.kind = .lBrace ∧ closes.kind = .rBrace ∧
    (∀ token ∈ rights, token.kind = .rParen) ∧
    (value.span.Whole inner ∨
      ∃ s, value = .emptyTuple s ∧ Placement.exact.covers s [closes])

/-- How a part stands: around its children, which are in order and apart, and each of which covers
whole tokens unless the source leaves it out. A block that is written has its value in its braces or
on the closing one. -/
structure Part.Placed (part : Part) : Prop where
  within : ∀ child ∈ part.children, part.span.start.offset ≤ child.span.start.offset ∧
    child.span.start.offset ≤ child.span.stop.offset ∧
    child.span.stop.offset ≤ part.span.stop.offset
  ordered : part.children.Pairwise fun a b => a.span.stop.offset ≤ b.span.start.offset
  written : ∀ child ∈ part.children, child.span.Whole tokens ∨ part.Implied tokens child
  braced : ∀ span stmnts value, part = .expr (.block span stmnts value) →
    span.start.offset < span.stop.offset →
    ∃ ts, ts <:+: tokens ∧ Placement.exact.covers span ts ∧ Expr.Braced ts value

/-- A tree whose parts are all placed. -/
def Part.Laid (tree : Part) : Prop := ∀ part, tree.Has part → part.Placed tokens

section Mono

variable {tokens} {tokens' : List Token} (h : tokens <:+: tokens')

include h

theorem Span.Whole.mono {s : Span} (hs : s.Whole tokens) : s.Whole tokens' := by
  obtain ⟨ts, hts, hcovers⟩ := hs
  exact ⟨ts, hts.trans h, hcovers⟩

theorem Span.Behind.mono {front s : Span} (hs : front.Behind tokens s) : front.Behind tokens' s := by
  obtain ⟨token, htoken, hstop⟩ := hs.token
  exact ⟨hs.start, hs.stop, token, h.subset htoken, hstop⟩

namespace Part

theorem Implied.mono {part child : Part} (hp : part.Implied tokens child) :
    part.Implied tokens' child := by
  cases hp with
  | alternative hs => exact .alternative (hs.mono h)
  | alternativeValue hs => exact .alternativeValue (hs.mono h)
  | codomain hs => exact .codomain (hs.mono h)
  | bottom hs => exact .bottom (hs.mono h)

theorem Placed.mono {part : Part} (hp : part.Placed tokens) : part.Placed tokens' where
  within := hp.within
  ordered := hp.ordered
  written child hchild :=
    (hp.written child hchild).imp (Span.Whole.mono h) (Implied.mono h)
  braced span stmnts value hpart hspan := by
    obtain ⟨ts, hts, hcovers, hbraced⟩ := hp.braced span stmnts value hpart hspan
    exact ⟨ts, hts.trans h, hcovers, hbraced⟩

theorem Laid.mono {tree : Part} (ht : tree.Laid tokens) : tree.Laid tokens' :=
  fun part hpart => (ht part hpart).mono h

end Part

end Mono

variable {tokens}

/-- A tree is laid from its root down. -/
theorem Part.Placed.laid {tree : Part} (h : tree.Placed tokens)
    (hchildren : ∀ child ∈ tree.children, child.Laid tokens) : tree.Laid tokens := by
  intro part hpart
  rcases hpart.cases_head with rfl | ⟨child, hchild, hpart⟩
  · exact h
  · exact hchildren child hchild part hpart

theorem Part.Laid.child {tree child : Part} (h : tree.Laid tokens) (hchild : child ∈ tree.children) :
    child.Laid tokens := fun part hpart => h part (.head hchild hpart)

theorem Part.Laid.root {tree : Part} (h : tree.Laid tokens) : tree.Placed tokens := h tree .refl

theorem Expr.parts_withSpan (span : Span) (e : Expr) : (e.withSpan span).parts = e.parts := by
  cases e <;> rfl

end ImpLang
