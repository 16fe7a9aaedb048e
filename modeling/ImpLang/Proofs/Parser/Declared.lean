import ImpLang.Proofs.Parser.Faultless
import ImpLang.Proofs.Parser.Isolation
import Mathlib.Algebra.Order.Group.Multiset
import Mathlib.Tactic.Abel

/-!
A parser loses no declaration and shares none. The account of a run is balanced: the declarations it
makes are those that its tree introduces, each in one place, with the ones it was handed. Nothing is
said of the tokens, so this holds whatever is wrong with a source.
-/

namespace ImpLang

/-- The declaration that a node introduces, with the entry that it is to have. -/
def Node.introduces : Node → Option (DeclId × Decl)
  | .ptrn (.name _ id decl _ _) => some (decl, ⟨id.symbol, id.span, .binding⟩)
  | .item it => some (it.decl, ⟨it.id.symbol, it.id.span, .item⟩)
  | .ptrn (.tuple ..) | .ptrn (.error _) | .expr _ | .stmnt _ => none

/-- The declarations with their indices. -/
def Decls.entries (decls : Decls) : List (DeclId × Decl) :=
  decls.toList.zipIdx.map fun (decl, i) => (⟨i⟩, decl)

namespace Decls

variable (decls : Decls)

theorem entries_push (decl : Decl) :
    (decls.push decl).2.entries = decls.entries ++ [((decls.push decl).1, decl)] := by
  simp [entries, push, toList, List.zipIdx_append]

theorem map_fst_entries : decls.entries.map Prod.fst = (List.range decls.size).map DeclId.mk := by
  have hindices : decls.toArray.toList.zipIdx.map Prod.snd = List.range decls.size := by
    rw [List.zipIdx_map_snd, List.range_eq_range', size, Array.length_toList]
  rw [← hindices, entries, List.map_map, List.map_map]
  rfl

variable {decls}

theorem mem_entries {id : DeclId} {decl : Decl} :
    (id, decl) ∈ decls.entries ↔ decls.get? id = some decl := by
  obtain ⟨i⟩ := id
  simp [entries, get?, toList, List.mem_zipIdx_iff_getElem?]

end Decls

/-- All that some nodes introduce. -/
def Node.declared (nodes : List Node) : Multiset (DeclId × Decl) := nodes.filterMap introduces

namespace Node

@[simp] theorem declared_nil : declared [] = 0 := rfl

@[simp] theorem declared_append (nodes more : List Node) :
    declared (nodes ++ more) = declared nodes + declared more := by
  simp [declared]

@[simp] theorem declared_expr (expr : Expr) (nodes : List Node) :
    declared (.expr expr :: nodes) = declared nodes := rfl

@[simp] theorem declared_stmnt (stmnt : Stmnt) (nodes : List Node) :
    declared (.stmnt stmnt :: nodes) = declared nodes := rfl

@[simp] theorem declared_item (it : Item) (nodes : List Node) :
    declared (.item it :: nodes) =
      {(it.decl, ⟨it.id.symbol, it.id.span, .item⟩)} + declared nodes := rfl

@[simp] theorem declared_ptrn_name (span : Span) (id : Id) (decl : DeclId) (ty : Option Expr)
    (typed : Bool) (nodes : List Node) :
    declared (.ptrn (.name span id decl ty typed) :: nodes) =
      {(decl, ⟨id.symbol, id.span, .binding⟩)} + declared nodes := rfl

@[simp] theorem declared_ptrn_tuple (span : Span) (elems : List Ptrn) (ty : Option Expr)
    (typed : Bool) (nodes : List Node) :
    declared (.ptrn (.tuple span elems ty typed) :: nodes) = declared nodes := rfl

@[simp] theorem declared_ptrn_error (span : Span) (nodes : List Node) :
    declared (.ptrn (.error span) :: nodes) = declared nodes := rfl

/-- A span declares nothing. -/
theorem declared_withSpan (span : Span) (e : Expr) :
    declared (e.withSpan span).nodes = declared e.nodes := by
  rw [Expr.nodes_withSpan, declared_expr]
  cases e <;> simp [Expr.nodes]

end Node

namespace Parser

/-! ## Moves that declare nothing -/

/-- The declarations are the same. -/
def Lasting.decls : Lasting where
  rel s t := t.decls = s.decls
  refl _ := rfl
  trans h h' := h'.trans h
  bump := State.decls_bump
  complain s expected construct := s.complain_decls expected construct
  intern _ _ := rfl

abbrev KeepsDecls {α : Type} (m : Parser α) : Prop := Leads .decls m

theorem KeepsDecls.decls {α : Type} {m : Parser α} (h : KeepsDecls m) {s t : State} {a : α}
    (hrun : m s = some (a, t)) : t.decls = s.decls := h.related s a t hrun

/-! ## Balanced runs -/

/-- A run is handed declarations that stand nowhere yet, and makes some. What it leaves in its result
is what it was handed and what it made. -/
def Balances {α : Type} (hand : Multiset (DeclId × Decl)) (m : Parser α)
    (p : α → Multiset (DeclId × Decl) → Prop) : Prop :=
  ∀ s a t, m s = some (a, t) →
    ∃ placed, p a placed ∧ placed + s.decls.entries = hand + t.decls.entries

/-- The nodes of a result introduce exactly the declarations that are to be placed. -/
def Places {α : Type} (nodes : α → List Node) (a : α) (placed : Multiset (DeclId × Decl)) : Prop :=
  Node.declared (nodes a) = placed

/-- A round of a loop places its declarations in the result, or in front of those of the rounds
behind it. -/
inductive Turn.Places {α : Type} (nodes : α → List Node) :
    Turn α → Multiset (DeclId × Decl) → Prop
  | leave {a : α} {placed : Multiset (DeclId × Decl)} (h : Node.declared (nodes a) = placed) :
    Turn.Places nodes (.leave a) placed
  | goOn {wrap : α → α} {placed : Multiset (DeclId × Decl)}
    (h : ∀ a, Node.declared (nodes (wrap a)) = placed + Node.declared (nodes a)) :
    Turn.Places nodes (.goOn wrap) placed

namespace Balances

variable {α β : Type} {hand : Multiset (DeclId × Decl)} {m : Parser α} {f : α → Parser β}
  {p : α → Multiset (DeclId × Decl) → Prop} {q : β → Multiset (DeclId × Decl) → Prop}

theorem pure {a : α} (h : p a hand) : Balances hand (pure a) p := by
  intro s b t hrun
  cases hrun
  exact ⟨hand, h, rfl⟩

theorem failure : Balances hand failure p := by
  intro s a t hrun
  cases hrun

theorem bind (hm : Balances hand m p) (hf : ∀ a placed, p a placed → Balances placed (f a) q) :
    Balances hand (m >>= f) q := by
  intro s b u hrun
  obtain ⟨⟨a, t⟩, ha, hb⟩ := Option.bind_eq_some_iff.1 hrun
  obtain ⟨placed, hp, hfirst⟩ := hm s a t ha
  obtain ⟨more, hq, hsecond⟩ := hf a placed hp t b u hb
  refine ⟨more, hq, ?_⟩
  -- The declarations of the state in between stand on both sides.
  have hsum : more + s.decls.entries + t.decls.entries =
      hand + u.decls.entries + t.decls.entries := by
    calc more + s.decls.entries + t.decls.entries
        = (more + t.decls.entries) + s.decls.entries := by abel
      _ = (placed + s.decls.entries) + u.decls.entries := by rw [hsecond]; abel
      _ = hand + u.decls.entries + t.decls.entries := by rw [hfirst]; abel
  exact add_right_cancel hsum

/-- Declarations that a parser does not touch stay at hand. -/
theorem frame (hm : Balances 0 m p) (hand : Multiset (DeclId × Decl)) :
    Balances hand m fun a placed => ∃ own, p a own ∧ placed = hand + own := by
  intro s a t hrun
  obtain ⟨own, hp, heq⟩ := hm s a t hrun
  refine ⟨hand + own, ⟨own, hp, rfl⟩, ?_⟩
  rw [add_assoc, heq, zero_add]

/-- A step that declares nothing. -/
theorem skip [hm : KeepsDecls m] (hf : ∀ a, Balances hand (f a) q) : Balances hand (m >>= f) q := by
  have hstep : Balances hand m fun _ placed => placed = hand := by
    intro s a t hrun
    exact ⟨hand, rfl, by rw [hm.decls hrun]⟩
  refine hstep.bind ?_
  rintro a placed rfl
  exact hf a

/-- The result of a call becomes part of the result. -/
theorem call {nodes : α → List Node} (hm : Balances 0 m (Places nodes))
    (hf : ∀ a, Balances (hand + Node.declared (nodes a)) (f a) q) : Balances hand (m >>= f) q := by
  refine (hm.frame hand).bind ?_
  rintro a _ ⟨own, rfl, rfl⟩
  exact hf a

theorem declare {id : Id} {kind : DeclKind} {f : DeclId → Parser β}
    (hf : ∀ decl, Balances (hand + {(decl, ⟨id.symbol, id.span, kind⟩)}) (f decl) q) :
    Balances hand (Parser.declare id kind >>= f) q := by
  have hstep : Balances hand (Parser.declare id kind) fun decl placed =>
      placed = hand + {(decl, ⟨id.symbol, id.span, kind⟩)} := by
    intro s decl t hrun
    cases hrun
    refine ⟨_, rfl, ?_⟩
    show _ = hand + ((s.decls.push _).2.entries : Multiset (DeclId × Decl))
    rw [Decls.entries_push, ← Multiset.coe_add, Multiset.coe_singleton, add_assoc]
    exact congrArg (hand + ·) (add_comm _ _)
  refine hstep.bind ?_
  rintro decl placed rfl
  exact hf decl

theorem loop {nodes : α → List Node} {round : Parser (Turn α)} {rest : Parser α}
    (hround : Balances 0 round (Turn.Places nodes)) (hrest : Balances 0 rest (Places nodes)) :
    Balances 0 (loop round rest) (Places nodes) := by
  refine hround.bind ?_
  rintro turn placed hturn
  cases hturn with
  | leave h => exact .pure h
  | goOn h => exact hrest.call fun a => .pure (h a)

end Balances

/-- Productions with balanced runs. -/
structure Rules.Balanced (r : Rules) : Prop where
  expr : ∀ min construct, Balances 0 (r.expr min construct) (Places Expr.nodes)
  operators : ∀ start min left,
    Balances (Node.declared left.nodes) (r.operators start min left) (Places Expr.nodes)
  ptrn : ∀ typed construct, Balances 0 (r.ptrn typed construct) (Places Ptrn.nodes)
  ptrnElems : ∀ typed, Balances 0 (r.ptrnElems typed) (Places Ptrn.nodesOf)
  tupleElems : Balances 0 r.tupleElems (Places fun es => Elem.nodesOf es.1)
  sigmaElems : Balances 0 r.sigmaElems (Places Ptrn.nodesOf)
  block : ∀ construct, Balances 0 (r.block construct) (Places Expr.nodes)
  blockBody : Balances 0 r.blockBody (Places fun body => Stmnt.nodesOf body.1 ++ body.2.nodes)
  branch : Balances 0 r.branch (Places Expr.nodes)
  arms : Balances 0 r.arms (Places Arm.nodesOf)

theorem Balances.single {expr : Span → Expr} (h : ∀ span, Node.declared (expr span).nodes = 0) :
    Balances 0 (single expr) (Places Expr.nodes) :=
  .skip fun span => .skip fun _ => .pure (h span)

theorem balances_literal : Balances 0 literal (Places Expr.nodes) := by
  refine .skip fun s => .skip fun _ => ?_
  split
  · exact .skip fun symbol => .pure rfl
  all_goals exact .pure rfl

variable {r : Rules} (hr : r.Balanced)

include hr

theorem balances_ascription : Balances 0 (ascription r) (Places Expr.nodesOf?) := by
  refine .skip fun accepted => ?_
  split
  · refine (hr.expr _ _).call fun ty => .pure ?_
    simp [Places, Expr.nodesOf?]
  · exact .pure rfl

theorem balances_ptrn (typed : Bool) (construct : String) :
    Balances 0 (ptrn r typed construct) (Places Ptrn.nodes) := by
  refine .skip fun start => .skip fun kind => ?_
  split
  · refine .skip fun id => .declare fun decl => (balances_ascription hr).call fun ty =>
      .skip fun span => .pure ?_
    simp [Places, Ptrn.nodes]
  · refine .skip fun _ => (hr.ptrnElems typed).call fun elems => .skip fun _ =>
      (balances_ascription hr).call fun ty => .skip fun span => .pure ?_
    simp [Places, Ptrn.nodes, add_comm]
  · exact .skip fun _ => .skip fun span => .pure rfl

theorem balances_ptrnElems (typed : Bool) :
    Balances 0 (ptrnElems r typed) (Places Ptrn.nodesOf) := by
  refine .loop (.skip fun kind => ?_) (hr.ptrnElems typed)
  split
  · exact .pure (.leave rfl)
  · exact .pure (.leave rfl)
  · refine (hr.ptrn typed _).call fun elem => ?_
    have hone : Node.declared (Ptrn.nodesOf [elem]) = 0 + Node.declared elem.nodes := by
      simp [Ptrn.nodesOf]
    split
    · exact .pure (.leave hone)
    · refine .skip fun separated => ?_
      split
      · refine .pure (.goOn fun elems => ?_)
        simp [Ptrn.nodesOf]
      · exact .pure (.leave hone)

theorem balances_tupleElems :
    Balances 0 (tupleElems r) (Places fun es => Elem.nodesOf es.1) := by
  refine .loop (.skip fun kind => ?_) hr.tupleElems
  split
  · exact .pure (.leave rfl)
  · exact .pure (.leave rfl)
  · refine .skip fun id => (hr.expr _ _).call fun expr => ?_
    have hone : Node.declared (Elem.nodesOf [⟨id, expr⟩]) = 0 + Node.declared expr.nodes := by
      simp [Elem.nodesOf]
    split
    · exact .pure (.leave hone)
    · refine .skip fun separated => ?_
      split
      · refine .pure (.goOn fun elems => ?_)
        simp [Elem.nodesOf]
      · exact .pure (.leave hone)

theorem balances_tuple : Balances 0 (tuple r) (Places Expr.nodes) := by
  refine .skip fun start => .skip fun _ => hr.tupleElems.call fun (elems, separated) =>
    .skip fun _ => .skip fun span => .pure ?_
  rw [grouping.eq_def]
  split
  · next hone =>
    cases hone
    simp [Places, Node.declared_withSpan, Elem.nodesOf]
  · next hsame =>
    cases hsame
    simp [Places, Expr.nodes]

theorem balances_sigmaElem : Balances 0 (sigmaElem r) (Places Ptrn.nodes) := by
  refine .skip fun start => .skip fun kind => .skip fun next => ?_
  split
  · refine .skip fun id => .declare fun decl => .skip fun _ => (hr.expr _ _).call fun ty =>
      .skip fun span => .pure ?_
    simp [Places, Ptrn.nodes, Expr.nodesOf?]
  · refine (hr.expr _ _).call fun ty => .skip fun symbol => .declare fun decl => .pure ?_
    simp [Places, Ptrn.nodes, Expr.nodesOf?, add_comm]

theorem balances_sigmaElems : Balances 0 (sigmaElems r) (Places Ptrn.nodesOf) := by
  refine .loop (.skip fun kind => ?_) hr.sigmaElems
  split
  · exact .pure (.leave rfl)
  · exact .pure (.leave rfl)
  · refine (balances_sigmaElem hr).call fun elem => ?_
    have hone : Node.declared (Ptrn.nodesOf [elem]) = 0 + Node.declared elem.nodes := by
      simp [Ptrn.nodesOf]
    split
    · exact .pure (.leave hone)
    · refine .skip fun separated => ?_
      split
      · refine .pure (.goOn fun elems => ?_)
        simp [Ptrn.nodesOf]
      · exact .pure (.leave hone)

theorem balances_sigma : Balances 0 (sigma r) (Places Expr.nodes) := by
  refine .skip fun start => .skip fun _ => hr.sigmaElems.call fun elems => .skip fun _ =>
    .skip fun span => .pure ?_
  simp [Places, Expr.nodes]

theorem balances_codomain (construct : String) :
    Balances 0 (codomain r construct) (Places Expr.nodes) := by
  refine .skip fun accepted => ?_
  split
  · exact hr.expr _ _
  · exact .skip fun s => .pure rfl

theorem balances_lambda : Balances 0 (lambda r) (Places Expr.nodes) := by
  refine .skip fun start => .skip fun _ => (hr.ptrn _ _).call fun domain =>
    (balances_codomain hr _).call fun codomain => (hr.block _).call fun body =>
    .skip fun span => .pure ?_
  simp [Places, Expr.nodes, add_assoc]

theorem balances_pi : Balances 0 (pi r) (Places Expr.nodes) := by
  refine .skip fun start => .skip fun _ => (hr.ptrn _ _).call fun domain => .skip fun _ =>
    (hr.expr _ _).call fun codomain => .skip fun span => .pure ?_
  simp [Places, Expr.nodes]

theorem balances_continuation : Balances 0 (continuation r) (Places Expr.nodes) := by
  refine .skip fun start => .skip fun _ => (hr.ptrn _ _).call fun domain =>
    .skip fun s => .skip fun span => .pure ?_
  simp [Places, Expr.nodes]

theorem balances_pack : Balances 0 (pack r) (Places Expr.nodes) := by
  refine .skip fun start => .skip fun _ => (hr.ptrn _ _).call fun domain => .skip fun _ =>
    (hr.expr _ _).call fun body => .skip fun _ => .skip fun span => .pure ?_
  simp [Places, Expr.nodes]

theorem balances_variadic : Balances 0 (variadic r) (Places Expr.nodes) := by
  refine .skip fun start => .skip fun _ => (hr.ptrn _ _).call fun domain => .skip fun _ =>
    (hr.expr _ _).call fun body => .skip fun _ => .skip fun span => .pure ?_
  simp [Places, Expr.nodes]

theorem balances_otherwise : Balances 0 (otherwise r) (Places Expr.nodes) := by
  refine .skip fun accepted => ?_
  split
  · refine .skip fun isIf => ?_
    split
    · exact hr.branch
    · exact hr.block _
  · exact .skip fun last => .pure rfl

theorem balances_branch : Balances 0 (branch r) (Places Expr.nodes) := by
  refine .skip fun start => .skip fun _ => (hr.expr _ _).call fun cond =>
    (hr.block _).call fun yes => (balances_otherwise hr).call fun no => .skip fun span => .pure ?_
  simp [Places, Expr.nodes, add_assoc]

theorem balances_arms : Balances 0 (arms r) (Places Arm.nodesOf) := by
  refine .loop (.skip fun kind => ?_) hr.arms
  split
  · exact .pure (.leave rfl)
  · exact .pure (.leave rfl)
  · refine .skip fun start => (hr.ptrn _ _).call fun ptrn => .skip fun _ =>
      (hr.expr _ _).call fun body => .skip fun s => .skip fun span => .skip fun separated => ?_
    have hrest : Balances (0 + Node.declared ptrn.nodes + Node.declared body.nodes)
        (pure (Turn.goOn (⟨span, ptrn, body⟩ :: ·))) (Turn.Places Arm.nodesOf) := by
      refine .pure (.goOn fun arms => ?_)
      simp [Arm.nodesOf, add_assoc]
    split
    · exact hrest
    · split
      · exact hrest
      · exact .skip fun _ => hrest

theorem balances_select : Balances 0 (select r) (Places Expr.nodes) := by
  refine .skip fun start => .skip fun _ => (hr.expr _ _).call fun scrutinee =>
    .skip fun opened => ?_
  split
  · refine hr.arms.call fun arms => .skip fun _ => .skip fun span => .pure ?_
    simp [Places, Expr.nodes]
  · refine .skip fun span => .pure ?_
    simp [Places, Expr.nodes, Arm.nodesOf]

theorem balances_forLoop : Balances 0 (forLoop r) (Places Expr.nodes) := by
  refine .skip fun start => .skip fun _ => (hr.ptrn _ _).call fun ptrn => .skip fun _ =>
    (hr.expr _ _).call fun iter => (hr.block _).call fun body => .skip fun span => .pure ?_
  simp [Places, Expr.nodes, add_assoc]

theorem balances_whileLoop : Balances 0 (whileLoop r) (Places Expr.nodes) := by
  refine .skip fun start => .skip fun _ => (hr.expr _ _).call fun cond =>
    (hr.block _).call fun body => .skip fun span => .pure ?_
  simp [Places, Expr.nodes]

theorem balances_primary (construct : String) :
    Balances 0 (primary r construct) (Places Expr.nodes) := by
  refine .skip fun kind => ?_
  split
  · exact .skip fun id => .pure rfl
  · exact balances_literal
  · exact balances_tuple hr
  · exact balances_sigma hr
  · exact hr.block construct
  · exact hr.branch
  · exact balances_select hr
  · exact balances_forLoop hr
  · exact balances_whileLoop hr
  · exact balances_lambda hr
  · exact balances_pi hr
  · exact balances_continuation hr
  · exact balances_pack hr
  · exact balances_variadic hr
  · exact .single fun _ => rfl
  · exact .single fun _ => rfl
  · exact .single fun _ => rfl
  · exact .single fun _ => rfl
  · exact .single fun _ => rfl
  · exact .single fun _ => rfl
  · exact .skip fun start => .skip fun _ => .skip fun span => .pure rfl

/-- An operand that has become part of a larger one is handed on with it. -/
theorem balances_goOn {hand : Multiset (DeclId × Decl)} (start : Span) (min : Prec) {left : Expr}
    (h : Node.declared left.nodes = hand) :
    Balances hand (r.operators start min left) (Places Expr.nodes) :=
  h ▸ hr.operators start min left

theorem balances_expr (min : Prec) (construct : String) :
    Balances 0 (expr r min construct) (Places Expr.nodes) := by
  refine .skip fun start => .skip fun kind => ?_
  split
  · refine .skip fun _ => (hr.expr _ _).call fun operand => .skip fun span =>
      balances_goOn hr _ _ ?_
    simp [Expr.nodes]
  · refine (balances_primary hr construct).call fun operand => ?_
    have hoperand : Node.declared operand.nodes = 0 + Node.declared operand.nodes :=
      (zero_add _).symm
    split
    · exact .pure hoperand
    · exact balances_goOn hr _ _ hoperand

theorem balances_operators (start : Span) (min : Prec) (left : Expr) :
    Balances (Node.declared left.nodes) (operators r start min left) (Places Expr.nodes) := by
  refine .skip fun kind => ?_
  split
  · refine .skip fun _ => .skip fun span => balances_goOn hr _ _ ?_
    simp [Expr.nodes]
  · split
    · refine (balances_tuple hr).call fun arg => .skip fun span => balances_goOn hr _ _ ?_
      simp [Expr.nodes]
    · refine .skip fun next => ?_
      split
      · refine .skip fun _ => (balances_tuple hr).call fun arg => .skip fun span =>
          balances_goOn hr _ _ ?_
        simp [Expr.nodes]
      · split
        · refine .skip fun _ => .skip fun id => .skip fun span => balances_goOn hr _ _ ?_
          simp [Expr.nodes]
        · split
          · split
            · exact .pure rfl
            · refine .skip fun _ => (hr.expr _ _).call fun right => .skip fun span =>
                balances_goOn hr _ _ ?_
              simp [Expr.nodes]
          · exact .pure rfl

theorem balances_stmntExpr (construct : String) :
    Balances 0 (stmntExpr r construct) (Places Expr.nodes) := by
  refine .skip fun kind => ?_
  split
  · exact hr.block construct
  · exact hr.branch
  · exact balances_select hr
  · exact balances_forLoop hr
  · exact balances_whileLoop hr
  · exact hr.expr _ _

theorem balances_letStmnt : Balances 0 (letStmnt r) (Places Stmnt.nodes) := by
  refine .skip fun start => .skip fun _ => (hr.ptrn _ _).call fun ptrn => .skip fun _ =>
    (hr.expr _ _).call fun init => .skip fun _ => .skip fun span => .pure ?_
  simp [Places, Stmnt.nodes]

theorem balances_defItem :
    Balances 0 (defItem r) (Places fun it => (Stmnt.item it).nodes) := by
  refine .skip fun start => .skip fun _ => .skip fun id => .declare fun decl => .skip fun _ =>
    (hr.expr _ _).call fun expr => .skip fun _ => .skip fun span => .pure ?_
  simp [Places, Stmnt.nodes]

theorem balances_fnItem :
    Balances 0 (fnItem r) (Places fun it => (Stmnt.item it).nodes) := by
  refine .skip fun start => .skip fun _ => .skip fun id => .declare fun decl => .skip fun inner =>
    (hr.ptrn _ _).call fun domain => (balances_codomain hr _).call fun codomain =>
    (hr.block _).call fun body => .skip fun span => .skip fun whole => .pure ?_
  simp [Places, Stmnt.nodes, Expr.nodes, add_assoc]

theorem balances_block (construct : String) :
    Balances 0 (block r construct) (Places Expr.nodes) := by
  refine .skip fun start => .skip fun opened => ?_
  split
  · refine hr.blockBody.call fun body => .skip fun _ => .skip fun span => .pure ?_
    simp [Places, Expr.nodes]
  · exact .skip fun span => .pure rfl

theorem balances_blockBody :
    Balances 0 (blockBody r) (Places fun body => Stmnt.nodesOf body.1 ++ body.2.nodes) := by
  have hadds : ∀ {hand : Multiset (DeclId × Decl)} {stmnt : Stmnt},
      Node.declared stmnt.nodes = hand → Balances hand (pure (blockRest stmnt))
        (Turn.Places fun body => Stmnt.nodesOf body.1 ++ body.2.nodes) := by
    rintro hand stmnt rfl
    refine .pure (.goOn fun body => ?_)
    simp [Stmnt.nodesOf]
  have hnone : Balances 0 (pure (Turn.goOn id))
      (Turn.Places fun body : List Stmnt × Expr => Stmnt.nodesOf body.1 ++ body.2.nodes) :=
    .pure (.goOn fun body => (zero_add _).symm)
  refine .loop (.skip fun kind => ?_) hr.blockBody
  split
  · exact .skip fun _ => hnone
  · exact .skip fun span => .pure (.leave rfl)
  · exact .skip fun span => .pure (.leave rfl)
  · exact (balances_letStmnt hr).call fun stmnt => hadds (zero_add _).symm
  · exact (balances_defItem hr).call fun it => hadds (zero_add _).symm
  · exact (balances_fnItem hr).call fun it => hadds (zero_add _).symm
  · split
    · refine .skip fun start => (balances_stmntExpr hr _).call fun expr =>
        .skip fun accepted => ?_
      have hstmnt : ∀ span, Node.declared (Stmnt.expr span expr).nodes =
          0 + Node.declared expr.nodes := by
        intro span
        simp [Stmnt.nodes]
      split
      · exact .skip fun span => hadds (hstmnt span)
      · refine .skip fun closing => ?_
        split
        · refine .pure (.leave ?_)
          simp [Stmnt.nodesOf]
        · split
          · exact hadds (hstmnt _)
          · exact .skip fun _ => hadds (hstmnt _)
    · exact .skip fun _ => .skip fun _ => hnone

theorem balances_stmnt (construct : String) :
    Balances 0 (stmnt r construct) (Places Stmnt.nodes) := by
  refine .skip fun kind => ?_
  split
  · exact balances_letStmnt hr
  · exact (balances_defItem hr).call fun it => .pure (zero_add _).symm
  · exact (balances_fnItem hr).call fun it => .pure (zero_add _).symm
  · refine .skip fun start => (balances_stmntExpr hr _).call fun expr => .skip fun accepted => ?_
    have hrest : Balances (0 + Node.declared expr.nodes)
        (do return Stmnt.expr (← finish start) expr) (Places Stmnt.nodes) := by
      refine .skip fun span => .pure ?_
      simp [Places, Stmnt.nodes]
    split
    · exact hrest
    · split
      · exact hrest
      · exact .skip fun _ => hrest

theorem balances_stmnts (rounds : Nat) : Balances 0 (stmnts r rounds) (Places Stmnt.nodesOf) := by
  induction rounds with
  | zero => exact .failure
  | succ rounds ih =>
    refine .loop (.skip fun kind => ?_) ih
    have hnone : Balances 0 (pure (Turn.goOn id)) (Turn.Places Stmnt.nodesOf) :=
      .pure (.goOn fun stmnts => (zero_add _).symm)
    split
    · exact .pure (.leave rfl)
    · exact .skip fun _ => hnone
    · split
      · refine .skip fun before => (balances_stmnt hr _).call fun stmnt => .skip fun after => ?_
        refine .pure (.goOn fun stmnts => ?_)
        simp [Stmnt.nodesOf]
      · exact .skip fun _ => .skip fun _ => hnone

omit hr

theorem balanced_rules (calls : Nat) : (rules calls).Balanced := by
  induction calls with
  | zero =>
    exact {
      expr _ _ := .failure
      operators _ _ _ := .failure
      ptrn _ _ := .failure
      ptrnElems _ := .failure
      tupleElems := .failure
      sigmaElems := .failure
      block _ := .failure
      blockBody := .failure
      branch := .failure
      arms := .failure }
  | succ calls ih =>
    exact {
      expr := balances_expr ih
      operators := balances_operators ih
      ptrn := balances_ptrn ih
      ptrnElems := balances_ptrnElems ih
      tupleElems := balances_tupleElems ih
      sigmaElems := balances_sigmaElems ih
      block := balances_block ih
      blockBody := balances_blockBody ih
      branch := balances_branch ih
      arms := balances_arms ih }

end Parser

/-- Whatever is wrong with a source, its tree introduces every declaration of its arena once, and
each with its entry. -/
theorem Module.parse_introduces (file : FileId) (source : String) (names : Interner) :
    ((Module.parse file source names).result.walk.filterMap Node.introduces).Perm
      (Module.parse file source names).result.decls.entries := by
  have hempty : (Parser.State.start file source names).decls.entries = [] := by
    rw [(Parser.fresh_start file source names).2]
    rfl
  simp only [Module.parse_eq_run, Parser.run, Parser.runFrom]
  cases hrun : Parser.stmnts _ _ _ with
  | none => exact .of_eq hempty.symm
  | some out =>
    obtain ⟨placed, rfl, heq⟩ :=
      Parser.balances_stmnts (Parser.balanced_rules _) _ _ _ _ hrun
    rw [hempty, Multiset.coe_nil, add_zero, zero_add] at heq
    exact Multiset.coe_eq_coe.1 heq

end ImpLang
