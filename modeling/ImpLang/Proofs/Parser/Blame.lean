import ImpLang.Proofs.Parser.Complaints
import ImpLang.Proofs.Parser.Faultless
import ImpLang.Proofs.Parser.Locating

/-!
The complaints behind error nodes. Where a construct fails the parser complains about the token in
front, or has done so before, and makes an error node there. Such a node is moved once only, when
parentheses around it widen it, and then it is not empty any more.
-/

namespace ImpLang

namespace Node

variable (complaints : List Diagnostic)

/-- If a node is an error there are complaints, and one of them begins where the node is, if that is
empty. -/
def Blamed (node : Node) : Prop :=
  node.isError = true → complaints ≠ [] ∧
    (node.span.isEmpty = true → ∃ d ∈ complaints, d.offset = node.span.start.offset)

def AllBlamed (nodes : List Node) : Prop := ∀ node ∈ nodes, node.Blamed complaints

variable {complaints} {nodes nodes' : List Node}

@[simp] theorem allBlamed_nil : AllBlamed complaints [] := List.forall_mem_nil _

@[simp] theorem allBlamed_cons {node : Node} :
    AllBlamed complaints (node :: nodes) ↔ node.Blamed complaints ∧ AllBlamed complaints nodes :=
  List.forall_mem_cons

@[simp] theorem allBlamed_append : AllBlamed complaints (nodes ++ nodes') ↔
    AllBlamed complaints nodes ∧ AllBlamed complaints nodes' := List.forall_mem_append

@[simp] theorem blamed_stmnt (st : Stmnt) : (stmnt st).Blamed complaints := nofun

@[simp] theorem blamed_item (it : Item) : (item it).Blamed complaints := nofun

@[simp] theorem blamed_expr {e : Expr} : (expr e).Blamed complaints ↔
    (e.isError = true → complaints ≠ [] ∧
      (e.span.isEmpty = true → ∃ d ∈ complaints, d.offset = e.span.start.offset)) := .rfl

@[simp] theorem blamed_ptrn {p : Ptrn} : (ptrn p).Blamed complaints ↔
    (p.isError = true → complaints ≠ [] ∧
      (p.span.isEmpty = true → ∃ d ∈ complaints, d.offset = p.span.start.offset)) := .rfl

/-- An error node at a complaint. -/
theorem blamed_at {node : Node} {place : Place} (hspan : node.span.start = place)
    (h : ∃ d ∈ complaints, d.offset = place.offset) : node.Blamed complaints := by
  obtain ⟨d, hd, hoffset⟩ := h
  exact fun _ => ⟨List.ne_nil_of_mem hd, fun _ => ⟨d, hd, hspan ▸ hoffset⟩⟩

/-- Around an error node there may be parentheses, which are not empty. -/
theorem allBlamed_withSpan {e : Expr} {span : Span} (hspan : span.isEmpty = false)
    (h : AllBlamed complaints e.nodes) : AllBlamed complaints (e.withSpan span).nodes := by
  have hwidened : (e.withSpan span).span = span := by cases e <;> rfl
  rw [Expr.nodes_withSpan, allBlamed_cons]
  refine ⟨fun herror => ⟨?_, fun hempty => ?_⟩, fun node hnode => h node (List.mem_of_mem_tail hnode)⟩
  · rw [isError, Expr.isError_withSpan] at herror
    exact (h (expr e) e.mem_nodes herror).1
  · rw [Node.span, hwidened, hspan] at hempty
    cases hempty

end Node

namespace Parser

open Node (AllBlamed)

namespace State

variable {tokens : List Token} {s t : State}

/-- Behind the token in front stands the second one of the window. -/
theorem kind_bump (s : State) : s.bump.kind = s.nextKind := by
  cases hbeyond : s.beyond with
  | nil => simp only [kind, bump, nextKind, hbeyond]
  | cons lexed rest => cases rest <;> simp [kind, bump, nextKind, hbeyond]

/-- What begins with a token and goes on behind it is not empty. -/
theorem Onward.isEmpty_finish (h : s.bump.Onward tokens t) (hs : s.Ahead tokens)
    (hk : s.kind ≠ .eof) : (t.finish s.here.span).isEmpty = false := by
  have hstop := (hs.of_ne_eof hk).2
  have hprev := h.prev
  rw [prev_bump] at hprev
  rw [finish, if_neg (by omega), Span.isEmpty, beq_eq_false_iff_ne]
  show s.here.span.start.offset ≠ t.prev.stop.offset
  omega

end State

variable (tokens : List Token) (complaints : List Diagnostic)

/-- From a state a parser goes onward, and the result is as described if the complaints made up to
its end are among the given ones. -/
def Blames {α : Type} (m : Parser α) (s : State) (p : α → Prop) : Prop :=
  s.Orderly tokens → ∀ a t, m s = some (a, t) →
    s.Onward tokens t ∧ (t.complaints ⊆ complaints → p a)

variable {tokens complaints}

namespace Blames

variable {α β : Type} {s : State} {p : α → Prop} {q : β → Prop}

theorem pure {a : α} (h : p a) : Blames tokens complaints (pure a) s p := by
  intro hs b t hrun
  cases hrun
  exact ⟨.refl hs, fun _ => h⟩

theorem failure : Blames tokens complaints failure s p := by
  intro _ a t hrun
  cases hrun

theorem mono {p' : α → Prop} {m : Parser α} (h : Blames tokens complaints m s p)
    (hp : ∀ a, p a → p' a) : Blames tokens complaints m s p' := by
  intro hs a t hrun
  obtain ⟨honward, ha⟩ := h hs a t hrun
  exact ⟨honward, fun hsub => hp a (ha hsub)⟩

/-- What the first result is known to be may be used for the second: no complaint is taken back in
between. -/
theorem bind_onward {m : Parser α} {f : α → Parser β} (hm : Blames tokens complaints m s p)
    (hf : ∀ a t, s.Onward tokens t → Blames tokens complaints (f a) t fun b => p a → q b) :
    Blames tokens complaints (m >>= f) s q := by
  intro hs b u hrun
  obtain ⟨⟨a, t⟩, ha, hb⟩ := Option.bind_eq_some_iff.1 hrun
  obtain ⟨hst, hp⟩ := hm hs a t ha
  obtain ⟨htu, hq⟩ := hf a t hst hst.orderly b u hb
  exact ⟨hst.trans htu, fun hsub => hq hsub (hp fun d hd => hsub (htu.complaints hd))⟩

theorem bind {m : Parser α} {f : α → Parser β} (hm : Blames tokens complaints m s p)
    (hf : ∀ a t, Blames tokens complaints (f a) t fun b => p a → q b) :
    Blames tokens complaints (m >>= f) s q := hm.bind_onward fun a t _ => hf a t

/-- A step of which nothing is known but that it goes onward. -/
theorem skip {m : Parser α} {f : α → Parser β} (hm : Blames tokens complaints m s p)
    (hf : ∀ a t, Blames tokens complaints (f a) t q) : Blames tokens complaints (m >>= f) s q :=
  hm.bind fun a t => (hf a t).mono fun _ hb _ => hb

/-- A move to a known state. -/
theorem move {m : Parser α} {f : α → Parser β} {a : α} {t : State} (hm : m s = some (a, t))
    (ht : s.Orderly tokens → s.Onward tokens t) (hf : Blames tokens complaints (f a) t q) :
    Blames tokens complaints (m >>= f) s q := by
  intro hs b u hrun
  obtain ⟨⟨a', t'⟩, ha, hb⟩ := Option.bind_eq_some_iff.1 hrun
  rw [hm] at ha
  cases ha
  obtain ⟨honward, hb⟩ := hf (ht hs).orderly b u hb
  exact ⟨(ht hs).trans honward, hb⟩

/-- A step that only looks at the state. -/
theorem look {m : Parser α} {f : α → Parser β} {a : α} (hm : m s = some (a, s))
    (hf : Blames tokens complaints (f a) s q) : Blames tokens complaints (m >>= f) s q :=
  move hm .refl hf

theorem loop {round : Parser (Turn α)} {rest : Parser α}
    (hround : Blames tokens complaints round s (Locates.Keeps p))
    (hrest : ∀ t, Blames tokens complaints rest t p) :
    Blames tokens complaints (loop round rest) s p := by
  refine hround.bind fun turn t => ?_
  cases turn with
  | leave a =>
    refine .pure fun hkeeps => ?_
    cases hkeeps with
    | leave ha => exact ha
  | goOn wrap =>
    refine (hrest t).bind fun a u => .pure fun ha hkeeps => ?_
    cases hkeeps with
    | goOn hwrap => exact hwrap a ha

end Blames

/-! ## Moves -/

section Moves

variable {s : State}

theorem blames_bump : Blames tokens complaints bump s fun _ => True := by
  intro hs a t hrun
  cases hrun
  exact ⟨hs.bump, fun _ => trivial⟩

theorem blames_intern (text : String) :
    Blames tokens complaints (intern text) s fun _ => True := by
  intro hs a t hrun
  cases hrun
  exact ⟨hs.intern text, fun _ => trivial⟩

theorem blames_declare (id : Id) (kind : DeclKind) :
    Blames tokens complaints (declare id kind) s fun _ => True := by
  intro hs a t hrun
  cases hrun
  exact ⟨hs.declare id kind, fun _ => trivial⟩

theorem blames_recover (reported : Nat) :
    Blames tokens complaints (recover reported) s fun _ => True := by
  intro hs a t hrun
  cases hrun
  exact ⟨hs.recover reported, fun _ => trivial⟩

theorem blames_unexpected (expected : Expected) (construct : String) :
    Blames tokens complaints (unexpected expected construct) s fun _ =>
      ∃ d ∈ complaints, d.offset = s.here.span.start.offset := by
  intro hs a t hrun
  cases hrun
  refine ⟨hs.complain expected construct, fun hsub => ?_⟩
  obtain ⟨d, hd, hoffset⟩ := hs.complained expected construct
  exact ⟨d, hsub hd, hoffset⟩

theorem blames_finish (start : Span) :
    Blames tokens complaints (finish start) s fun span => span.start = start.start := by
  intro hs span t hrun
  cases hrun
  refine ⟨.refl hs, fun _ => ?_⟩
  rw [State.finish]
  split <;> rfl

theorem blames_accept (kind : TokenKind) :
    Blames tokens complaints (accept kind) s fun _ => True := by
  show Blames tokens complaints (Parser.kind >>= fun here => if here = kind then _ else _) s _
  refine .look rfl ?_
  split
  · exact blames_bump.skip fun _ _ => .pure trivial
  · exact .pure trivial

theorem blames_expect (kind : TokenKind) (construct : String) :
    Blames tokens complaints (expect kind construct) s fun found =>
      found = false → ∃ d ∈ complaints, d.offset = s.here.span.start.offset := by
  show Blames tokens complaints (Parser.kind >>= fun here => if here = kind then _ else _) s _
  refine .look rfl ?_
  split
  · exact blames_bump.skip fun _ _ => .pure nofun
  · exact (blames_unexpected _ _).bind fun _ _ => .pure fun hd _ => hd

theorem blames_acceptSeparator : Blames tokens complaints acceptSeparator s fun _ => True := by
  show Blames tokens complaints (Parser.kind >>= fun here => if here = .comma then _ else _) s _
  refine .look rfl ?_
  split
  · exact blames_bump.skip fun _ _ => .pure trivial
  · exact blames_accept .semi

theorem blames_ident (construct : String) :
    Blames tokens complaints (ident construct) s fun _ => True := by
  refine .look rfl ?_
  split
  · exact blames_bump.skip fun _ _ => (blames_intern _).skip fun _ _ => .pure trivial
  · exact (blames_unexpected _ _).skip fun _ _ => (blames_intern _).skip fun _ _ =>
      (blames_finish _).skip fun _ _ => .pure trivial

theorem blames_elemName : Blames tokens complaints elemName s fun _ => True := by
  refine .look rfl (.look rfl ?_)
  split
  · exact (blames_ident _).skip fun _ _ => blames_bump.skip fun _ _ => .pure trivial
  · exact .pure trivial

end Moves

variable (tokens complaints) in
/-- Productions that make error nodes at complaints only. -/
structure Rules.Blame (r : Rules) : Prop where
  expr : ∀ min construct s, Blames tokens complaints (r.expr min construct) s fun e =>
    AllBlamed complaints e.nodes
  operators : ∀ start min left s, Blames tokens complaints (r.operators start min left) s fun e =>
    AllBlamed complaints left.nodes → AllBlamed complaints e.nodes
  ptrn : ∀ typed construct s, Blames tokens complaints (r.ptrn typed construct) s fun p =>
    AllBlamed complaints p.nodes
  ptrnElems : ∀ typed s, Blames tokens complaints (r.ptrnElems typed) s fun ps =>
    AllBlamed complaints (Ptrn.nodesOf ps)
  tupleElems : ∀ s, Blames tokens complaints r.tupleElems s fun es =>
    AllBlamed complaints (Elem.nodesOf es.1)
  sigmaElems : ∀ s, Blames tokens complaints r.sigmaElems s fun ps =>
    AllBlamed complaints (Ptrn.nodesOf ps)
  block : ∀ construct s, Blames tokens complaints (r.block construct) s fun e =>
    AllBlamed complaints e.nodes
  blockBody : ∀ s, Blames tokens complaints r.blockBody s fun body =>
    AllBlamed complaints (Stmnt.nodesOf body.1) ∧ AllBlamed complaints body.2.nodes
  branch : ∀ s, Blames tokens complaints r.branch s fun e => AllBlamed complaints e.nodes
  arms : ∀ s, Blames tokens complaints r.arms s fun arms =>
    AllBlamed complaints (Arm.nodesOf arms)

/-- A list that a loop reads an element of. -/
theorem adds_ptrn {p : Ptrn} (h : AllBlamed complaints p.nodes) :
    Locates.Keeps (fun ps => AllBlamed complaints (Ptrn.nodesOf ps)) (.goOn (p :: ·)) :=
  .goOn fun ps hps => by simp [Ptrn.nodesOf, h, hps]

theorem adds_lastPtrn {p : Ptrn} (h : AllBlamed complaints p.nodes) :
    Locates.Keeps (fun ps => AllBlamed complaints (Ptrn.nodesOf ps)) (.leave [p]) :=
  .leave (by simp [Ptrn.nodesOf, h])

section Productions

variable {r : Rules} (hr : r.Blame tokens complaints)

theorem blames_single {s : State} {expr : Span → Expr}
    (hnodes : ∀ span, AllBlamed complaints (expr span).nodes) :
    Blames tokens complaints (single expr) s fun e => AllBlamed complaints e.nodes :=
  .look rfl (blames_bump.skip fun _ _ => .pure (hnodes _))

/-- A literal token has a value. -/
theorem blames_literal {s : State} (hk : s.kind = .literal) :
    Blames tokens complaints literal s fun e => AllBlamed complaints e.nodes := by
  intro hs
  obtain ⟨value, hvalue⟩ := (hs.ahead.of_ne_eof (by simp [hk])).1.2 hk
  have hleaf : ∀ span (value : Literal Symbol),
      AllBlamed complaints (Expr.literal span value).nodes := by
    simp [Expr.nodes, Expr.isError]
  refine Blames.look rfl (blames_bump.skip fun _ _ => ?_) hs
  rw [hvalue]
  cases value with
  | str text => exact (blames_intern _).skip fun _ _ => .pure (hleaf _ _)
  | int value kind => exact .pure (hleaf _ _)
  | float value kind => exact .pure (hleaf _ _)
  | bool value => exact .pure (hleaf _ _)
  | char value => exact .pure (hleaf _ _)

include hr

theorem blames_ascription (s : State) : Blames tokens complaints (ascription r) s fun ty =>
    AllBlamed complaints (Expr.nodesOf? ty) := by
  refine (blames_accept _).skip fun accepted t => ?_
  split
  · exact (hr.expr _ _ _).bind fun ty _ => .pure id
  · exact .pure Node.allBlamed_nil

theorem blames_ptrn (typed : Bool) (construct : String) (s : State) :
    Blames tokens complaints (ptrn r typed construct) s fun p => AllBlamed complaints p.nodes := by
  refine .look rfl (.look rfl ?_)
  split
  · refine (blames_ident _).skip fun id _ => (blames_declare _ _).skip fun decl _ =>
      (blames_ascription hr _).bind fun ty _ => (blames_finish _).skip fun span _ => .pure fun hty => ?_
    simp [Ptrn.nodes, Ptrn.isError, hty]
  · refine blames_bump.skip fun _ _ => (hr.ptrnElems _ _).bind fun elems _ =>
      (blames_expect _ _).skip fun _ _ => (blames_ascription hr _).bind fun ty _ =>
      (blames_finish _).skip fun span _ => .pure fun hty helems => ?_
    simp [Ptrn.nodes, Ptrn.isError, hty, helems]
  · refine (blames_unexpected _ _).bind fun _ _ => (blames_finish _).bind fun span _ =>
      .pure fun hspan hd => ?_
    rw [Ptrn.nodes, Node.allBlamed_cons]
    exact ⟨Node.blamed_at hspan hd, Node.allBlamed_nil⟩

theorem blames_ptrnElems (typed : Bool) (s : State) :
    Blames tokens complaints (ptrnElems r typed) s fun ps =>
      AllBlamed complaints (Ptrn.nodesOf ps) := by
  refine .loop (.look rfl ?_) (hr.ptrnElems typed)
  split
  · exact .pure (.leave Node.allBlamed_nil)
  · exact .pure (.leave Node.allBlamed_nil)
  · refine (hr.ptrn _ _ _).bind fun elem _ => ?_
    split
    · exact .pure adds_lastPtrn
    · refine blames_acceptSeparator.skip fun separated _ => ?_
      split
      · exact .pure adds_ptrn
      · exact .pure adds_lastPtrn

theorem blames_tupleElems (s : State) : Blames tokens complaints (tupleElems r) s fun es =>
    AllBlamed complaints (Elem.nodesOf es.1) := by
  refine .loop (.look rfl ?_) hr.tupleElems
  split
  · exact .pure (.leave Node.allBlamed_nil)
  · exact .pure (.leave Node.allBlamed_nil)
  · refine blames_elemName.skip fun id _ => (hr.expr _ _ _).bind fun expr _ => ?_
    split
    · exact .pure fun h => .leave (by simp [Elem.nodesOf, h])
    · refine blames_acceptSeparator.skip fun separated _ => ?_
      split
      · exact .pure fun h => .goOn fun es hes => by simp [Elem.nodesOf, h, hes]
      · exact .pure fun h => .leave (by simp [Elem.nodesOf, h])

theorem blames_tuple {s : State} (hk : s.kind = .lParen) :
    Blames tokens complaints (tuple r) s fun e => AllBlamed complaints e.nodes := by
  intro hs
  refine Blames.look rfl (.move rfl (fun _ => hs.bump) ((hr.tupleElems _).bind_onward
    fun (elems, separated) t ht => (blames_expect _ _).bind_onward fun _ u hu => .look rfl ?_)) hs
  have hspan := (ht.trans hu).isEmpty_finish hs.ahead (by simp [hk])
  refine .pure fun _ helems => ?_
  rw [grouping.eq_def]
  split
  · next hone =>
    cases hone
    exact Node.allBlamed_withSpan hspan (by simpa [Elem.nodesOf] using helems)
  · next hsame =>
    cases hsame
    simpa [Expr.nodes, Expr.isError] using helems

theorem blames_sigmaElem (s : State) :
    Blames tokens complaints (sigmaElem r) s fun p => AllBlamed complaints p.nodes := by
  refine .look rfl (.look rfl (.look rfl ?_))
  split
  · refine (blames_ident _).skip fun id _ => (blames_declare _ _).skip fun decl _ =>
      blames_bump.skip fun _ _ => (hr.expr _ _ _).bind fun ty _ => (blames_finish _).skip fun span _ =>
      .pure fun hty => ?_
    simp [Ptrn.nodes, Ptrn.isError, Expr.nodesOf?, hty]
  · refine (hr.expr _ _ _).bind fun ty _ => (blames_intern _).skip fun symbol _ =>
      (blames_declare _ _).skip fun decl _ => .pure fun hty => ?_
    simp [Ptrn.nodes, Ptrn.isError, Expr.nodesOf?, hty]

theorem blames_sigmaElems (s : State) : Blames tokens complaints (sigmaElems r) s fun ps =>
    AllBlamed complaints (Ptrn.nodesOf ps) := by
  refine .loop (.look rfl ?_) hr.sigmaElems
  split
  · exact .pure (.leave Node.allBlamed_nil)
  · exact .pure (.leave Node.allBlamed_nil)
  · refine (blames_sigmaElem hr _).bind fun elem _ => ?_
    split
    · exact .pure adds_lastPtrn
    · refine blames_acceptSeparator.skip fun separated _ => ?_
      split
      · exact .pure adds_ptrn
      · exact .pure adds_lastPtrn

theorem blames_sigma (s : State) :
    Blames tokens complaints (sigma r) s fun e => AllBlamed complaints e.nodes := by
  refine .look rfl (blames_bump.skip fun _ _ => (hr.sigmaElems _).bind fun elems _ =>
    (blames_expect _ _).skip fun _ _ => (blames_finish _).skip fun span _ => .pure fun helems => ?_)
  simp [Expr.nodes, Expr.isError, helems]

theorem blames_codomain (construct : String) (s : State) :
    Blames tokens complaints (codomain r construct) s fun e => AllBlamed complaints e.nodes := by
  refine (blames_accept _).skip fun accepted _ => ?_
  split
  · exact hr.expr _ _ _
  · exact .look rfl (.pure (by simp [Expr.nodes, Expr.isError]))

theorem blames_lambda (s : State) :
    Blames tokens complaints (lambda r) s fun e => AllBlamed complaints e.nodes := by
  refine .look rfl (blames_bump.skip fun _ _ => (hr.ptrn _ _ _).bind fun domain _ =>
    (blames_codomain hr _ _).bind fun codomain _ => (hr.block _ _).bind fun body _ =>
    (blames_finish _).skip fun span _ => .pure fun hbody hcodomain hdomain => ?_)
  simp [Expr.nodes, Expr.isError, hdomain, hcodomain, hbody]

theorem blames_pi (s : State) :
    Blames tokens complaints (pi r) s fun e => AllBlamed complaints e.nodes := by
  refine .look rfl (blames_bump.skip fun _ _ => (hr.ptrn _ _ _).bind fun domain _ =>
    (blames_expect _ _).skip fun _ _ => (hr.expr _ _ _).bind fun codomain _ =>
    (blames_finish _).skip fun span _ => .pure fun hcodomain hdomain => ?_)
  simp [Expr.nodes, Expr.isError, hdomain, hcodomain]

theorem blames_continuation (s : State) :
    Blames tokens complaints (continuation r) s fun e => AllBlamed complaints e.nodes := by
  refine .look rfl (blames_bump.skip fun _ _ => (hr.ptrn _ _ _).bind fun domain _ =>
    .look rfl ((blames_finish _).skip fun span _ => .pure fun hdomain => ?_))
  simp [Expr.nodes, Expr.isError, hdomain]

/-- A pattern and an expression between brackets. -/
theorem blames_bracketed (close : TokenKind) (inDomain inBody inBracket : String) (start : Span)
    {form : Span → Ptrn → Expr → Expr}
    (hform : ∀ span domain body, AllBlamed complaints domain.nodes → AllBlamed complaints body.nodes →
      AllBlamed complaints (form span domain body).nodes) (s : State) :
    Blames tokens complaints (do
      let domain ← r.ptrn false inDomain
      let _ ← expect .semi inBracket
      let body ← r.expr .bottom inBody
      let _ ← expect close inBracket
      return form (← finish start) domain body) s fun e => AllBlamed complaints e.nodes := by
  refine (hr.ptrn _ _ _).bind fun domain _ => (blames_expect _ _).skip fun _ _ =>
    (hr.expr _ _ _).bind fun body _ => (blames_expect _ _).skip fun _ _ =>
    (blames_finish _).skip fun span _ => .pure fun hbody hdomain => ?_
  exact hform span domain body hdomain hbody

theorem blames_pack (s : State) :
    Blames tokens complaints (pack r) s fun e => AllBlamed complaints e.nodes := by
  refine .look rfl (blames_bump.skip fun _ _ => blames_bracketed hr .rPack _ _ _ _ ?_ _)
  intro span domain body hdomain hbody
  simp [Expr.nodes, Expr.isError, hdomain, hbody]

theorem blames_variadic (s : State) :
    Blames tokens complaints (variadic r) s fun e => AllBlamed complaints e.nodes := by
  refine .look rfl (blames_bump.skip fun _ _ => blames_bracketed hr .rVariadic _ _ _ _ ?_ _)
  intro span domain body hdomain hbody
  simp [Expr.nodes, Expr.isError, hdomain, hbody]

theorem blames_otherwise (s : State) :
    Blames tokens complaints (otherwise r) s fun e => AllBlamed complaints e.nodes := by
  refine (blames_accept _).skip fun accepted _ => ?_
  split
  · refine .look rfl ?_
    split
    · exact hr.branch _
    · exact hr.block _ _
  · exact .look rfl (.pure (by
      simp [Expr.emptyBlock, Expr.emptyTuple, Expr.nodes, Stmnt.nodesOf, Elem.nodesOf, Expr.isError]))

theorem blames_branch (s : State) :
    Blames tokens complaints (branch r) s fun e => AllBlamed complaints e.nodes := by
  refine .look rfl (blames_bump.skip fun _ _ => (hr.expr _ _ _).bind fun cond _ =>
    (hr.block _ _).bind fun yes _ => (blames_otherwise hr _).bind fun no _ =>
    (blames_finish _).skip fun span _ => .pure fun hno hyes hcond => ?_)
  simp [Expr.nodes, Expr.isError, hcond, hyes, hno]

theorem blames_arms (s : State) : Blames tokens complaints (arms r) s fun arms =>
    AllBlamed complaints (Arm.nodesOf arms) := by
  refine .loop (.look rfl ?_) hr.arms
  split
  · exact .pure (.leave Node.allBlamed_nil)
  · exact .pure (.leave Node.allBlamed_nil)
  · refine .look rfl ((hr.ptrn _ _ _).bind fun ptrn _ => (blames_expect _ _).skip fun _ _ =>
      (hr.expr _ _ _).bind fun body _ => .look rfl ((blames_finish _).skip fun span _ =>
      blames_acceptSeparator.skip fun separated _ => ?_))
    have harm : AllBlamed complaints body.nodes → AllBlamed complaints ptrn.nodes →
        Locates.Keeps (fun arms => AllBlamed complaints (Arm.nodesOf arms))
          (.goOn (⟨span, ptrn, body⟩ :: ·)) :=
      fun hbody hptrn => .goOn fun arms harms => by simp [Arm.nodesOf, hptrn, hbody, harms]
    split
    · exact .pure harm
    · split
      · exact .pure harm
      · exact blames_bump.skip fun _ _ => .pure harm

theorem blames_select (s : State) :
    Blames tokens complaints (select r) s fun e => AllBlamed complaints e.nodes := by
  refine .look rfl (blames_bump.skip fun _ _ => (hr.expr _ _ _).bind fun scrutinee _ =>
    (blames_expect _ _).skip fun opened _ => ?_)
  split
  · refine (hr.arms _).bind fun arms _ => (blames_expect _ _).skip fun _ _ =>
      (blames_finish _).skip fun span _ => .pure fun harms hscrutinee => ?_
    simp [Expr.nodes, Expr.isError, hscrutinee, harms]
  · refine (blames_finish _).skip fun span _ => .pure fun hscrutinee => ?_
    simp [Expr.nodes, Expr.isError, Arm.nodesOf, hscrutinee]

theorem blames_forLoop (s : State) :
    Blames tokens complaints (forLoop r) s fun e => AllBlamed complaints e.nodes := by
  refine .look rfl (blames_bump.skip fun _ _ => (hr.ptrn _ _ _).bind fun ptrn _ =>
    (blames_expect _ _).skip fun _ _ => (hr.expr _ _ _).bind fun iter _ =>
    (hr.block _ _).bind fun body _ => (blames_finish _).skip fun span _ =>
    .pure fun hbody hiter hptrn => ?_)
  simp [Expr.nodes, Expr.isError, hptrn, hiter, hbody]

theorem blames_whileLoop (s : State) :
    Blames tokens complaints (whileLoop r) s fun e => AllBlamed complaints e.nodes := by
  refine .look rfl (blames_bump.skip fun _ _ => (hr.expr _ _ _).bind fun cond _ =>
    (hr.block _ _).bind fun body _ => (blames_finish _).skip fun span _ =>
    .pure fun hbody hcond => ?_)
  simp [Expr.nodes, Expr.isError, hcond, hbody]

theorem blames_primary (construct : String) (s : State) :
    Blames tokens complaints (primary r construct) s fun e => AllBlamed complaints e.nodes := by
  refine .look rfl ?_
  split
  · refine (blames_ident _).skip fun id _ => .pure ?_
    simp [Expr.nodes, Expr.isError]
  · next hk => exact blames_literal hk
  · next hk => exact blames_tuple hr hk
  · exact blames_sigma hr _
  · exact hr.block construct _
  · exact hr.branch _
  · exact blames_select hr _
  · exact blames_forLoop hr _
  · exact blames_whileLoop hr _
  · exact blames_lambda hr _
  · exact blames_pi hr _
  · exact blames_continuation hr _
  · exact blames_pack hr _
  · exact blames_variadic hr _
  iterate 6 exact blames_single (by simp [Expr.nodes, Expr.isError])
  · refine .look rfl ((blames_unexpected _ _).bind fun _ _ => (blames_finish _).bind fun span _ =>
      .pure fun hspan hd => ?_)
    rw [Expr.nodes, Node.allBlamed_cons]
    exact ⟨Node.blamed_at hspan hd, Node.allBlamed_nil⟩

theorem blames_expr (min : Prec) (construct : String) (s : State) :
    Blames tokens complaints (expr r min construct) s fun e => AllBlamed complaints e.nodes := by
  refine .look rfl (.look rfl ?_)
  split
  · refine blames_bump.skip fun _ _ => (hr.expr _ _ _).bind fun operand _ =>
      (blames_finish _).skip fun span _ => (hr.operators _ _ _ _).mono fun e he hoperand => he ?_
    simp [Expr.nodes, Expr.isError, hoperand]
  · refine (blames_primary hr construct _).bind fun operand _ => ?_
    split
    · exact .pure id
    · exact hr.operators _ _ _ _

theorem blames_operators (start : Span) (min : Prec) (left : Expr) (s : State) :
    Blames tokens complaints (operators r start min left) s fun e =>
      AllBlamed complaints left.nodes → AllBlamed complaints e.nodes := by
  have happ : ∀ {s : State} (impl : Bool), s.kind = .lParen →
      Blames tokens complaints
        (tuple r >>= fun arg => do r.operators start min (.app (← finish start) left arg impl)) s
        fun e => AllBlamed complaints left.nodes → AllBlamed complaints e.nodes := by
    refine fun impl hk => (blames_tuple hr hk).bind fun arg _ => (blames_finish _).skip fun span _ =>
      (hr.operators _ _ _ _).mono fun e he harg hleft => he ?_
    simp [Expr.nodes, Expr.isError, hleft, harg]
  refine .look rfl ?_
  split
  · refine blames_bump.skip fun _ _ => (blames_finish _).skip fun span _ =>
      (hr.operators _ _ _ _).mono fun e he hleft => he ?_
    simp [Expr.nodes, Expr.isError, hleft]
  · split
    · next hk => exact happ _ hk
    · refine .look rfl ?_
      split
      · next hk => exact .move rfl State.Orderly.bump (happ _ (s.kind_bump.trans hk.2))
      · split
        · refine blames_bump.skip fun _ _ => (blames_ident _).skip fun id _ =>
            (blames_finish _).skip fun span _ => (hr.operators _ _ _ _).mono fun e he hleft => he ?_
          simp [Expr.nodes, Expr.isError, hleft]
        · split
          · split
            · exact .pure id
            · refine blames_bump.skip fun _ _ => (hr.expr _ _ _).bind fun right _ =>
                (blames_finish _).skip fun span _ =>
                (hr.operators _ _ _ _).mono fun e he hright hleft => he ?_
              simp [Expr.nodes, Expr.isError, hleft, hright]
          · exact .pure id

theorem blames_stmntExpr (construct : String) (s : State) :
    Blames tokens complaints (stmntExpr r construct) s fun e => AllBlamed complaints e.nodes := by
  refine .look rfl ?_
  split
  · exact hr.block construct _
  · exact hr.branch _
  · exact blames_select hr _
  · exact blames_forLoop hr _
  · exact blames_whileLoop hr _
  · exact hr.expr _ _ _

theorem blames_letStmnt (s : State) :
    Blames tokens complaints (letStmnt r) s fun st => AllBlamed complaints st.nodes := by
  refine .look rfl (blames_bump.skip fun _ _ => (hr.ptrn _ _ _).bind fun ptrn _ =>
    (blames_expect _ _).skip fun _ _ => (hr.expr _ _ _).bind fun init _ =>
    (blames_expect _ _).skip fun _ _ => (blames_finish _).skip fun span _ =>
    .pure fun hinit hptrn => ?_)
  simp [Stmnt.nodes, hptrn, hinit]

theorem blames_defItem (s : State) : Blames tokens complaints (defItem r) s fun it =>
    AllBlamed complaints (Stmnt.item it).nodes := by
  refine .look rfl (blames_bump.skip fun _ _ => (blames_ident _).skip fun id _ =>
    (blames_declare _ _).skip fun decl _ => (blames_expect _ _).skip fun _ _ =>
    (hr.expr _ _ _).bind fun expr _ => (blames_expect _ _).skip fun _ _ =>
    (blames_finish _).skip fun span _ => .pure fun hexpr => ?_)
  simp [Stmnt.nodes, hexpr]

theorem blames_fnItem (s : State) : Blames tokens complaints (fnItem r) s fun it =>
    AllBlamed complaints (Stmnt.item it).nodes := by
  refine .look rfl (blames_bump.skip fun _ _ => (blames_ident _).skip fun id _ =>
    (blames_declare _ _).skip fun decl _ => .look rfl ((hr.ptrn _ _ _).bind fun domain _ =>
    (blames_codomain hr _ _).bind fun codomain _ => (hr.block _ _).bind fun body _ =>
    (blames_finish _).skip fun span _ => (blames_finish _).skip fun whole _ =>
    .pure fun hbody hcodomain hdomain => ?_))
  simp [Stmnt.nodes, Expr.nodes, Expr.isError, hdomain, hcodomain, hbody]

/-- Without its brace a block is an error in front of the token that stands there instead. -/
theorem blames_block (construct : String) (s : State) :
    Blames tokens complaints (block r construct) s fun e => AllBlamed complaints e.nodes := by
  refine .look rfl ((blames_expect _ _).bind fun opened _ => ?_)
  split
  · refine (hr.blockBody _).bind fun body _ => (blames_expect _ _).skip fun _ _ =>
      (blames_finish _).skip fun span _ => .pure fun hbody _ => ?_
    simp [Expr.nodes, Expr.isError, hbody.1, hbody.2]
  · next hclosed =>
    refine (blames_finish _).bind fun span _ => .pure fun hspan hd => ?_
    rw [Expr.nodes, Node.allBlamed_cons]
    exact ⟨Node.blamed_at hspan (hd (Bool.not_eq_true _ ▸ hclosed)), Node.allBlamed_nil⟩

theorem blames_blockBody (s : State) : Blames tokens complaints (blockBody r) s fun body =>
    AllBlamed complaints (Stmnt.nodesOf body.1) ∧ AllBlamed complaints body.2.nodes := by
  have hadds : ∀ {st : Stmnt}, AllBlamed complaints st.nodes →
      Locates.Keeps (fun body : List Stmnt × Expr =>
        AllBlamed complaints (Stmnt.nodesOf body.1) ∧ AllBlamed complaints body.2.nodes)
        (blockRest st) :=
    fun hst => .goOn fun body hbody => by simp [Stmnt.nodesOf, hst, hbody.1, hbody.2]
  refine .loop (.look rfl ?_) hr.blockBody
  split
  · exact blames_bump.skip fun _ _ => .pure (.goOn fun _ hbody => hbody)
  · exact .look rfl (.pure (.leave (by
      simp [Expr.emptyTuple, Expr.nodes, Stmnt.nodesOf, Elem.nodesOf, Expr.isError])))
  · exact .look rfl (.pure (.leave (by
      simp [Expr.emptyTuple, Expr.nodes, Stmnt.nodesOf, Elem.nodesOf, Expr.isError])))
  · exact (blames_letStmnt hr _).bind fun st _ => .pure hadds
  · exact (blames_defItem hr _).bind fun it _ => .pure hadds
  · exact (blames_fnItem hr _).bind fun it _ => .pure hadds
  · have hstmnt : ∀ {span : Span} {expr : Expr}, AllBlamed complaints expr.nodes →
        AllBlamed complaints (Stmnt.expr span expr).nodes :=
      fun hexpr => by simp [Stmnt.nodes, hexpr]
    split
    · refine .look rfl ((blames_stmntExpr hr _ _).bind fun expr _ =>
        (blames_accept _).skip fun accepted _ => ?_)
      split
      · exact (blames_finish _).skip fun span _ => .pure fun hexpr => hadds (hstmnt hexpr)
      · refine .look rfl ?_
        split
        · exact .pure fun hexpr => .leave ⟨Node.allBlamed_nil, hexpr⟩
        · split
          · exact .pure fun hexpr => hadds (hstmnt hexpr)
          · exact (blames_expect _ _).skip fun _ _ => .pure fun hexpr => hadds (hstmnt hexpr)
    · exact (blames_unexpected _ _).skip fun _ _ => blames_bump.skip fun _ _ =>
        .pure (.goOn fun _ hbody => hbody)

theorem blames_stmnt (construct : String) (s : State) :
    Blames tokens complaints (stmnt r construct) s fun st => AllBlamed complaints st.nodes := by
  refine .look rfl ?_
  split
  · exact blames_letStmnt hr _
  · exact (blames_defItem hr _).bind fun it _ => .pure id
  · exact (blames_fnItem hr _).bind fun it _ => .pure id
  · refine .look rfl ((blames_stmntExpr hr _ _).bind fun expr _ =>
      (blames_accept _).skip fun accepted _ => ?_)
    have hrest : ∀ t, Blames tokens complaints (do return Stmnt.expr (← finish s.here.span) expr) t
        fun st => AllBlamed complaints expr.nodes → AllBlamed complaints st.nodes :=
      fun t => (blames_finish _).skip fun span _ => .pure fun hexpr => by simp [Stmnt.nodes, hexpr]
    split
    · exact hrest _
    · split
      · exact hrest _
      · exact (blames_expect _ _).skip fun _ _ => hrest _

theorem blames_stmnts (rounds : Nat) (s : State) :
    Blames tokens complaints (stmnts r rounds) s fun sts =>
      AllBlamed complaints (Stmnt.nodesOf sts) := by
  induction rounds generalizing s with
  | zero => exact .failure
  | succ rounds ih =>
    refine .loop (.look rfl ?_) ih
    split
    · exact .pure (.leave Node.allBlamed_nil)
    · exact blames_bump.skip fun _ _ => .pure (.goOn fun _ hsts => hsts)
    · split
      · exact .look rfl ((blames_stmnt hr _ _).bind fun st _ => (blames_recover _).skip fun _ _ =>
          .pure fun hst => .goOn fun sts hsts => by simp [Stmnt.nodesOf, hst, hsts])
      · exact (blames_unexpected _ _).skip fun _ _ => blames_bump.skip fun _ _ =>
          .pure (.goOn fun _ hsts => hsts)

end Productions

theorem blame_rules (calls : Nat) : (rules calls).Blame tokens complaints := by
  induction calls with
  | zero =>
    exact {
      expr _ _ _ := .failure
      operators _ _ _ _ := .failure
      ptrn _ _ _ := .failure
      ptrnElems _ _ := .failure
      tupleElems _ := .failure
      sigmaElems _ := .failure
      block _ _ := .failure
      blockBody _ := .failure
      branch _ := .failure
      arms _ := .failure }
  | succ calls ih =>
    exact {
      expr := blames_expr ih
      operators := blames_operators ih
      ptrn := blames_ptrn ih
      ptrnElems := blames_ptrnElems ih
      tupleElems := blames_tupleElems ih
      sigmaElems := blames_sigmaElems ih
      block := blames_block ih
      blockBody := blames_blockBody ih
      branch := blames_branch ih
      arms := blames_arms ih }

end Parser

/-- One complaint per token. Whatever is wrong with a source, the complaints of the parser come in the
order of its tokens, none of them invalid, and no two are about the same one. Where there is an error
node there is a complaint, and where an error node is empty a complaint begins. -/
theorem Module.parse_complaints (file : FileId) (source : String) (names : Interner) :
    let parsed := Module.parse file source names
    let complaints := parsed.reports.toList.filter Diagnostic.isComplaint
    (complaints.map Diagnostic.offset).Pairwise (· < ·) ∧
      (∀ d ∈ complaints, ∃ lexed ∈ Token.lex file source,
        lexed.token.kind ≠ .invalid ∧ d.span = lexed.token.span) ∧
      ∀ node ∈ parsed.result.walk, node.isError = true → complaints ≠ [] ∧
        (node.span.isEmpty = true → ∃ d ∈ complaints, d.offset = node.span.start.offset) := by
  obtain ⟨ss, t, hrun, heq⟩ := Parser.exists_run file source names
  obtain ⟨honward, hblamed⟩ := Parser.blames_stmnts (Parser.blame_rules _) _ _
    (Parser.orderly_start file source names) ss t hrun
  rw [heq]
  refine ⟨List.pairwise_map.2 honward.orderly.ordered, fun d hd => ?_, hblamed fun _ hd => hd⟩
  obtain ⟨token, htoken, hspan⟩ := honward.orderly.known d hd
  rw [Parser.tokens_significant] at htoken
  obtain ⟨hmem, hvalid⟩ := List.mem_filter.1 htoken
  obtain ⟨lexed, hlexed, rfl⟩ := List.mem_map.1 hmem
  exact ⟨lexed, hlexed, of_decide_eq_true hvalid, hspan⟩

/-- A name, a pattern and two braces are missed in front of three tokens. -/
example :
    ((Module.parse ⟨0⟩ "def = a; fn f ;" Interner.empty).reports.toList.filter
      Diagnostic.isComplaint).map Diagnostic.offset = [4, 14] := by
  decide +kernel

end ImpLang
