import ImpLang.Proofs.Parser.Locating
import ImpLang.Proofs.Token.Tiling
import ImpLang.Proofs.Tree.Spanned

/-!
Every span in a tree that a parser makes is a range of its source, whatever is wrong with the
source.
-/

namespace ImpLang

/-- A part of a tree whose spans are all in a source. -/
abbrev Part.In (file : FileId) (source : List Char) (part : Part) : Prop :=
  part.Spanned (Span.In file source)

namespace Parser

variable {file : FileId} {source : List Char}


variable (file source) in
/-- Productions whose trees lie in the source. -/
structure Rules.Locate (r : Rules) : Prop where
  expr : ∀ min construct, Locates file source (r.expr min construct) fun e =>
    (Part.expr e).In file source
  operators : ∀ start min left, start.In file source → (Part.expr left).In file source →
    Locates file source (r.operators start min left) fun e => (Part.expr e).In file source
  ptrn : ∀ typed construct, Locates file source (r.ptrn typed construct) fun p =>
    (Part.ptrn p).In file source
  ptrnElems : ∀ typed, Locates file source (r.ptrnElems typed) fun ps =>
    ∀ p ∈ ps, (Part.ptrn p).In file source
  tupleElems : Locates file source r.tupleElems fun es => ∀ elem ∈ es.1,
    (∀ id, elem.id = some id → id.span.In file source) ∧ (Part.expr elem.expr).In file source
  sigmaElems : Locates file source r.sigmaElems fun ps => ∀ p ∈ ps, (Part.ptrn p).In file source
  block : ∀ construct, Locates file source (r.block construct) fun e =>
    (Part.expr e).In file source
  blockBody : Locates file source r.blockBody fun body =>
    (∀ st ∈ body.1, (Part.stmnt st).In file source) ∧ (Part.expr body.2).In file source
  branch : Locates file source r.branch fun e => (Part.expr e).In file source
  arms : Locates file source r.arms fun arms => ∀ arm ∈ arms, (Part.arm arm).In file source

/-- An expression without parts. -/
theorem in_leaf {e : Expr} (hspan : e.span.In file source) (hids : (Part.expr e).ids = [])
    (hparts : e.parts = []) : (Part.expr e).In file source := by
  refine .mk hspan ?_ ?_
  · rw [hids]
    exact List.forall_mem_nil _
  · rw [Part.children, hparts]
    exact List.forall_mem_nil _

theorem in_emptyTuple {s : Span} (h : s.In file source) :
    (Part.expr (.emptyTuple s)).In file source := in_leaf h rfl rfl

theorem in_emptyBlock {s : Span} (h : s.In file source) :
    (Part.expr (.emptyBlock s)).In file source := by
  refine .mk h (by simp [Expr.emptyBlock, Part.ids]) ?_
  simpa [Expr.emptyBlock, Part.children, Expr.parts] using in_emptyTuple h

theorem in_item {it : Item} (hspan : it.span.In file source) (hid : it.id.span.In file source)
    (hexpr : (Part.expr it.expr).In file source) : (Part.stmnt (.item it)).In file source := by
  refine .mk hspan (List.forall_mem_nil _) (List.forall_mem_singleton.2 (.mk hspan ?_ ?_))
  · exact List.forall_mem_singleton.2 hid
  · exact List.forall_mem_singleton.2 hexpr

theorem in_exprStmnt {span : Span} {e : Expr} (hspan : span.In file source)
    (he : (Part.expr e).In file source) : (Part.stmnt (.expr span e)).In file source :=
  .mk hspan (List.forall_mem_nil _) (List.forall_mem_singleton.2 he)

theorem locates_single {expr : Span → Expr} (hspan : ∀ span, (expr span).span = span)
    (hids : ∀ span, (Part.expr (expr span)).ids = []) (hparts : ∀ span, (expr span).parts = []) :
    Locates file source (single expr) fun e => (Part.expr e).In file source := by
  refine locates_track.bind fun span h => locates_bump.bind fun _ _ => .pure ?_
  refine in_leaf ?_ (hids span) (hparts span)
  rwa [hspan]

theorem locates_literal :
    Locates file source literal fun e => (Part.expr e).In file source := by
  refine locates_peek.bind fun token htoken => locates_bump.bind fun _ _ => ?_
  split
  · exact (locates_intern _).bind fun symbol _ => .pure (in_leaf htoken rfl rfl)
  all_goals exact .pure (in_leaf htoken rfl rfl)

theorem locates_elemName : Locates file source elemName fun id? =>
    ∀ id, id? = some id → id.span.In file source := by
  refine locates_kind.bind fun kind _ => locates_nextKind.bind fun next _ => ?_
  split
  · refine (locates_ident _).bind fun id hid => locates_bump.bind fun _ _ => .pure ?_
    intro id' hid'
    cases hid'
    exact hid
  · exact .pure fun id hid => absurd hid (by simp)

/-- A list that a loop reads an element of. -/
theorem keeps_cons {α : Type} {p : α → Prop} {a : α} (h : p a) :
    Locates.Keeps (fun as : List α => ∀ a ∈ as, p a) (.goOn (a :: ·)) :=
  .goOn fun _ has => List.forall_mem_cons.2 ⟨h, has⟩

theorem keeps_one {α : Type} {p : α → Prop} {a : α} (h : p a) :
    Locates.Keeps (fun as : List α => ∀ a ∈ as, p a) (.leave [a]) :=
  .leave (List.forall_mem_singleton.2 h)

theorem keeps_none {α : Type} {p : α → Prop} :
    Locates.Keeps (fun as : List α => ∀ a ∈ as, p a) (.leave []) := .leave (List.forall_mem_nil _)

section Productions

variable {r : Rules} (hr : r.Locate file source)

include hr

theorem locates_ascription : Locates file source (ascription r) fun ty =>
    ∀ e ∈ ty.toList, (Part.expr e).In file source := by
  refine (locates_accept _).bind fun accepted _ => ?_
  split
  · exact (hr.expr _ _).bind fun ty h => .pure (List.forall_mem_singleton.2 h)
  · exact .pure (List.forall_mem_nil _)

theorem locates_ptrn (typed : Bool) (construct : String) :
    Locates file source (ptrn r typed construct) fun p => (Part.ptrn p).In file source := by
  refine locates_track.bind fun start hstart => locates_kind.bind fun kind _ => ?_
  split
  · refine (locates_ident _).bind fun id hid => (locates_declare hid _).bind fun decl _ =>
      (locates_ascription hr).bind fun ty hty => (locates_finish hstart).bind fun span hspan =>
      .pure (.mk hspan ?_ ?_)
    · exact List.forall_mem_singleton.2 hid
    · exact List.forall_mem_map.2 hty
  · refine locates_bump.bind fun _ _ => (hr.ptrnElems typed).bind fun elems helems =>
      (locates_expect _ _).bind fun _ _ => (locates_ascription hr).bind fun ty hty =>
      (locates_finish hstart).bind fun span hspan => .pure (.mk hspan (List.forall_mem_nil _) ?_)
    exact List.forall_mem_append.2 ⟨List.forall_mem_map.2 helems, List.forall_mem_map.2 hty⟩
  · exact (locates_unexpected _ _).bind fun _ _ => (locates_finish hstart).bind fun span hspan =>
      .pure (.mk hspan (List.forall_mem_nil _) (List.forall_mem_nil _))

theorem locates_ptrnElems (typed : Bool) : Locates file source (ptrnElems r typed) fun ps =>
    ∀ p ∈ ps, (Part.ptrn p).In file source := by
  refine .loop (locates_kind.bind fun kind _ => ?_) (hr.ptrnElems typed)
  split
  · exact .pure keeps_none
  · exact .pure keeps_none
  · refine (hr.ptrn typed _).bind fun elem helem => ?_
    split
    · exact .pure (keeps_one helem)
    · refine locates_acceptSeparator.bind fun separated _ => ?_
      split
      · exact .pure (keeps_cons helem)
      · exact .pure (keeps_one helem)

theorem locates_tupleElems : Locates file source (tupleElems r) fun es => ∀ elem ∈ es.1,
    (∀ id, elem.id = some id → id.span.In file source) ∧
      (Part.expr elem.expr).In file source := by
  refine .loop (locates_kind.bind fun kind _ => ?_) hr.tupleElems
  split
  · exact .pure (.leave (List.forall_mem_nil _))
  · exact .pure (.leave (List.forall_mem_nil _))
  · refine locates_elemName.bind fun id hid => (hr.expr _ _).bind fun expr hexpr => ?_
    split
    · exact .pure (.leave (List.forall_mem_singleton.2 ⟨hid, hexpr⟩))
    · refine locates_acceptSeparator.bind fun separated _ => ?_
      split
      · exact .pure (.goOn fun _ hes => List.forall_mem_cons.2 ⟨⟨hid, hexpr⟩, hes⟩)
      · exact .pure (.leave (List.forall_mem_singleton.2 ⟨hid, hexpr⟩))

theorem locates_tuple :
    Locates file source (tuple r) fun e => (Part.expr e).In file source := by
  refine locates_track.bind fun start hstart => locates_bump.bind fun _ _ =>
    hr.tupleElems.bind fun (elems, separated) helems => (locates_expect _ _).bind fun _ _ =>
    (locates_finish hstart).bind fun span hspan => .pure ?_
  rw [grouping.eq_def]
  split
  · next hone =>
    cases hone
    exact .withSpan hspan (List.forall_mem_singleton.1 helems).2
  · next hsame =>
    cases hsame
    refine .mk hspan ?_ ?_
    · intro id hid
      obtain ⟨elem, helem, hsome⟩ := List.mem_filterMap.1 hid
      exact (helems elem helem).1 id hsome
    · exact List.forall_mem_map.2 fun elem helem => (helems elem helem).2

theorem locates_sigmaElem :
    Locates file source (sigmaElem r) fun p => (Part.ptrn p).In file source := by
  refine locates_track.bind fun start hstart => locates_kind.bind fun kind _ =>
    locates_nextKind.bind fun next _ => ?_
  split
  · refine (locates_ident _).bind fun id hid => (locates_declare hid _).bind fun decl _ =>
      locates_bump.bind fun _ _ => (hr.expr _ _).bind fun ty hty =>
      (locates_finish hstart).bind fun span hspan => .pure (.mk hspan ?_ ?_)
    · exact List.forall_mem_singleton.2 hid
    · exact List.forall_mem_singleton.2 hty
  · refine (hr.expr _ _).bind fun ty hty => (locates_intern _).bind fun symbol _ =>
      (locates_declare hty.span _).bind fun decl _ => .pure (.mk hty.span ?_ ?_)
    · exact List.forall_mem_singleton.2 hty.span
    · exact List.forall_mem_singleton.2 hty

theorem locates_sigmaElems : Locates file source (sigmaElems r) fun ps =>
    ∀ p ∈ ps, (Part.ptrn p).In file source := by
  refine .loop (locates_kind.bind fun kind _ => ?_) hr.sigmaElems
  split
  · exact .pure keeps_none
  · exact .pure keeps_none
  · refine (locates_sigmaElem hr).bind fun elem helem => ?_
    split
    · exact .pure (keeps_one helem)
    · refine locates_acceptSeparator.bind fun separated _ => ?_
      split
      · exact .pure (keeps_cons helem)
      · exact .pure (keeps_one helem)

theorem locates_sigma :
    Locates file source (sigma r) fun e => (Part.expr e).In file source := by
  refine locates_track.bind fun start hstart => locates_bump.bind fun _ _ =>
    hr.sigmaElems.bind fun elems helems => (locates_expect _ _).bind fun _ _ =>
    (locates_finish hstart).bind fun span hspan => .pure (.mk hspan (List.forall_mem_nil _) ?_)
  exact List.forall_mem_map.2 helems

theorem locates_codomain (construct : String) :
    Locates file source (codomain r construct) fun e => (Part.expr e).In file source := by
  refine (locates_accept _).bind fun accepted _ => ?_
  split
  · exact hr.expr _ _
  · exact locates_prev.bind fun last hlast => .pure (in_leaf hlast.endPoint rfl rfl)

theorem locates_lambda :
    Locates file source (lambda r) fun e => (Part.expr e).In file source := by
  refine locates_track.bind fun start hstart => locates_bump.bind fun _ _ =>
    (hr.ptrn _ _).bind fun domain hdomain => (locates_codomain hr _).bind fun codomain hcodomain =>
    (hr.block _).bind fun body hbody => (locates_finish hstart).bind fun span hspan =>
    .pure (.mk hspan (List.forall_mem_nil _) ?_)
  simp [Part.children, Expr.parts, hdomain, hcodomain, hbody]

theorem locates_pi : Locates file source (pi r) fun e => (Part.expr e).In file source := by
  refine locates_track.bind fun start hstart => locates_bump.bind fun _ _ =>
    (hr.ptrn _ _).bind fun domain hdomain => (locates_expect _ _).bind fun _ _ =>
    (hr.expr _ _).bind fun codomain hcodomain => (locates_finish hstart).bind fun span hspan =>
    .pure (.mk hspan (List.forall_mem_nil _) ?_)
  simp [Part.children, Expr.parts, hdomain, hcodomain]

theorem locates_continuation :
    Locates file source (continuation r) fun e => (Part.expr e).In file source := by
  refine locates_track.bind fun start hstart => locates_bump.bind fun _ _ =>
    (hr.ptrn _ _).bind fun domain hdomain => locates_prev.bind fun last hlast =>
    (locates_finish hstart).bind fun span hspan => .pure (.mk hspan (List.forall_mem_nil _) ?_)
  have hbottom : (Part.expr (.bottom last.endPoint)).In file source :=
    in_leaf hlast.endPoint rfl rfl
  simp [Part.children, Expr.parts, hdomain, hbottom]

theorem locates_pack : Locates file source (pack r) fun e => (Part.expr e).In file source := by
  refine locates_track.bind fun start hstart => locates_bump.bind fun _ _ =>
    (hr.ptrn _ _).bind fun domain hdomain => (locates_expect _ _).bind fun _ _ =>
    (hr.expr _ _).bind fun body hbody => (locates_expect _ _).bind fun _ _ =>
    (locates_finish hstart).bind fun span hspan => .pure (.mk hspan (List.forall_mem_nil _) ?_)
  simp [Part.children, Expr.parts, hdomain, hbody]

theorem locates_variadic :
    Locates file source (variadic r) fun e => (Part.expr e).In file source := by
  refine locates_track.bind fun start hstart => locates_bump.bind fun _ _ =>
    (hr.ptrn _ _).bind fun domain hdomain => (locates_expect _ _).bind fun _ _ =>
    (hr.expr _ _).bind fun body hbody => (locates_expect _ _).bind fun _ _ =>
    (locates_finish hstart).bind fun span hspan => .pure (.mk hspan (List.forall_mem_nil _) ?_)
  simp [Part.children, Expr.parts, hdomain, hbody]

theorem locates_otherwise :
    Locates file source (otherwise r) fun e => (Part.expr e).In file source := by
  refine (locates_accept _).bind fun accepted _ => ?_
  split
  · refine (locates_isAt _).bind fun isIf _ => ?_
    split
    · exact hr.branch
    · exact hr.block _
  · exact locates_prev.bind fun last hlast => .pure (in_emptyBlock hlast.endPoint)

theorem locates_branch :
    Locates file source (branch r) fun e => (Part.expr e).In file source := by
  refine locates_track.bind fun start hstart => locates_bump.bind fun _ _ =>
    (hr.expr _ _).bind fun cond hcond => (hr.block _).bind fun yes hyes =>
    (locates_otherwise hr).bind fun no hno => (locates_finish hstart).bind fun span hspan =>
    .pure (.mk hspan (List.forall_mem_nil _) ?_)
  simp [Part.children, Expr.parts, hcond, hyes, hno]

theorem locates_arms : Locates file source (arms r) fun arms =>
    ∀ arm ∈ arms, (Part.arm arm).In file source := by
  refine .loop (locates_kind.bind fun kind _ => ?_) hr.arms
  split
  · exact .pure keeps_none
  · exact .pure keeps_none
  · refine locates_track.bind fun start hstart => (hr.ptrn _ _).bind fun ptrn hptrn =>
      (locates_expect _ _).bind fun _ _ => (hr.expr _ _).bind fun body hbody =>
      locates_prev.bind fun last _ => (locates_finish hstart).bind fun span hspan =>
      locates_acceptSeparator.bind fun separated _ => ?_
    have harm : (Part.arm ⟨span, ptrn, body⟩).In file source := by
      refine .mk hspan (List.forall_mem_nil _) ?_
      simp [Part.children, hptrn, hbody]
    split
    · exact .pure (keeps_cons harm)
    · split
      · exact .pure (keeps_cons harm)
      · exact locates_bump.bind fun _ _ => .pure (keeps_cons harm)

theorem locates_select :
    Locates file source (select r) fun e => (Part.expr e).In file source := by
  refine locates_track.bind fun start hstart => locates_bump.bind fun _ _ =>
    (hr.expr _ _).bind fun scrutinee hscrutinee => (locates_expect _ _).bind fun opened _ => ?_
  split
  · refine hr.arms.bind fun arms harms => (locates_expect _ _).bind fun _ _ =>
      (locates_finish hstart).bind fun span hspan => .pure (.mk hspan (List.forall_mem_nil _) ?_)
    exact List.forall_mem_cons.2 ⟨hscrutinee, List.forall_mem_map.2 harms⟩
  · refine (locates_finish hstart).bind fun span hspan =>
      .pure (.mk hspan (List.forall_mem_nil _) ?_)
    exact List.forall_mem_singleton.2 hscrutinee

theorem locates_forLoop :
    Locates file source (forLoop r) fun e => (Part.expr e).In file source := by
  refine locates_track.bind fun start hstart => locates_bump.bind fun _ _ =>
    (hr.ptrn _ _).bind fun ptrn hptrn => (locates_expect _ _).bind fun _ _ =>
    (hr.expr _ _).bind fun iter hiter => (hr.block _).bind fun body hbody =>
    (locates_finish hstart).bind fun span hspan => .pure (.mk hspan (List.forall_mem_nil _) ?_)
  simp [Part.children, Expr.parts, hptrn, hiter, hbody]

theorem locates_whileLoop :
    Locates file source (whileLoop r) fun e => (Part.expr e).In file source := by
  refine locates_track.bind fun start hstart => locates_bump.bind fun _ _ =>
    (hr.expr _ _).bind fun cond hcond => (hr.block _).bind fun body hbody =>
    (locates_finish hstart).bind fun span hspan => .pure (.mk hspan (List.forall_mem_nil _) ?_)
  simp [Part.children, Expr.parts, hcond, hbody]

theorem locates_primary (construct : String) :
    Locates file source (primary r construct) fun e => (Part.expr e).In file source := by
  refine locates_kind.bind fun kind _ => ?_
  split
  · refine (locates_ident _).bind fun id hid => .pure (.mk hid ?_ (List.forall_mem_nil _))
    exact List.forall_mem_singleton.2 hid
  · exact locates_literal
  · exact locates_tuple hr
  · exact locates_sigma hr
  · exact hr.block construct
  · exact hr.branch
  · exact locates_select hr
  · exact locates_forLoop hr
  · exact locates_whileLoop hr
  · exact locates_lambda hr
  · exact locates_pi hr
  · exact locates_continuation hr
  · exact locates_pack hr
  · exact locates_variadic hr
  iterate 6 exact locates_single (fun _ => rfl) (fun _ => rfl) fun _ => rfl
  · exact locates_track.bind fun start hstart => (locates_unexpected _ _).bind fun _ _ =>
      (locates_finish hstart).bind fun span hspan => .pure (in_leaf hspan rfl rfl)

theorem locates_expr (min : Prec) (construct : String) :
    Locates file source (expr r min construct) fun e => (Part.expr e).In file source := by
  refine locates_track.bind fun start hstart => locates_kind.bind fun kind _ => ?_
  split
  · refine locates_bump.bind fun _ _ => (hr.expr _ _).bind fun operand hoperand =>
      (locates_finish hstart).bind fun span hspan => hr.operators _ _ _ hstart ?_
    refine .mk hspan (List.forall_mem_nil _) ?_
    exact List.forall_mem_singleton.2 hoperand
  · refine (locates_primary hr construct).bind fun operand hoperand => ?_
    split
    · exact .pure hoperand
    · exact hr.operators _ _ _ hstart hoperand

theorem locates_operators {start : Span} (hstart : start.In file source) (min : Prec) {left : Expr}
    (hleft : (Part.expr left).In file source) :
    Locates file source (operators r start min left) fun e => (Part.expr e).In file source := by
  have happ : ∀ (arg : Expr) (impl : Bool), (Part.expr arg).In file source →
      Locates file source (do r.operators start min (.app (← finish start) left arg impl))
        fun e => (Part.expr e).In file source := by
    refine fun arg impl harg => (locates_finish hstart).bind fun span hspan =>
      hr.operators _ _ _ hstart (.mk hspan (List.forall_mem_nil _) ?_)
    simp [Part.children, Expr.parts, hleft, harg]
  refine locates_kind.bind fun kind _ => ?_
  split
  · refine locates_bump.bind fun _ _ => (locates_finish hstart).bind fun span hspan =>
      hr.operators _ _ _ hstart (.mk hspan (List.forall_mem_nil _) ?_)
    exact List.forall_mem_singleton.2 hleft
  · split
    · exact (locates_tuple hr).bind fun arg harg => happ arg _ harg
    · refine locates_nextKind.bind fun next _ => ?_
      split
      · exact locates_bump.bind fun _ _ => (locates_tuple hr).bind fun arg harg => happ arg _ harg
      · split
        · refine locates_bump.bind fun _ _ => (locates_ident _).bind fun id hid =>
            (locates_finish hstart).bind fun span hspan =>
            hr.operators _ _ _ hstart (.mk hspan ?_ ?_)
          · exact List.forall_mem_singleton.2 hid
          · exact List.forall_mem_singleton.2 hleft
        · split
          · split
            · exact .pure hleft
            · refine locates_bump.bind fun _ _ => (hr.expr _ _).bind fun right hright =>
                (locates_finish hstart).bind fun span hspan =>
                hr.operators _ _ _ hstart (.mk hspan (List.forall_mem_nil _) ?_)
              simp [Part.children, Expr.parts, hleft, hright]
          · exact .pure hleft

theorem locates_stmntExpr (construct : String) :
    Locates file source (stmntExpr r construct) fun e => (Part.expr e).In file source := by
  refine locates_kind.bind fun kind _ => ?_
  split
  · exact hr.block construct
  · exact hr.branch
  · exact locates_select hr
  · exact locates_forLoop hr
  · exact locates_whileLoop hr
  · exact hr.expr _ _

theorem locates_letStmnt :
    Locates file source (letStmnt r) fun st => (Part.stmnt st).In file source := by
  refine locates_track.bind fun start hstart => locates_bump.bind fun _ _ =>
    (hr.ptrn _ _).bind fun ptrn hptrn => (locates_expect _ _).bind fun _ _ =>
    (hr.expr _ _).bind fun init hinit => (locates_expect _ _).bind fun _ _ =>
    (locates_finish hstart).bind fun span hspan => .pure (.mk hspan (List.forall_mem_nil _) ?_)
  simp [Part.children, Stmnt.parts, hptrn, hinit]

theorem locates_defItem :
    Locates file source (defItem r) fun it => (Part.stmnt (.item it)).In file source := by
  exact locates_track.bind fun start hstart => locates_bump.bind fun _ _ =>
    (locates_ident _).bind fun id hid => (locates_declare hid _).bind fun decl _ =>
    (locates_expect _ _).bind fun _ _ => (hr.expr _ _).bind fun expr hexpr =>
    (locates_expect _ _).bind fun _ _ => (locates_finish hstart).bind fun span hspan =>
    .pure (in_item hspan hid hexpr)

theorem locates_fnItem :
    Locates file source (fnItem r) fun it => (Part.stmnt (.item it)).In file source := by
  refine locates_track.bind fun start hstart => locates_bump.bind fun _ _ =>
    (locates_ident _).bind fun id hid => (locates_declare hid _).bind fun decl _ =>
    locates_track.bind fun inner hinner => (hr.ptrn _ _).bind fun domain hdomain =>
    (locates_codomain hr _).bind fun codomain hcodomain => (hr.block _).bind fun body hbody =>
    (locates_finish hinner).bind fun span hspan => (locates_finish hstart).bind fun whole hwhole =>
    .pure (in_item hwhole hid (.mk hspan (List.forall_mem_nil _) ?_))
  simp [Part.children, Expr.parts, hdomain, hcodomain, hbody]

theorem locates_block (construct : String) :
    Locates file source (block r construct) fun e => (Part.expr e).In file source := by
  refine locates_track.bind fun start hstart => (locates_expect _ _).bind fun opened _ => ?_
  split
  · refine hr.blockBody.bind fun body hbody => (locates_expect _ _).bind fun _ _ =>
      (locates_finish hstart).bind fun span hspan => .pure (.mk hspan (List.forall_mem_nil _) ?_)
    exact List.forall_mem_append.2
      ⟨List.forall_mem_map.2 hbody.1, List.forall_mem_singleton.2 hbody.2⟩
  · exact (locates_finish hstart).bind fun span hspan => .pure (in_leaf hspan rfl rfl)

theorem locates_blockBody : Locates file source (blockBody r) fun body =>
    (∀ st ∈ body.1, (Part.stmnt st).In file source) ∧ (Part.expr body.2).In file source := by
  have hadds : ∀ {st : Stmnt}, (Part.stmnt st).In file source →
      Locates file source (pure (blockRest st)) (Locates.Keeps fun body : List Stmnt × Expr =>
        (∀ st ∈ body.1, (Part.stmnt st).In file source) ∧ (Part.expr body.2).In file source) :=
    fun hst => .pure (.goOn fun body hbody => ⟨List.forall_mem_cons.2 ⟨hst, hbody.1⟩, hbody.2⟩)
  refine .loop (locates_kind.bind fun kind _ => ?_) hr.blockBody
  split
  · exact locates_bump.bind fun _ _ => .pure (.goOn fun _ hbody => hbody)
  · exact locates_track.bind fun span hspan =>
      .pure (.leave ⟨List.forall_mem_nil _, in_emptyTuple hspan⟩)
  · exact locates_track.bind fun span hspan =>
      .pure (.leave ⟨List.forall_mem_nil _, in_emptyTuple hspan⟩)
  · exact (locates_letStmnt hr).bind fun st h => hadds h
  · exact (locates_defItem hr).bind fun it h => hadds h
  · exact (locates_fnItem hr).bind fun it h => hadds h
  · split
    · refine locates_track.bind fun start hstart => (locates_stmntExpr hr _).bind fun expr hexpr =>
        (locates_accept _).bind fun accepted _ => ?_
      split
      · exact (locates_finish hstart).bind fun span hspan => hadds (in_exprStmnt hspan hexpr)
      · refine (locates_isAt _).bind fun closing _ => ?_
        split
        · exact .pure (.leave ⟨List.forall_mem_nil _, hexpr⟩)
        · split
          · exact hadds (in_exprStmnt hexpr.span hexpr)
          · exact (locates_expect _ _).bind fun _ _ => hadds (in_exprStmnt hexpr.span hexpr)
    · exact (locates_unexpected _ _).bind fun _ _ => locates_bump.bind fun _ _ =>
        .pure (.goOn fun _ hbody => hbody)

theorem locates_stmnt (construct : String) :
    Locates file source (stmnt r construct) fun st => (Part.stmnt st).In file source := by
  refine locates_kind.bind fun kind _ => ?_
  split
  · exact locates_letStmnt hr
  · exact (locates_defItem hr).bind fun it h => .pure h
  · exact (locates_fnItem hr).bind fun it h => .pure h
  · refine locates_track.bind fun start hstart => (locates_stmntExpr hr _).bind fun expr hexpr =>
      (locates_accept _).bind fun accepted _ => ?_
    have hrest : Locates file source (do return Stmnt.expr (← finish start) expr) fun st =>
        (Part.stmnt st).In file source :=
      (locates_finish hstart).bind fun span hspan => .pure (in_exprStmnt hspan hexpr)
    split
    · exact hrest
    · split
      · exact hrest
      · exact (locates_expect _ _).bind fun _ _ => hrest

theorem locates_stmnts (rounds : Nat) : Locates file source (stmnts r rounds) fun sts =>
    ∀ st ∈ sts, (Part.stmnt st).In file source := by
  induction rounds with
  | zero => exact .failure
  | succ rounds ih =>
    refine .loop (locates_kind.bind fun kind _ => ?_) ih
    split
    · exact .pure keeps_none
    · exact locates_bump.bind fun _ _ => .pure (.goOn fun _ hsts => hsts)
    · split
      · exact locates_reported.bind fun before _ => (locates_stmnt hr _).bind fun st hst =>
          (locates_recover _).bind fun _ _ => .pure (keeps_cons hst)
      · exact (locates_unexpected _ _).bind fun _ _ => locates_bump.bind fun _ _ =>
          .pure (.goOn fun _ hsts => hsts)

end Productions

theorem locates_rules (calls : Nat) : (rules calls).Locate file source := by
  induction calls with
  | zero =>
    exact {
      expr _ _ := .failure
      operators _ _ _ _ _ := .failure
      ptrn _ _ := .failure
      ptrnElems _ := .failure
      tupleElems := .failure
      sigmaElems := .failure
      block _ := .failure
      blockBody := .failure
      branch := .failure
      arms := .failure }
  | succ calls ih =>
    exact {
      expr := locates_expr ih
      operators _ min _ hstart := locates_operators ih hstart min
      ptrn := locates_ptrn ih
      ptrnElems := locates_ptrnElems ih
      tupleElems := locates_tupleElems ih
      sigmaElems := locates_sigmaElems ih
      block := locates_block ih
      blockBody := locates_blockBody ih
      branch := locates_branch ih
      arms := locates_arms ih }

/-- Before anything is consumed, all that is known are tokens and what is wrong with them. -/
theorem located_start (file : FileId) (source : String) (names : Interner) :
    (State.start file source names).Located file source.toList := by
  obtain ⟨_, htiles, -⟩ := Token.tiles_lexFrom file _ Place.first source.toList
    (Nat.lt_succ_self _)
  have htokens := htiles.in_source []
  have hreports := reports_significant (p := fun d => d.span.In file source.toList)
    (Token.in_reports_lexFrom file (source.toList.length + 1) [] source.toList)
  have hlexed : ∀ lexed ∈ significant (Token.lex file source),
      lexed.token.span.In file source.toList ∧
        ∀ d ∈ lexed.reports, d.span.In file source.toList := by
    intro lexed hlexed
    refine ⟨?_, hreports lexed hlexed⟩
    have hmem : lexed.token ∈ (significant (Token.lex file source)).map Lexed.token :=
      List.mem_map_of_mem hlexed
    rw [tokens_significant] at hmem
    exact htokens _ (List.mem_of_mem_filter hmem)
  have hblank : ∀ {here : Token} {beyond : List Lexed}, here.span.In file source.toList →
      (∀ lexed ∈ beyond, lexed.token.span.In file source.toList ∧
        ∀ d ∈ lexed.reports, d.span.In file source.toList) →
      State.Located file source.toList
        { behind := [], here, beyond, lastError := none
          decls := Decls.empty, names, reports := #[] } := by
    intro here beyond hhere hbeyond
    refine ⟨hhere, ?_, hbeyond, by simp [Decls.empty], by simp⟩
    rw [State.prev, hhere.file]
    exact .origin ..
  simp only [State.start, State.opening]
  split
  · exact hblank (.origin ..) (List.forall_mem_nil _)
  · next first hfirst =>
    rw [hfirst] at hlexed
    have hone := hlexed first (List.mem_cons_self ..)
    exact (hblank hone.1 (List.forall_mem_nil _)).enter hone.2
  · next first second rest hfirst =>
    rw [hfirst] at hlexed
    obtain ⟨hone, hrest⟩ := List.forall_mem_cons.1 hlexed
    exact ((hblank hone.1 hrest).enter hone.2).enter (hrest second (List.mem_cons_self ..)).2

end Parser

/-- A module as it is read, its declarations and the reports on it lie in its source, whatever is
wrong with it. -/
theorem Module.parse_located (file : FileId) (source : String) (names : Interner) :
    let parsed := Module.parse file source names
    (Part.module parsed.result).In file source.toList ∧
      (∀ decl ∈ parsed.result.decls.toArray, decl.span.In file source.toList) ∧
      ∀ d ∈ parsed.reports, d.span.In file source.toList := by
  obtain ⟨ss, t, hrun, heq⟩ := Parser.exists_run file source names
  obtain ⟨hss, ht⟩ := Parser.locates_stmnts (Parser.locates_rules _) _ _ _ _
    (Parser.located_start file source names) hrun
  rw [heq]
  refine ⟨.mk ?_ (List.forall_mem_nil _) (List.forall_mem_map.2 hss), ht.decls, ht.reports⟩
  exact Span.In.cover (.origin ..) ht.here

end ImpLang
