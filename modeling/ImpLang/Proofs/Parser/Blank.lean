import ImpLang.Parser.Source
import ImpLang.Proofs.Tree.Annotation

/-!
Parsers annotate nothing: every slot of a tree that comes out of a parser is unset, whatever the
source. So a tree stays as it is under every change of annotations that leaves unset slots alone.
-/

namespace ImpLang

namespace Parser

/-- Every result of a parser is of a kind. -/
def Returns {α : Type} (m : Parser α) (p : α → Prop) : Prop :=
  ∀ s a t, m s = some (a, t) → p a

namespace Returns

variable {α β : Type} {p : α → Prop} {q : β → Prop}

theorem pure {a : α} (h : p a) : Returns (pure a) p := by
  intro s b t hrun
  cases hrun
  exact h

theorem failure : Returns failure p := by
  intro s a t hrun
  cases hrun

theorem bind {m : Parser α} {f : α → Parser β} (hm : Returns m p)
    (hf : ∀ a, p a → Returns (f a) q) : Returns (m >>= f) q := by
  intro s b t hrun
  obtain ⟨⟨a, s'⟩, ha, hb⟩ := Option.bind_eq_some_iff.1 hrun
  exact hf a (hm s a s' ha) s' b t hb

/-- A step whose result does not matter. -/
theorem skip {m : Parser α} {f : α → Parser β} (hf : ∀ a, Returns (f a) q) :
    Returns (m >>= f) q :=
  bind (p := fun _ => True) (fun _ _ _ _ => trivial) fun a _ => hf a

/-- A property of the results of a loop that a round establishes or hands on. -/
inductive Keeps (p : α → Prop) : Turn α → Prop
  | leave {a : α} (h : p a) : Keeps p (.leave a)
  | goOn {wrap : α → α} (h : ∀ a, p a → p (wrap a)) : Keeps p (.goOn wrap)

theorem loop {round : Parser (Turn α)} {rest : Parser α} (hround : Returns round (Keeps p))
    (hrest : Returns rest p) : Returns (loop round rest) p := by
  refine hround.bind ?_
  rintro _ (ha | hwrap)
  · exact .pure ha
  · exact hrest.bind fun a ha => .pure (hwrap a ha)

end Returns

variable (name : Slot DeclId → Slot DeclId) (item : Slot Value → Slot Value)

/-- Productions whose trees a change of annotations leaves alone. -/
structure Rules.Blank (r : Rules) : Prop where
  expr : ∀ min construct, Returns (r.expr min construct) fun e => e.mapSlots name item = e
  operators : ∀ start min left, left.mapSlots name item = left →
    Returns (r.operators start min left) fun e => e.mapSlots name item = e
  ptrn : ∀ typed construct, Returns (r.ptrn typed construct) fun p => p.mapSlots name item = p
  ptrnElems : ∀ typed,
    Returns (r.ptrnElems typed) fun ps => Ptrn.mapSlotsList name item ps = ps
  tupleElems : Returns r.tupleElems fun es => Elem.mapSlotsList name item es.1 = es.1
  sigmaElems : Returns r.sigmaElems fun ps => Ptrn.mapSlotsList name item ps = ps
  block : ∀ construct, Returns (r.block construct) fun e => e.mapSlots name item = e
  blockBody : Returns r.blockBody fun body =>
    Stmnt.mapSlotsList name item body.1 = body.1 ∧ body.2.mapSlots name item = body.2
  branch : Returns r.branch fun e => e.mapSlots name item = e
  arms : Returns r.arms fun arms => Arm.mapSlotsList name item arms = arms

variable {name item}

/-- A span is no annotation. -/
theorem blank_withSpan {expr : Expr} (span : Span) (h : expr.mapSlots name item = expr) :
    (expr.withSpan span).mapSlots name item = expr.withSpan span := by
  have hspan : (expr.withSpan span).mapSlots name item =
      (expr.mapSlots name item).withSpan span := by cases expr <;> rfl
  rw [hspan, h]

theorem blank_single {expr : Span → Expr}
    (h : ∀ span, (expr span).mapSlots name item = expr span) :
    Returns (single expr) fun e => e.mapSlots name item = e :=
  .skip fun span => .skip fun _ => .pure (h span)

theorem blank_literal : Returns literal fun e => e.mapSlots name item = e := by
  refine .skip fun s => .skip fun _ => ?_
  split
  · exact .skip fun symbol => .pure rfl
  all_goals exact .pure rfl

variable {r : Rules} (hr : r.Blank name item)

include hr

theorem blank_ascription :
    Returns (ascription r) fun ty => Expr.mapSlots? name item ty = ty := by
  refine .skip fun accepted => ?_
  split
  · exact (hr.expr _ _).bind fun ty h => .pure (congrArg some h)
  · exact .pure rfl

theorem blank_ptrn (typed : Bool) (construct : String) :
    Returns (ptrn r typed construct) fun p => p.mapSlots name item = p := by
  refine .skip fun start => .skip fun kind => ?_
  split
  · refine .skip fun id => .skip fun decl => (blank_ascription hr).bind fun ty hty =>
      .skip fun span => .pure ?_
    simp only [Ptrn.mapSlots, hty]
  · refine .skip fun _ => (hr.ptrnElems typed).bind fun elems helems => .skip fun _ =>
      (blank_ascription hr).bind fun ty hty => .skip fun span => .pure ?_
    simp only [Ptrn.mapSlots, helems, hty]
  · exact .skip fun _ => .skip fun span => .pure rfl

theorem blank_ptrnElems (typed : Bool) :
    Returns (ptrnElems r typed) fun ps => Ptrn.mapSlotsList name item ps = ps := by
  refine .loop (.skip fun kind => ?_) (hr.ptrnElems typed)
  split
  · exact .pure (.leave rfl)
  · exact .pure (.leave rfl)
  · refine (hr.ptrn typed _).bind fun elem helem => ?_
    have hone : Ptrn.mapSlotsList name item [elem] = [elem] := by
      simp only [Ptrn.mapSlotsList, helem]
    split
    · exact .pure (.leave hone)
    · refine .skip fun separated => ?_
      split
      · refine .pure (.goOn fun elems helems => ?_)
        simp only [Ptrn.mapSlotsList, helem, helems]
      · exact .pure (.leave hone)

theorem blank_tupleElems :
    Returns (tupleElems r) fun es => Elem.mapSlotsList name item es.1 = es.1 := by
  refine .loop (.skip fun kind => ?_) hr.tupleElems
  split
  · exact .pure (.leave rfl)
  · exact .pure (.leave rfl)
  · refine .skip fun id => (hr.expr _ _).bind fun expr hexpr => ?_
    have hone : Elem.mapSlotsList name item [⟨id, expr⟩] = [⟨id, expr⟩] := by
      simp only [Elem.mapSlotsList, hexpr]
    split
    · exact .pure (.leave hone)
    · refine .skip fun separated => ?_
      split
      · refine .pure (.goOn fun elems helems => ?_)
        simp only [Elem.mapSlotsList, hexpr, helems]
      · exact .pure (.leave hone)

theorem blank_tuple : Returns (tuple r) fun e => e.mapSlots name item = e := by
  refine .skip fun start => .skip fun _ => hr.tupleElems.bind fun (elems, separated) helems =>
    .skip fun _ => .skip fun span => .pure ?_
  rw [grouping.eq_def]
  split
  · next hone =>
    cases hone
    simp only [Elem.mapSlotsList, List.cons.injEq, Elem.mk.injEq, and_true, true_and] at helems
    exact blank_withSpan span helems
  · next hsame =>
    cases hsame
    simp only [Expr.mapSlots, helems]

theorem blank_sigmaElem : Returns (sigmaElem r) fun p => p.mapSlots name item = p := by
  refine .skip fun start => .skip fun kind => .skip fun next => ?_
  split
  · refine .skip fun id => .skip fun decl => .skip fun _ => (hr.expr _ _).bind fun ty hty =>
      .skip fun span => .pure ?_
    simp only [Ptrn.mapSlots, Expr.mapSlots?, hty]
  · refine (hr.expr _ _).bind fun ty hty => .skip fun symbol => .skip fun decl => .pure ?_
    simp only [Ptrn.mapSlots, Expr.mapSlots?, hty]

theorem blank_sigmaElems :
    Returns (sigmaElems r) fun ps => Ptrn.mapSlotsList name item ps = ps := by
  refine .loop (.skip fun kind => ?_) hr.sigmaElems
  split
  · exact .pure (.leave rfl)
  · exact .pure (.leave rfl)
  · refine (blank_sigmaElem hr).bind fun elem helem => ?_
    have hone : Ptrn.mapSlotsList name item [elem] = [elem] := by
      simp only [Ptrn.mapSlotsList, helem]
    split
    · exact .pure (.leave hone)
    · refine .skip fun separated => ?_
      split
      · refine .pure (.goOn fun elems helems => ?_)
        simp only [Ptrn.mapSlotsList, helem, helems]
      · exact .pure (.leave hone)

theorem blank_sigma : Returns (sigma r) fun e => e.mapSlots name item = e := by
  refine .skip fun start => .skip fun _ => hr.sigmaElems.bind fun elems helems => .skip fun _ =>
    .skip fun span => .pure ?_
  simp only [Expr.mapSlots, helems]

theorem blank_codomain (construct : String) :
    Returns (codomain r construct) fun e => e.mapSlots name item = e := by
  refine .skip fun accepted => ?_
  split
  · exact hr.expr _ _
  · exact .skip fun s => .pure rfl

theorem blank_lambda : Returns (lambda r) fun e => e.mapSlots name item = e := by
  refine .skip fun start => .skip fun _ => (hr.ptrn _ _).bind fun domain hdomain =>
    (blank_codomain hr _).bind fun codomain hcodomain => (hr.block _).bind fun body hbody =>
    .skip fun span => .pure ?_
  simp only [Expr.mapSlots, hdomain, hcodomain, hbody]

theorem blank_pi : Returns (pi r) fun e => e.mapSlots name item = e := by
  refine .skip fun start => .skip fun _ => (hr.ptrn _ _).bind fun domain hdomain =>
    .skip fun _ => (hr.expr _ _).bind fun codomain hcodomain => .skip fun span => .pure ?_
  simp only [Expr.mapSlots, hdomain, hcodomain]

theorem blank_continuation : Returns (continuation r) fun e => e.mapSlots name item = e := by
  refine .skip fun start => .skip fun _ => (hr.ptrn _ _).bind fun domain hdomain =>
    .skip fun s => .skip fun span => .pure ?_
  simp only [Expr.mapSlots, hdomain]

theorem blank_pack : Returns (pack r) fun e => e.mapSlots name item = e := by
  refine .skip fun start => .skip fun _ => (hr.ptrn _ _).bind fun domain hdomain =>
    .skip fun _ => (hr.expr _ _).bind fun body hbody => .skip fun _ => .skip fun span => .pure ?_
  simp only [Expr.mapSlots, hdomain, hbody]

theorem blank_variadic : Returns (variadic r) fun e => e.mapSlots name item = e := by
  refine .skip fun start => .skip fun _ => (hr.ptrn _ _).bind fun domain hdomain =>
    .skip fun _ => (hr.expr _ _).bind fun body hbody => .skip fun _ => .skip fun span => .pure ?_
  simp only [Expr.mapSlots, hdomain, hbody]

theorem blank_otherwise : Returns (otherwise r) fun e => e.mapSlots name item = e := by
  refine .skip fun accepted => ?_
  split
  · refine .skip fun isIf => ?_
    split
    · exact hr.branch
    · exact hr.block _
  · exact .skip fun last => .pure rfl

theorem blank_branch : Returns (branch r) fun e => e.mapSlots name item = e := by
  refine .skip fun start => .skip fun _ => (hr.expr _ _).bind fun cond hcond =>
    (hr.block _).bind fun yes hyes => (blank_otherwise hr).bind fun no hno =>
    .skip fun span => .pure ?_
  simp only [Expr.mapSlots, hcond, hyes, hno]

theorem blank_arms : Returns (arms r) fun arms => Arm.mapSlotsList name item arms = arms := by
  refine .loop (.skip fun kind => ?_) hr.arms
  split
  · exact .pure (.leave rfl)
  · exact .pure (.leave rfl)
  · refine .skip fun start => (hr.ptrn _ _).bind fun ptrn hptrn => .skip fun _ =>
      (hr.expr _ _).bind fun body hbody => .skip fun s => .skip fun span => .skip fun separated => ?_
    have hrest : Returns (pure (Turn.goOn (⟨span, ptrn, body⟩ :: ·)))
        (Returns.Keeps fun arms => Arm.mapSlotsList name item arms = arms) := by
      refine .pure (.goOn fun arms harms => ?_)
      simp only [Arm.mapSlotsList, hptrn, hbody, harms]
    split
    · exact hrest
    · split
      · exact hrest
      · exact .skip fun _ => hrest

theorem blank_select : Returns (select r) fun e => e.mapSlots name item = e := by
  refine .skip fun start => .skip fun _ => (hr.expr _ _).bind fun scrutinee hscrutinee =>
    .skip fun opened => ?_
  split
  · refine hr.arms.bind fun arms harms => .skip fun _ => .skip fun span => .pure ?_
    simp only [Expr.mapSlots, hscrutinee, harms]
  · refine .skip fun span => .pure ?_
    simp only [Expr.mapSlots, Arm.mapSlotsList, hscrutinee]

theorem blank_forLoop : Returns (forLoop r) fun e => e.mapSlots name item = e := by
  refine .skip fun start => .skip fun _ => (hr.ptrn _ _).bind fun ptrn hptrn => .skip fun _ =>
    (hr.expr _ _).bind fun iter hiter => (hr.block _).bind fun body hbody =>
    .skip fun span => .pure ?_
  simp only [Expr.mapSlots, hptrn, hiter, hbody]

theorem blank_whileLoop : Returns (whileLoop r) fun e => e.mapSlots name item = e := by
  refine .skip fun start => .skip fun _ => (hr.expr _ _).bind fun cond hcond =>
    (hr.block _).bind fun body hbody => .skip fun span => .pure ?_
  simp only [Expr.mapSlots, hcond, hbody]

theorem blank_primary (hname : name .unset = .unset) (construct : String) :
    Returns (primary r construct) fun e => e.mapSlots name item = e := by
  refine .skip fun kind => ?_
  split
  · refine .skip fun id => .pure ?_
    simp only [Expr.mapSlots, hname]
  · exact blank_literal
  · exact blank_tuple hr
  · exact blank_sigma hr
  · exact hr.block construct
  · exact hr.branch
  · exact blank_select hr
  · exact blank_forLoop hr
  · exact blank_whileLoop hr
  · exact blank_lambda hr
  · exact blank_pi hr
  · exact blank_continuation hr
  · exact blank_pack hr
  · exact blank_variadic hr
  · exact blank_single fun _ => rfl
  · exact blank_single fun _ => rfl
  · exact blank_single fun _ => rfl
  · exact blank_single fun _ => rfl
  · exact blank_single fun _ => rfl
  · exact blank_single fun _ => rfl
  · exact .skip fun start => .skip fun _ => .skip fun span => .pure rfl

theorem blank_expr (hname : name .unset = .unset) (min : Prec) (construct : String) :
    Returns (expr r min construct) fun e => e.mapSlots name item = e := by
  refine .skip fun start => .skip fun kind => ?_
  split
  · refine .skip fun _ => (hr.expr _ _).bind fun operand hoperand => .skip fun span =>
      hr.operators _ _ _ ?_
    simp only [Expr.mapSlots, hoperand]
  · refine (blank_primary hr hname construct).bind fun operand hoperand => ?_
    split
    · exact .pure hoperand
    · exact hr.operators _ _ _ hoperand

theorem blank_operators (start : Span) (min : Prec) {left : Expr}
    (hleft : left.mapSlots name item = left) :
    Returns (operators r start min left) fun e => e.mapSlots name item = e := by
  refine .skip fun kind => ?_
  split
  · refine .skip fun _ => .skip fun span => hr.operators _ _ _ ?_
    simp only [Expr.mapSlots, hleft]
  · split
    · refine (blank_tuple hr).bind fun arg harg => .skip fun span => hr.operators _ _ _ ?_
      simp only [Expr.mapSlots, hleft, harg]
    · refine .skip fun next => ?_
      split
      · refine .skip fun _ => (blank_tuple hr).bind fun arg harg => .skip fun span =>
          hr.operators _ _ _ ?_
        simp only [Expr.mapSlots, hleft, harg]
      · split
        · refine .skip fun _ => .skip fun id => .skip fun span => hr.operators _ _ _ ?_
          simp only [Expr.mapSlots, hleft]
        · split
          · split
            · exact .pure hleft
            · refine .skip fun _ => (hr.expr _ _).bind fun right hright => .skip fun span =>
                hr.operators _ _ _ ?_
              simp only [Expr.mapSlots, hleft, hright]
          · exact .pure hleft

theorem blank_stmntExpr (construct : String) :
    Returns (stmntExpr r construct) fun e => e.mapSlots name item = e := by
  refine .skip fun kind => ?_
  split
  · exact hr.block construct
  · exact hr.branch
  · exact blank_select hr
  · exact blank_forLoop hr
  · exact blank_whileLoop hr
  · exact hr.expr _ _

theorem blank_letStmnt : Returns (letStmnt r) fun st => st.mapSlots name item = st := by
  refine .skip fun start => .skip fun _ => (hr.ptrn _ _).bind fun ptrn hptrn => .skip fun _ =>
    (hr.expr _ _).bind fun init hinit => .skip fun _ => .skip fun span => .pure ?_
  simp only [Stmnt.mapSlots, hptrn, hinit]

theorem blank_defItem (hitem : item .unset = .unset) :
    Returns (defItem r) fun it => (Stmnt.item it).mapSlots name item = .item it := by
  refine .skip fun start => .skip fun _ => .skip fun id => .skip fun decl => .skip fun _ =>
    (hr.expr _ _).bind fun expr hexpr => .skip fun _ => .skip fun span => .pure ?_
  simp only [Stmnt.mapSlots, hexpr, hitem]

theorem blank_fnItem (hitem : item .unset = .unset) :
    Returns (fnItem r) fun it => (Stmnt.item it).mapSlots name item = .item it := by
  refine .skip fun start => .skip fun _ => .skip fun id => .skip fun decl => .skip fun inner =>
    (hr.ptrn _ _).bind fun domain hdomain => (blank_codomain hr _).bind fun codomain hcodomain =>
    (hr.block _).bind fun body hbody => .skip fun span => .skip fun whole => .pure ?_
  simp only [Stmnt.mapSlots, Expr.mapSlots, hdomain, hcodomain, hbody, hitem]

theorem blank_block (construct : String) :
    Returns (block r construct) fun e => e.mapSlots name item = e := by
  refine .skip fun start => .skip fun opened => ?_
  split
  · refine hr.blockBody.bind fun body hbody => .skip fun _ => .skip fun span => .pure ?_
    simp only [Expr.mapSlots, hbody.1, hbody.2]
  · exact .skip fun span => .pure rfl

theorem blank_blockBody (hitem : item .unset = .unset) :
    Returns (blockBody r) fun body =>
      Stmnt.mapSlotsList name item body.1 = body.1 ∧ body.2.mapSlots name item = body.2 := by
  have hadds : ∀ {st : Stmnt}, st.mapSlots name item = st →
      Returns (pure (blockRest st)) (Returns.Keeps fun body : List Stmnt × Expr =>
        Stmnt.mapSlotsList name item body.1 = body.1 ∧ body.2.mapSlots name item = body.2) := by
    intro st hst
    refine .pure (.goOn fun body hbody => ⟨?_, hbody.2⟩)
    simp only [Stmnt.mapSlotsList, hst, hbody.1]
  refine .loop (.skip fun kind => ?_) hr.blockBody
  split
  · exact .skip fun _ => .pure (.goOn fun _ hbody => hbody)
  · exact .skip fun span => .pure (.leave ⟨rfl, rfl⟩)
  · exact .skip fun span => .pure (.leave ⟨rfl, rfl⟩)
  · exact (blank_letStmnt hr).bind fun st h => hadds h
  · exact (blank_defItem hr hitem).bind fun it h => hadds h
  · exact (blank_fnItem hr hitem).bind fun it h => hadds h
  · split
    · refine .skip fun start => (blank_stmntExpr hr _).bind fun expr hexpr =>
        .skip fun accepted => ?_
      have hstmnt : ∀ span, (Stmnt.expr span expr).mapSlots name item = .expr span expr := by
        intro span
        simp only [Stmnt.mapSlots, hexpr]
      split
      · exact .skip fun span => hadds (hstmnt span)
      · refine .skip fun closing => ?_
        split
        · exact .pure (.leave ⟨rfl, hexpr⟩)
        · split
          · exact hadds (hstmnt _)
          · exact .skip fun _ => hadds (hstmnt _)
    · exact .skip fun _ => .skip fun _ => .pure (.goOn fun _ hbody => hbody)

theorem blank_stmnt (hitem : item .unset = .unset) (construct : String) :
    Returns (stmnt r construct) fun st => st.mapSlots name item = st := by
  refine .skip fun kind => ?_
  split
  · exact blank_letStmnt hr
  · exact (blank_defItem hr hitem).bind fun it h => .pure h
  · exact (blank_fnItem hr hitem).bind fun it h => .pure h
  · refine .skip fun start => (blank_stmntExpr hr _).bind fun expr hexpr =>
      .skip fun accepted => ?_
    have hrest : Returns (do return Stmnt.expr (← finish start) expr) fun st =>
        st.mapSlots name item = st := by
      refine .skip fun span => .pure ?_
      simp only [Stmnt.mapSlots, hexpr]
    split
    · exact hrest
    · split
      · exact hrest
      · exact .skip fun _ => hrest

theorem blank_stmnts (hitem : item .unset = .unset) (rounds : Nat) :
    Returns (stmnts r rounds) fun sts => Stmnt.mapSlotsList name item sts = sts := by
  induction rounds with
  | zero => exact .failure
  | succ rounds ih =>
    refine .loop (.skip fun kind => ?_) ih
    split
    · exact .pure (.leave rfl)
    · exact .skip fun _ => .pure (.goOn fun _ hsts => hsts)
    · split
      · refine .skip fun before => (blank_stmnt hr hitem _).bind fun st hst =>
          .skip fun after => ?_
        refine .pure (.goOn fun sts hsts => ?_)
        simp only [Stmnt.mapSlotsList, hst, hsts]
      · exact .skip fun _ => .skip fun _ => .pure (.goOn fun _ hsts => hsts)

omit hr

theorem blank_rules (hname : name .unset = .unset) (hitem : item .unset = .unset) (calls : Nat) :
    (rules calls).Blank name item := by
  induction calls with
  | zero =>
    exact {
      expr _ _ := .failure
      operators _ _ _ _ := .failure
      ptrn _ _ := .failure
      ptrnElems _ := .failure
      tupleElems := .failure
      sigmaElems := .failure
      block _ := .failure
      blockBody := .failure
      branch := .failure
      arms := .failure }
  | succ calls ih =>
    exact {
      expr := blank_expr ih hname
      operators start min _ := blank_operators ih start min
      ptrn := blank_ptrn ih
      ptrnElems := blank_ptrnElems ih
      tupleElems := blank_tupleElems ih
      sigmaElems := blank_sigmaElems ih
      block := blank_block ih
      blockBody := blank_blockBody ih hitem
      branch := blank_branch ih
      arms := blank_arms ih }

end Parser

/-- A module as it is read has no annotations, whatever is wrong with its source. -/
theorem Module.parse_blank {name : Slot DeclId → Slot DeclId} {item : Slot Value → Slot Value}
    (hname : name .unset = .unset) (hitem : item .unset = .unset) (file : FileId) (source : String)
    (names : Interner) :
    Stmnt.mapSlotsList name item (Module.parse file source names).result.stmnts =
      (Module.parse file source names).result.stmnts := by
  simp only [Module.parse_eq_run, Parser.run, Parser.runFrom]
  cases hrun : Parser.stmnts _ _ _ with
  | none => rfl
  | some out => exact Parser.blank_stmnts (Parser.blank_rules hname hitem _) hitem _ _ _ _ hrun

end ImpLang
