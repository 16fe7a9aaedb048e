import ImpLang.Proofs.Parser.Simulation

/-!
Every production of the grammar follows itself over a link, whatever the numbers of nested calls of
the two runs are: it reads the same tree in both, up to the renaming.
-/

namespace ImpLang

namespace Parser

variable (L : Link)

namespace Link

/-- The renaming of the elements of a tuple. -/
def elems (elems : List Elem × Bool) : List Elem × Bool :=
  (Elem.relabelList L.relabel elems.1, elems.2)

/-- The renaming of the inside of a block. -/
def body (body : List Stmnt × Expr) : List Stmnt × Expr :=
  (Stmnt.relabelList L.relabel body.1, body.2.relabel L.relabel)

end Link

/-- Productions whose runs follow each other. -/
structure Rules.Followed (r r' : Rules) : Prop where
  expr : ∀ min construct,
    Follows L L.Rel (r.expr min construct) (r'.expr min construct) (Maps (Expr.relabel L.relabel))
  operators : ∀ start min left,
    Follows L L.Rel (r.operators start min left)
      (r'.operators (L.span start) min (left.relabel L.relabel)) (Maps (Expr.relabel L.relabel))
  ptrn : ∀ typed construct,
    Follows L L.Rel (r.ptrn typed construct) (r'.ptrn typed construct)
      (Maps (Ptrn.relabel L.relabel))
  ptrnElems : ∀ typed,
    Follows L L.Rel (r.ptrnElems typed) (r'.ptrnElems typed) (Maps (Ptrn.relabelList L.relabel))
  tupleElems : Follows L L.Rel r.tupleElems r'.tupleElems (Maps L.elems)
  sigmaElems :
    Follows L L.Rel r.sigmaElems r'.sigmaElems (Maps (Ptrn.relabelList L.relabel))
  block : ∀ construct,
    Follows L L.Rel (r.block construct) (r'.block construct) (Maps (Expr.relabel L.relabel))
  blockBody : Follows L L.Rel r.blockBody r'.blockBody (Maps L.body)
  branch : Follows L L.Rel r.branch r'.branch (Maps (Expr.relabel L.relabel))
  arms : Follows L L.Rel r.arms r'.arms (Maps (Arm.relabelList L.relabel))

variable {L} {r r' : Rules} [r.Growing] [r'.Growing] (hr : Rules.Followed L r r')

theorem follows_single {expr : Span → Expr}
    (h : ∀ span, expr (L.span span) = (expr span).relabel L.relabel) :
    Follows L L.Rel (single expr) (single expr) (Maps (Expr.relabel L.relabel)) :=
  .track fun span => follows_bump.then (.pure (h span))

theorem follows_literal :
    Follows L L.Rel literal literal (Maps (Expr.relabel L.relabel)) := by
  refine .peek fun token => ?_
  rw [show (L.token token).payload = token.payload from rfl]
  split
  · exact follows_bump.then ((follows_intern _).bind fun symbol => .pure rfl)
  all_goals exact follows_bump.then (.pure rfl)

theorem follows_elemName :
    Follows L L.Rel elemName elemName (Maps (Option.map (Id.relabel L.relabel))) := by
  refine .kind fun here => .nextKind fun next => .ite (fun _ => ?_) fun _ => .pure rfl
  exact (follows_ident _).bind fun i => follows_bump.then (.pure rfl)

include hr

theorem follows_ascription :
    Follows L L.Rel (ascription r) (ascription r') (Maps (Expr.relabel? L.relabel)) := by
  refine (follows_accept .colon).bind fun found => .ite (fun _ => ?_) fun _ => .pure rfl
  exact (hr.expr _ _).bind fun ty => .pure rfl

theorem follows_ptrn (typed : Bool) (construct : String) :
    Follows L L.Rel (ptrn r typed construct) (ptrn r' typed construct)
      (Maps (Ptrn.relabel L.relabel)) := by
  refine .track fun start => .kind fun here => ?_
  split
  · exact (follows_ident construct).bind fun i => (follows_declare i .binding).bind fun decl =>
      (follows_ascription hr).bind fun ty => .finish fun span => .pure rfl
  · exact follows_bump.then ((hr.ptrnElems typed).bind fun elems => (follows_expect _ _).bind fun _ =>
      (follows_ascription hr).bind fun ty => .finish fun span => .pure rfl)
  · exact (follows_unexpected _ _).then (.finish fun span => .pure rfl)

omit [r.Growing] [r'.Growing] in
theorem follows_ptrnElemsTurn (typed : Bool) :
    Follows L L.Rel (ptrnElemsTurn r typed) (ptrnElemsTurn r' typed)
      (Turn.Follows (Ptrn.relabelList L.relabel)) := by
  refine .kind fun here => ?_
  split
  · exact .pure (.leave _)
  · exact .pure (.leave _)
  · refine (hr.ptrn typed _).bind fun elem => ?_
    rw [Ptrn.isError_relabel]
    refine .ite (fun _ => .pure (.leave [elem])) fun _ => ?_
    refine follows_acceptSeparator.bind fun separated => .ite (fun _ => ?_) fun _ => ?_
    · exact .pure (.goOn fun elems => rfl)
    · exact .pure (.leave [elem])

theorem follows_tupleElemsTurn :
    Follows L L.Rel (tupleElemsTurn r) (tupleElemsTurn r') (Turn.Follows L.elems) := by
  refine .kind fun here => ?_
  split
  · exact .pure (.leave ([], false))
  · exact .pure (.leave ([], false))
  · refine follows_elemName.bind fun i => (hr.expr _ _).bind fun expr => ?_
    have hlast : Turn.Follows L.elems _ _ := .leave ([⟨i, expr⟩], false)
    rw [Expr.isError_relabel]
    refine .ite (fun _ => .pure hlast) fun _ => ?_
    refine follows_acceptSeparator.bind fun separated => .ite (fun _ => ?_) fun _ => ?_
    · exact .pure (.goOn fun elems => rfl)
    · exact .pure hlast

omit hr in
/-- Only its shape decides whether a list of elements is a tuple. -/
theorem grouping_relabel (span : Span) (elems : List Elem × Bool) :
    grouping (L.span span) (L.elems elems) =
      (grouping span elems).relabel L.relabel := by
  rcases elems with ⟨_ | ⟨⟨_ | i, expr⟩, _ | ⟨⟨j, next⟩, elems⟩⟩, _ | _⟩
  case cons.none.nil.false =>
    exact (Expr.withSpan_relabel _ expr span).symm
  all_goals rfl

theorem follows_tuple :
    Follows L L.Rel (tuple r) (tuple r') (Maps (Expr.relabel L.relabel)) := by
  refine .track fun start => follows_bump.then (hr.tupleElems.bind fun elems => ?_)
  exact (follows_expect _ _).bind fun _ => .finish fun span => .pure (grouping_relabel span elems)

theorem follows_sigmaElem :
    Follows L L.Rel (sigmaElem r) (sigmaElem r') (Maps (Ptrn.relabel L.relabel)) := by
  refine .track fun start => .kind fun here => .nextKind fun next => .ite (fun _ => ?_) fun _ => ?_
  · exact (follows_ident _).bind fun i => (follows_declare i .binding).bind fun decl =>
      follows_bump.then ((hr.expr _ _).bind fun ty => .finish fun span => .pure rfl)
  · refine (hr.expr _ _).bind fun ty => (follows_intern _).bind fun symbol => ?_
    rw [Expr.span_relabel]
    exact (follows_declare ⟨symbol, ty.span⟩ .binding).bind fun decl => .pure rfl

theorem follows_sigmaElemsTurn :
    Follows L L.Rel (sigmaElemsTurn r) (sigmaElemsTurn r')
      (Turn.Follows (Ptrn.relabelList L.relabel)) := by
  refine .kind fun here => ?_
  split
  · exact .pure (.leave _)
  · exact .pure (.leave _)
  · refine (follows_sigmaElem hr).bind fun elem => ?_
    have herror : ((elem.relabel L.relabel).ty?.map Expr.isError).getD false =
        (elem.ty?.map Expr.isError).getD false := by
      rw [Ptrn.ty?_relabel]
      cases elem.ty? with
      | none => rfl
      | some ty => exact Expr.isError_relabel _ ty
    rw [herror]
    refine .ite (fun _ => .pure (.leave [elem])) fun _ => ?_
    refine follows_acceptSeparator.bind fun separated => .ite (fun _ => ?_) fun _ => ?_
    · exact .pure (.goOn fun elems => rfl)
    · exact .pure (.leave [elem])

theorem follows_sigma :
    Follows L L.Rel (sigma r) (sigma r') (Maps (Expr.relabel L.relabel)) :=
  .track fun _ => follows_bump.then (hr.sigmaElems.bind fun _ =>
    (follows_expect _ _).bind fun _ => .finish fun _ => .pure rfl)

theorem follows_codomain (construct : String) :
    Follows L L.Rel (codomain r construct) (codomain r' construct)
      (Maps (Expr.relabel L.relabel)) := by
  refine (follows_accept .arrow).bind fun found => .ite (fun _ => hr.expr _ _) fun _ => ?_
  exact .prev fun last => .pure rfl

theorem follows_lambda :
    Follows L L.Rel (lambda r) (lambda r') (Maps (Expr.relabel L.relabel)) :=
  .track fun _ => follows_bump.then ((hr.ptrn _ _).bind fun _ =>
    (follows_codomain hr _).bind fun _ => (hr.block _).bind fun _ =>
    .finish fun _ => .pure rfl)

theorem follows_pi : Follows L L.Rel (pi r) (pi r') (Maps (Expr.relabel L.relabel)) :=
  .track fun _ => follows_bump.then ((hr.ptrn _ _).bind fun _ =>
    (follows_expect _ _).bind fun _ => (hr.expr _ _).bind fun _ =>
    .finish fun _ => .pure rfl)

theorem follows_continuation :
    Follows L L.Rel (continuation r) (continuation r') (Maps (Expr.relabel L.relabel)) :=
  .track fun _ => follows_bump.then ((hr.ptrn _ _).bind fun _ =>
    .prev fun _ => .finish fun _ => .pure rfl)

theorem follows_pack : Follows L L.Rel (pack r) (pack r') (Maps (Expr.relabel L.relabel)) :=
  .track fun _ => follows_bump.then ((hr.ptrn _ _).bind fun _ =>
    (follows_expect _ _).bind fun _ => (hr.expr _ _).bind fun _ =>
    (follows_expect _ _).bind fun _ => .finish fun _ => .pure rfl)

theorem follows_variadic :
    Follows L L.Rel (variadic r) (variadic r') (Maps (Expr.relabel L.relabel)) :=
  .track fun _ => follows_bump.then ((hr.ptrn _ _).bind fun _ =>
    (follows_expect _ _).bind fun _ => (hr.expr _ _).bind fun _ =>
    (follows_expect _ _).bind fun _ => .finish fun _ => .pure rfl)

theorem follows_otherwise :
    Follows L L.Rel (otherwise r) (otherwise r') (Maps (Expr.relabel L.relabel)) := by
  refine (follows_accept .kwElse).bind fun found => .ite (fun _ => ?_) fun _ => ?_
  · exact .isAt fun isIf => .ite (fun _ => hr.branch) fun _ => hr.block _
  · exact .prev fun last => .pure rfl

theorem follows_branch :
    Follows L L.Rel (branch r) (branch r') (Maps (Expr.relabel L.relabel)) :=
  .track fun _ => follows_bump.then ((hr.expr _ _).bind fun _ =>
    (hr.block _).bind fun _ => (follows_otherwise hr).bind fun _ =>
    .finish fun _ => .pure rfl)

theorem follows_armsTurn :
    Follows L L.Rel (armsTurn r) (armsTurn r') (Turn.Follows (Arm.relabelList L.relabel)) := by
  refine .kind fun here => ?_
  split
  · exact .pure (.leave _)
  · exact .pure (.leave _)
  · refine .trackAt fun start hstart => (hr.ptrn _ _).bind fun ptrn =>
      (follows_expect _ _).bind fun _ => (hr.expr _ _).bind fun body => .prevAt fun last hlast =>
      .finish fun span => follows_acceptSeparator.bind fun separated => ?_
    have hconsumed : (L.span start).start.offset < (L.span last).stop.offset ↔
        start.start.offset < last.stop.offset := L.lt_stop_iff hstart hlast
    simp only [hconsumed]
    have hrest : Follows L L.Rel (pure (Turn.goOn (⟨span, ptrn, body⟩ :: ·)))
        (pure (Turn.goOn (⟨L.span span, ptrn.relabel L.relabel, body.relabel L.relabel⟩ :: ·)))
        (Turn.Follows (Arm.relabelList L.relabel)) := .pure (.goOn fun arms => rfl)
    refine .ite (fun _ => hrest) fun _ => .ite (fun _ => hrest) fun _ => ?_
    exact follows_bump.then hrest

theorem follows_select :
    Follows L L.Rel (select r) (select r') (Maps (Expr.relabel L.relabel)) := by
  refine .track fun start => follows_bump.then ((hr.expr _ _).bind fun scrutinee =>
    (follows_expect _ _).bind fun found => .ite (fun _ => ?_) fun _ => ?_)
  · exact hr.arms.bind fun arms => (follows_expect _ _).bind fun _ =>
      .finish fun span => .pure rfl
  · exact .finish fun span => .pure rfl

theorem follows_forLoop :
    Follows L L.Rel (forLoop r) (forLoop r') (Maps (Expr.relabel L.relabel)) :=
  .track fun _ => follows_bump.then ((hr.ptrn _ _).bind fun _ =>
    (follows_expect _ _).bind fun _ => (hr.expr _ _).bind fun _ =>
    (hr.block _).bind fun _ => .finish fun _ => .pure rfl)

theorem follows_whileLoop :
    Follows L L.Rel (whileLoop r) (whileLoop r') (Maps (Expr.relabel L.relabel)) :=
  .track fun _ => follows_bump.then ((hr.expr _ _).bind fun _ =>
    (hr.block _).bind fun _ => .finish fun _ => .pure rfl)

theorem follows_primary (construct : String) :
    Follows L L.Rel (primary r construct) (primary r' construct)
      (Maps (Expr.relabel L.relabel)) := by
  refine .kind fun here => ?_
  split
  · exact (follows_ident construct).bind fun i => .pure rfl
  · exact follows_literal
  · exact follows_tuple hr
  · exact follows_sigma hr
  · exact hr.block construct
  · exact hr.branch
  · exact follows_select hr
  · exact follows_forLoop hr
  · exact follows_whileLoop hr
  · exact follows_lambda hr
  · exact follows_pi hr
  · exact follows_continuation hr
  · exact follows_pack hr
  · exact follows_variadic hr
  · exact follows_single fun _ => rfl
  · exact follows_single fun _ => rfl
  · exact follows_single fun _ => rfl
  · exact follows_single fun _ => rfl
  · exact follows_single fun _ => rfl
  · exact follows_single fun _ => rfl
  · exact .track fun start => (follows_unexpected _ _).then (.finish fun span => .pure rfl)

theorem follows_expr (min : Prec) (construct : String) :
    Follows L L.Rel (expr r min construct) (expr r' min construct)
      (Maps (Expr.relabel L.relabel)) := by
  refine .track fun start => .kind fun here => ?_
  split
  · next op _ =>
    exact follows_bump.then ((hr.expr _ _).bind fun operand => .finish fun span =>
      hr.operators start min (.prefixed span op operand))
  · refine (follows_primary hr construct).bind fun operand => ?_
    rw [Expr.isError_relabel]
    exact .ite (fun _ => .pure rfl) fun _ => hr.operators start min operand

theorem follows_operators (start : Span) (min : Prec) (left : Expr) :
    Follows L L.Rel (operators r start min left)
      (operators r' (L.span start) min (left.relabel L.relabel))
      (Maps (Expr.relabel L.relabel)) := by
  refine .kind fun here => ?_
  split
  · next op _ =>
    exact follows_bump.then (.finish fun span => hr.operators start min (.postfixed span left op))
  · refine .ite (fun _ => ?_) fun _ => .nextKind fun next => .ite (fun _ => ?_) fun _ =>
      .ite (fun _ => ?_) fun _ => ?_
    · exact (follows_tuple hr).bind fun arg => .finish fun span =>
        hr.operators start min (.app span left arg false)
    · exact follows_bump.then ((follows_tuple hr).bind fun arg => .finish fun span =>
        hr.operators start min (.app span left arg true))
    · exact follows_bump.then ((follows_ident _).bind fun i => .finish fun span =>
        hr.operators start min (.field span left i))
    · split
      · next op _ =>
        refine .ite (fun _ => .pure rfl) fun _ => ?_
        exact follows_bump.then ((hr.expr _ _).bind fun right => .finish fun span =>
          hr.operators start min (.binary span left op right))
      · exact .pure rfl

theorem follows_stmntExpr (construct : String) :
    Follows L L.Rel (stmntExpr r construct) (stmntExpr r' construct)
      (Maps (Expr.relabel L.relabel)) := by
  refine .kind fun here => ?_
  split
  · exact hr.block construct
  · exact hr.branch
  · exact follows_select hr
  · exact follows_forLoop hr
  · exact follows_whileLoop hr
  · exact hr.expr _ _

/-! ## Statements and blocks -/

section

variable {before : State → State → Prop} [L.Looking before]
  (hbump : Follows L before bump bump (Maps id))

include hbump

/-- Statements that begin with a word of their own agree about what comes in front of it only once
they are behind it. -/
theorem follows_letStmnt :
    Follows L before (letStmnt r) (letStmnt r') (Maps (Stmnt.relabel L.relabel)) := by
  refine .track fun start => hbump.then ?_
  exact (hr.ptrn _ _).bind fun ptrn => (follows_expect _ _).bind fun _ =>
    (hr.expr _ _).bind fun init => (follows_expect _ _).bind fun _ =>
    .finish fun span => .pure rfl

theorem follows_defItem :
    Follows L before (defItem r) (defItem r') (Maps (Item.relabel L.relabel)) := by
  refine .track fun start => hbump.then ?_
  exact (follows_ident _).bind fun i => (follows_declare i .item).bind fun decl =>
    (follows_expect _ _).bind fun _ => (hr.expr _ _).bind fun expr =>
    (follows_expect _ _).bind fun _ => .finish fun span => .pure rfl

theorem follows_fnItem :
    Follows L before (fnItem r) (fnItem r') (Maps (Item.relabel L.relabel)) := by
  refine .track fun start => hbump.then ?_
  exact (follows_ident _).bind fun i => (follows_declare i .item).bind fun decl =>
    .track fun inner => (hr.ptrn _ _).bind fun domain => (follows_codomain hr _).bind fun codomain =>
    (hr.block _).bind fun body => .finish fun span => .finish fun whole => .pure rfl

theorem follows_stmnt_word (construct : String)
    (hword : ∀ s s', before s s' → s.kind = .kwLet ∨ s.kind = .kwDef ∨ s.kind = .kwFn) :
    Follows L before (stmnt r construct) (stmnt r' construct) (Maps (Stmnt.relabel L.relabel)) := by
  refine .kindAt (p := fun kind => kind = .kwLet ∨ kind = .kwDef ∨ kind = .kwFn) hword
    fun here hhere => ?_
  rcases hhere with rfl | rfl | rfl
  · exact follows_letStmnt hr hbump
  · exact (follows_defItem hr hbump).bind fun item => .pure (Stmnt.relabel_item _ item).symm
  · exact (follows_fnItem hr hbump).bind fun item => .pure (Stmnt.relabel_item _ item).symm

end

theorem follows_block (construct : String) :
    Follows L L.Rel (block r construct) (block r' construct) (Maps (Expr.relabel L.relabel)) := by
  refine .track fun start => (follows_expect _ _).bind fun found => .ite (fun _ => ?_) fun _ => ?_
  · exact hr.blockBody.bind fun body => (follows_expect _ _).bind fun _ =>
      .finish fun span => .pure rfl
  · exact .finish fun span => .pure rfl

theorem follows_blockBodyTurn :
    Follows L L.Rel (blockBodyTurn r) (blockBodyTurn r') (Turn.Follows L.body) := by
  have hadds : ∀ stmnt : Stmnt,
      Turn.Follows L.body (blockRest stmnt) (blockRest (stmnt.relabel L.relabel)) :=
    fun stmnt => .goOn fun _ => rfl
  have hitem : ∀ item : Item,
      Turn.Follows L.body (blockRest (.item item)) (blockRest (.item (item.relabel L.relabel))) := by
    intro item
    rw [← Stmnt.relabel_item]
    exact hadds (.item item)
  have hempty : ∀ span : Span, Turn.Follows L.body (.leave ([], Expr.emptyTuple span))
      (.leave ([], Expr.emptyTuple (L.span span))) := fun span => .leave ([], Expr.emptyTuple span)
  refine .kind fun here => ?_
  split
  · exact follows_bump.then (.pure (.goOn fun _ => rfl))
  · exact .track fun span => .pure (hempty span)
  · exact .track fun span => .pure (hempty span)
  · exact (follows_letStmnt hr follows_bump).bind fun stmnt =>
      .pure (hadds stmnt)
  · exact (follows_defItem hr follows_bump).bind fun item =>
      .pure (hitem item)
  · exact (follows_fnItem hr follows_bump).bind fun item =>
      .pure (hitem item)
  · refine .ite (fun _ => ?_) fun _ => ?_
    · refine .track fun start => (follows_stmntExpr hr _).bind fun expr =>
        (follows_accept _).bind fun found => .ite (fun _ => ?_) fun _ => ?_
      · exact .finish fun span => .pure (hadds (.expr span expr))
      · refine .isAt fun closing => .ite (fun _ => .pure (.leave ([], expr))) fun _ => ?_
        rw [Expr.isStmntLike_relabel, Expr.span_relabel]
        refine .ite (fun _ => .pure (hadds (.expr expr.span expr))) fun _ => ?_
        exact (follows_expect _ _).bind fun _ => .pure (hadds (.expr expr.span expr))
    · exact (follows_unexpected _ _).then (follows_bump.then (.pure (.goOn fun _ => rfl)))

theorem follows_stmnt (construct : String) :
    Follows L L.Rel (stmnt r construct) (stmnt r' construct) (Maps (Stmnt.relabel L.relabel)) := by
  refine .kind fun here => ?_
  split
  · exact follows_letStmnt hr follows_bump
  · exact (follows_defItem hr follows_bump).bind fun item =>
      .pure (Stmnt.relabel_item _ item).symm
  · exact (follows_fnItem hr follows_bump).bind fun item =>
      .pure (Stmnt.relabel_item _ item).symm
  · refine .track fun start => (follows_stmntExpr hr _).bind fun expr =>
      (follows_accept _).bind fun found => ?_
    rw [Expr.isStmntLike_relabel]
    have hrest : Follows L L.Rel (do return Stmnt.expr (← finish start) expr)
        (do return Stmnt.expr (← finish (L.span start)) (expr.relabel L.relabel))
        (Maps (Stmnt.relabel L.relabel)) := .finish fun span => .pure rfl
    refine .ite (fun _ => hrest) fun _ => .ite (fun _ => hrest) fun _ => ?_
    exact (follows_expect _ _).bind fun _ => hrest

theorem follows_stmntsTurn :
    Follows L L.Rel (stmntsTurn r) (stmntsTurn r') (Turn.Follows (Stmnt.relabelList L.relabel)) := by
  refine .kind fun here => ?_
  split
  · exact .pure (.leave _)
  · exact follows_bump.then (.pure (.goOn fun _ => rfl))
  · refine .ite (fun _ => ?_) fun _ => ?_
    · exact .reported fun n => (follows_stmnt hr _).bind fun stmnt =>
        (follows_recover n).then (.pure (.goOn fun _ => rfl))
    · exact (follows_unexpected _ _).then (follows_bump.then (.pure (.goOn fun _ => rfl)))

theorem follows_stmnts (rounds rounds' : Nat) :
    Follows L L.Rel (stmnts r rounds) (stmnts r' rounds') (Maps (Stmnt.relabelList L.relabel)) := by
  induction rounds generalizing rounds' with
  | zero => exact .failure_left
  | succ rounds ih =>
    cases rounds' with
    | zero => exact .failure_right
    | succ rounds' => exact follows_loop (follows_stmntsTurn hr) (ih rounds')

omit hr

theorem follows_rules (calls calls' : Nat) : Rules.Followed L (rules calls) (rules calls') := by
  induction calls generalizing calls' with
  | zero =>
    exact {
      expr _ _ := .failure_left
      operators _ _ _ := .failure_left
      ptrn _ _ := .failure_left
      ptrnElems _ := .failure_left
      tupleElems := .failure_left
      sigmaElems := .failure_left
      block _ := .failure_left
      blockBody := .failure_left
      branch := .failure_left
      arms := .failure_left }
  | succ calls ih =>
    cases calls' with
    | zero =>
      exact {
        expr _ _ := .failure_right
        operators _ _ _ := .failure_right
        ptrn _ _ := .failure_right
        ptrnElems _ := .failure_right
        tupleElems := .failure_right
        sigmaElems := .failure_right
        block _ := .failure_right
        blockBody := .failure_right
        branch := .failure_right
        arms := .failure_right }
    | succ calls' =>
      have hr := ih calls'
      exact {
        expr := follows_expr hr
        operators := follows_operators hr
        ptrn := follows_ptrn hr
        ptrnElems typed := follows_loop (follows_ptrnElemsTurn hr typed) (hr.ptrnElems typed)
        tupleElems := follows_loop (follows_tupleElemsTurn hr) hr.tupleElems
        sigmaElems := follows_loop (follows_sigmaElemsTurn hr) hr.sigmaElems
        block := follows_block hr
        blockBody := follows_loop (follows_blockBodyTurn hr) hr.blockBody
        branch := follows_branch hr
        arms := follows_loop (follows_armsTurn hr) hr.arms }

end Parser

end ImpLang
