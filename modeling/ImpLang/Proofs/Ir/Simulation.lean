import ImpLang.Ir.Dump
import ImpLang.Proofs.Ir.Journal
import ImpLang.Proofs.Tree.Relabel

/-!
Emission looks at no value and at no symbol. Builders that answer alike up to a renaming of both are
asked the same up to that renaming, whatever is emitted.
-/

namespace ImpLang

/-- An operation with other symbols. -/
def Op.rename (f : Symbol → Symbol) : Op → Op
  | field symbol => field (f symbol)
  | op => op

@[simp] theorem Op.rename_id (op : Op) : op.rename id = op := by cases op <;> rfl

namespace Builder

variable {σ τ : Type}

/-- Requests that two related builders answer alike, and that leave them related. -/
def Alike (rel : σ → τ → Prop) {α β : Type} (f : α → β) (request : σ → α × σ)
    (request' : τ → β × τ) : Prop :=
  ∀ b c, rel b c → (request' c).1 = f (request b).1 ∧ rel (request b).2 (request' c).2

/-- A relation between builders that every request keeps. -/
structure Simulation (σ τ : Type) [Builder σ] [Builder τ] where
  value : Value → Value
  injective : Function.Injective value
  symbol : Symbol → Symbol
  rel : σ → τ → Prop
  error : ∀ span, Alike rel value (Builder.error span) (Builder.error span)
  literal : ∀ span lit,
    Alike rel value (Builder.literal span lit) (Builder.literal span (lit.map symbol))
  param : ∀ span ty, Alike rel value (Builder.param span ty) (Builder.param span (ty.map value))
  lookup : ∀ decl, Alike rel (Option.map value) (Builder.lookup decl) (Builder.lookup decl)
  bind : ∀ decl v b c, rel b c → rel (Builder.bind decl v b) (Builder.bind decl (value v) c)
  build : ∀ span op operands, Alike rel value (Builder.build span op operands)
    (Builder.build span (op.rename symbol) (operands.map value))

/-- The renaming of trees. Spans and declarations stay. -/
def Simulation.relabel {σ τ : Type} [Builder σ] [Builder τ] (S : Simulation σ τ) : Relabel :=
  ⟨id, S.symbol, id, S.value⟩

section

variable [Builder σ] [Builder τ] (S : Simulation σ τ)

@[simp] theorem Simulation.relabel_span : S.relabel.span = id := rfl

@[simp] theorem Simulation.relabel_symbol : S.relabel.symbol = S.symbol := rfl

@[simp] theorem Simulation.relabel_decl : S.relabel.decl = id := rfl

@[simp] theorem Simulation.relabel_value : S.relabel.value = S.value := rfl

end

end Builder

namespace Emitter

variable {σ τ : Type} [Builder σ] [Builder τ] (S : Builder.Simulation σ τ)

/-- Related builders, and the same items with renamed values. -/
def Related (s : EmitState σ) (t : EmitState τ) : Prop :=
  S.rel s.builder t.builder ∧ t.written = s.written.map (Prod.map id S.value)

/-- A step that does the same as another one up to the renaming. -/
def Follows {α β : Type} (f : α → β) (m : Emitter σ α) (m' : Emitter τ β) : Prop :=
  ∀ s t, Related S s t →
    (m'.run.run t).1 = (m.run.run s).1.map f ∧ Related S (m.run.run s).2 (m'.run.run t).2

namespace Follows

variable {S} {α β γ δ : Type} {f : α → β} {g : γ → δ}

theorem pure (a : α) : Follows S f (pure a) (pure (f a)) := fun _ _ h => ⟨rfl, h⟩

theorem bind {m : Emitter σ α} {m' : Emitter τ β} {k : α → Emitter σ γ} {k' : β → Emitter τ δ}
    (hm : Follows S f m m') (hk : ∀ a, Follows S g (k a) (k' (f a))) :
    Follows S g (m >>= k) (m' >>= k') := by
  intro s t hrel
  obtain ⟨hanswer, hrel'⟩ := hm s t hrel
  rw [ExceptT.run_bind, ExceptT.run_bind, StateT.run_bind, StateT.run_bind]
  cases hrun : m.run.run s with
  | mk out s' =>
    cases hrun' : m'.run.run t with
    | mk out' t' =>
      rw [hrun, hrun'] at hanswer hrel'
      obtain rfl : out' = out.map f := hanswer
      cases out with
      | error e => exact ⟨rfl, hrel'⟩
      | ok a => exact hk a s' t' hrel'

theorem ask {request : σ → α × σ} {request' : τ → β × τ}
    (h : Builder.Alike S.rel f request request') :
    Follows S f (ask request) (ask request') := by
  intro s t ⟨hbuilder, hwritten⟩
  obtain ⟨hanswer, hrel⟩ := h s.builder t.builder hbuilder
  exact ⟨congrArg Except.ok hanswer, hrel, hwritten⟩

end Follows

variable {S}

theorem follows_build (span : Span) (op : Op) (operands : List Value) :
    Follows S S.value (build span op operands)
      (build span (op.rename S.symbol) (operands.map S.value)) :=
  .ask (S.build span op operands)

theorem follows_bind (decl : DeclId) (value : Value) :
    Follows S id (bind decl value) (bind decl (S.value value)) :=
  .ask fun b c h => ⟨rfl, S.bind decl value b c h⟩

/-- Of the declarations only the missing ones matter. -/
theorem follows_use {decls decls' : Decls} (h : ∀ id, decls'.isError id = decls.isError id)
    (span : Span) (slot : Slot DeclId) :
    Follows S S.value (use decls span slot) (use decls' span slot) := by
  unfold use
  cases slot.get? with
  | none => exact .ask (S.error span)
  | some decl =>
    by_cases herror : decls.isError decl = true
    · simp only [h, herror, if_true]
      exact .ask (S.error span)
    · simp only [h, herror]
      refine (Follows.ask (S.lookup decl)).bind fun answer => ?_
      cases answer with
      | none => exact .ask (S.error span)
      | some value => exact .pure value

/-- A slot refuses a renamed value just as it refuses the value itself. -/
theorem follows_write (item : DeclId) (slot : Slot Value) (value : Value) :
    Follows S id (write item slot value) (write item (slot.map S.value) (S.value value)) := by
  intro s t ⟨hbuilder, hwritten⟩
  have hpush : Related S { s with written := s.written.push (item, value) }
      { t with written := t.written.push (item, S.value value) } :=
    ⟨hbuilder, by simp [hwritten]⟩
  obtain ⟨current⟩ := slot
  cases current with
  | none => exact ⟨rfl, hpush⟩
  | some current =>
    by_cases heq : current = value
    · subst heq
      simp only [write, Slot.set, Slot.map, Option.map_some, if_true]
      exact ⟨rfl, hpush⟩
    · simp only [write, Slot.set, Slot.map, Option.map_some, if_neg heq,
        if_neg fun h => heq (S.injective h)]
      exact ⟨rfl, hbuilder, hwritten⟩

mutual

theorem follows_destructure (ptrn : Ptrn) (value : Value) :
    Follows S id (destructure ptrn value)
      (destructure (ptrn.relabel S.relabel) (S.value value)) := by
  cases ptrn with
  | name span id decl ty typed => exact follows_bind decl value
  | tuple span elems ty typed => exact follows_extract 0 elems value
  | error span => exact .pure ()

theorem follows_extract (index : Nat) (elems : List Ptrn) (value : Value) :
    Follows S id (extract index elems value)
      (extract index (Ptrn.relabelList S.relabel elems) (S.value value)) := by
  cases elems with
  | nil => exact .pure ()
  | cons elem elems =>
    simp only [extract, Ptrn.relabelList_cons, Ptrn.span_relabel, Builder.Simulation.relabel_span, id_eq]
    exact (follows_build elem.span (.extract index) [value]).bind fun part =>
      (follows_destructure elem part).bind fun _ => follows_extract (index + 1) elems value

end

theorem follows_placeholders (stmnts : List Stmnt) :
    Follows S id (placeholders stmnts)
      (placeholders (Stmnt.relabelList S.relabel stmnts)) := by
  induction stmnts with
  | nil => exact .pure ()
  | cons stmnt stmnts ih =>
    cases stmnt with
    | expr span expr => exact ih
    | bind span ptrn init => exact ih
    | item it =>
      obtain ⟨span, name, expr, decl, slot⟩ := it
      exact (Follows.ask (S.param span none)).bind fun value =>
        (follows_bind decl value).bind fun _ => ih

theorem follows_parameter (ptrn : Ptrn) (ty : Option Value) :
    Follows S S.value (parameter ptrn ty)
      (parameter (ptrn.relabel S.relabel) (ty.map S.value)) := by
  simp only [parameter, Ptrn.span_relabel, Builder.Simulation.relabel_span, id_eq]
  exact (Follows.ask (S.param ptrn.span ty)).bind fun value =>
    (follows_destructure ptrn value).bind fun _ => .pure value

section Trees

variable {decls decls' : Decls}

mutual

theorem follows_expr (h : ∀ id, decls'.isError id = decls.isError id) (expr : Expr) :
    Follows S S.value (emitExpr decls expr)
      (emitExpr decls' (expr.relabel S.relabel)) := by
  cases expr <;> simp only [emitExpr, Expr.relabel, Builder.Simulation.relabel_span,
    Builder.Simulation.relabel_decl, Slot.map_id, id_eq]
  case name span name slot => exact follows_use h span slot
  case literal span value => exact .ask (S.literal span value)
  case tuple span elems =>
    exact (follows_elems h elems).bind fun values => follows_build span .tuple values
  case sigma span elems =>
    exact (follows_params h elems).bind fun values => follows_build span .sigma values
  case pi span domain codomain =>
    exact (follows_emitParam h domain).bind fun d => (follows_expr h codomain).bind fun c =>
      follows_build span .pi [d, c]
  case lambda span domain codomain body =>
    exact (follows_emitParam h domain).bind fun d => (follows_expr h codomain).bind fun c =>
      (follows_expr h body).bind fun b => follows_build span .lambda [d, c, b]
  case app span callee arg cps =>
    exact (follows_expr h callee).bind fun f => (follows_expr h arg).bind fun a =>
      follows_build span (.app cps) [f, a]
  case field span value id =>
    exact (follows_expr h value).bind fun v => follows_build span (.field id.symbol) [v]
  case prefixed span op operand =>
    exact (follows_expr h operand).bind fun v => follows_build span (.prefixed op) [v]
  case postfixed span operand op =>
    exact (follows_expr h operand).bind fun v => follows_build span (.postfixed op) [v]
  case binary span left op right =>
    exact (follows_expr h left).bind fun l => (follows_expr h right).bind fun r =>
      follows_build span (.binary op) [l, r]
  case block span stmnts value =>
    refine (follows_placeholders stmnts).bind fun _ => (follows_stmnts h stmnts).bind fun values =>
      (follows_expr h value).bind fun v => ?_
    rw [← List.map_singleton (f := S.value), ← List.map_append]
    exact follows_build span .block (values ++ [v])
  case branch span cond yes no =>
    exact (follows_expr h cond).bind fun c => (follows_expr h yes).bind fun y =>
      (follows_expr h no).bind fun n => follows_build span .branch [c, y, n]
  case select span scrutinee arms =>
    exact (follows_expr h scrutinee).bind fun v => (follows_arms h v arms).bind fun values =>
      follows_build span .select (v :: values)
  case forLoop span ptrn iter body =>
    exact (follows_expr h iter).bind fun i => (follows_emitParam h ptrn).bind fun p =>
      (follows_expr h body).bind fun b => follows_build span .forLoop [i, p, b]
  case whileLoop span cond body =>
    exact (follows_expr h cond).bind fun c => (follows_expr h body).bind fun b =>
      follows_build span .whileLoop [c, b]
  case pack span domain body =>
    exact (follows_emitParam h domain).bind fun d => (follows_expr h body).bind fun b =>
      follows_build span .pack [d, b]
  case variadic span domain body =>
    exact (follows_emitParam h domain).bind fun d => (follows_expr h body).bind fun b =>
      follows_build span .variadic [d, b]
  case qualifier span value => exact follows_build span (.qualifier value) []
  case bottom span => exact follows_build span .bottom []
  case unknown span => exact follows_build span .unknown []
  case error span => exact .ask (S.error span)

theorem follows_expr? (h : ∀ id, decls'.isError id = decls.isError id) (expr : Option Expr) :
    Follows S (Option.map S.value) (emitExpr? decls expr)
      (emitExpr? decls' (Expr.relabel? S.relabel expr)) := by
  cases expr with
  | none => exact .pure none
  | some expr => exact (follows_expr h expr).bind fun value => .pure (some value)

theorem follows_emitParam (h : ∀ id, decls'.isError id = decls.isError id) (ptrn : Ptrn) :
    Follows S S.value (emitParam decls ptrn)
      (emitParam decls' (ptrn.relabel S.relabel)) := by
  cases ptrn with
  | name span name decl ty typed =>
    exact (follows_expr? h ty).bind fun value =>
      follows_parameter (.name span name decl ty typed) value
  | tuple span elems ty typed =>
    exact (follows_expr? h ty).bind fun value =>
      follows_parameter (.tuple span elems ty typed) value
  | error span => exact follows_parameter (.error span) none

theorem follows_params (h : ∀ id, decls'.isError id = decls.isError id) (ptrns : List Ptrn) :
    Follows S (List.map S.value) (emitParams decls ptrns)
      (emitParams decls' (Ptrn.relabelList S.relabel ptrns)) := by
  cases ptrns with
  | nil => exact .pure []
  | cons ptrn ptrns =>
    exact (follows_emitParam h ptrn).bind fun value => (follows_params h ptrns).bind fun values =>
      .pure (value :: values)

theorem follows_elems (h : ∀ id, decls'.isError id = decls.isError id) (elems : List Elem) :
    Follows S (List.map S.value) (emitElems decls elems)
      (emitElems decls' (Elem.relabelList S.relabel elems)) := by
  match elems with
  | [] => exact .pure []
  | ⟨name, expr⟩ :: elems =>
    exact (follows_expr h expr).bind fun value => (follows_elems h elems).bind fun values =>
      .pure (value :: values)

theorem follows_arms (h : ∀ id, decls'.isError id = decls.isError id) (scrutinee : Value) (arms : List Arm) :
    Follows S (List.map S.value) (emitArms decls scrutinee arms)
      (emitArms decls' (S.value scrutinee) (Arm.relabelList S.relabel arms)) := by
  match arms with
  | [] => exact .pure []
  | ⟨span, ptrn, body⟩ :: arms =>
    exact (follows_destructure ptrn scrutinee).bind fun _ => (follows_expr h body).bind fun value =>
      (follows_arms h scrutinee arms).bind fun values => .pure (value :: values)

theorem follows_stmnt (h : ∀ id, decls'.isError id = decls.isError id) (stmnt : Stmnt) :
    Follows S S.value (emitStmnt decls stmnt)
      (emitStmnt decls' (stmnt.relabel S.relabel)) := by
  match stmnt with
  | .expr span expr => exact follows_expr h expr
  | .bind span ptrn init =>
    exact (follows_expr h init).bind fun value => (follows_destructure ptrn value).bind fun _ =>
      .pure value
  | .item ⟨span, name, expr, decl, slot⟩ =>
    exact (follows_expr h expr).bind fun value => (follows_bind decl value).bind fun _ =>
      (follows_write decl slot value).bind fun _ => .pure value

theorem follows_stmnts (h : ∀ id, decls'.isError id = decls.isError id) (stmnts : List Stmnt) :
    Follows S (List.map S.value) (emitStmnts decls stmnts)
      (emitStmnts decls' (Stmnt.relabelList S.relabel stmnts)) := by
  cases stmnts with
  | nil => exact .pure []
  | cons stmnt stmnts =>
    exact (follows_stmnt h stmnt).bind fun value => (follows_stmnts h stmnts).bind fun values =>
      .pure (value :: values)

end

/-- The values of a module are those of another builder, renamed. -/
theorem follows_module (h : ∀ id, decls'.isError id = decls.isError id) (stmnts : List Stmnt) :
    Follows S (List.map S.value) (emitModule decls stmnts)
      (emitModule decls' (Stmnt.relabelList S.relabel stmnts)) :=
  (follows_placeholders stmnts).bind fun _ => follows_stmnts h stmnts

end Trees

end Emitter

end ImpLang
