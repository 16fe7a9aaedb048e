import ImpLang.Proofs.Symbol
import ImpLang.Proofs.Tree.Relabel
import ImpLang.Scope.Binder

/-!
Name resolution looks at no number of a symbol, only at whether two symbols are the same: on a tree
with other symbols it does the same, up to the renaming.
-/

namespace ImpLang

namespace Scopes

variable {f : Symbol → Symbol}

def rename (f : Symbol → Symbol) (scopes : Scopes) : Scopes := scopes.map (List.map (Prod.map f id))

theorem lookup_scope (hf : Function.Injective f) (scope : Scope) (symbol : Symbol) :
    List.lookup (f symbol) (scope.map (Prod.map f id)) = scope.lookup symbol := by
  induction scope with
  | nil => rfl
  | cons entry scope ih =>
    rw [List.map_cons, List.lookup_cons, List.lookup_cons, ih]
    have hsame : (f symbol == (Prod.map f id entry).1) = (symbol == entry.1) := by
      rw [Bool.eq_iff_iff, beq_iff_eq, beq_iff_eq]
      exact hf.eq_iff
    rw [hsame]
    rfl

theorem lookup_rename (hf : Function.Injective f) (scopes : Scopes) (symbol : Symbol) :
    (scopes.rename f).lookup (f symbol) = scopes.lookup symbol := by
  rw [lookup, rename, List.findSome?_map]
  exact congrArg (List.findSome? · scopes) (funext fun scope => lookup_scope hf scope symbol)

theorem declare_rename (scopes : Scopes) (symbol : Symbol) (decl : DeclId) :
    (scopes.rename f).declare (f symbol) decl = (scopes.declare symbol decl).rename f := by
  cases scopes <;> rfl

end Scopes

theorem Decls.isError_relabel (g : Relabel) (decls : Decls) (id : DeclId) :
    (decls.relabel g).isError id = decls.isError id := by
  rw [isError, isError, get?, get?, relabel, Array.getElem?_map]
  cases decls.toArray[id.index]? <;> rfl

/-- A context in which symbols have other numbers and the same texts. -/
structure BindContext.Renamed (f : Symbol → Symbol) (context context' : BindContext) : Prop where
  injective : Function.Injective f
  name : ∀ symbol, context'.names.name (f symbol) = context.names.name symbol
  wildcard : context'.wildcard = f context.wildcard
  rebinding : context'.rebinding = context.rebinding

def BindState.rename (f : Symbol → Symbol) (s : BindState) : BindState :=
  ⟨s.scopes.rename f, s.decls.relabel (.symbols f), s.reports⟩

namespace Binder

/-- One step does in a renamed state what another one does. -/
def Follows (f : Symbol → Symbol) {α β : Type} (m : Binder α) (m' : Binder β) (φ : α → β) : Prop :=
  ∀ s, m'.run (s.rename f) = (φ (m.run s).1, (m.run s).2.rename f)

variable {f : Symbol → Symbol}

namespace Follows

variable {α β γ δ : Type} {φ : α → β} {ψ : γ → δ}

theorem pure (a : α) {b : β} (h : b = φ a) : Follows f (pure a) (pure b) φ := by
  subst h
  exact fun _ => rfl

theorem bind {m : Binder α} {m' : Binder β} {k : α → Binder γ} {k' : β → Binder δ}
    (hm : Follows f m m' φ) (hk : ∀ a, Follows f (k a) (k' (φ a)) ψ) :
    Follows f (m >>= k) (m' >>= k') ψ := by
  intro s
  rw [StateT.run_bind, StateT.run_bind, hm s]
  exact hk (m.run s).1 (m.run s).2

theorem move {move move' : BindState → BindState}
    (h : ∀ s, move' (s.rename f) = (move s).rename f) : Follows f (modify move) (modify move') id :=
  fun s => Prod.ext rfl (h s)

theorem get {k : BindState → Binder γ} {k' : BindState → Binder δ}
    (h : ∀ s, (k' (s.rename f)).run (s.rename f) = (ψ ((k s).run s).1, ((k s).run s).2.rename f)) :
    Follows f (MonadState.get >>= k) (MonadState.get >>= k') ψ := h

theorem ite {p : Prop} [Decidable p] {m n : Binder α} {m' n' : Binder β}
    (hm : p → Follows f m m' φ) (hn : ¬ p → Follows f n n' φ) :
    Follows f (if p then m else n) (if p then m' else n') φ := by
  by_cases h : p
  · rw [if_pos h, if_pos h]
    exact hm h
  · rw [if_neg h, if_neg h]
    exact hn h

theorem inScope {m : Binder α} {m' : Binder β} (hm : Follows f m m' φ) :
    Follows f (inScope m) (inScope m') φ := by
  have hopen : Follows f (modify fun s => { s with scopes := [] :: s.scopes })
      (modify fun s => { s with scopes := [] :: s.scopes }) id := .move fun _ => rfl
  have hclose : Follows f (modify fun s => { s with scopes := s.scopes.tail })
      (modify fun s => { s with scopes := s.scopes.tail }) id := by
    refine .move fun s => ?_
    exact congrArg (BindState.mk · _ _) List.map_tail.symm
  exact hopen.bind fun _ => hm.bind fun a => hclose.bind fun _ => .pure a rfl

end Follows

theorem follows_report (error : ScopeError) (span : Span) :
    Follows f (report error span) (report error span) id := .move fun _ => rfl

section Context

variable {context context' : BindContext} (h : context.Renamed f context')

include h

theorem follows_declare (symbol : Symbol) (decl : DeclId) :
    Follows f (declare context symbol decl) (declare context' (f symbol) decl) id := by
  unfold declare
  rw [h.wildcard]
  simp only [h.injective.eq_iff]
  refine .ite (fun _ => .pure () rfl) fun _ => .move fun s => ?_
  exact congrArg (BindState.mk · _ _) (Scopes.declare_rename s.scopes symbol decl)

theorem follows_placeholder (i : Id) :
    Follows f (placeholder context i) (placeholder context' (i.relabel (.symbols f))) id := by
  unfold placeholder
  have hname : context'.names.name (i.relabel (.symbols f)).symbol = context.names.name i.symbol :=
    h.name i.symbol
  rw [hname]
  refine (follows_report _ _).bind fun _ s => ?_
  have hsize : (s.decls.relabel (.symbols f)).toArray.size = s.decls.toArray.size := Array.size_map
  refine Prod.ext (congrArg DeclId.mk hsize) ?_
  have hpush : (s.decls.relabel (.symbols f)).toArray.push ⟨f i.symbol, i.span, .error⟩ =
      (s.decls.toArray.push ⟨i.symbol, i.span, .error⟩).map (Decl.relabel (.symbols f)) := by
    rw [Array.map_push]
    rfl
  exact congrArg (BindState.mk _ · _) (congrArg Decls.mk hpush)

theorem follows_target (i : Id) (slot : Slot DeclId) :
    Follows f (target context i slot) (target context' (i.relabel (.symbols f)) slot) id := by
  unfold target
  refine .get fun s => ?_
  have hlookup : (s.rename f).scopes.lookup (i.relabel (.symbols f)).symbol =
      s.scopes.lookup i.symbol := Scopes.lookup_rename h.injective s.scopes i.symbol
  have herror : ∀ decl, (s.rename f).decls.isError decl = s.decls.isError decl :=
    Decls.isError_relabel (.symbols f) s.decls
  simp only [hlookup, herror]
  have hplaceholder := follows_placeholder h i s
  split
  · rfl
  · split
    · split
      · rfl
      · exact hplaceholder
    · exact hplaceholder

theorem follows_resolve (i : Id) (slot : Slot DeclId) :
    Follows f (resolve context i slot) (resolve context' (i.relabel (.symbols f)) slot) id := by
  unfold resolve
  have hname : context'.names.name (i.relabel (.symbols f)).symbol = context.names.name i.symbol :=
    h.name i.symbol
  refine (follows_target h i slot).bind fun decl => ?_
  rw [id_eq, hname]
  split
  · exact .pure _ rfl
  · exact (follows_report _ _).bind fun _ => .pure slot rfl

theorem follows_declareItems (ss : List Stmnt) :
    Follows f (declareItems context ss)
      (declareItems context' (Stmnt.relabelList (.symbols f) ss)) id := by
  induction ss with
  | nil => exact .pure () rfl
  | cons st ss ih =>
    cases st with
    | expr span e => exact ih
    | bind span p init => exact ih
    | item it =>
      obtain ⟨span, i, e, decl, value⟩ := it
      exact (follows_declare h i.symbol decl).bind fun _ => ih

omit h

mutual

theorem follows_bindExpr (h : context.Renamed f context') (e : Expr) :
    Follows f (bindExpr context e) (bindExpr context' (e.relabel (.symbols f)))
      (Expr.relabel (.symbols f)) := by
  cases e <;> simp only [bindExpr, Expr.relabel]
  case name span i slot =>
    rw [Relabel.symbols_decl, Slot.map_id]
    exact (follows_resolve h i slot).bind fun slot => .pure _ (by simp [Expr.relabel])
  case literal span value => exact .pure _ (by simp [Expr.relabel])
  case tuple span es =>
    exact (follows_bindElems h es).bind fun es => .pure _ rfl
  case sigma span ps =>
    exact .inScope ((follows_bindPtrns h false ps).bind fun ps => .pure _ rfl)
  case pi span d c =>
    exact .inScope ((follows_bindPtrn h false d).bind fun d => (follows_bindExpr h c).bind fun c =>
      .pure _ rfl)
  case lambda span d c b =>
    exact .inScope ((follows_bindPtrn h false d).bind fun d => (follows_bindExpr h c).bind fun c =>
      (follows_bindExpr h b).bind fun b => .pure _ rfl)
  case app span callee arg cps =>
    exact (follows_bindExpr h callee).bind fun callee => (follows_bindExpr h arg).bind fun arg =>
      .pure _ rfl
  case field span value i => exact (follows_bindExpr h value).bind fun value => .pure _ rfl
  case prefixed span op operand => exact (follows_bindExpr h operand).bind fun operand => .pure _ rfl
  case postfixed span operand op => exact (follows_bindExpr h operand).bind fun operand => .pure _ rfl
  case binary span left op right =>
    exact (follows_bindExpr h left).bind fun left => (follows_bindExpr h right).bind fun right =>
      .pure _ rfl
  case block span ss value =>
    exact .inScope ((follows_declareItems h ss).bind fun _ => (follows_bindStmnts h ss).bind fun ss =>
      (follows_bindExpr h value).bind fun value => .pure _ rfl)
  case branch span cond yes no =>
    exact (follows_bindExpr h cond).bind fun cond => (follows_bindExpr h yes).bind fun yes =>
      (follows_bindExpr h no).bind fun no => .pure _ rfl
  case select span scrutinee as =>
    exact (follows_bindExpr h scrutinee).bind fun scrutinee => (follows_bindArms h as).bind fun as =>
      .pure _ rfl
  case forLoop span p iter body =>
    exact (follows_bindExpr h iter).bind fun iter => .inScope ((follows_bindPtrn h false p).bind fun p =>
      (follows_bindExpr h body).bind fun body => .pure _ rfl)
  case whileLoop span cond body =>
    exact (follows_bindExpr h cond).bind fun cond => (follows_bindExpr h body).bind fun body =>
      .pure _ rfl
  case pack span d b =>
    exact .inScope ((follows_bindPtrn h false d).bind fun d => (follows_bindExpr h b).bind fun b =>
      .pure _ rfl)
  case variadic span d b =>
    exact .inScope ((follows_bindPtrn h false d).bind fun d => (follows_bindExpr h b).bind fun b =>
      .pure _ rfl)
  all_goals exact .pure _ rfl

theorem follows_bindExpr? (h : context.Renamed f context') (e : Option Expr) :
    Follows f (bindExpr? context e) (bindExpr? context' (Expr.relabel? (.symbols f) e))
      (Expr.relabel? (.symbols f)) := by
  cases e with
  | none => exact .pure none rfl
  | some e => exact (follows_bindExpr h e).bind fun e => .pure (some e) rfl

theorem follows_bindPtrn (h : context.Renamed f context') (covered : Bool) (p : Ptrn) :
    Follows f (bindPtrn context covered p) (bindPtrn context' covered (p.relabel (.symbols f)))
      (Ptrn.relabel (.symbols f)) := by
  cases p <;> simp only [bindPtrn, Ptrn.relabel]
  case name span i decl ty typed =>
    refine (follows_bindExpr? h ty).bind fun ty => ?_
    have hname : context'.names.name (i.relabel (.symbols f)).symbol = context.names.name i.symbol :=
      h.name i.symbol
    simp only [Expr.isSome_relabel?, h.rebinding, hname]
    have hrest : Follows f
        (do declare context i.symbol decl; return Ptrn.name span i decl ty typed)
        (do declare context' (f i.symbol) decl
            return Ptrn.name span (i.relabel (.symbols f)) decl (Expr.relabel? (.symbols f) ty) typed)
        (Ptrn.relabel (.symbols f)) := (follows_declare h i.symbol decl).bind fun _ => .pure _ rfl
    exact .ite (fun _ => (follows_report _ _).bind fun _ => hrest) fun _ => hrest
  case tuple span ps ty typed =>
    refine (follows_bindExpr? h ty).bind fun ty => ?_
    rw [Expr.isSome_relabel?]
    exact (follows_bindPtrns h _ ps).bind fun ps => .pure _ rfl
  case error span => exact .pure _ rfl

theorem follows_bindPtrns (h : context.Renamed f context') (covered : Bool) (ps : List Ptrn) :
    Follows f (bindPtrns context covered ps)
      (bindPtrns context' covered (Ptrn.relabelList (.symbols f) ps))
      (Ptrn.relabelList (.symbols f)) := by
  cases ps with
  | nil => exact .pure [] rfl
  | cons p ps =>
    exact (follows_bindPtrn h covered p).bind fun p => (follows_bindPtrns h covered ps).bind fun ps =>
      .pure (p :: ps) rfl

theorem follows_bindElems (h : context.Renamed f context') (es : List Elem) :
    Follows f (bindElems context es) (bindElems context' (Elem.relabelList (.symbols f) es))
      (Elem.relabelList (.symbols f)) := by
  match es with
  | [] => exact .pure [] rfl
  | ⟨i, e⟩ :: es =>
    exact (follows_bindExpr h e).bind fun e => (follows_bindElems h es).bind fun es =>
      .pure _ rfl

theorem follows_bindArms (h : context.Renamed f context') (as : List Arm) :
    Follows f (bindArms context as) (bindArms context' (Arm.relabelList (.symbols f) as))
      (Arm.relabelList (.symbols f)) := by
  match as with
  | [] => exact .pure [] rfl
  | ⟨span, p, e⟩ :: as =>
    have harm : Follows f
        (inScope do return Arm.mk span (← bindPtrn context false p) (← bindExpr context e))
        (inScope do
          return Arm.mk span (← bindPtrn context' false (p.relabel (.symbols f)))
            (← bindExpr context' (e.relabel (.symbols f))))
        (fun arm => Arm.mk arm.span (arm.ptrn.relabel (.symbols f)) (arm.body.relabel (.symbols f))) :=
      .inScope ((follows_bindPtrn h false p).bind fun p => (follows_bindExpr h e).bind fun e =>
        .pure _ rfl)
    exact harm.bind fun arm => (follows_bindArms h as).bind fun as => .pure _ (by cases arm; rfl)

theorem follows_bindStmnt (h : context.Renamed f context') (st : Stmnt) :
    Follows f (bindStmnt context st) (bindStmnt context' (st.relabel (.symbols f)))
      (Stmnt.relabel (.symbols f)) := by
  match st with
  | .expr span e => exact (follows_bindExpr h e).bind fun e => .pure _ rfl
  | .bind span p init =>
    exact (follows_bindExpr h init).bind fun init => (follows_bindPtrn h false p).bind fun p =>
      .pure _ rfl
  | .item ⟨span, i, e, decl, value⟩ => exact (follows_bindExpr h e).bind fun e => .pure _ rfl

theorem follows_bindStmnts (h : context.Renamed f context') (ss : List Stmnt) :
    Follows f (bindStmnts context ss) (bindStmnts context' (Stmnt.relabelList (.symbols f) ss))
      (Stmnt.relabelList (.symbols f)) := by
  cases ss with
  | nil => exact .pure [] rfl
  | cons st ss =>
    exact (follows_bindStmnt h st).bind fun st => (follows_bindStmnts h ss).bind fun ss =>
      .pure (st :: ss) rfl

end

include h

theorem follows_bindModule (ss : List Stmnt) :
    Follows f (bindModule context ss) (bindModule context' (Stmnt.relabelList (.symbols f) ss))
      (Stmnt.relabelList (.symbols f)) :=
  .inScope ((follows_declareItems h ss).bind fun _ => follows_bindStmnts h ss)

end Context

end Binder

/-- Names are resolved the same with another name table, on a tree with the symbols of that table. -/
theorem Module.resolveNames_rename {names names' : Interner} (hdistinct : names.Distinct)
    (hwithin : names.Within names') (module : Module) :
    let g := Relabel.symbols ((module.resolveNames names).names.carry
      (names'.intern Interner.wildcard).2)
    ((module.relabel g).resolveNames names').module = (module.resolveNames names).module.relabel g ∧
      ((module.relabel g).resolveNames names').reports = (module.resolveNames names).reports := by
  intro g
  have hcontext : BindContext.Renamed g.symbol
      ⟨(names.intern Interner.wildcard).2, (names.intern Interner.wildcard).1, module.bound⟩
      ⟨(names'.intern Interner.wildcard).2, (names'.intern Interner.wildcard).1, module.bound⟩ := {
    injective := Interner.carry_injective (hdistinct.intern _)
    name := Interner.name_carry (hwithin.intern _)
    wildcard := (Interner.carry_eq (names.get?_intern _) (names'.get?_intern _)).symm
    rebinding := rfl }
  have hrun := Binder.follows_bindModule hcontext module.stmnts ⟨[], module.decls, #[]⟩
  have hstart : BindState.rename g.symbol ⟨[], module.decls, #[]⟩ =
      ⟨[], (module.relabel g).decls, #[]⟩ := rfl
  rw [hstart] at hrun
  constructor
  · exact congrArg (fun out : List Stmnt × BindState =>
      { module.relabel g with stmnts := out.1, decls := out.2.decls, bound := true }) hrun
  · have hreports := congrArg (fun out : List Stmnt × BindState => out.2.reports) hrun
    exact hreports

end ImpLang
