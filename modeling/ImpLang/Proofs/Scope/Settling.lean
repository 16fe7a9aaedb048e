import ImpLang.Proofs.Passes

/-!
Resolving names once more in a tree that has been edited. A name that has been resolved keeps its
declaration, whatever is visible by then, so a second pass finds nothing to write. It may still add
placeholders: a name that refers to a declaration that is gone gets a new one in every pass, and does
not take it.
-/

namespace ImpLang

/-- Every name used among some nodes has been resolved. -/
def Node.Settled (nodes : List Node) : Prop :=
  ∀ node ∈ nodes, ∀ span id slot, node = .expr (.name span id slot) → ∃ decl, slot.get? = some decl

namespace Node

variable {node : Node} {nodes more others : List Node}

theorem settled_append : Settled (nodes ++ more) ↔ Settled nodes ∧ Settled more :=
  List.forall_mem_append

theorem Settled.tail (h : Settled (node :: nodes)) : Settled nodes := (List.forall_mem_cons.1 h).2

theorem Settled.tail_pair (h : Settled (node :: (nodes ++ more))) : Settled nodes ∧ Settled more :=
  settled_append.1 h.tail

theorem Settled.tail_triple (h : Settled (node :: (nodes ++ more ++ others))) :
    Settled nodes ∧ Settled more ∧ Settled others := by
  obtain ⟨hfirst, hothers⟩ := h.tail_pair
  obtain ⟨hnodes, hmore⟩ := settled_append.1 hfirst
  exact ⟨hnodes, hmore, hothers⟩

end Node

namespace Binder

/-- A step whose result is known whatever state it starts from. -/
def Returns {α : Type} (step : Binder α) (a : α) : Prop := ∀ s : BindState, (step.run s).1 = a

namespace Returns

variable {α β : Type} {a : α} {b : β}

theorem pure : Returns (Pure.pure a) a := fun _ => rfl

theorem bind {step : Binder α} {next : α → Binder β} (h : Returns step a)
    (h' : Returns (next a) b) : Returns (step >>= next) b := by
  intro s
  rw [StateT.run_bind]
  change ((next (step.run s).1).run (step.run s).2).1 = b
  rw [h s]
  exact h' _

theorem skip {step : Binder α} {next : α → Binder β} (h : ∀ a, Returns (next a) b) :
    Returns (step >>= next) b := fun s => h (step.run s).1 (step.run s).2

theorem inScope {step : Binder α} (h : Returns step a) : Returns (Binder.inScope step) a :=
  fun s => h { s with scopes := [] :: s.scopes }

end Returns

variable (context : BindContext)

/-- A slot that is set stays as it is, whether it takes the answer or refuses it. -/
theorem returns_resolve (id : Id) {slot : Slot DeclId} {decl : DeclId}
    (h : slot.get? = some decl) : Returns (resolve context id slot) slot := by
  refine .skip fun answer => ?_
  cases hset : slot.set answer with
  | ok next =>
    obtain ⟨hslot, rfl⟩ := Slot.set_eq_ok_iff.1 hset
    rw [h] at hslot
    have hanswer : slot.get? = some answer := by simpa [h] using hslot
    have hsame : (⟨some answer⟩ : Slot DeclId) = slot := by rw [← hanswer]
    rw [hsame]
    exact .pure
  | error error => exact .skip fun _ => .pure

variable {context}

mutual

/-- A tree whose names have all been resolved is bound to itself. -/
theorem returns_expr {expr : Expr} (h : Node.Settled expr.nodes) :
    Returns (bindExpr context expr) expr := by
  cases expr with
  | name span id slot =>
    obtain ⟨decl, hslot⟩ := h _ List.mem_cons_self span id slot rfl
    exact (returns_resolve context id hslot).bind .pure
  | literal span value => exact .pure
  | tuple span elems => exact (returns_elems h.tail).bind .pure
  | sigma span elems => exact .inScope ((returns_ptrns false h.tail).bind .pure)
  | pi span domain codomain =>
    obtain ⟨hdomain, hcodomain⟩ := h.tail_pair
    exact .inScope ((returns_ptrn false hdomain).bind <| (returns_expr hcodomain).bind .pure)
  | lambda span domain codomain body =>
    obtain ⟨hdomain, hcodomain, hbody⟩ := h.tail_triple
    exact .inScope ((returns_ptrn false hdomain).bind <| (returns_expr hcodomain).bind <|
      (returns_expr hbody).bind .pure)
  | app span callee arg cps =>
    obtain ⟨hcallee, harg⟩ := h.tail_pair
    exact (returns_expr hcallee).bind <| (returns_expr harg).bind .pure
  | field span value id => exact (returns_expr h.tail).bind .pure
  | prefixed span op operand => exact (returns_expr h.tail).bind .pure
  | postfixed span operand op => exact (returns_expr h.tail).bind .pure
  | binary span left op right =>
    obtain ⟨hleft, hright⟩ := h.tail_pair
    exact (returns_expr hleft).bind <| (returns_expr hright).bind .pure
  | block span stmnts value =>
    obtain ⟨hstmnts, hvalue⟩ := h.tail_pair
    exact .inScope (.skip fun _ => (returns_stmnts hstmnts).bind <|
      (returns_expr hvalue).bind .pure)
  | branch span cond yes no =>
    obtain ⟨hcond, hyes, hno⟩ := h.tail_triple
    exact (returns_expr hcond).bind <| (returns_expr hyes).bind <| (returns_expr hno).bind .pure
  | select span scrutinee arms =>
    obtain ⟨hscrutinee, harms⟩ := h.tail_pair
    exact (returns_expr hscrutinee).bind <| (returns_arms harms).bind .pure
  | forLoop span ptrn iter body =>
    obtain ⟨hptrn, hiter, hbody⟩ := h.tail_triple
    exact (returns_expr hiter).bind <|
      .inScope ((returns_ptrn false hptrn).bind <| (returns_expr hbody).bind .pure)
  | whileLoop span cond body =>
    obtain ⟨hcond, hbody⟩ := h.tail_pair
    exact (returns_expr hcond).bind <| (returns_expr hbody).bind .pure
  | pack span domain body =>
    obtain ⟨hdomain, hbody⟩ := h.tail_pair
    exact .inScope ((returns_ptrn false hdomain).bind <| (returns_expr hbody).bind .pure)
  | variadic span domain body =>
    obtain ⟨hdomain, hbody⟩ := h.tail_pair
    exact .inScope ((returns_ptrn false hdomain).bind <| (returns_expr hbody).bind .pure)
  | qualifier span value => exact .pure
  | bottom span => exact .pure
  | unknown span => exact .pure
  | error span => exact .pure

theorem returns_expr? {expr : Option Expr} (h : Node.Settled (Expr.nodesOf? expr)) :
    Returns (bindExpr? context expr) expr := by
  cases expr with
  | none => exact .pure
  | some expr => exact (returns_expr h).bind .pure

theorem returns_ptrn (covered : Bool) {ptrn : Ptrn} (h : Node.Settled ptrn.nodes) :
    Returns (bindPtrn context covered ptrn) ptrn := by
  cases ptrn with
  | name span id decl ty typed =>
    refine (returns_expr? h.tail).bind ?_
    split
    · exact .skip fun _ => .skip fun _ => .pure
    · exact .skip fun _ => .pure
  | tuple span elems ty typed =>
    obtain ⟨hty, helems⟩ := h.tail_pair
    exact (returns_expr? hty).bind <| (returns_ptrns _ helems).bind .pure
  | error span => exact .pure

theorem returns_ptrns (covered : Bool) {ptrns : List Ptrn} (h : Node.Settled (Ptrn.nodesOf ptrns)) :
    Returns (bindPtrns context covered ptrns) ptrns := by
  cases ptrns with
  | nil => exact .pure
  | cons ptrn ptrns =>
    obtain ⟨hptrn, hptrns⟩ := Node.settled_append.1 h
    exact (returns_ptrn covered hptrn).bind <| (returns_ptrns covered hptrns).bind .pure

theorem returns_elems {elems : List Elem} (h : Node.Settled (Elem.nodesOf elems)) :
    Returns (bindElems context elems) elems := by
  match elems with
  | [] => exact .pure
  | ⟨id, expr⟩ :: elems =>
    obtain ⟨hexpr, helems⟩ := Node.settled_append.1 h
    exact (returns_expr hexpr).bind <| (returns_elems helems).bind .pure

theorem returns_arms {arms : List Arm} (h : Node.Settled (Arm.nodesOf arms)) :
    Returns (bindArms context arms) arms := by
  match arms with
  | [] => exact .pure
  | ⟨span, ptrn, body⟩ :: arms =>
    obtain ⟨hfirst, harms⟩ := Node.settled_append.1 h
    obtain ⟨hptrn, hbody⟩ := Node.settled_append.1 hfirst
    refine Returns.bind (a := ⟨span, ptrn, body⟩) ?_ ((returns_arms harms).bind .pure)
    exact .inScope ((returns_ptrn false hptrn).bind <| (returns_expr hbody).bind .pure)

theorem returns_stmnt {stmnt : Stmnt} (h : Node.Settled stmnt.nodes) :
    Returns (bindStmnt context stmnt) stmnt := by
  match stmnt with
  | .expr span expr =>
    have hexpr : Node.Settled expr.nodes := h.tail
    exact (returns_expr hexpr).bind .pure
  | .bind span ptrn init =>
    obtain ⟨hptrn, hinit⟩ := h.tail_pair
    exact (returns_expr hinit).bind <| (returns_ptrn false hptrn).bind .pure
  | .item ⟨span, id, expr, decl, value⟩ =>
    have hexpr : Node.Settled expr.nodes := h.tail.tail
    exact (returns_expr hexpr).bind .pure

theorem returns_stmnts {stmnts : List Stmnt} (h : Node.Settled (Stmnt.nodesOf stmnts)) :
    Returns (bindStmnts context stmnts) stmnts := by
  cases stmnts with
  | nil => exact .pure
  | cons stmnt stmnts =>
    obtain ⟨hstmnt, hstmnts⟩ := Node.settled_append.1 h
    exact (returns_stmnt hstmnt).bind <| (returns_stmnts hstmnts).bind .pure

end

end Binder

namespace Module

variable {module : Module}

theorem stmnts_resolveNames (h : Node.Settled module.walk) (names : Interner) :
    (module.resolveNames names).module.stmnts = module.stmnts := by
  have hreturns : Binder.Returns (Binder.bindModule
      ⟨(names.intern Interner.wildcard).2, (names.intern Interner.wildcard).1, module.bound⟩
      module.stmnts) module.stmnts := .inScope (.skip fun _ => Binder.returns_stmnts h)
  exact hreturns ⟨[], module.decls, #[]⟩

/-- A pass leaves no name unresolved, in whatever tree. -/
theorem settled_resolveNames (module : Module) (names : Interner) :
    Node.Settled (module.resolveNames names).module.walk := by
  rintro node hnode span id slot rfl
  obtain ⟨decl, hslot, -⟩ := (module.annotated_resolveNames names).resolved hnode
  exact ⟨decl, hslot⟩

/-- Whatever has been done to a module, resolving its names twice leaves the tree that doing so once
leaves. The second pass adds placeholders at most. -/
theorem resolveNames_twice (module : Module) (names names' : Interner) :
    let bound := (module.resolveNames names).module
    let again := (bound.resolveNames names').module
    again.stmnts = bound.stmnts ∧ bound.decls.Grows again.decls :=
  ⟨stmnts_resolveNames (module.settled_resolveNames names) names', grows_resolveNames _ names'⟩

/-- The declaration that a name has been given is gone. Every pass makes a placeholder for it. -/
example :
    let compiled := Compiler.new.compile "a" "def a = b; def b = ?;"
    let edited := (compiled.1.remove? 1).getD compiled.1
    let bound := edited.resolveNames compiled.2.names
    let again := bound.module.resolveNames bound.names
    (compiled.1.decls.size, bound.module.decls.size, again.module.decls.size) = (2, 3, 4) := by
  decide +kernel

end Module

end ImpLang
