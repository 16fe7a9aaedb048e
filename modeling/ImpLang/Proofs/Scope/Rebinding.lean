import ImpLang.Proofs.Parser.Source
import ImpLang.Proofs.Scope.Resolution
import Mathlib.Logic.Function.Iterate

/-!
Resolving the names of a module once more changes nothing. On a tree that already carries its
lexical declarations, a pass that knows the module to be bound looks every name up to the answer
written there, keeps the placeholders of names that are still missing, and reports nothing.
-/

namespace ImpLang

namespace Slot

variable {α : Type} [DecidableEq α]

/-- A slot takes the value it has. -/
theorem set_of_get? {slot : Slot α} {value : α} (h : slot.get? = some value) :
    slot.set value = .ok slot := by
  simp only [set, h, if_true]

end Slot

/-- What stays fixed while a module is bound once more. -/
def BindContext.again (names : Interner) (wildcard : Symbol) : BindContext := ⟨names, wildcard, true⟩

namespace Binder

variable (context : BindContext) (decls : Decls)

/-- A step with nothing left to do: among the declarations `decls` it returns `a`, and all it
changes are the scopes, from those of `env` to those of `env'`. -/
def Rests {α : Type} (step : Binder α) (a : α) (env env' : Env) : Prop :=
  ∀ s : BindState, s.scopes.env = env → s.decls = decls →
    ∃ scopes : Scopes, step.run s = (a, { s with scopes := scopes }) ∧ scopes.env = env'

namespace Rests

variable {decls} {α β : Type} {env env₁ env₂ : Env} {a : α} {b : β}

theorem pure : Rests decls (Pure.pure a) a env env := fun s hs _ => ⟨s.scopes, rfl, hs⟩

theorem bind {step : Binder α} {next : α → Binder β} (h : Rests decls step a env env₁)
    (h' : Rests decls (next a) b env₁ env₂) : Rests decls (step >>= next) b env env₂ := by
  intro s hs hd
  obtain ⟨scopes, hrun, henv⟩ := h s hs hd
  obtain ⟨scopes', hrun', henv'⟩ := h' { s with scopes := scopes } henv hd
  refine ⟨scopes', ?_, henv'⟩
  rw [StateT.run_bind, hrun]
  exact hrun'

/-- The scope that a step gets for itself is gone behind it. -/
theorem inScope {step : Binder α} (h : Rests decls step a env.inner env₁)
    (htail : env₁.tail = env) : Rests decls (Binder.inScope step) a env env := by
  intro s hs hd
  have hin : Scopes.env ([] :: s.scopes) = env.inner := by
    rw [← hs]; rfl
  obtain ⟨scopes, hrun, henv⟩ := h { s with scopes := [] :: s.scopes } hin hd
  refine ⟨scopes.tail, ?_, ?_⟩
  · have hopened : (Binder.inScope step).run s =
        ((step.run { s with scopes := [] :: s.scopes }).1,
          { (step.run { s with scopes := [] :: s.scopes }).2 with
            scopes := (step.run { s with scopes := [] :: s.scopes }).2.scopes.tail }) := rfl
    rw [hopened, hrun]
  · rw [Scopes.env_tail, henv, htail]

end Rests

theorem rests_declare (symbol : Symbol) (decl : DeclId) (env : Env) :
    Rests decls (declare context symbol decl) () env (env.bind context.wildcard symbol decl) := by
  intro s hs _
  by_cases h : symbol = context.wildcard
  · simp only [declare, h, Env.bind_wildcard]
    exact ⟨s.scopes, rfl, hs⟩
  · simp only [declare, if_neg h]
    refine ⟨s.scopes.declare symbol decl, rfl, ?_⟩
    rw [← hs, Scopes.env_declare _ _ h]

/-- Items are declared without a look at what is annotated. -/
theorem run_declareItems (stmnts : List Stmnt) (s : BindState) :
    ∃ scopes : Scopes, (declareItems context stmnts).run s = ((), { s with scopes := scopes }) := by
  induction stmnts generalizing s with
  | nil => exact ⟨s.scopes, rfl⟩
  | cons stmnt stmnts ih =>
    cases stmnt with
    | expr span expr => exact ih s
    | bind span ptrn init => exact ih s
    | item it =>
      obtain ⟨scopes, hrun, -⟩ := rests_declare context s.decls it.id.symbol it.decl _ s rfl rfl
      obtain ⟨scopes', hrun'⟩ := ih { s with scopes := scopes }
      refine ⟨scopes', ?_⟩
      rw [declareItems, StateT.run_bind, hrun]
      exact hrun'

theorem rests_declareItems (stmnts : List Stmnt) (env : Env) :
    Rests decls (declareItems context stmnts) () env.inner
      (.ofItems context.wildcard stmnts :: env) := by
  intro s hs _
  obtain ⟨scopes, hrun⟩ := run_declareItems context stmnts s
  have henv : ((declareItems context stmnts).run s).2.scopes.env =
      .ofItems context.wildcard stmnts :: env :=
    (binds_declareItems context stmnts env s hs).2.1
  rw [hrun] at henv
  exact ⟨scopes, hrun, henv⟩

/-- The declaration chosen for a name is found again, a placeholder because the name is still
missing. -/
theorem rests_target (id : Id) {slot : Slot DeclId} {env : Env}
    (h : slot.Chosen decls (env.lookup id.symbol)) :
    ∃ decl, slot.get? = some decl ∧ Rests decls (target context id slot) decl env env := by
  cases hl : env.lookup id.symbol with
  | some decl =>
    rw [hl] at h
    refine ⟨decl, h, fun s hs _ => ⟨s.scopes, ?_, hs⟩⟩
    rw [← hs, Scopes.lookup_env] at hl
    simp only [target, StateT.run_bind, StateT.run_get, pure_bind, hl]
    rfl
  | none =>
    rw [hl] at h
    -- The placeholder stands for a missing declaration, and that alone keeps it from being replaced.
    obtain ⟨decl, hslot, herror⟩ := h
    refine ⟨decl, hslot, fun s hs hd => ⟨s.scopes, ?_, hs⟩⟩
    rw [← hs, Scopes.lookup_env] at hl
    rw [← hd] at herror
    simp only [target, StateT.run_bind, StateT.run_get, pure_bind, hl, hslot, herror, if_true]
    rfl

theorem rests_resolve (id : Id) {slot : Slot DeclId} {env : Env}
    (h : slot.Chosen decls (env.lookup id.symbol)) :
    Rests decls (resolve context id slot) slot env env := by
  obtain ⟨decl, hslot, htarget⟩ := rests_target context decls id h
  refine htarget.bind ?_
  rw [Slot.set_of_get? hslot]
  exact .pure

variable {decls} {names : Interner} {wildcard : Symbol}

mutual

/-- A lexically annotated tree is bound to itself. -/
theorem rests_expr {expr : Expr} {env : Env} (h : expr.Scoped wildcard decls env) :
    Rests decls (bindExpr (.again names wildcard) expr) expr env env := by
  cases expr with
  | name span id slot => exact (rests_resolve (.again names wildcard) decls id h).bind .pure
  | literal span value => exact .pure
  | tuple span elems => exact (rests_elems h).bind .pure
  | sigma span elems =>
    exact .inScope ((rests_ptrns false h).bind .pure) (Env.tail_bindPtrns ..)
  | pi span domain codomain =>
    exact .inScope ((rests_ptrn false h.1).bind <| (rests_expr h.2).bind .pure)
      (Env.tail_bindPtrn ..)
  | lambda span domain codomain body =>
    exact .inScope ((rests_ptrn false h.1).bind <| (rests_expr h.2.1).bind <|
      (rests_expr h.2.2).bind .pure) (Env.tail_bindPtrn ..)
  | app span callee arg cps => exact (rests_expr h.1).bind <| (rests_expr h.2).bind .pure
  | field span value id =>
    have hvalue : value.Scoped wildcard decls env := h
    exact (rests_expr hvalue).bind .pure
  | prefixed span op operand =>
    have hoperand : operand.Scoped wildcard decls env := h
    exact (rests_expr hoperand).bind .pure
  | postfixed span operand op =>
    have hoperand : operand.Scoped wildcard decls env := h
    exact (rests_expr hoperand).bind .pure
  | binary span left op right => exact (rests_expr h.1).bind <| (rests_expr h.2).bind .pure
  | block span stmnts value =>
    exact .inScope ((rests_declareItems (.again names wildcard) decls stmnts env).bind <|
      (rests_stmnts h.1).bind <| (rests_expr h.2).bind .pure) (Env.tail_bindStmnts ..)
  | branch span cond yes no =>
    exact (rests_expr h.1).bind <| (rests_expr h.2.1).bind <| (rests_expr h.2.2).bind .pure
  | select span scrutinee arms => exact (rests_expr h.1).bind <| (rests_arms h.2).bind .pure
  | forLoop span ptrn iter body =>
    exact (rests_expr h.1).bind <| .inScope ((rests_ptrn false h.2.1).bind <|
      (rests_expr h.2.2).bind .pure) (Env.tail_bindPtrn ..)
  | whileLoop span cond body => exact (rests_expr h.1).bind <| (rests_expr h.2).bind .pure
  | pack span domain body =>
    exact .inScope ((rests_ptrn false h.1).bind <| (rests_expr h.2).bind .pure)
      (Env.tail_bindPtrn ..)
  | variadic span domain body =>
    exact .inScope ((rests_ptrn false h.1).bind <| (rests_expr h.2).bind .pure)
      (Env.tail_bindPtrn ..)
  | qualifier span value => exact .pure
  | bottom span => exact .pure
  | unknown span => exact .pure
  | error span => exact .pure

theorem rests_expr? {expr : Option Expr} {env : Env}
    (h : Expr.Scoped? wildcard decls env expr) :
    Rests decls (bindExpr? (.again names wildcard) expr) expr env env := by
  cases expr with
  | none => exact .pure
  | some expr =>
    have hexpr : expr.Scoped wildcard decls env := h
    exact (rests_expr hexpr).bind .pure

/-- What a pattern lacks was reported when the module was bound first. -/
theorem rests_ptrn (covered : Bool) {ptrn : Ptrn} {env : Env}
    (h : ptrn.Scoped wildcard decls env) :
    Rests decls (bindPtrn (.again names wildcard) covered ptrn) ptrn env (env.bindPtrn wildcard ptrn) := by
  cases ptrn with
  | name span id decl ty typed =>
    refine (rests_expr? h).bind ?_
    simp only [BindContext.again, Bool.not_true, Bool.and_false, Bool.false_eq_true, if_false]
    exact (rests_declare (.again names wildcard) decls id.symbol decl env).bind .pure
  | tuple span elems ty typed => exact (rests_expr? h.1).bind <| (rests_ptrns _ h.2).bind .pure
  | error span => exact .pure

theorem rests_ptrns (covered : Bool) {ptrns : List Ptrn} {env : Env}
    (h : Ptrn.ScopedList wildcard decls env ptrns) :
    Rests decls (bindPtrns (.again names wildcard) covered ptrns) ptrns env
      (env.bindPtrns wildcard ptrns) := by
  cases ptrns with
  | nil => exact .pure
  | cons ptrn ptrns => exact (rests_ptrn covered h.1).bind <| (rests_ptrns covered h.2).bind .pure

theorem rests_elems {elems : List Elem} {env : Env}
    (h : Elem.ScopedList wildcard decls env elems) :
    Rests decls (bindElems (.again names wildcard) elems) elems env env := by
  cases elems with
  | nil => exact .pure
  | cons elem elems =>
    obtain ⟨id, expr⟩ := elem
    exact (rests_expr h.1).bind <| (rests_elems h.2).bind .pure

theorem rests_arms {arms : List Arm} {env : Env}
    (h : Arm.ScopedList wildcard decls env arms) :
    Rests decls (bindArms (.again names wildcard) arms) arms env env := by
  cases arms with
  | nil => exact .pure
  | cons arm arms =>
    obtain ⟨span, ptrn, body⟩ := arm
    refine Rests.bind (a := ⟨span, ptrn, body⟩) ?_ ((rests_arms h.2.2).bind .pure)
    exact .inScope ((rests_ptrn false h.1).bind <| (rests_expr h.2.1).bind .pure)
      (Env.tail_bindPtrn ..)

theorem rests_stmnt {stmnt : Stmnt} {env : Env} (h : stmnt.Scoped wildcard decls env) :
    Rests decls (bindStmnt (.again names wildcard) stmnt) stmnt env (env.bindStmnt wildcard stmnt) := by
  cases stmnt with
  | expr span expr =>
    have hexpr : expr.Scoped wildcard decls env := h
    exact (rests_expr hexpr).bind .pure
  | bind span ptrn init => exact (rests_expr h.1).bind <| (rests_ptrn false h.2).bind .pure
  | item it =>
    obtain ⟨span, id, expr, decl, value⟩ := it
    have hexpr : expr.Scoped wildcard decls env := h
    exact (rests_expr hexpr).bind .pure

theorem rests_stmnts {stmnts : List Stmnt} {env : Env}
    (h : Stmnt.ScopedList wildcard decls env stmnts) :
    Rests decls (bindStmnts (.again names wildcard) stmnts) stmnts env
      (env.bindStmnts wildcard stmnts) := by
  cases stmnts with
  | nil => exact .pure
  | cons stmnt stmnts => exact (rests_stmnt h.1).bind <| (rests_stmnts h.2).bind .pure

end

theorem rests_module (names : Interner) {stmnts : List Stmnt}
    (h : Stmnt.ScopedList wildcard decls [.ofItems wildcard stmnts] stmnts) :
    Rests decls (bindModule (.again names wildcard) stmnts) stmnts [] [] :=
  .inScope ((rests_declareItems (.again names wildcard) decls stmnts []).bind (rests_stmnts h))
    (Env.tail_bindStmnts ..)

end Binder

/-- A bound module whose names are annotated lexically: resolving its names does nothing but number
the wildcard. -/
theorem Module.Scoped.resolveNames {module : Module} {names : Interner}
    (h : module.Scoped (names.intern Interner.wildcard).1) (hbound : module.bound = true) :
    module.resolveNames names = ⟨module, (names.intern Interner.wildcard).2, #[]⟩ := by
  obtain ⟨span, file, stmnts, decls, bound⟩ := module
  cases hbound
  obtain ⟨scopes, hrun, -⟩ :=
    Binder.rests_module (names.intern Interner.wildcard).2 h ⟨[], decls, #[]⟩ rfl rfl
  simp only [BindContext.again] at hrun
  simp only [Module.resolveNames, hrun]

/-- What resolving the names of a module for the first time leaves is not changed by doing so once
more with the name table it leaves. -/
theorem Module.Unresolved.resolveNames_again {module : Module} (h : module.Unresolved)
    (names : Interner) :
    let bound := module.resolveNames names
    bound.module.resolveNames bound.names = ⟨bound.module, bound.names, #[]⟩ := by
  obtain ⟨-, hscoped, -⟩ := h.resolveNames names
  have hwildcard : (names.intern Interner.wildcard).2.intern Interner.wildcard =
      names.intern Interner.wildcard := Interner.intern_of_get? (Interner.get?_intern ..)
  have hsame : (module.resolveNames names).module.Scoped
      ((names.intern Interner.wildcard).2.intern Interner.wildcard).1 := by
    rw [hwildcard]
    exact hscoped
  have hagain := hsame.resolveNames rfl
  rw [hwildcard] at hagain
  exact hagain

namespace Compiler

theorem bind_of_rest {c : Compiler} {module : Module}
    (h : module.resolveNames c.names = ⟨module, c.names, #[]⟩) : c.bind module = (module, c) := by
  simp only [bind, h]
  rfl

/-- Once bound, a module and its compiler stay as they are. -/
theorem bind_bind (c : Compiler) {module : Module} (h : module.Unresolved) :
    (c.bind module).2.bind (c.bind module).1 = c.bind module := by
  refine bind_of_rest ?_
  rw [names_bind]
  exact h.resolveNames_again c.names

/-- What has been compiled can be bound any number of times more: module and compiler stay as they
are, with every annotation, declaration and report, whatever is wrong with the source. -/
theorem iterate_bind_compile (c : Compiler) (name source : String) (n : Nat) :
    (fun bound : Module × Compiler => bound.2.bind bound.1)^[n] (c.compile name source) =
      c.compile name source := by
  have hparsed := c.unresolved_parseSource name source
  refine Function.iterate_fixed (f := fun bound : Module × Compiler => bound.2.bind bound.1) ?_ n
  rw [compile_eq]
  exact bind_bind (c.parseSource name source).2 hparsed

end Compiler

end ImpLang
