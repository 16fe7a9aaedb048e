import ImpLang.Proofs.Ir.Journal
import ImpLang.Proofs.Scope.Lexical
import ImpLang.Tree.Walk

/-!
Emission binds a declaration before it uses it. Lexical scoping says which declarations a use may
refer to, and wherever emission comes to a place, all declarations in scope there have values.
-/

namespace ImpLang

/-- A condition on builders that every request keeps, under which declarations that have been bound
are found. -/
structure Builder.Invariant (σ : Type) [Builder σ] where
  fit : σ → Prop
  bound : σ → DeclId → Prop
  literal : ∀ span value b, fit b → fit (Builder.literal span value b).2 ∧
    ∀ decl, bound b decl → bound (Builder.literal span value b).2 decl
  param : ∀ span ty b, fit b → fit (Builder.param span ty b).2 ∧
    ∀ decl, bound b decl → bound (Builder.param span ty b).2 decl
  build : ∀ span op operands b, fit b → fit (Builder.build span op operands b).2 ∧
    ∀ decl, bound b decl → bound (Builder.build span op operands b).2 decl
  bind : ∀ decl value b, fit b → fit (Builder.bind decl value b) ∧
    bound (Builder.bind decl value b) decl ∧
    ∀ other, bound b other → bound (Builder.bind decl value b) other
  lookup : ∀ decl b, fit b → bound b decl → ∃ value b', Builder.lookup decl b = (some value, b') ∧
    fit b' ∧ ∀ other, bound b other → bound b' other

/-- Declarations that are known to have values. -/
abbrev Known := DeclId → Prop

/-- Some more declarations are known. -/
def Known.plus (known : Known) (decls : List DeclId) : Known := fun decl => known decl ∨ decl ∈ decls

mutual

/-- The declarations of the names in a pattern. -/
def Ptrn.declared : Ptrn → List DeclId
  | .name _ _ decl _ _ => [decl]
  | .tuple _ elems _ _ => Ptrn.declaredList elems
  | .error _ => []

def Ptrn.declaredList : List Ptrn → List DeclId
  | [] => []
  | ptrn :: ptrns => ptrn.declared ++ Ptrn.declaredList ptrns

end

/-- The declarations that a statement binds for those behind it. -/
def Stmnt.declared : Stmnt → List DeclId
  | .bind _ ptrn _ => ptrn.declared
  | .expr .. | .item _ => []

namespace Env

/-- All that can be seen in an environment is known. -/
def Within (env : Env) (known : Known) : Prop :=
  ∀ name decl, env.lookup name = some decl → known decl

variable {env : Env} {known : Known}

theorem Within.mono {known' : Known} (h : env.Within known)
    (hknown : ∀ decl, known decl → known' decl) : env.Within known' :=
  fun name decl hlookup => hknown decl (h name decl hlookup)

theorem Within.inner (h : env.Within known) : env.inner.Within known := by
  intro name decl hlookup
  exact h name decl hlookup

variable (wildcard : Symbol)

theorem Within.bind (h : env.Within known) (name : Symbol) {decl : DeclId} (hdecl : known decl) :
    (env.bind wildcard name decl).Within known := by
  intro other found hlookup
  cases env with
  | nil => exact h other found hlookup
  | cons frame outer =>
    simp only [Env.bind] at hlookup
    split at hlookup
    · exact h other found hlookup
    · by_cases hother : other = name
      · simp only [Env.lookup, List.findSome?_cons, hother, if_true] at hlookup
        cases hlookup
        exact hdecl
      · refine h other found ?_
        simpa only [Env.lookup, List.findSome?_cons, if_neg hother] using hlookup

mutual

theorem Within.bindPtrn {env : Env} {known : Known} (h : env.Within known) (ptrn : Ptrn) :
    (env.bindPtrn wildcard ptrn).Within (known.plus ptrn.declared) := by
  cases ptrn with
  | name span id decl ty typed =>
    refine Within.bind wildcard (h.mono fun _ hdecl => .inl hdecl) id.symbol (.inr ?_)
    simp [Ptrn.declared]
  | tuple span elems ty typed => exact Within.bindPtrns h elems
  | error span => exact h.mono fun _ hdecl => .inl hdecl

theorem Within.bindPtrns {env : Env} {known : Known} (h : env.Within known) (ptrns : List Ptrn) :
    (env.bindPtrns wildcard ptrns).Within (known.plus (Ptrn.declaredList ptrns)) := by
  cases ptrns with
  | nil => exact h.mono fun _ hdecl => .inl hdecl
  | cons ptrn ptrns =>
    refine (Within.bindPtrns (Within.bindPtrn h ptrn) ptrns).mono fun decl hdecl => ?_
    simpa [Known.plus, Ptrn.declaredList, or_assoc] using hdecl

end

theorem Within.bindStmnt (h : env.Within known) (stmnt : Stmnt) :
    (env.bindStmnt wildcard stmnt).Within (known.plus stmnt.declared) := by
  cases stmnt with
  | expr span expr => exact h.mono fun _ hdecl => .inl hdecl
  | bind span ptrn init => exact Within.bindPtrn wildcard h ptrn
  | item it => exact h.mono fun _ hdecl => .inl hdecl

theorem Within.bindStmnts {env : Env} {known : Known} (h : env.Within known)
    (stmnts : List Stmnt) :
    (env.bindStmnts wildcard stmnts).Within (known.plus (stmnts.flatMap Stmnt.declared)) := by
  induction stmnts generalizing env known with
  | nil => exact h.mono fun _ hdecl => .inl hdecl
  | cons stmnt stmnts ih =>
    refine (ih (Within.bindStmnt wildcard h stmnt)).mono fun decl hdecl => ?_
    simpa [Known.plus, or_assoc] using hdecl

theorem Within.ofItems (h : env.Within known) (stmnts : List Stmnt) :
    Env.Within (.ofItems wildcard stmnts :: env)
      (known.plus ((Stmnt.items stmnts).map Item.decl)) := by
  intro name decl hlookup
  simp only [Env.lookup, List.findSome?_cons] at hlookup
  split at hlookup
  · next found hframe =>
    cases hlookup
    simp only [Frame.ofItems] at hframe
    split at hframe
    · cases hframe
    · obtain ⟨item, hitem, rfl⟩ := Option.map_eq_some_iff.1 hframe
      have hmem := List.mem_of_find?_eq_some hitem
      exact .inr (List.mem_map_of_mem (List.mem_reverse.1 hmem))
  · exact .inl (h name decl hlookup)

end Env

/-- A node that emission can do something with: no error, no name of a missing declaration, and no
item that has a value. -/
structure Node.Ready (decls : Decls) (node : Node) : Prop where
  fit : node.isError = false
  declared : ∀ span id slot decl, node = .expr (.name span id slot) → slot.get? = some decl →
    decls.isError decl = false
  unset : ∀ item, node = .item item → item.value.get? = none

namespace Emitter

variable {σ : Type} [Builder σ] (I : Builder.Invariant σ)

/-- A step that succeeds wherever the known declarations have values, and behind which all
declarations of a second kind have. -/
def Emits {α : Type} (m : Emitter σ α) (known known' : Known) : Prop :=
  ∀ s : EmitState σ, I.fit s.builder → (∀ decl, known decl → I.bound s.builder decl) →
    ∃ a t, m.run.run s = (.ok a, t) ∧ I.fit t.builder ∧
      ∀ decl, known' decl → I.bound t.builder decl

namespace Emits

variable {I} {α β : Type} {known known₁ known₂ : Known}

theorem pure (a : α) : Emits I (pure a) known known :=
  fun s hfit hknown => ⟨a, s, rfl, hfit, hknown⟩

theorem bind {m : Emitter σ α} {f : α → Emitter σ β} (hm : Emits I m known known₁)
    (hf : ∀ a, Emits I (f a) known₁ known₂) : Emits I (m >>= f) known known₂ := by
  intro s hfit hknown
  obtain ⟨a, t, hrun, hfit', hknown'⟩ := hm s hfit hknown
  obtain ⟨b, u, hrest, hfit'', hknown''⟩ := hf a t hfit' hknown'
  refine ⟨b, u, ?_, hfit'', hknown''⟩
  rw [ExceptT.run_bind, StateT.run_bind, hrun]
  exact hrest

/-- What is bound stays bound. -/
theorem forget {m : Emitter σ α} (h : Emits I m known known₁)
    (hknown : ∀ decl, known₂ decl → known₁ decl) : Emits I m known known₂ := by
  intro s hfit hs
  obtain ⟨a, t, hrun, hfit', ht⟩ := h s hfit hs
  exact ⟨a, t, hrun, hfit', fun decl hdecl => ht decl (hknown decl hdecl)⟩

theorem drop {m : Emitter σ α} {decls : List DeclId} (h : Emits I m known (known₁.plus decls)) :
    Emits I m known known₁ := h.forget fun _ hdecl => .inl hdecl

end Emits

variable {I} {known : Known}

theorem emits_ask {α : Type} {request : σ → α × σ} {known' : Known}
    (h : ∀ b, I.fit b → (∀ decl, known decl → I.bound b decl) →
      I.fit (request b).2 ∧ ∀ decl, known' decl → I.bound (request b).2 decl) :
    Emits I (ask request) known known' := by
  intro s hfit hknown
  obtain ⟨hfit', hknown'⟩ := h s.builder hfit hknown
  exact ⟨(request s.builder).1, _, rfl, hfit', hknown'⟩

theorem emits_literal (span : Span) (value : Literal Symbol) :
    Emits I (ask (Builder.literal span value)) known known := by
  refine emits_ask fun b hfit hknown => ?_
  obtain ⟨hfit', hkeeps⟩ := I.literal span value b hfit
  exact ⟨hfit', fun decl hdecl => hkeeps decl (hknown decl hdecl)⟩

theorem emits_param (span : Span) (ty : Option Value) :
    Emits I (ask (Builder.param span ty)) known known := by
  refine emits_ask fun b hfit hknown => ?_
  obtain ⟨hfit', hkeeps⟩ := I.param span ty b hfit
  exact ⟨hfit', fun decl hdecl => hkeeps decl (hknown decl hdecl)⟩

theorem emits_build (span : Span) (op : Op) (operands : List Value) :
    Emits I (build span op operands) known known := by
  refine emits_ask fun b hfit hknown => ?_
  obtain ⟨hfit', hkeeps⟩ := I.build span op operands b hfit
  exact ⟨hfit', fun decl hdecl => hkeeps decl (hknown decl hdecl)⟩

theorem emits_bind (decl : DeclId) (value : Value) :
    Emits I (bind decl value) known (known.plus [decl]) := by
  refine emits_ask fun b hfit hknown => ?_
  obtain ⟨hfit', hdecl, hothers⟩ := I.bind decl value b hfit
  refine ⟨hfit', fun other hother => ?_⟩
  rcases hother with hother | hother
  · exact hothers other (hknown other hother)
  · obtain rfl := List.mem_singleton.1 hother
    exact hdecl

theorem emits_write {item : DeclId} {slot : Slot Value} (value : Value) (h : slot.get? = none) :
    Emits I (write item slot value) known known := by
  intro s hfit hknown
  have hset : slot.set value = .ok ⟨some value⟩ := Slot.set_eq_ok_iff.2 ⟨.inl h, rfl⟩
  refine ⟨(), { s with written := s.written.push (item, value) }, ?_, hfit, hknown⟩
  simp only [write, hset]
  rfl

mutual

theorem emits_destructure (ptrn : Ptrn) (value : Value) (known : Known) :
    Emits I (destructure ptrn value) known (known.plus ptrn.declared) := by
  cases ptrn with
  | name span id decl ty typed => exact emits_bind decl value
  | tuple span elems ty typed => exact emits_extract 0 elems value known
  | error span => exact (Emits.pure ()).forget fun decl hdecl => by simpa [Known.plus, Ptrn.declared] using hdecl

theorem emits_extract (index : Nat) (elems : List Ptrn) (value : Value) (known : Known) :
    Emits I (extract index elems value) known (known.plus (Ptrn.declaredList elems)) := by
  cases elems with
  | nil => exact (Emits.pure ()).forget fun decl hdecl => by simpa [Known.plus, Ptrn.declaredList] using hdecl
  | cons elem elems =>
    have hrest := (emits_build elem.span (.extract index) [value]).bind fun part =>
      (emits_destructure elem part known).bind fun _ =>
        emits_extract (index + 1) elems value (known.plus elem.declared)
    exact hrest.forget fun decl hdecl => by
      simpa [Known.plus, Ptrn.declaredList, or_assoc] using hdecl

end

theorem emits_placeholders (stmnts : List Stmnt) (known : Known) :
    Emits I (placeholders stmnts) known (known.plus ((Stmnt.items stmnts).map Item.decl)) := by
  induction stmnts generalizing known with
  | nil => exact (Emits.pure ()).forget fun decl hdecl => by simpa [Known.plus, Stmnt.items] using hdecl
  | cons stmnt stmnts ih =>
    cases stmnt with
    | expr span expr => exact ih known
    | bind span ptrn init => exact ih known
    | item it =>
      have hrest := (emits_param it.span none).bind fun value =>
        (emits_bind it.decl value).bind fun _ => ih (known.plus [it.decl])
      exact hrest.forget fun decl hdecl => by
        simpa [Known.plus, Stmnt.items, or_assoc] using hdecl

theorem emits_parameter (ptrn : Ptrn) (ty : Option Value) :
    Emits I (parameter ptrn ty) known (known.plus ptrn.declared) :=
  (emits_param ptrn.span ty).bind fun value =>
    (emits_destructure ptrn value known).bind fun _ => .pure value

/-- The use of a name with a declaration in scope finds its value. -/
theorem emits_use {decls : Decls} {env : Env} (henv : env.Within known) {name : Symbol}
    {slot : Slot DeclId} (hslot : slot.Chosen decls (env.lookup name))
    (hdeclared : ∀ decl, slot.get? = some decl → decls.isError decl = false) (span : Span) :
    Emits I (use decls span slot) known known := by
  intro s hfit hknown
  cases hlookup : env.lookup name with
  | none =>
    rw [hlookup] at hslot
    obtain ⟨decl, hget, herror⟩ := hslot
    rw [hdeclared decl hget] at herror
    cases herror
  | some decl =>
    rw [hlookup] at hslot
    have hget : slot.get? = some decl := hslot
    have hbound := hknown decl (henv name decl hlookup)
    obtain ⟨value, b, hrun, hfit', hkeeps⟩ := I.lookup decl s.builder hfit hbound
    refine ⟨value, { s with builder := b }, ?_, hfit', fun other h => hkeeps other (hknown other h)⟩
    have hask : (ask (Builder.lookup decl) : Emitter σ _).run.run s =
        (.ok (some value), { s with builder := b }) := by
      change (Except.ok (Builder.lookup decl s.builder).1,
        { s with builder := (Builder.lookup decl s.builder).2 }) = _
      rw [hrun]
    simp only [use, hget, hdeclared decl hget, Bool.false_eq_true, if_false]
    rw [ExceptT.run_bind, StateT.run_bind, hask]
    rfl

section Trees

variable (decls : Decls) (wildcard : Symbol)

mutual

/-- In the environment of an expression its emission succeeds. -/
theorem emits_expr (expr : Expr) (env : Env) (known : Known) (henv : env.Within known)
    (hscoped : expr.Scoped wildcard decls env) (hready : ∀ node ∈ expr.nodes, node.Ready decls) :
    Emits I (emitExpr decls expr) known known := by
  cases expr <;> simp only [Expr.nodes, List.mem_cons, List.mem_append, or_imp, forall_and,
    forall_eq] at hready <;> simp only [emitExpr] <;> simp only [Expr.Scoped] at hscoped
  case name span id slot =>
    exact emits_use henv hscoped (fun decl hget => hready.1.declared span id slot decl rfl hget) span
  case literal span value => exact emits_literal span value
  case tuple span elems =>
    exact (emits_elems elems env known henv hscoped hready.2).bind fun values =>
      emits_build span .tuple values
  case sigma span elems =>
    exact (emits_params elems env.inner known henv.inner hscoped hready.2).bind fun values =>
      emits_build span .sigma values
  case pi span domain codomain =>
    have hin := henv.inner.bindPtrn wildcard domain
    exact ((emits_emitParam domain env.inner known henv.inner hscoped.1 hready.2.1).bind fun d =>
      (emits_expr codomain _ _ hin hscoped.2 hready.2.2).bind fun c =>
        emits_build span .pi [d, c]).drop
  case lambda span domain codomain body =>
    have hin := henv.inner.bindPtrn wildcard domain
    exact ((emits_emitParam domain env.inner known henv.inner hscoped.1 hready.2.1.1).bind fun d =>
      (emits_expr codomain _ _ hin hscoped.2.1 hready.2.1.2).bind fun c =>
      (emits_expr body _ _ hin hscoped.2.2 hready.2.2).bind fun b =>
        emits_build span .lambda [d, c, b]).drop
  case app span callee arg cps =>
    exact (emits_expr callee env known henv hscoped.1 hready.2.1).bind fun f =>
      (emits_expr arg env known henv hscoped.2 hready.2.2).bind fun a =>
        emits_build span (.app cps) [f, a]
  case field span value id =>
    exact (emits_expr value env known henv hscoped hready.2).bind fun v =>
      emits_build span (.field id.symbol) [v]
  case prefixed span op operand =>
    exact (emits_expr operand env known henv hscoped hready.2).bind fun v =>
      emits_build span (.prefixed op) [v]
  case postfixed span operand op =>
    exact (emits_expr operand env known henv hscoped hready.2).bind fun v =>
      emits_build span (.postfixed op) [v]
  case binary span left op right =>
    exact (emits_expr left env known henv hscoped.1 hready.2.1).bind fun l =>
      (emits_expr right env known henv hscoped.2 hready.2.2).bind fun r =>
        emits_build span (.binary op) [l, r]
  case block span stmnts value =>
    have hitems := henv.ofItems wildcard stmnts
    have hin := hitems.bindStmnts wildcard stmnts
    exact ((emits_placeholders stmnts known).bind fun _ =>
      (emits_stmnts stmnts _ _ hitems hscoped.1 hready.2.1).bind fun values =>
      (emits_expr value _ _ hin hscoped.2 hready.2.2).bind fun v =>
        emits_build span .block (values ++ [v])).drop.drop
  case branch span cond yes no =>
    exact (emits_expr cond env known henv hscoped.1 hready.2.1.1).bind fun c =>
      (emits_expr yes env known henv hscoped.2.1 hready.2.1.2).bind fun y =>
      (emits_expr no env known henv hscoped.2.2 hready.2.2).bind fun n =>
        emits_build span .branch [c, y, n]
  case select span scrutinee arms =>
    exact (emits_expr scrutinee env known henv hscoped.1 hready.2.1).bind fun v =>
      (emits_arms v arms env known henv hscoped.2 hready.2.2).bind fun values =>
        emits_build span .select (v :: values)
  case forLoop span ptrn iter body =>
    have hin := henv.inner.bindPtrn wildcard ptrn
    exact ((emits_expr iter env known henv hscoped.1 hready.2.1.2).bind fun i =>
      (emits_emitParam ptrn env.inner known henv.inner hscoped.2.1 hready.2.1.1).bind fun p =>
      (emits_expr body _ _ hin hscoped.2.2 hready.2.2).bind fun b =>
        emits_build span .forLoop [i, p, b]).drop
  case whileLoop span cond body =>
    exact (emits_expr cond env known henv hscoped.1 hready.2.1).bind fun c =>
      (emits_expr body env known henv hscoped.2 hready.2.2).bind fun b =>
        emits_build span .whileLoop [c, b]
  case pack span domain body =>
    have hin := henv.inner.bindPtrn wildcard domain
    exact ((emits_emitParam domain env.inner known henv.inner hscoped.1 hready.2.1).bind fun d =>
      (emits_expr body _ _ hin hscoped.2 hready.2.2).bind fun b =>
        emits_build span .pack [d, b]).drop
  case variadic span domain body =>
    have hin := henv.inner.bindPtrn wildcard domain
    exact ((emits_emitParam domain env.inner known henv.inner hscoped.1 hready.2.1).bind fun d =>
      (emits_expr body _ _ hin hscoped.2 hready.2.2).bind fun b =>
        emits_build span .variadic [d, b]).drop
  case qualifier span value => exact emits_build span (.qualifier value) []
  case bottom span => exact emits_build span .bottom []
  case unknown span => exact emits_build span .unknown []
  case error span => exact absurd hready.1.fit Bool.noConfusion

theorem emits_expr? (expr : Option Expr) (env : Env) (known : Known) (henv : env.Within known)
    (hscoped : Expr.Scoped? wildcard decls env expr)
    (hready : ∀ node ∈ Expr.nodesOf? expr, node.Ready decls) :
    Emits I (emitExpr? decls expr) known known := by
  cases expr with
  | none => exact .pure none
  | some expr =>
    exact (emits_expr expr env known henv hscoped hready).bind fun value => .pure (some value)

/-- A parameter makes the names of its pattern known. -/
theorem emits_emitParam (ptrn : Ptrn) (env : Env) (known : Known) (henv : env.Within known)
    (hscoped : ptrn.Scoped wildcard decls env) (hready : ∀ node ∈ ptrn.nodes, node.Ready decls) :
    Emits I (emitParam decls ptrn) known (known.plus ptrn.declared) := by
  cases ptrn with
  | name span id decl ty typed =>
    simp only [Ptrn.nodes, List.mem_cons, or_imp, forall_and] at hready
    exact (emits_expr? ty env known henv hscoped hready.2).bind fun value =>
      emits_parameter _ value
  | tuple span elems ty typed =>
    simp only [Ptrn.nodes, List.mem_cons, List.mem_append, or_imp, forall_and] at hready
    exact (emits_expr? ty env known henv hscoped.1 hready.2.1).bind fun value =>
      emits_parameter _ value
  | error span => exact emits_parameter _ none

theorem emits_params (ptrns : List Ptrn) (env : Env) (known : Known) (henv : env.Within known)
    (hscoped : Ptrn.ScopedList wildcard decls env ptrns)
    (hready : ∀ node ∈ Ptrn.nodesOf ptrns, node.Ready decls) :
    Emits I (emitParams decls ptrns) known known := by
  cases ptrns with
  | nil => exact .pure []
  | cons ptrn ptrns =>
    simp only [Ptrn.nodesOf, List.mem_append, or_imp, forall_and] at hready
    have hin := henv.bindPtrn wildcard ptrn
    exact ((emits_emitParam ptrn env known henv hscoped.1 hready.1).bind fun value =>
      (emits_params ptrns _ _ hin hscoped.2 hready.2).bind fun values => .pure _).drop

theorem emits_elems (elems : List Elem) (env : Env) (known : Known) (henv : env.Within known)
    (hscoped : Elem.ScopedList wildcard decls env elems)
    (hready : ∀ node ∈ Elem.nodesOf elems, node.Ready decls) :
    Emits I (emitElems decls elems) known known := by
  match elems with
  | [] => exact .pure []
  | ⟨id, expr⟩ :: elems =>
    simp only [Elem.nodesOf, List.mem_append, or_imp, forall_and] at hready
    exact (emits_expr expr env known henv hscoped.1 hready.1).bind fun value =>
      (emits_elems elems env known henv hscoped.2 hready.2).bind fun values => .pure _

theorem emits_arms (scrutinee : Value) (arms : List Arm) (env : Env) (known : Known)
    (henv : env.Within known) (hscoped : Arm.ScopedList wildcard decls env arms)
    (hready : ∀ node ∈ Arm.nodesOf arms, node.Ready decls) :
    Emits I (emitArms decls scrutinee arms) known known := by
  match arms with
  | [] => exact .pure []
  | ⟨span, ptrn, body⟩ :: arms =>
    simp only [Arm.nodesOf, List.mem_append, or_imp, forall_and] at hready
    have hin := henv.inner.bindPtrn wildcard ptrn
    have hrest := henv.mono fun decl hdecl => Or.inl (b := decl ∈ ptrn.declared) hdecl
    exact ((emits_destructure ptrn scrutinee known).bind fun _ =>
      (emits_expr body _ _ hin hscoped.2.1 hready.1.2).bind fun value =>
      (emits_arms scrutinee arms env _ hrest hscoped.2.2 hready.2).bind fun values =>
        .pure _).drop

theorem emits_stmnt (stmnt : Stmnt) (env : Env) (known : Known) (henv : env.Within known)
    (hscoped : stmnt.Scoped wildcard decls env) (hready : ∀ node ∈ stmnt.nodes, node.Ready decls) :
    Emits I (emitStmnt decls stmnt) known (known.plus stmnt.declared) := by
  match stmnt with
  | .expr span expr =>
    simp only [Stmnt.nodes, List.mem_cons, or_imp, forall_and] at hready
    exact (emits_expr expr env known henv hscoped hready.2).forget fun decl hdecl => by
      simpa [Known.plus, Stmnt.declared] using hdecl
  | .bind span ptrn init =>
    simp only [Stmnt.nodes, List.mem_cons, List.mem_append, or_imp, forall_and] at hready
    exact (emits_expr init env known henv hscoped.1 hready.2.2).bind fun value =>
      (emits_destructure ptrn value known).bind fun _ => .pure value
  | .item ⟨span, id, expr, decl, slot⟩ =>
    simp only [Stmnt.nodes, List.mem_cons, or_imp, forall_and, forall_eq] at hready
    have hunset : slot.get? = none := hready.2.1.unset _ rfl
    exact ((emits_expr expr env known henv hscoped hready.2.2).bind fun value =>
      (emits_bind decl value).drop.bind fun _ =>
      (emits_write value hunset).bind fun _ => .pure value).forget fun decl hdecl => by
        simpa [Known.plus, Stmnt.declared] using hdecl

theorem emits_stmnts (stmnts : List Stmnt) (env : Env) (known : Known) (henv : env.Within known)
    (hscoped : Stmnt.ScopedList wildcard decls env stmnts)
    (hready : ∀ node ∈ Stmnt.nodesOf stmnts, node.Ready decls) :
    Emits I (emitStmnts decls stmnts) known (known.plus (stmnts.flatMap Stmnt.declared)) := by
  cases stmnts with
  | nil => exact (Emits.pure []).forget fun decl hdecl => by simpa [Known.plus] using hdecl
  | cons stmnt stmnts =>
    simp only [Stmnt.nodesOf, List.mem_append, or_imp, forall_and] at hready
    have hin := henv.bindStmnt wildcard stmnt
    exact ((emits_stmnt stmnt env known henv hscoped.1 hready.1).bind fun value =>
      (emits_stmnts stmnts _ _ hin hscoped.2 hready.2).bind fun values =>
        .pure _).forget fun decl hdecl => by simpa [Known.plus, or_assoc] using hdecl

end

end Trees

end Emitter

/-- A lexically resolved module that is ready for emission is emitted without a failure, whatever
the builder. -/
theorem Module.emit_ok {σ : Type} [Builder σ] (I : Builder.Invariant σ) {module : Module}
    {wildcard : Symbol} (hscoped : module.Scoped wildcard)
    (hready : ∀ node ∈ module.walk, node.Ready module.decls) {b : σ} (hb : I.fit b) :
    (∃ values, (module.emit b).values = .ok values) ∧ I.fit (module.emit b).builder := by
  have henv : Env.Within [] fun _ => False := by
    intro name decl hlookup
    cases hlookup
  have hemits := (Emitter.emits_placeholders (I := I) module.stmnts _).bind fun _ =>
    Emitter.emits_stmnts module.decls wildcard module.stmnts _ _
      (henv.ofItems wildcard module.stmnts) hscoped hready
  obtain ⟨values, t, hrun, hfit, -⟩ := hemits ⟨b, #[]⟩ hb (fun decl hdecl => hdecl.elim)
  have hjournal : module.journal b = (.ok values, t) := hrun
  rw [Module.emit_values, Module.emit_builder, hjournal]
  exact ⟨⟨values, rfl⟩, hfit⟩

end ImpLang
