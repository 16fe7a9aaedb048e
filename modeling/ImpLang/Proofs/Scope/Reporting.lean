import ImpLang.Proofs.Scope.Rebinding

/-!
What name resolution reports. A pass visits every node of a tree once. What a node lacks can be told
from where it stands: a declaration from the environment of a name, an ascription from the tuples
around a name in its pattern. The reports of a pass are what the nodes lack, in the order of the
visits, and the declarations that it makes stand for those that are lacking.
-/

namespace ImpLang

/-- A node at its place: the environment there, and the tuples around it in the pattern that it is a
part of, innermost first. -/
structure Visit where
  node : Node
  env : Env
  around : List Ptrn

/-- What a name can lack at its place. -/
inductive Lack where
  | declaration (id : Id)
  | ascription (span : Span) (id : Id)
deriving DecidableEq, Repr

namespace Lack

def report (names : Interner) : Lack → Diagnostic
  | declaration id => (ScopeError.undeclared (names.name id.symbol)).report id.span
  | ascription span id => (ScopeError.untyped (names.name id.symbol)).report span

/-- The declaration made to stand for the missing one. -/
def placeholder? : Lack → Option Decl
  | declaration id => some (Binder.missing id)
  | ascription .. => none

end Lack

/-- The use of a name needs a declaration. A name in a pattern that has to be typed needs an
ascription of its own or of a tuple around it. -/
def Visit.lack? (visit : Visit) : Option Lack :=
  match visit.node with
  | .expr (.name _ id _) =>
    if (visit.env.lookup id.symbol).isNone then some (.declaration id) else none
  | .ptrn (.name span id _ ty typed) =>
    if typed ∧ ty.isNone ∧ ∀ tuple ∈ visit.around, tuple.ty?.isNone then some (.ascription span id)
    else none
  | _ => none

/-- A name is covered by its own ascription or by one around it. -/
theorem Visit.lack?_name (span : Span) (id : Id) (decl : DeclId) (ty : Option Expr) (typed : Bool)
    (env : Env) (around : List Ptrn) :
    lack? ⟨.ptrn (.name span id decl ty typed), env, around⟩ =
      if typed && !(around.any (·.ty?.isSome) || ty.isSome) then some (.ascription span id)
      else none := by
  have hcovered : (typed = true ∧ ty.isNone = true ∧ ∀ tuple ∈ around, tuple.ty?.isNone = true) ↔
      (typed && !(around.any (·.ty?.isSome) || ty.isSome)) = true := by
    simp [and_comm]
  simp only [lack?, hcovered]

/-! ## The order of the visits -/

section

variable (wildcard : Symbol)

mutual

/-- The nodes of an expression in the order in which their names are resolved. -/
def Expr.visits (env : Env) (expr : Expr) : List Visit :=
  ⟨.expr expr, env, []⟩ ::
    match expr with
    | .tuple _ elems => Elem.visitsOf env elems
    | .sigma _ elems => Ptrn.visitsOf env.inner [] elems
    | .pi _ domain codomain =>
      domain.visits env.inner [] ++ codomain.visits (env.inner.bindPtrn wildcard domain)
    | .lambda _ domain codomain body =>
      domain.visits env.inner [] ++ (codomain.visits (env.inner.bindPtrn wildcard domain) ++
        body.visits (env.inner.bindPtrn wildcard domain))
    | .app _ callee arg _ => callee.visits env ++ arg.visits env
    | .field _ value _ => value.visits env
    | .prefixed _ _ operand => operand.visits env
    | .postfixed _ operand _ => operand.visits env
    | .binary _ left _ right => left.visits env ++ right.visits env
    | .block _ stmnts value =>
      Stmnt.visitsOf (.ofItems wildcard stmnts :: env) stmnts ++
        value.visits (Env.bindStmnts wildcard (.ofItems wildcard stmnts :: env) stmnts)
    | .branch _ cond yes no => cond.visits env ++ (yes.visits env ++ no.visits env)
    | .select _ scrutinee arms => scrutinee.visits env ++ Arm.visitsOf env arms
    | .forLoop _ ptrn iter body =>
      iter.visits env ++ (ptrn.visits env.inner [] ++
        body.visits (env.inner.bindPtrn wildcard ptrn))
    | .whileLoop _ cond body => cond.visits env ++ body.visits env
    | .pack _ domain body =>
      domain.visits env.inner [] ++ body.visits (env.inner.bindPtrn wildcard domain)
    | .variadic _ domain body =>
      domain.visits env.inner [] ++ body.visits (env.inner.bindPtrn wildcard domain)
    | .name .. | .literal .. | .qualifier .. | .bottom _ | .unknown _ | .error _ => []

def Expr.visits? (env : Env) : Option Expr → List Visit
  | none => []
  | some expr => expr.visits env

/-- The ascription of a pattern comes before its names. -/
def Ptrn.visits (env : Env) (around : List Ptrn) (ptrn : Ptrn) : List Visit :=
  match ptrn with
  | .name _ _ _ ty _ => Expr.visits? env ty ++ [⟨.ptrn ptrn, env, around⟩]
  | .tuple _ elems ty _ =>
    Expr.visits? env ty ++ ⟨.ptrn ptrn, env, around⟩ :: Ptrn.visitsOf env (ptrn :: around) elems
  | .error _ => [⟨.ptrn ptrn, env, around⟩]

def Ptrn.visitsOf (env : Env) (around : List Ptrn) : List Ptrn → List Visit
  | [] => []
  | ptrn :: ptrns =>
    ptrn.visits env around ++ Ptrn.visitsOf (env.bindPtrn wildcard ptrn) around ptrns

def Elem.visitsOf (env : Env) : List Elem → List Visit
  | [] => []
  | ⟨_, expr⟩ :: elems => expr.visits env ++ Elem.visitsOf env elems

def Arm.visitsOf (env : Env) : List Arm → List Visit
  | [] => []
  | ⟨_, ptrn, body⟩ :: arms =>
    (ptrn.visits env.inner [] ++ body.visits (env.inner.bindPtrn wildcard ptrn)) ++
      Arm.visitsOf env arms

/-- The initial value of a `let` comes before its pattern. -/
def Stmnt.visits (env : Env) (stmnt : Stmnt) : List Visit :=
  ⟨.stmnt stmnt, env, []⟩ ::
    match stmnt with
    | .expr _ expr => expr.visits env
    | .bind _ ptrn init => init.visits env ++ ptrn.visits env []
    | .item ⟨span, id, expr, decl, value⟩ =>
      ⟨.item ⟨span, id, expr, decl, value⟩, env, []⟩ :: expr.visits env

def Stmnt.visitsOf (env : Env) : List Stmnt → List Visit
  | [] => []
  | stmnt :: stmnts =>
    stmnt.visits env ++ Stmnt.visitsOf (env.bindStmnt wildcard stmnt) stmnts

end

def Module.visits (module : Module) : List Visit :=
  Stmnt.visitsOf wildcard [.ofItems wildcard module.stmnts] module.stmnts

mutual

/-- Every node is visited once. -/
theorem Expr.map_visits_perm (env : Env) (expr : Expr) :
    ((expr.visits wildcard env).map Visit.node).Perm expr.nodes := by
  cases expr <;> simp only [Expr.visits, Expr.nodes, List.map_cons, List.map_append,
    List.append_assoc] <;> refine .cons _ ?_
  case tuple span elems => exact Elem.map_visitsOf_perm env elems
  case sigma span elems => exact Ptrn.map_visitsOf_perm _ _ elems
  case pi span domain codomain =>
    exact (Ptrn.map_visits_perm _ _ domain).append (Expr.map_visits_perm _ codomain)
  case lambda span domain codomain body =>
    exact (Ptrn.map_visits_perm _ _ domain).append
      ((Expr.map_visits_perm _ codomain).append (Expr.map_visits_perm _ body))
  case app span callee arg cps =>
    exact (Expr.map_visits_perm env callee).append (Expr.map_visits_perm env arg)
  case field span value id => exact Expr.map_visits_perm env value
  case prefixed span op operand => exact Expr.map_visits_perm env operand
  case postfixed span operand op => exact Expr.map_visits_perm env operand
  case binary span left op right =>
    exact (Expr.map_visits_perm env left).append (Expr.map_visits_perm env right)
  case block span stmnts value =>
    exact (Stmnt.map_visitsOf_perm _ stmnts).append (Expr.map_visits_perm _ value)
  case branch span cond yes no =>
    exact (Expr.map_visits_perm env cond).append
      ((Expr.map_visits_perm env yes).append (Expr.map_visits_perm env no))
  case select span scrutinee arms =>
    exact (Expr.map_visits_perm env scrutinee).append (Arm.map_visitsOf_perm env arms)
  case forLoop span ptrn iter body =>
    -- The pattern is written in front of what it runs over, and visited behind it.
    refine .trans ?_ (List.perm_append_comm_assoc _ _ _)
    exact (Expr.map_visits_perm env iter).append
      ((Ptrn.map_visits_perm _ _ ptrn).append (Expr.map_visits_perm _ body))
  case whileLoop span cond body =>
    exact (Expr.map_visits_perm env cond).append (Expr.map_visits_perm env body)
  case pack span domain body =>
    exact (Ptrn.map_visits_perm _ _ domain).append (Expr.map_visits_perm _ body)
  case variadic span domain body =>
    exact (Ptrn.map_visits_perm _ _ domain).append (Expr.map_visits_perm _ body)
  all_goals exact .nil

theorem Expr.map_visits?_perm (env : Env) (expr : Option Expr) :
    ((Expr.visits? wildcard env expr).map Visit.node).Perm (Expr.nodesOf? expr) := by
  cases expr with
  | none => exact .nil
  | some expr => exact Expr.map_visits_perm env expr

theorem Ptrn.map_visits_perm (env : Env) (around : List Ptrn) (ptrn : Ptrn) :
    ((ptrn.visits wildcard env around).map Visit.node).Perm ptrn.nodes := by
  cases ptrn <;> simp only [Ptrn.visits, Ptrn.nodes, List.map_cons, List.map_append, List.map_nil]
  case name span id decl ty typed =>
    exact (List.perm_append_singleton _ _).trans (.cons _ (Expr.map_visits?_perm env ty))
  case tuple span elems ty typed =>
    refine List.perm_middle.trans (.cons _ ?_)
    exact (Expr.map_visits?_perm env ty).append (Ptrn.map_visitsOf_perm _ _ elems)
  case error span => exact .refl _

theorem Ptrn.map_visitsOf_perm (env : Env) (around ptrns : List Ptrn) :
    ((Ptrn.visitsOf wildcard env around ptrns).map Visit.node).Perm (Ptrn.nodesOf ptrns) := by
  cases ptrns with
  | nil => exact .nil
  | cons ptrn ptrns =>
    rw [Ptrn.visitsOf, Ptrn.nodesOf, List.map_append]
    exact (Ptrn.map_visits_perm env around ptrn).append (Ptrn.map_visitsOf_perm _ around ptrns)

theorem Elem.map_visitsOf_perm (env : Env) (elems : List Elem) :
    ((Elem.visitsOf wildcard env elems).map Visit.node).Perm (Elem.nodesOf elems) := by
  match elems with
  | [] => exact .nil
  | ⟨id, expr⟩ :: elems =>
    rw [Elem.visitsOf, Elem.nodesOf, List.map_append]
    exact (Expr.map_visits_perm env expr).append (Elem.map_visitsOf_perm env elems)

theorem Arm.map_visitsOf_perm (env : Env) (arms : List Arm) :
    ((Arm.visitsOf wildcard env arms).map Visit.node).Perm (Arm.nodesOf arms) := by
  match arms with
  | [] => exact .nil
  | ⟨span, ptrn, body⟩ :: arms =>
    rw [Arm.visitsOf, Arm.nodesOf, List.map_append, List.map_append]
    exact ((Ptrn.map_visits_perm _ _ ptrn).append (Expr.map_visits_perm _ body)).append
      (Arm.map_visitsOf_perm env arms)

theorem Stmnt.map_visits_perm (env : Env) (stmnt : Stmnt) :
    ((stmnt.visits wildcard env).map Visit.node).Perm stmnt.nodes := by
  match stmnt with
  | .expr span expr =>
    rw [Stmnt.visits, Stmnt.nodes, List.map_cons]
    exact .cons _ (Expr.map_visits_perm env expr)
  | .bind span ptrn init =>
    simp only [Stmnt.visits, Stmnt.nodes, List.map_cons, List.map_append]
    refine .cons _ (.trans ?_ List.perm_append_comm)
    exact (Expr.map_visits_perm env init).append (Ptrn.map_visits_perm env [] ptrn)
  | .item ⟨span, id, expr, decl, value⟩ =>
    simp only [Stmnt.visits, Stmnt.nodes, List.map_cons]
    exact .cons _ (.cons _ (Expr.map_visits_perm env expr))

theorem Stmnt.map_visitsOf_perm (env : Env) (stmnts : List Stmnt) :
    ((Stmnt.visitsOf wildcard env stmnts).map Visit.node).Perm (Stmnt.nodesOf stmnts) := by
  cases stmnts with
  | nil => exact .nil
  | cons stmnt stmnts =>
    rw [Stmnt.visitsOf, Stmnt.nodesOf, List.map_append]
    exact (Stmnt.map_visits_perm env stmnt).append (Stmnt.map_visitsOf_perm _ stmnts)

end

end

/-! ## Passes -/

namespace Binder

variable (context : BindContext)

/-- From a state with the scopes of `env` a step goes to one with the scopes of `env'`, and reports
what some nodes lack. -/
def Tells {α : Type} (step : Binder α) (env env' : Env) (visits : List Visit) : Prop :=
  ∀ s : BindState, s.scopes.env = env →
    (step.run s).2.scopes.env = env' ∧
    (step.run s).2.reports.toList =
      s.reports.toList ++ (visits.filterMap Visit.lack?).map (Lack.report context.names) ∧
    (step.run s).2.decls.toList =
      s.decls.toList ++ (visits.filterMap Visit.lack?).filterMap Lack.placeholder?

namespace Tells

variable {context} {α β : Type} {env env₁ env₂ : Env} {visits more : List Visit}

theorem pure {a : α} : Tells context (Pure.pure a) env env [] :=
  fun _ hs => ⟨hs, (List.append_nil _).symm, (List.append_nil _).symm⟩

/-- What is visited behind a step may depend on its result. -/
theorem bind_run {step : Binder α} {next : α → Binder β} (h : Tells context step env env₁ visits)
    (h' : ∀ s, Tells context (next (step.run s).1) env₁ env₂ more) :
    Tells context (step >>= next) env env₂ (visits ++ more) := by
  intro s hs
  obtain ⟨henv, hreports, hdecls⟩ := h s hs
  obtain ⟨henv', hreports', hdecls'⟩ := h' s (step.run s).2 henv
  rw [hreports, List.append_assoc, ← List.map_append, ← List.filterMap_append] at hreports'
  rw [hdecls, List.append_assoc, ← List.filterMap_append, ← List.filterMap_append] at hdecls'
  exact ⟨henv', hreports', hdecls'⟩

theorem bind {step : Binder α} {next : α → Binder β} (h : Tells context step env env₁ visits)
    (h' : ∀ a, Tells context (next a) env₁ env₂ more) :
    Tells context (step >>= next) env env₂ (visits ++ more) := h.bind_run fun _ => h' _

/-- A step behind which nothing is visited. -/
theorem last {step : Binder α} {next : α → Binder β} (h : Tells context step env env₁ visits)
    (h' : ∀ a, Tells context (next a) env₁ env₂ []) :
    Tells context (step >>= next) env env₂ visits := List.append_nil visits ▸ h.bind h'

/-- A step in front of all visits. -/
theorem skip {step : Binder α} {next : α → Binder β} (h : Tells context step env env₁ [])
    (h' : ∀ a, Tells context (next a) env₁ env₂ visits) :
    Tells context (step >>= next) env env₂ visits := h.bind h'

/-- A node that lacks nothing. -/
theorem cons {step : Binder α} {visit : Visit} (hvisit : visit.lack? = none)
    (h : Tells context step env env₁ visits) : Tells context step env env₁ (visit :: visits) := by
  intro s hs
  rw [List.filterMap_cons_none hvisit]
  exact h s hs

theorem inScope {step : Binder α} (h : Tells context step env.inner env₁ visits)
    (htail : env₁.tail = env) : Tells context (Binder.inScope step) env env visits := by
  intro s hs
  have hin : Scopes.env ([] :: s.scopes) = env.inner := by
    rw [← hs]; rfl
  obtain ⟨henv, hreports, hdecls⟩ := h { s with scopes := [] :: s.scopes } hin
  refine ⟨?_, hreports, hdecls⟩
  rw [← htail, ← henv]
  exact Scopes.env_tail _

end Tells

/-- The use of a name. -/
theorem tells_resolve (span : Span) (id : Id) (env : Env) :
    Tells context (resolve context id .unset) env env [⟨.expr (.name span id .unset), env, []⟩] := by
  intro s hs
  have hlookup := Scopes.lookup_env s.scopes id.symbol
  rw [hs] at hlookup
  cases hl : s.scopes.lookup id.symbol with
  | some decl =>
    rw [run_resolve_of_some context hl]
    exact ⟨hs, by simp [Visit.lack?, hlookup, hl], by simp [Visit.lack?, hlookup, hl]⟩
  | none =>
    rw [run_resolve_of_none context hl]
    refine ⟨hs, ?_, ?_⟩
    · simp [Visit.lack?, hlookup, hl, Lack.report]
    · simp [Visit.lack?, hlookup, hl, Lack.placeholder?, Decls.push, Decls.toList]

theorem tells_declare (symbol : Symbol) (decl : DeclId) (env : Env) :
    Tells context (declare context symbol decl) env (env.bind context.wildcard symbol decl) [] := by
  intro s hs
  obtain ⟨scopes, hrun, henv⟩ := rests_declare context s.decls symbol decl env s hs rfl
  rw [hrun]
  exact ⟨henv, by simp, by simp⟩

theorem tells_declareItems (stmnts : List Stmnt) (env : Env) :
    Tells context (declareItems context stmnts) env.inner
      (.ofItems context.wildcard stmnts :: env) [] := by
  intro s hs
  obtain ⟨scopes, hrun, henv⟩ := rests_declareItems context s.decls stmnts env s hs rfl
  rw [hrun]
  exact ⟨henv, by simp, by simp⟩

/-- A report that a name has no ascription. -/
theorem tells_report {visit : Visit} {span : Span} {id : Id}
    (h : visit.lack? = some (.ascription span id)) (env : Env) :
    Tells context (report (.untyped (context.names.name id.symbol)) span) env env [visit] := by
  intro s hs
  have hlacks : [visit].filterMap Visit.lack? = [.ascription span id] := by simp [h]
  rw [hlacks]
  exact ⟨hs, Array.toList_push, (List.append_nil _).symm⟩

/-- An ascription is there or not, whatever the names in it. -/
theorem isSome_run_bindExpr? (expr : Option Expr) (s : BindState) :
    ((bindExpr? context expr).run s).1.isSome = expr.isSome := by
  cases expr <;> rfl

/-- Around a whole pattern there is nothing that could cover it. -/
theorem uncovered : false = List.any [] fun tuple : Ptrn => tuple.ty?.isSome := rfl

variable {context}

mutual

/-- Every expression is visited in the order given. -/
theorem tells_expr (hfirst : context.rebinding = false) (expr : Expr) (env : Env) :
    Tells context (bindExpr context (expr.mapSlots Slot.reset id)) env env
      ((expr.mapSlots Slot.reset id).visits context.wildcard env) := by
  cases expr <;> simp only [Expr.mapSlots, bindExpr, Expr.visits]
  case name span id slot => exact (tells_resolve context span id env).last fun _ => .pure
  all_goals refine .cons rfl ?_
  case tuple span elems => exact (tells_elems hfirst elems env).last fun _ => .pure
  case sigma span elems =>
    exact .inScope ((tells_ptrns hfirst elems env.inner uncovered).last fun _ => .pure)
      (Env.tail_bindPtrns ..)
  case pi span domain codomain =>
    exact .inScope ((tells_ptrn hfirst domain env.inner uncovered).bind fun _ =>
      (tells_expr hfirst codomain _).last fun _ => .pure) (Env.tail_bindPtrn ..)
  case lambda span domain codomain body =>
    exact .inScope ((tells_ptrn hfirst domain env.inner uncovered).bind fun _ =>
      (tells_expr hfirst codomain _).bind fun _ => (tells_expr hfirst body _).last fun _ => .pure)
      (Env.tail_bindPtrn ..)
  case app span callee arg cps =>
    exact (tells_expr hfirst callee env).bind fun _ => (tells_expr hfirst arg env).last fun _ => .pure
  case field span value name => exact (tells_expr hfirst value env).last fun _ => .pure
  case prefixed span op operand => exact (tells_expr hfirst operand env).last fun _ => .pure
  case postfixed span operand op => exact (tells_expr hfirst operand env).last fun _ => .pure
  case binary span left op right =>
    exact (tells_expr hfirst left env).bind fun _ => (tells_expr hfirst right env).last fun _ => .pure
  case block span stmnts value =>
    exact .inScope ((tells_declareItems context _ env).skip fun _ =>
      (tells_stmnts hfirst stmnts _).bind fun _ => (tells_expr hfirst value _).last fun _ => .pure)
      (Env.tail_bindStmnts ..)
  case branch span cond yes no =>
    exact (tells_expr hfirst cond env).bind fun _ => (tells_expr hfirst yes env).bind fun _ =>
      (tells_expr hfirst no env).last fun _ => .pure
  case select span scrutinee arms =>
    exact (tells_expr hfirst scrutinee env).bind fun _ =>
      (tells_arms hfirst arms env).last fun _ => .pure
  case forLoop span ptrn iter body =>
    exact (tells_expr hfirst iter env).bind fun _ =>
      .inScope ((tells_ptrn hfirst ptrn env.inner uncovered).bind fun _ =>
        (tells_expr hfirst body _).last fun _ => .pure) (Env.tail_bindPtrn ..)
  case whileLoop span cond body =>
    exact (tells_expr hfirst cond env).bind fun _ => (tells_expr hfirst body env).last fun _ => .pure
  case pack span domain body =>
    exact .inScope ((tells_ptrn hfirst domain env.inner uncovered).bind fun _ =>
      (tells_expr hfirst body _).last fun _ => .pure) (Env.tail_bindPtrn ..)
  case variadic span domain body =>
    exact .inScope ((tells_ptrn hfirst domain env.inner uncovered).bind fun _ =>
      (tells_expr hfirst body _).last fun _ => .pure) (Env.tail_bindPtrn ..)
  all_goals exact .pure

theorem tells_expr? (hfirst : context.rebinding = false) (expr : Option Expr) (env : Env) :
    Tells context (bindExpr? context (Expr.mapSlots? Slot.reset id expr)) env env
      (Expr.visits? context.wildcard env (Expr.mapSlots? Slot.reset id expr)) := by
  cases expr with
  | none => exact .pure
  | some expr => exact (tells_expr hfirst expr env).last fun _ => .pure

/-- A pattern is covered if a tuple around it has an ascription. -/
theorem tells_ptrn (hfirst : context.rebinding = false) (ptrn : Ptrn) (env : Env) {covered : Bool}
    {around : List Ptrn} (hcovered : covered = around.any (·.ty?.isSome)) :
    Tells context (bindPtrn context covered (ptrn.mapSlots Slot.reset id)) env
      (env.bindPtrn context.wildcard (ptrn.mapSlots Slot.reset id))
      ((ptrn.mapSlots Slot.reset id).visits context.wildcard env around) := by
  cases ptrn with
  | name span ident decl ty typed =>
    refine (tells_expr? hfirst ty env).bind_run fun s => ?_
    rw [isSome_run_bindExpr?, hfirst, hcovered, Bool.not_false, Bool.and_true]
    split
    · next hlack =>
      refine .bind (tells_report context ?_ env) fun _ =>
        (tells_declare context ident.symbol decl env).last fun _ => .pure
      exact (Visit.lack?_name ..).trans (if_pos hlack)
    · next hlack =>
      refine .cons ?_ ((tells_declare context ident.symbol decl env).last fun _ => .pure)
      exact (Visit.lack?_name ..).trans (if_neg hlack)
  | tuple span elems ty typed =>
    refine (tells_expr? hfirst ty env).bind_run fun s => .cons rfl ?_
    refine (tells_ptrns hfirst elems env ?_).last fun _ => .pure
    rw [isSome_run_bindExpr?, hcovered, List.any_cons, Bool.or_comm]
    rfl
  | error span => exact .cons rfl .pure

theorem tells_ptrns (hfirst : context.rebinding = false) (ptrns : List Ptrn) (env : Env)
    {covered : Bool} {around : List Ptrn} (hcovered : covered = around.any (·.ty?.isSome)) :
    Tells context (bindPtrns context covered (Ptrn.mapSlotsList Slot.reset id ptrns)) env
      (env.bindPtrns context.wildcard (Ptrn.mapSlotsList Slot.reset id ptrns))
      (Ptrn.visitsOf context.wildcard env around (Ptrn.mapSlotsList Slot.reset id ptrns)) := by
  cases ptrns with
  | nil => exact .pure
  | cons ptrn ptrns =>
    exact (tells_ptrn hfirst ptrn env hcovered).bind fun _ =>
      (tells_ptrns hfirst ptrns _ hcovered).last fun _ => .pure

theorem tells_elems (hfirst : context.rebinding = false) (elems : List Elem) (env : Env) :
    Tells context (bindElems context (Elem.mapSlotsList Slot.reset id elems)) env env
      (Elem.visitsOf context.wildcard env (Elem.mapSlotsList Slot.reset id elems)) := by
  match elems with
  | [] => exact .pure
  | ⟨name, expr⟩ :: elems =>
    exact (tells_expr hfirst expr env).bind fun _ =>
      (tells_elems hfirst elems env).last fun _ => .pure

theorem tells_arms (hfirst : context.rebinding = false) (arms : List Arm) (env : Env) :
    Tells context (bindArms context (Arm.mapSlotsList Slot.reset id arms)) env env
      (Arm.visitsOf context.wildcard env (Arm.mapSlotsList Slot.reset id arms)) := by
  match arms with
  | [] => exact .pure
  | ⟨span, ptrn, body⟩ :: arms =>
    refine .bind (.inScope ((tells_ptrn hfirst ptrn env.inner uncovered).bind fun _ =>
      (tells_expr hfirst body _).last fun _ => .pure) (Env.tail_bindPtrn ..)) fun _ => ?_
    exact (tells_arms hfirst arms env).last fun _ => .pure

theorem tells_stmnt (hfirst : context.rebinding = false) (stmnt : Stmnt) (env : Env) :
    Tells context (bindStmnt context (stmnt.mapSlots Slot.reset id)) env
      (env.bindStmnt context.wildcard (stmnt.mapSlots Slot.reset id))
      ((stmnt.mapSlots Slot.reset id).visits context.wildcard env) := by
  match stmnt with
  | .expr span expr => exact .cons rfl ((tells_expr hfirst expr env).last fun _ => .pure)
  | .bind span ptrn init =>
    exact .cons rfl ((tells_expr hfirst init env).bind fun _ =>
      (tells_ptrn hfirst ptrn env uncovered).last fun _ => .pure)
  | .item ⟨span, name, expr, decl, value⟩ =>
    exact .cons rfl (.cons rfl ((tells_expr hfirst expr env).last fun _ => .pure))

theorem tells_stmnts (hfirst : context.rebinding = false) (stmnts : List Stmnt) (env : Env) :
    Tells context (bindStmnts context (Stmnt.mapSlotsList Slot.reset id stmnts)) env
      (env.bindStmnts context.wildcard (Stmnt.mapSlotsList Slot.reset id stmnts))
      (Stmnt.visitsOf context.wildcard env (Stmnt.mapSlotsList Slot.reset id stmnts)) := by
  cases stmnts with
  | nil => exact .pure
  | cons stmnt stmnts =>
    exact (tells_stmnt hfirst stmnt env).bind fun _ =>
      (tells_stmnts hfirst stmnts _).last fun _ => .pure

end

theorem tells_module (hfirst : context.rebinding = false) {stmnts : List Stmnt}
    (h : Stmnt.mapSlotsList Slot.reset id stmnts = stmnts) :
    Tells context (bindModule context stmnts) [] []
      (Stmnt.visitsOf context.wildcard [.ofItems context.wildcard stmnts] stmnts) := by
  have hstmnts := tells_stmnts hfirst stmnts [.ofItems context.wildcard stmnts]
  rw [h] at hstmnts
  exact .inScope ((tells_declareItems context stmnts []).skip fun _ => hstmnts)
    (Env.tail_bindStmnts ..)

end Binder

/-- What resolving the names of a module for the first time reports and declares. -/
theorem Module.Unresolved.resolveNames_lacks {module : Module} (h : module.Unresolved)
    (hfirst : module.bound = false) (names : Interner) :
    let bound := module.resolveNames names
    let lacks := (module.visits (names.intern Interner.wildcard).1).filterMap Visit.lack?
    bound.reports.toList = lacks.map (Lack.report bound.names) ∧
      bound.module.decls.toList = module.decls.toList ++ lacks.filterMap Lack.placeholder? := by
  have hcontext : (⟨(names.intern Interner.wildcard).2, (names.intern Interner.wildcard).1,
      module.bound⟩ : BindContext).rebinding = false := hfirst
  obtain ⟨-, hreports, hdecls⟩ := Binder.tells_module hcontext h ⟨[], module.decls, #[]⟩ rfl
  exact ⟨hreports, hdecls⟩

namespace Lack

/-- The reports of undeclared names tell where placeholders stand, and for which names. -/
theorem filter_report (names : Interner) (lacks : List Lack) :
    (lacks.map (report names)).filter (·.code == some "E0201") =
      (lacks.filterMap placeholder?).map fun decl =>
        (ScopeError.undeclared (names.name decl.symbol)).report decl.span := by
  induction lacks with
  | nil => rfl
  | cons lack lacks ih =>
    cases lack with
    | declaration id => exact congrArg (_ :: ·) ih
    | ascription span id => exact ih

/-- A name lacks a declaration or an ascription, and nothing else is ever reported. -/
theorem code_report (names : Interner) (lack : Lack) :
    (lack.report names).code = some "E0201" ∨ (lack.report names).code = some "E0202" := by
  cases lack with
  | declaration id => exact .inl rfl
  | ascription span id => exact .inr rfl

theorem isError_of_placeholder? {lack : Lack} {decl : Decl} (h : lack.placeholder? = some decl) :
    decl.isError = true := by
  cases lack with
  | declaration id =>
    cases h
    rfl
  | ascription span id => cases h

end Lack

/-- Among declarations that do not stand for missing ones and what a pass adds, the placeholders are
what it adds. -/
theorem Decls.filter_isError {decls : Decls} (h : ∀ id, decls.isError id = false)
    (lacks : List Lack) :
    (decls.toList ++ lacks.filterMap Lack.placeholder?).filter Decl.isError =
      lacks.filterMap Lack.placeholder? := by
  have hdeclared : decls.toList.filter Decl.isError = [] := by
    refine List.filter_eq_nil_iff.2 fun decl hdecl => ?_
    obtain ⟨i, hi⟩ := List.mem_iff_getElem?.1 hdecl
    have hget : decls.get? ⟨i⟩ = some decl := by
      rw [Decls.toList, Array.getElem?_toList] at hi
      exact hi
    have herror := h ⟨i⟩
    simp only [Decls.isError, hget] at herror
    simp [herror]
  have hlacking : ∀ decl ∈ lacks.filterMap Lack.placeholder?, decl.isError = true := by
    intro decl hdecl
    obtain ⟨lack, -, hlack⟩ := List.mem_filterMap.1 hdecl
    exact Lack.isError_of_placeholder? hlack
  rw [List.filter_append, hdeclared, List.nil_append, List.filter_eq_self.2 hlacking]

namespace Compiler

/-- The reports of name resolution are exact. It visits every node of what has been read once, and
reports what each lacks at its place, in the order of the visits and nothing else; the declarations
that it makes are those whose lack it reports, in the same order. -/
theorem compile_reports (c : Compiler) (name source : String) :
    let parsed := c.parseSource name source
    let compiled := c.compile name source
    let visits := parsed.1.visits (parsed.2.names.intern Interner.wildcard).1
    let lacks := visits.filterMap Visit.lack?
    let reports := lacks.map (Lack.report compiled.2.names)
    let placeholders := lacks.filterMap Lack.placeholder?
    (visits.map Visit.node).Perm parsed.1.walk ∧
      compiled.2.diagnostics.toList = parsed.2.diagnostics.toList ++ reports ∧
      (∀ d ∈ reports, d.code = some "E0201" ∨ d.code = some "E0202") ∧
      compiled.1.decls.toList = parsed.1.decls.toList ++ placeholders ∧
      compiled.1.decls.toList.filter Decl.isError = placeholders ∧
      (reports.filter (·.code == some "E0201")) = placeholders.map fun decl =>
        (ScopeError.undeclared (compiled.2.names.name decl.symbol)).report decl.span := by
  have hresult := c.result_parseSource name source
  have hunresolved := c.unresolved_parseSource name source
  have hfirst : (c.parseSource name source).1.bound = false := by
    rw [hresult]
    rfl
  have hdeclared : ∀ id, (c.parseSource name source).1.decls.isError id = false := by
    rw [hresult]
    exact Module.parse_declared ⟨c.files.size⟩ source c.names
  rw [compile]
  generalize c.parseSource name source = parsed at *
  obtain ⟨module, c⟩ := parsed
  obtain ⟨hreports, hdecls⟩ := hunresolved.resolveNames_lacks hfirst c.names
  dsimp only
  rw [diagnostics_bind, names_bind, Array.toList_append, hreports]
  refine ⟨Stmnt.map_visitsOf_perm _ _ _, rfl, ?_, hdecls, ?_, Lack.filter_report _ _⟩
  · intro d hd
    obtain ⟨lack, -, rfl⟩ := List.mem_map.1 hd
    exact lack.code_report _
  · exact hdecls ▸ Decls.filter_isError hdeclared _

/-- An ascription is visited before the names that it is for, and these before the body. -/
example :
    (Compiler.new.compile "a" "def f = λ(x: u, (y, z)) { w };").2.diagnostics.toList.map (·.code) =
      [some "E0201", some "E0202", some "E0202", some "E0201"] := by
  decide +kernel

end Compiler

end ImpLang
