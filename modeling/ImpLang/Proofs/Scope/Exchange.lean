import ImpLang.Proofs.Passes
import ImpLang.Proofs.Scope.Reporting
import ImpLang.Proofs.Tree.Spanned

/-!
The order of items. Two items that stand next to each other and have different names may change
places before the names of a module are resolved. What is visible at any place in the module stays
as it is, so every use of a name gets the answer that it gets without the exchange, and the same
reports are made in another order.
-/

namespace ImpLang

/-! ## Answers -/

section

variable (wildcard : Symbol)

mutual

/-- What an environment has for the names used in an expression, in the order of a walk. -/
def Expr.answers (env : Env) : Expr → List (Option DeclId)
  | .name _ id _ => [env.lookup id.symbol]
  | .literal .. | .qualifier .. | .bottom _ | .unknown _ | .error _ => []
  | .tuple _ elems => Elem.answersOf env elems
  | .sigma _ elems => Ptrn.answersOf env.inner elems
  | .pi _ domain codomain =>
    domain.answers env.inner ++ codomain.answers (env.inner.bindPtrn wildcard domain)
  | .lambda _ domain codomain body =>
    let inner := env.inner.bindPtrn wildcard domain
    domain.answers env.inner ++ codomain.answers inner ++ body.answers inner
  | .app _ callee arg _ => callee.answers env ++ arg.answers env
  | .field _ value _ => value.answers env
  | .prefixed _ _ operand => operand.answers env
  | .postfixed _ operand _ => operand.answers env
  | .binary _ left _ right => left.answers env ++ right.answers env
  | .block _ stmnts value =>
    let inner : Env := .ofItems wildcard stmnts :: env
    Stmnt.answersOf inner stmnts ++ value.answers (inner.bindStmnts wildcard stmnts)
  | .branch _ cond yes no => cond.answers env ++ yes.answers env ++ no.answers env
  | .select _ scrutinee arms => scrutinee.answers env ++ Arm.answersOf env arms
  | .forLoop _ ptrn iter body =>
    ptrn.answers env.inner ++ iter.answers env ++ body.answers (env.inner.bindPtrn wildcard ptrn)
  | .whileLoop _ cond body => cond.answers env ++ body.answers env
  | .pack _ domain body =>
    domain.answers env.inner ++ body.answers (env.inner.bindPtrn wildcard domain)
  | .variadic _ domain body =>
    domain.answers env.inner ++ body.answers (env.inner.bindPtrn wildcard domain)

def Expr.answers? (env : Env) : Option Expr → List (Option DeclId)
  | none => []
  | some expr => expr.answers env

def Ptrn.answers (env : Env) : Ptrn → List (Option DeclId)
  | .name _ _ _ ty _ => Expr.answers? env ty
  | .tuple _ elems ty _ => Expr.answers? env ty ++ Ptrn.answersOf env elems
  | .error _ => []

def Ptrn.answersOf (env : Env) : List Ptrn → List (Option DeclId)
  | [] => []
  | ptrn :: ptrns => ptrn.answers env ++ Ptrn.answersOf (env.bindPtrn wildcard ptrn) ptrns

def Elem.answersOf (env : Env) : List Elem → List (Option DeclId)
  | [] => []
  | ⟨_, expr⟩ :: elems => expr.answers env ++ Elem.answersOf env elems

def Arm.answersOf (env : Env) : List Arm → List (Option DeclId)
  | [] => []
  | ⟨_, ptrn, body⟩ :: arms =>
    ptrn.answers env.inner ++ body.answers (env.inner.bindPtrn wildcard ptrn) ++
      Arm.answersOf env arms

def Stmnt.answers (env : Env) : Stmnt → List (Option DeclId)
  | .expr _ expr => expr.answers env
  | .bind _ ptrn init => ptrn.answers env ++ init.answers env
  | .item ⟨_, _, expr, _, _⟩ => expr.answers env

def Stmnt.answersOf (env : Env) : List Stmnt → List (Option DeclId)
  | [] => []
  | stmnt :: stmnts => stmnt.answers env ++ Stmnt.answersOf (env.bindStmnt wildcard stmnt) stmnts

end

/-- What a module has for the names used in it. -/
def Module.answers (module : Module) : List (Option DeclId) :=
  Stmnt.answersOf wildcard [.ofItems wildcard module.stmnts] module.stmnts

end

namespace Node

/-- The names used among some nodes carry some answers, one by one. -/
def Answered (decls : Decls) (nodes : List Node) (answers : List (Option DeclId)) : Prop :=
  List.Forall₂ (fun use answer => use.2.Chosen decls answer) (uses nodes) answers

namespace Answered

variable {decls : Decls} {nodes more : List Node} {answers others : List (Option DeclId)}

theorem nil : Answered decls [] [] := List.Forall₂.nil

theorem skip {node : Node} (h : Answered decls nodes answers) (hnode : node.use? = none) :
    Answered decls (node :: nodes) answers := by
  rw [Answered, uses, List.filterMap_cons_none hnode]
  exact h

theorem append (h : Answered decls nodes answers) (h' : Answered decls more others) :
    Answered decls (nodes ++ more) (answers ++ others) := by
  rw [Answered, uses_append]
  exact List.rel_append h h'

end Answered

end Node

section

variable {wildcard : Symbol} {decls : Decls}

mutual

/-- A lexically annotated tree carries its answers. -/
theorem Expr.answered {e : Expr} {env : Env} (h : e.Scoped wildcard decls env) :
    Node.Answered decls e.nodes (e.answers wildcard env) := by
  cases e
  case name span id slot => exact .cons h .nil
  all_goals refine .skip ?_ rfl
  case tuple span elems => exact Elem.answered h
  case sigma span elems => exact Ptrn.answeredOf h
  case pi span domain codomain => exact (Ptrn.answered h.1).append (Expr.answered h.2)
  case lambda span domain codomain body =>
    exact ((Ptrn.answered h.1).append (Expr.answered h.2.1)).append (Expr.answered h.2.2)
  case app span callee arg cps => exact (Expr.answered h.1).append (Expr.answered h.2)
  case field span value id => exact Expr.answered h
  case prefixed span op operand => exact Expr.answered h
  case postfixed span operand op => exact Expr.answered h
  case binary span left op right => exact (Expr.answered h.1).append (Expr.answered h.2)
  case block span stmnts value => exact (Stmnt.answeredOf h.1).append (Expr.answered h.2)
  case branch span cond yes no =>
    exact ((Expr.answered h.1).append (Expr.answered h.2.1)).append (Expr.answered h.2.2)
  case select span scrutinee arms => exact (Expr.answered h.1).append (Arm.answered h.2)
  case forLoop span ptrn iter body =>
    exact ((Ptrn.answered h.2.1).append (Expr.answered h.1)).append (Expr.answered h.2.2)
  case whileLoop span cond body => exact (Expr.answered h.1).append (Expr.answered h.2)
  case pack span domain body => exact (Ptrn.answered h.1).append (Expr.answered h.2)
  case variadic span domain body => exact (Ptrn.answered h.1).append (Expr.answered h.2)
  all_goals exact .nil

theorem Expr.answered? {e : Option Expr} {env : Env} (h : Expr.Scoped? wildcard decls env e) :
    Node.Answered decls (Expr.nodesOf? e) (Expr.answers? wildcard env e) := by
  cases e with
  | none => exact .nil
  | some e => exact Expr.answered h

theorem Ptrn.answered {p : Ptrn} {env : Env} (h : p.Scoped wildcard decls env) :
    Node.Answered decls p.nodes (p.answers wildcard env) := by
  cases p with
  | name span id decl ty typed => exact .skip (Expr.answered? h) rfl
  | tuple span elems ty typed =>
    exact .skip ((Expr.answered? h.1).append (Ptrn.answeredOf h.2)) rfl
  | error span => exact .skip .nil rfl

theorem Ptrn.answeredOf {ps : List Ptrn} {env : Env} (h : Ptrn.ScopedList wildcard decls env ps) :
    Node.Answered decls (Ptrn.nodesOf ps) (Ptrn.answersOf wildcard env ps) := by
  cases ps with
  | nil => exact .nil
  | cons p ps => exact (Ptrn.answered h.1).append (Ptrn.answeredOf h.2)

theorem Elem.answered {es : List Elem} {env : Env} (h : Elem.ScopedList wildcard decls env es) :
    Node.Answered decls (Elem.nodesOf es) (Elem.answersOf wildcard env es) := by
  match es with
  | [] => exact .nil
  | ⟨id, e⟩ :: es => exact (Expr.answered h.1).append (Elem.answered h.2)

theorem Arm.answered {as : List Arm} {env : Env} (h : Arm.ScopedList wildcard decls env as) :
    Node.Answered decls (Arm.nodesOf as) (Arm.answersOf wildcard env as) := by
  match as with
  | [] => exact .nil
  | ⟨span, p, e⟩ :: as =>
    exact ((Ptrn.answered h.1).append (Expr.answered h.2.1)).append (Arm.answered h.2.2)

theorem Stmnt.answered {s : Stmnt} {env : Env} (h : s.Scoped wildcard decls env) :
    Node.Answered decls s.nodes (s.answers wildcard env) := by
  match s with
  | .expr span e =>
    have hexpr : e.Scoped wildcard decls env := h
    exact .skip (Expr.answered hexpr) rfl
  | .bind span p e => exact .skip ((Ptrn.answered h.2).append (Expr.answered h.1)) rfl
  | .item ⟨span, id, e, decl, slot⟩ =>
    have hexpr : e.Scoped wildcard decls env := h
    exact .skip (.skip (Expr.answered hexpr) rfl) rfl

theorem Stmnt.answeredOf {ss : List Stmnt} {env : Env}
    (h : Stmnt.ScopedList wildcard decls env ss) :
    Node.Answered decls (Stmnt.nodesOf ss) (Stmnt.answersOf wildcard env ss) := by
  cases ss with
  | nil => exact .nil
  | cons s ss => exact (Stmnt.answered h.1).append (Stmnt.answeredOf h.2)

end

end

section

variable (wildcard : Symbol) (name : Slot DeclId → Slot DeclId) (item : Slot Value → Slot Value)

mutual

/-- The answers do not depend on annotations. -/
theorem Expr.answers_mapSlots (e : Expr) (env : Env) :
    (e.mapSlots name item).answers wildcard env = e.answers wildcard env := by
  cases e <;> simp only [Expr.mapSlots, Expr.answers, Env.bindPtrn_mapSlots,
    Env.bindStmnts_mapSlots, Frame.ofItems_mapSlots, Expr.answers_mapSlots, Ptrn.answers_mapSlots,
    Ptrn.answersOf_mapSlotsList, Elem.answersOf_mapSlotsList, Arm.answersOf_mapSlotsList,
    Stmnt.answersOf_mapSlotsList]

theorem Expr.answers?_mapSlots? (e : Option Expr) (env : Env) :
    Expr.answers? wildcard env (Expr.mapSlots? name item e) = Expr.answers? wildcard env e := by
  cases e with
  | none => rfl
  | some e => exact Expr.answers_mapSlots e env

theorem Ptrn.answers_mapSlots (p : Ptrn) (env : Env) :
    (p.mapSlots name item).answers wildcard env = p.answers wildcard env := by
  cases p <;> simp only [Ptrn.mapSlots, Ptrn.answers, Expr.answers?_mapSlots?,
    Ptrn.answersOf_mapSlotsList]

theorem Ptrn.answersOf_mapSlotsList (ps : List Ptrn) (env : Env) :
    Ptrn.answersOf wildcard env (Ptrn.mapSlotsList name item ps) =
      Ptrn.answersOf wildcard env ps := by
  cases ps with
  | nil => rfl
  | cons p ps =>
    simp only [Ptrn.mapSlotsList, Ptrn.answersOf, Env.bindPtrn_mapSlots, Ptrn.answers_mapSlots p,
      Ptrn.answersOf_mapSlotsList ps]

theorem Elem.answersOf_mapSlotsList (es : List Elem) (env : Env) :
    Elem.answersOf wildcard env (Elem.mapSlotsList name item es) =
      Elem.answersOf wildcard env es := by
  match es with
  | [] => rfl
  | ⟨id, e⟩ :: es =>
    simp only [Elem.mapSlotsList, Elem.answersOf, Expr.answers_mapSlots e,
      Elem.answersOf_mapSlotsList es]

theorem Arm.answersOf_mapSlotsList (as : List Arm) (env : Env) :
    Arm.answersOf wildcard env (Arm.mapSlotsList name item as) = Arm.answersOf wildcard env as := by
  match as with
  | [] => rfl
  | ⟨span, p, e⟩ :: as =>
    simp only [Arm.mapSlotsList, Arm.answersOf, Env.bindPtrn_mapSlots, Ptrn.answers_mapSlots p,
      Expr.answers_mapSlots e, Arm.answersOf_mapSlotsList as]

theorem Stmnt.answers_mapSlots (s : Stmnt) (env : Env) :
    (s.mapSlots name item).answers wildcard env = s.answers wildcard env := by
  match s with
  | .expr span e => simp only [Stmnt.mapSlots, Stmnt.answers, Expr.answers_mapSlots e]
  | .bind span p e =>
    simp only [Stmnt.mapSlots, Stmnt.answers, Ptrn.answers_mapSlots p, Expr.answers_mapSlots e]
  | .item ⟨span, id, e, decl, slot⟩ =>
    simp only [Stmnt.mapSlots, Stmnt.answers, Expr.answers_mapSlots e]

theorem Stmnt.answersOf_mapSlotsList (ss : List Stmnt) (env : Env) :
    Stmnt.answersOf wildcard env (Stmnt.mapSlotsList name item ss) =
      Stmnt.answersOf wildcard env ss := by
  cases ss with
  | nil => rfl
  | cons s ss =>
    simp only [Stmnt.mapSlotsList, Stmnt.answersOf, Env.bindStmnt_mapSlots,
      Stmnt.answers_mapSlots s, Stmnt.answersOf_mapSlotsList ss]

end

variable {name item}

theorem Module.answers_congr {module module' : Module}
    (h : Stmnt.mapSlotsList name item module'.stmnts = Stmnt.mapSlotsList name item module.stmnts) :
    module'.answers wildcard = module.answers wildcard := by
  rw [answers, answers, Frame.ofItems_congr wildcard h,
    ← Stmnt.answersOf_mapSlotsList wildcard name item, h, Stmnt.answersOf_mapSlotsList]

end

/-! ## One answer in two arenas -/

/-- What has been added to an arena are placeholders. -/
theorem Decls.Grows.get?_cases {a b : Decls} (h : a.Grows b) {decl : DeclId} {entry : Decl}
    (hb : b.get? decl = some entry) : a.get? decl = some entry ∨ b.isError decl = true := by
  obtain ⟨missing, heq, herror⟩ := h
  simp only [Decls.isError, hb]
  simp only [Decls.get?, toList, ← Array.getElem?_toList] at hb heq ⊢
  rw [heq] at hb
  rcases Nat.lt_or_ge decl.index a.toArray.toList.length with hlt | hge
  · rw [List.getElem?_append_left hlt] at hb
    exact .inl hb
  · rw [List.getElem?_append_right hge] at hb
    have hkind := herror entry (List.mem_of_getElem? hb)
    exact .inr (by simp [Decl.isError, hkind])

/-- Uses of one name in two modules with one answer: a declaration that both arenas have, or none, and
then a placeholder stands for it in each. -/
structure Node.SameAnswer (decls decls' : Decls) (use use' : Id × Slot DeclId) : Prop where
  id : use'.1 = use.1
  answer :
    (∃ decl entry, use.2.get? = some decl ∧ use'.2.get? = some decl ∧
      decls.get? decl = some entry ∧ decls'.get? decl = some entry ∧ entry.isError = false) ∨
    ∃ decl decl', use.2.get? = some decl ∧ use'.2.get? = some decl' ∧
      decls.isError decl = true ∧ decls'.isError decl' = true

/-- The use of a name carries something that an arena has. -/
def Node.Declared (decls : Decls) (use : Id × Slot DeclId) : Prop :=
  ∀ decl, use.2.get? = some decl → ∃ entry, decls.get? decl = some entry

section

variable {common decls decls' : Decls}

/-- A declaration that was there before names were resolved stays in whatever arena. -/
theorem Node.sameAnswer_of_common (hdecls : common.Grows decls) (hdecls' : common.Grows decls')
    (hcommon : ∀ decl, common.isError decl = false) {use use' : Id × Slot DeclId}
    (hid : use'.1 = use.1) {decl : DeclId} {entry : Decl} (h : use.2.get? = some decl)
    (h' : use'.2.get? = some decl) (hfound : common.get? decl = some entry) :
    SameAnswer decls decls' use use' := by
  have hentry : entry.isError = false := by
    have hdecl := hcommon decl
    rwa [Decls.isError, hfound] at hdecl
  exact ⟨hid, .inl ⟨decl, entry, h, h', hdecls.get? hfound, hdecls'.get? hfound, hentry⟩⟩

theorem Node.sameAnswer_of_chosen (hdecls : common.Grows decls) (hdecls' : common.Grows decls')
    (hcommon : ∀ decl, common.isError decl = false) {use use' : Id × Slot DeclId}
    {answer : Option DeclId} (hid : use'.1 = use.1) (h : use.2.Chosen decls answer)
    (h' : use'.2.Chosen decls' answer) (hin : Declared decls use) (hin' : Declared decls' use') :
    SameAnswer decls decls' use use' := by
  cases answer with
  | none =>
    obtain ⟨decl, hslot, herror⟩ := h
    obtain ⟨decl', hslot', herror'⟩ := h'
    exact ⟨hid, .inr ⟨decl, decl', hslot, hslot', herror, herror'⟩⟩
  | some decl =>
    obtain ⟨entry, hentry⟩ := hin decl h
    obtain ⟨entry', hentry'⟩ := hin' decl h'
    rcases hdecls.get?_cases hentry with hfound | herror
    · exact sameAnswer_of_common hdecls hdecls' hcommon hid h h' hfound
    · rcases hdecls'.get?_cases hentry' with hfound | herror'
      · exact sameAnswer_of_common hdecls hdecls' hcommon hid h h' hfound
      -- What neither arena had in common with the other stands for something missing in both.
      · exact ⟨hid, .inr ⟨decl, decl, h, h', herror, herror'⟩⟩

theorem Node.Answered.sameAnswers (hdecls : common.Grows decls) (hdecls' : common.Grows decls')
    (hcommon : ∀ decl, common.isError decl = false) {nodes nodes' : List Node}
    {answers : List (Option DeclId)} (h : Answered decls nodes answers)
    (h' : Answered decls' nodes' answers)
    (hids : (uses nodes').map Prod.fst = (uses nodes).map Prod.fst)
    (hin : ∀ use ∈ uses nodes, Declared decls use)
    (hin' : ∀ use ∈ uses nodes', Declared decls' use) :
    List.Forall₂ (SameAnswer decls decls') (uses nodes) (uses nodes') := by
  rw [Answered] at h h'
  generalize uses nodes = before, uses nodes' = after at *
  induction h generalizing after with
  | nil =>
    cases h'
    exact .nil
  | cons hfirst _ ih =>
    cases h' with
    | cons hfirst' hrest' =>
      obtain ⟨hid, hids⟩ := List.cons_eq_cons.1 hids
      obtain ⟨hdeclared, hin⟩ := List.forall_mem_cons.1 hin
      obtain ⟨hdeclared', hin'⟩ := List.forall_mem_cons.1 hin'
      exact .cons (sameAnswer_of_chosen hdecls hdecls' hcommon hid hfirst hfirst' hdeclared
        hdeclared') (ih _ hrest' hids hin hin')

end

/-! ## Neighbours -/

/-- A statement that is there and is the item of a name. -/
theorem Stmnt.exists_item {stmnt? : Option Stmnt} {name : Symbol}
    (h : (items stmnt?.toList).map (·.id.symbol) = [name]) :
    ∃ it, stmnt? = some (.item it) ∧ it.id.symbol = name := by
  cases stmnt? with
  | none => cases h
  | some stmnt =>
    cases stmnt with
    | expr span expr => cases h
    | bind span ptrn init => cases h
    | item it => exact ⟨it, rfl, (List.cons_eq_cons.1 h).1⟩

theorem exists_neighbours {α : Type} {xs : List α} {i : Nat} {x y : α} (hx : xs[i]? = some x)
    (hy : xs[i + 1]? = some y) :
    ∃ before behind, xs = before ++ x :: y :: behind ∧ before.length = i := by
  obtain ⟨hi, rfl⟩ := List.getElem?_eq_some_iff.1 hx
  obtain ⟨hj, rfl⟩ := List.getElem?_eq_some_iff.1 hy
  refine ⟨xs.take i, xs.drop (i + 1 + 1), ?_, List.length_take_of_le hi.le⟩
  rw [← List.drop_eq_getElem_cons, ← List.drop_eq_getElem_cons, List.take_append_drop]

theorem mem_of_mem_exchange {α : Type} {before behind : List α} {first second x : α}
    (h : x ∈ before ++ second :: first :: behind) : x ∈ before ++ first :: second :: behind :=
  ((List.Perm.swap first second behind).append_left before).subset h

/-- The module with other statements. -/
abbrev Module.withStmnts (module : Module) (stmnts : List Stmnt) : Module :=
  { module with stmnts := stmnts }

theorem Module.swap?_neighbours {module : Module} {before behind : List Stmnt} {first second : Stmnt}
    (h : module.stmnts = before ++ first :: second :: behind) :
    module.swap? before.length (before.length + 1) =
      some (module.withStmnts (before ++ second :: first :: behind)) := by
  simp [swap?, h]

section

variable {before behind : List Stmnt} {first second : Item}

/-- Neither of two items with different names hides the other. -/
theorem Frame.ofItems_exchange (wildcard : Symbol) (h : first.id.symbol ≠ second.id.symbol) :
    ofItems wildcard (before ++ .item second :: .item first :: behind) =
      ofItems wildcard (before ++ .item first :: .item second :: behind) := by
  funext name
  induction before with
  | nil =>
    simp only [List.nil_append, ofItems_item]
    by_cases hfirst : name = first.id.symbol
    · simp [hfirst, h]
    · simp [hfirst]
  | cons stmnt before ih =>
    cases stmnt with
    | expr span expr => exact ih
    | bind span ptrn init => exact ih
    | item it => rw [List.cons_append, List.cons_append, ofItems_item, ofItems_item, ih]

variable (wildcard : Symbol) {decls : Decls} (env : Env)

theorem Stmnt.visitsOf_exchange_perm :
    (visitsOf wildcard env (before ++ .item second :: .item first :: behind)).Perm
      (visitsOf wildcard env (before ++ .item first :: .item second :: behind)) := by
  induction before generalizing env with
  | nil => exact List.perm_append_comm_assoc _ _ _
  | cons stmnt before ih => exact (ih _).append_left _

variable {wildcard env}

theorem Stmnt.scopedList_exchange
    (h : ScopedList wildcard decls env (before ++ .item first :: .item second :: behind)) :
    ScopedList wildcard decls env (before ++ .item second :: .item first :: behind) := by
  induction before generalizing env with
  | nil => exact ⟨h.2.1, h.1, h.2.2⟩
  | cons stmnt before ih => exact ⟨h.1, ih h.2⟩

/-- The neighbours among some statements whose annotations are left out. -/
theorem Stmnt.exists_items_of_mapSlotsList {name : Slot DeclId → Slot DeclId} {stmnts : List Stmnt}
    (h : mapSlotsList name id stmnts = before ++ .item first :: .item second :: behind) :
    ∃ before' behind' first' second',
      stmnts = before' ++ .item first' :: .item second' :: behind' ∧
      before'.length = before.length ∧ first'.id = first.id ∧ second'.id = second.id ∧
      mapSlotsList name id (before' ++ .item second' :: .item first' :: behind') =
        before ++ .item second :: .item first :: behind := by
  have hitem : ∀ {stmnt : Stmnt} {it : Item}, stmnt.mapSlots name id = .item it →
      ∃ it', stmnt = .item it' ∧ it'.id = it.id := by
    intro stmnt it hstmnt
    cases stmnt with
    | expr span expr => cases hstmnt
    | bind span ptrn init => cases hstmnt
    | item it' =>
      cases it'
      cases hstmnt
      exact ⟨_, rfl, rfl⟩
  rw [mapSlotsList_eq] at h
  obtain ⟨before', rest, rfl, hbefore, hrest⟩ := List.map_eq_append_iff.1 h
  obtain ⟨stmnt, rest, rfl, hfirst, hrest⟩ := List.map_eq_cons_iff.1 hrest
  obtain ⟨stmnt', behind', rfl, hsecond, hbehind⟩ := List.map_eq_cons_iff.1 hrest
  obtain ⟨first', rfl, hid⟩ := hitem hfirst
  obtain ⟨second', rfl, hid'⟩ := hitem hsecond
  refine ⟨before', behind', first', second', rfl, ?_, hid, hid', ?_⟩
  · rw [← hbefore, List.length_map]
  · rw [mapSlotsList_eq, List.map_append, List.map_cons, List.map_cons, hbefore, hfirst, hsecond,
      hbehind]

end

/-! ## Two runs -/

theorem Node.mem_of_mem_uses {nodes : List Node} {use : Id × Slot DeclId} (h : use ∈ uses nodes) :
    ∃ span, .expr (.name span use.1 use.2) ∈ nodes := by
  obtain ⟨node, hnode, huse⟩ := List.mem_filterMap.1 h
  cases node with
  | expr expr =>
    cases expr with
    | name span id slot =>
      cases huse
      exact ⟨span, hnode⟩
    | _ => cases huse
  | _ => cases huse

/-- A module before its names are resolved for the first time, with the statements that have been read
or some of them. -/
structure Module.Read (module : Module) : Prop where
  unresolved : module.Unresolved
  first : module.bound = false
  declared : ∀ decl, module.decls.isError decl = false
  /-- All that the tree introduces is in the arena. -/
  introduced : ∀ node ∈ module.walk, ∀ decl entry, node.introduces = some (decl, entry) →
    module.decls.get? decl = some entry

namespace Module

theorem read_parse (file : FileId) (source : String) (names : Interner) :
    (Module.parse file source names).result.Read where
  unresolved := parse_blank rfl rfl _ _ _
  first := rfl
  declared := parse_declared file source names
  introduced := by
    intro node hnode decl entry hintro
    have hmem := List.mem_filterMap.2 ⟨node, hnode, hintro⟩
    exact Decls.mem_entries.1 ((parse_introduces file source names).subset hmem)

theorem unresolved_iff {module : Module} :
    module.Unresolved ↔ ∀ stmnt ∈ module.stmnts, stmnt.mapSlots Slot.reset id = stmnt := by
  rw [Unresolved, Stmnt.mapSlotsList_eq]
  nth_rewrite 2 [← List.map_id module.stmnts]
  exact List.map_inj_left

namespace Read

variable {module : Module} (h : module.Read)
include h

theorem of_subset {stmnts : List Stmnt} (hstmnts : ∀ stmnt ∈ stmnts, stmnt ∈ module.stmnts) :
    (module.withStmnts stmnts).Read where
  unresolved := unresolved_iff.2 fun stmnt hstmnt =>
    unresolved_iff.1 h.unresolved stmnt (hstmnts stmnt hstmnt)
  first := h.first
  declared := h.declared
  introduced := fun node hnode => h.introduced node (walk_subset hstmnts node hnode)

/-- No use of a name is given something that the arena has not. -/
theorem declared_uses (names : Interner) :
    let bound := (module.resolveNames names).module
    ∀ use ∈ Node.uses bound.walk, Node.Declared bound.decls use := by
  intro bound use huse decl hslot
  let known : Symbol → DeclId → Prop := fun _ decl => ∃ entry, bound.decls.get? decl = some entry
  have hknown : Node.Known known module.walk := by
    intro node hnode name decl hrefers
    rcases Node.refers?_cases hrefers with ⟨entry, hintro, -⟩ | ⟨span, id, slot, rfl, hslot⟩
    · have hfound := h.introduced node hnode decl entry hintro
      exact ⟨entry, (module.grows_resolveNames names).get? hfound⟩
    · rw [h.unresolved.slot_eq hnode] at hslot
      cases hslot
  have hannotated : Node.Annotated known module.walk bound.walk :=
    (module.resolveNames_annotates names (fun _ entry hget => ⟨entry, hget⟩) hknown).2.2
  obtain ⟨span, hmem⟩ := Node.mem_of_mem_uses huse
  obtain ⟨found, hfound, hentry⟩ := hannotated.resolved hmem
  rw [hslot] at hfound
  cases hfound
  exact hentry

end Read

/-- Names are used where they were. -/
theorem map_fst_uses_congr {module module' : Module}
    (h : Stmnt.mapSlotsList Slot.reset id module'.stmnts =
      Stmnt.mapSlotsList Slot.reset id module.stmnts) :
    (Node.uses module'.walk).map Prod.fst = (Node.uses module.walk).map Prod.fst := by
  have huses := congrArg (fun stmnts => (Node.uses (Stmnt.nodesOf stmnts)).map Prod.fst) h
  simp only [Stmnt.nodesOf_mapSlotsList, Node.uses_mapSlots, List.map_map] at huses
  exact huses

section

variable {module : Module} {before behind : List Stmnt} {first second : Item} (h : module.Read)
  (hstmnts : module.stmnts = before ++ .item first :: .item second :: behind)
  (hne : first.id.symbol ≠ second.id.symbol) (names : Interner)
include h hstmnts

theorem Read.exchange :
    (module.withStmnts (before ++ .item second :: .item first :: behind)).Read := by
  refine h.of_subset fun stmnt hstmnt => ?_
  rw [hstmnts]
  exact mem_of_mem_exchange hstmnt

include hne

/-- The same is reported. -/
theorem Read.reports_exchange_perm :
    let swapped := module.withStmnts (before ++ .item second :: .item first :: behind)
    (swapped.resolveNames names).reports.toList.Perm
      (module.resolveNames names).reports.toList := by
  intro swapped
  have hswapped : swapped.Read := h.exchange hstmnts
  have hvisits : (swapped.visits (names.intern Interner.wildcard).1).Perm
      (module.visits (names.intern Interner.wildcard).1) := by
    rw [visits, visits, hstmnts, Frame.ofItems_exchange _ hne]
    exact Stmnt.visitsOf_exchange_perm ..
  rw [(h.unresolved.resolveNames_lacks h.first names).1,
    (hswapped.unresolved.resolveNames_lacks hswapped.first names).1]
  exact (hvisits.filterMap _).map _

/-- Every use of a name has the same answer, once the items are back in their places. -/
theorem Read.resolveNames_exchange :
    let swapped := module.withStmnts (before ++ .item second :: .item first :: behind)
    let plain := (module.resolveNames names).module
    let other := (swapped.resolveNames names).module
    ∃ back, other.swap? before.length (before.length + 1) = some back ∧
      Stmnt.mapSlotsList Slot.reset id back.stmnts =
        Stmnt.mapSlotsList Slot.reset id plain.stmnts ∧
      List.Forall₂ (Node.SameAnswer plain.decls other.decls) (Node.uses plain.walk)
        (Node.uses back.walk) := by
  intro swapped plain other
  have hswapped : swapped.Read := h.exchange hstmnts
  obtain ⟨hsame, hscoped, -⟩ := h.unresolved.resolveNames names
  obtain ⟨hsame', hscoped', -⟩ := hswapped.unresolved.resolveNames names
  obtain ⟨before', behind', second', first', hother, hlength, hsecond, hfirst, hback⟩ :=
    Stmnt.exists_items_of_mapSlotsList hsame'
  let back := other.withStmnts (before' ++ .item first' :: .item second' :: behind')
  have hagree : Stmnt.mapSlotsList Slot.reset id back.stmnts =
      Stmnt.mapSlotsList Slot.reset id plain.stmnts := by
    rw [hback, hsame, hstmnts]
  have hne' : second'.id.symbol ≠ first'.id.symbol := by
    rw [hsecond, hfirst]
    exact hne.symm
  have hlexical : back.Scoped (names.intern Interner.wildcard).1 := by
    rw [Scoped, Frame.ofItems_exchange _ hne']
    refine Stmnt.scopedList_exchange ?_
    rw [← hother]
    exact hscoped'
  refine ⟨back, hlength ▸ swap?_neighbours hother, hagree, ?_⟩
  have hanswered : Node.Answered plain.decls plain.walk _ := Stmnt.answeredOf hscoped
  have hanswered' : Node.Answered other.decls back.walk (back.answers _) := Stmnt.answeredOf hlexical
  -- What is looked up in either tree is looked up in the tree that both are annotations of.
  rw [answers_congr _ hagree] at hanswered'
  refine hanswered.sameAnswers (module.grows_resolveNames names) (swapped.grows_resolveNames names)
    h.declared hanswered' (map_fst_uses_congr hagree) (h.declared_uses names) fun use huse => ?_
  have hstmnts' : ∀ stmnt ∈ back.stmnts, stmnt ∈ other.stmnts := fun stmnt hstmnt => by
    rw [hother]
    exact mem_of_mem_exchange hstmnt
  exact hswapped.declared_uses names use
    (List.filterMap_subset Node.use? (walk_subset hstmnts') huse)

end

/-- The order of items does not matter. Two items with different names that stand next to each other
in what has been read may be exchanged before names are resolved. With the items back in their places
the tree is the one that there is without the exchange, and every use of a name in it refers to the
same declaration, or to a placeholder in both; the reports are the same up to their order. -/
theorem resolveNames_items_exchanged (c : Compiler) (name source : String) (names : Interner)
    {i : Nat} {first second : Item}
    (hfirst : (c.parseSource name source).1.stmnts[i]? = some (.item first))
    (hsecond : (c.parseSource name source).1.stmnts[i + 1]? = some (.item second))
    (hne : first.id.symbol ≠ second.id.symbol) :
    let parsed := (c.parseSource name source).1
    let plain := parsed.resolveNames names
    ∃ swapped back,
      parsed.swap? i (i + 1) = some swapped ∧
      let other := swapped.resolveNames names
      other.module.swap? i (i + 1) = some back ∧
      Stmnt.mapSlotsList Slot.reset id back.stmnts =
        Stmnt.mapSlotsList Slot.reset id plain.module.stmnts ∧
      List.Forall₂ (Node.SameAnswer plain.module.decls other.module.decls)
        (Node.uses plain.module.walk) (Node.uses back.walk) ∧
      other.reports.toList.Perm plain.reports.toList := by
  intro parsed plain
  have hread : parsed.Read := by
    simp only [parsed, Compiler.result_parseSource]
    exact read_parse ..
  change parsed.stmnts[i]? = _ at hfirst
  change parsed.stmnts[i + 1]? = _ at hsecond
  clear_value parsed
  obtain ⟨before, behind, hstmnts, rfl⟩ := exists_neighbours hfirst hsecond
  obtain ⟨back, hback, hagree, hanswers⟩ := hread.resolveNames_exchange hstmnts hne names
  exact ⟨_, back, swap?_neighbours hstmnts, hback, hagree, hanswers,
    hread.reports_exchange_perm hstmnts hne names⟩

/-- Two items that use each other, in front of a name without declaration. -/
theorem resolveNames_items_exchanged_pair :
    ∃ first second,
      (Compiler.new.parseSource "a" "def a = b; def b = a; c;").1.stmnts[0]? = some (.item first) ∧
      (Compiler.new.parseSource "a" "def a = b; def b = a; c;").1.stmnts[0 + 1]? =
        some (.item second) ∧
      first.id.symbol ≠ second.id.symbol ∧
      let parsed := (Compiler.new.parseSource "a" "def a = b; def b = a; c;").1
      let plain := parsed.resolveNames
        (Compiler.new.parseSource "a" "def a = b; def b = a; c;").2.names
      ∃ swapped back,
        parsed.swap? 0 (0 + 1) = some swapped ∧
        let other := swapped.resolveNames
          (Compiler.new.parseSource "a" "def a = b; def b = a; c;").2.names
        other.module.swap? 0 (0 + 1) = some back ∧
        Stmnt.mapSlotsList Slot.reset id back.stmnts =
          Stmnt.mapSlotsList Slot.reset id plain.module.stmnts ∧
        List.Forall₂ (Node.SameAnswer plain.module.decls other.module.decls)
          (Node.uses plain.module.walk) (Node.uses back.walk) ∧
        other.reports.toList.Perm plain.reports.toList := by
  obtain ⟨first, hfirst, hname⟩ : ∃ it, (Compiler.new.parseSource "a"
      "def a = b; def b = a; c;").1.stmnts[0]? = some (.item it) ∧ it.id.symbol = ⟨13⟩ :=
    Stmnt.exists_item (by decide +kernel)
  obtain ⟨second, hsecond, hname'⟩ : ∃ it, (Compiler.new.parseSource "a"
      "def a = b; def b = a; c;").1.stmnts[0 + 1]? = some (.item it) ∧ it.id.symbol = ⟨14⟩ :=
    Stmnt.exists_item (by decide +kernel)
  have hne : first.id.symbol ≠ second.id.symbol := by
    rw [hname, hname']
    decide
  exact ⟨first, second, hfirst, hsecond, hne, resolveNames_items_exchanged Compiler.new "a"
    "def a = b; def b = a; c;"
    (Compiler.new.parseSource "a" "def a = b; def b = a; c;").2.names hfirst hsecond hne⟩

end Module

end ImpLang
