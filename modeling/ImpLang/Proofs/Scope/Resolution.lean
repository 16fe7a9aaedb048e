import ImpLang.Proofs.Compiler
import ImpLang.Proofs.Parser.Blank
import ImpLang.Proofs.Scope.Lexical

/-!
Name resolution gives every name its lexical declaration. The stack of scopes that a pass threads
through a tree amounts to an environment, and each step of the pass takes the environment of its
place to the environment behind it.
-/

namespace ImpLang

/-- The environment that a stack of scopes amounts to. -/
def Scopes.env (scopes : Scopes) : Env := scopes.map fun scope name => scope.lookup name

namespace Scopes

theorem lookup_env (scopes : Scopes) (name : Symbol) :
    scopes.env.lookup name = scopes.lookup name := by
  simp only [env, Env.lookup, lookup, List.findSome?_map]
  rfl

theorem env_tail (scopes : Scopes) : env scopes.tail = scopes.env.tail := by
  cases scopes <;> rfl

theorem env_declare (scopes : Scopes) {wildcard symbol : Symbol} (decl : DeclId)
    (h : symbol ≠ wildcard) :
    (scopes.declare symbol decl).env = scopes.env.bind wildcard symbol decl := by
  cases scopes with
  | nil => rfl
  | cons scope outer =>
    simp only [declare, env, List.map_cons, Env.bind, if_neg h, List.cons.injEq, and_true]
    funext name
    by_cases hn : name = symbol
    · subst hn; simp
    · have hne : (name == symbol) = false := by simpa using hn
      simp [List.lookup_cons, hne, hn]

end Scopes

namespace Env

variable (wildcard : Symbol)

theorem bind_wildcard (env : Env) (decl : DeclId) : env.bind wildcard wildcard decl = env := by
  cases env <;> simp [bind]

/-- What a binding makes of the innermost frame. -/
theorem bind_cons (frame : Frame) (outer : Env) (name : Symbol) (decl : DeclId) :
    ∃ frame' : Frame, Env.bind wildcard (frame :: outer) name decl = frame' :: outer ∧
      ∀ other, frame' other =
        (if other = name ∧ other ≠ wildcard then some decl else none).or (frame other) := by
  by_cases h : name = wildcard
  · refine ⟨frame, by simp [bind, h], fun other => ?_⟩
    simp [h]
  · refine ⟨_, by simp only [bind, if_neg h]; rfl, fun other => ?_⟩
    by_cases ho : other = name
    · simp [ho, h]
    · simp [ho]

theorem tail_bind (env : Env) (name : Symbol) (decl : DeclId) :
    (env.bind wildcard name decl).tail = env.tail := by
  cases env with
  | nil => rfl
  | cons frame outer => by_cases h : name = wildcard <;> simp [bind, h]

mutual

/-- A pattern binds in the innermost frame only. -/
theorem tail_bindPtrn (env : Env) (ptrn : Ptrn) :
    (env.bindPtrn wildcard ptrn).tail = env.tail := by
  cases ptrn with
  | name span id decl ty typed => exact tail_bind ..
  | tuple span elems ty typed => exact tail_bindPtrns env elems
  | error span => rfl

theorem tail_bindPtrns (env : Env) (ptrns : List Ptrn) :
    (env.bindPtrns wildcard ptrns).tail = env.tail := by
  cases ptrns with
  | nil => rfl
  | cons ptrn ptrns =>
    exact (tail_bindPtrns _ ptrns).trans (tail_bindPtrn env ptrn)

end

theorem tail_bindStmnt (env : Env) (stmnt : Stmnt) :
    (env.bindStmnt wildcard stmnt).tail = env.tail := by
  cases stmnt with
  | bind span ptrn init => exact tail_bindPtrn ..
  | expr span expr => rfl
  | item it => rfl

theorem tail_bindStmnts (env : Env) (stmnts : List Stmnt) :
    (env.bindStmnts wildcard stmnts).tail = env.tail := by
  induction stmnts generalizing env with
  | nil => rfl
  | cons stmnt stmnts ih => exact (ih _).trans (tail_bindStmnt ..)

variable (name : Slot DeclId → Slot DeclId) (item : Slot Value → Slot Value)

mutual

/-- What a pattern binds does not depend on annotations. -/
theorem bindPtrn_mapSlots (env : Env) (ptrn : Ptrn) :
    env.bindPtrn wildcard (ptrn.mapSlots name item) = env.bindPtrn wildcard ptrn := by
  cases ptrn with
  | name span id decl ty typed => rfl
  | tuple span elems ty typed => exact bindPtrns_mapSlots env elems
  | error span => rfl

theorem bindPtrns_mapSlots (env : Env) (ptrns : List Ptrn) :
    env.bindPtrns wildcard (Ptrn.mapSlotsList name item ptrns) = env.bindPtrns wildcard ptrns := by
  cases ptrns with
  | nil => rfl
  | cons ptrn ptrns =>
    simp only [Ptrn.mapSlotsList, bindPtrns]
    rw [bindPtrn_mapSlots env ptrn, bindPtrns_mapSlots _ ptrns]

end

theorem bindStmnt_mapSlots (env : Env) (stmnt : Stmnt) :
    env.bindStmnt wildcard (stmnt.mapSlots name item) = env.bindStmnt wildcard stmnt := by
  cases stmnt with
  | expr span expr => rfl
  | bind span ptrn init => exact bindPtrn_mapSlots ..
  | item it => cases it; rfl

theorem bindStmnts_mapSlots (env : Env) (stmnts : List Stmnt) :
    env.bindStmnts wildcard (Stmnt.mapSlotsList name item stmnts) =
      env.bindStmnts wildcard stmnts := by
  induction stmnts generalizing env with
  | nil => rfl
  | cons stmnt stmnts ih =>
    exact (congrArg (fun env => bindStmnts wildcard env _) (bindStmnt_mapSlots ..)).trans (ih _)

variable {name item}

theorem bindPtrn_congr (env : Env) {ptrn ptrn' : Ptrn}
    (h : ptrn'.mapSlots name item = ptrn.mapSlots name item) :
    env.bindPtrn wildcard ptrn' = env.bindPtrn wildcard ptrn := by
  rw [← bindPtrn_mapSlots wildcard name item, h, bindPtrn_mapSlots]

theorem bindStmnt_congr (env : Env) {stmnt stmnt' : Stmnt}
    (h : stmnt'.mapSlots name item = stmnt.mapSlots name item) :
    env.bindStmnt wildcard stmnt' = env.bindStmnt wildcard stmnt := by
  rw [← bindStmnt_mapSlots wildcard name item, h, bindStmnt_mapSlots]

theorem bindStmnts_congr (env : Env) {stmnts stmnts' : List Stmnt}
    (h : Stmnt.mapSlotsList name item stmnts' = Stmnt.mapSlotsList name item stmnts) :
    env.bindStmnts wildcard stmnts' = env.bindStmnts wildcard stmnts := by
  rw [← bindStmnts_mapSlots wildcard name item, h, bindStmnts_mapSlots]

end Env

namespace Frame

variable (wildcard : Symbol)

/-- An item hides those in front of it and is hidden by those behind it. -/
theorem ofItems_item (it : Item) (stmnts : List Stmnt) (name : Symbol) :
    ofItems wildcard (.item it :: stmnts) name =
      (ofItems wildcard stmnts name).or
        (if name = it.id.symbol ∧ name ≠ wildcard then some it.decl else none) := by
  by_cases hw : name = wildcard
  · simp [ofItems, hw]
  · by_cases hn : name = it.id.symbol
    · simp [ofItems, hw, Stmnt.items, List.find?_append, ← hn]
    · simp [ofItems, hw, hn, Stmnt.items, List.find?_append, Ne.symm hn]

/-- The items of a list of statements do not depend on annotations. -/
theorem ofItems_mapSlots (name : Slot DeclId → Slot DeclId) (item : Slot Value → Slot Value)
    (stmnts : List Stmnt) :
    ofItems wildcard (Stmnt.mapSlotsList name item stmnts) = ofItems wildcard stmnts := by
  funext n
  induction stmnts with
  | nil => rfl
  | cons stmnt stmnts ih =>
    cases stmnt with
    | expr span expr => exact ih
    | bind span ptrn init => exact ih
    | item it =>
      cases it
      rw [ofItems_item, ← ih]
      exact ofItems_item ..

theorem ofItems_congr {name : Slot DeclId → Slot DeclId} {item : Slot Value → Slot Value}
    {stmnts stmnts' : List Stmnt}
    (h : Stmnt.mapSlotsList name item stmnts' = Stmnt.mapSlotsList name item stmnts) :
    ofItems wildcard stmnts' = ofItems wildcard stmnts := by
  rw [← ofItems_mapSlots wildcard name item, h, ofItems_mapSlots]

end Frame

namespace Decls

theorem isError_push (decls : Decls) {decl : Decl} (h : decl.isError = true) :
    (decls.push decl).2.isError (decls.push decl).1 = true := by
  simp [isError, get?_push, h]

theorem isError_push_of_isError (decls : Decls) {decl : Decl} {id : DeclId}
    (h : decls.isError id = true) : (decls.push decl).2.isError id = true := by
  have hne : id ≠ (decls.push decl).1 := by
    rintro rfl
    simp [isError, get?, push] at h
  rw [isError, get?_push, if_neg hne]
  exact h

end Decls

/-- A later state of one pass: placeholders stay, errors are reported, and no declaration is made
without a report. -/
structure BindState.Extends (s t : BindState) : Prop where
  placeholders : ∀ decl, s.decls.isError decl = true → t.decls.isError decl = true
  errors : (∀ d ∈ s.reports, d.isError = true) → ∀ d ∈ t.reports, d.isError = true
  reports : s.reports.size ≤ t.reports.size
  silent : t.reports.size = s.reports.size → t.decls = s.decls

namespace BindState.Extends

theorem refl (s : BindState) : s.Extends s := ⟨fun _ h => h, id, Nat.le_refl _, fun _ => rfl⟩

theorem trans {s t u : BindState} (h : s.Extends t) (h' : t.Extends u) : s.Extends u where
  placeholders decl hd := h'.placeholders decl (h.placeholders decl hd)
  errors hs := h'.errors (h.errors hs)
  reports := Nat.le_trans h.reports h'.reports
  silent he := by
    have ht : t.reports.size = s.reports.size := by
      have := h.reports
      have := h'.reports
      omega
    rw [h'.silent (he.trans ht.symm), h.silent ht]

end BindState.Extends

namespace Binder

/-- From a state with the scopes of `env` a step goes to one with the scopes of `env'`, and its
result is as described for all declarations that keep the placeholders made by then. -/
def Binds {α : Type} (step : Binder α) (env env' : Env) (post : Decls → α → Prop) : Prop :=
  ∀ s : BindState, s.scopes.env = env →
    let (a, t) := step.run s
    s.Extends t ∧ t.scopes.env = env' ∧
      ∀ decls : Decls, (∀ decl, t.decls.isError decl = true → decls.isError decl = true) →
        post decls a

namespace Binds

variable {α β : Type} {env env₁ env₂ : Env}

theorem pure {post : Decls → α → Prop} {a : α} (h : ∀ decls, post decls a) :
    Binds (Pure.pure a) env env post :=
  fun s hs => ⟨.refl s, hs, fun decls _ => h decls⟩

theorem bind {step : Binder α} {next : α → Binder β} {p : Decls → α → Prop}
    {q : Decls → β → Prop} (h : Binds step env env₁ p)
    (h' : ∀ a, Binds (next a) env₁ env₂ fun decls b => p decls a → q decls b) :
    Binds (step >>= next) env env₂ q := by
  intro s hs
  obtain ⟨hext, henv, hp⟩ := h s hs
  obtain ⟨hext', henv', hq⟩ := h' (step.run s).1 (step.run s).2 henv
  refine ⟨hext.trans hext', henv', fun decls hd => ?_⟩
  exact hq decls hd (hp decls fun decl he => hd decl (hext'.placeholders decl he))

theorem mono {step : Binder α} {p q : Decls → α → Prop} (h : Binds step env env₁ p)
    (hpq : ∀ decls a, p decls a → q decls a) : Binds step env env₁ q := by
  intro s hs
  obtain ⟨hext, henv, hp⟩ := h s hs
  exact ⟨hext, henv, fun decls hd => hpq decls _ (hp decls hd)⟩

/-- A step in a scope of its own leaves the scopes around it. -/
theorem inScope {step : Binder α} {post : Decls → α → Prop} (h : Binds step env.inner env₁ post)
    (htail : env₁.tail = env) : Binds (Binder.inScope step) env env post := by
  intro s hs
  have hin : Scopes.env ([] :: s.scopes) = env.inner := by
    rw [← hs]; rfl
  obtain ⟨hext, henv, hp⟩ := h { s with scopes := [] :: s.scopes } hin
  refine ⟨⟨hext.placeholders, hext.errors, hext.reports, hext.silent⟩, ?_, hp⟩
  rw [← htail, ← henv]
  exact Scopes.env_tail _

end Binds

variable (context : BindContext)

/-- A report of its own makes no declaration. -/
theorem binds_report (error : ScopeError) (span : Span) (env : Env) :
    Binds (report error span) env env fun _ _ => True := by
  intro s hs
  refine ⟨⟨fun _ h => h, fun h d hd => ?_, ?_, fun _ => rfl⟩, hs, fun _ _ => trivial⟩
  · rcases Array.mem_push.1 hd with hd | rfl
    · exact h d hd
    · rfl
  · show s.reports.size ≤ (s.reports.push _).size
    simp

theorem binds_declare (symbol : Symbol) (decl : DeclId) (env : Env) :
    Binds (declare context symbol decl) env (env.bind context.wildcard symbol decl)
      fun _ _ => True := by
  intro s hs
  by_cases h : symbol = context.wildcard
  · simp only [declare, h, Env.bind_wildcard]
    exact ⟨.refl s, hs, fun _ _ => trivial⟩
  · simp only [declare, if_neg h]
    refine ⟨⟨fun _ h => h, id, Nat.le_refl _, fun _ => rfl⟩, ?_, fun _ _ => trivial⟩
    rw [← hs]
    exact Scopes.env_declare _ _ h

/-- The placeholder of a name that has no declaration. -/
def missing (id : Id) : Decl := ⟨id.symbol, id.span, .error⟩

theorem run_resolve_of_some {id : Id} {s : BindState} {decl : DeclId}
    (h : s.scopes.lookup id.symbol = some decl) :
    (resolve context id .unset).run s = (⟨some decl⟩, s) := by
  simp only [resolve, target, StateT.run_bind, StateT.run_get, pure_bind, h]
  rfl

theorem run_resolve_of_none {id : Id} {s : BindState} (h : s.scopes.lookup id.symbol = none) :
    (resolve context id .unset).run s =
      (⟨some (s.decls.push (missing id)).1⟩,
        { s with
          reports := s.reports.push
            ((ScopeError.undeclared (context.names.name id.symbol)).report id.span)
          decls := (s.decls.push (missing id)).2 }) := by
  simp only [resolve, target, StateT.run_bind, StateT.run_get, pure_bind, h]
  rfl

/-- The first use of a name takes what its environment has for it. -/
theorem binds_resolve (id : Id) (env : Env) :
    Binds (resolve context id .unset) env env fun decls slot =>
      slot.Chosen decls (env.lookup id.symbol) := by
  intro s hs
  rw [← hs, Scopes.lookup_env]
  cases hl : s.scopes.lookup id.symbol with
  | some decl =>
    rw [run_resolve_of_some context hl]
    exact ⟨.refl s, rfl, fun _ _ => rfl⟩
  | none =>
    rw [run_resolve_of_none context hl]
    refine ⟨⟨fun decl hd => ?_, fun h d hd => ?_, by simp, by simp⟩, rfl, fun decls hdecls => ?_⟩
    · exact Decls.isError_push_of_isError _ hd
    · rcases Array.mem_push.1 hd with hd | rfl
      · exact h d hd
      · rfl
    · exact ⟨_, rfl, hdecls _ (Decls.isError_push _ rfl)⟩

/-- The names of items, those of a list of statements in front of others of one frame. -/
theorem binds_declareItems_cons (stmnts : List Stmnt) (frame : Frame) (env : Env) :
    Binds (declareItems context stmnts) (frame :: env)
      ((fun name => (Frame.ofItems context.wildcard stmnts name).or (frame name)) :: env)
      fun _ _ => True := by
  induction stmnts generalizing frame with
  | nil =>
    have hframe : (fun name => (Frame.ofItems context.wildcard [] name).or (frame name)) = frame := by
      funext name
      simp [Frame.ofItems, Stmnt.items]
    rw [hframe]
    exact .pure fun _ => trivial
  | cons stmnt stmnts ih =>
    cases stmnt with
    | expr span expr => exact ih frame
    | bind span ptrn init => exact ih frame
    | item it =>
      refine (binds_declare context it.id.symbol it.decl _).bind fun _ => ?_
      obtain ⟨frame', hbind, hframe⟩ := Env.bind_cons context.wildcard frame env it.id.symbol it.decl
      rw [hbind]
      have hall := ih frame'
      simp only [hframe, ← Option.or_assoc, ← Frame.ofItems_item] at hall
      exact hall.mono fun _ _ _ _ => trivial

theorem binds_declareItems (stmnts : List Stmnt) (env : Env) :
    Binds (declareItems context stmnts) env.inner (.ofItems context.wildcard stmnts :: env)
      fun _ _ => True := by
  have h := binds_declareItems_cons context stmnts .empty env
  simp only [Frame.empty, Option.or_none] at h
  exact h

mutual

/-- A bound tree agrees with the one it is made of up to the annotations of names, and these are the
lexical ones. -/
theorem binds_expr (expr : Expr) (env : Env) :
    Binds (bindExpr context (expr.mapSlots Slot.reset id)) env env fun decls expr' =>
      expr'.mapSlots Slot.reset id = expr.mapSlots Slot.reset id ∧
        expr'.Scoped context.wildcard decls env := by
  cases expr with
  | name span id slot =>
    exact (binds_resolve context id env).bind fun slot => .pure fun decls h => ⟨rfl, h⟩
  | literal span value => exact .pure fun decls => ⟨rfl, trivial⟩
  | tuple span elems =>
    exact (binds_elems elems env).bind fun elems' =>
      .pure fun decls h => ⟨congrArg (Expr.tuple span) h.1, h.2⟩
  | sigma span elems =>
    refine .inScope ((binds_ptrns elems false env.inner).bind fun elems' =>
      .pure fun decls h => ⟨congrArg (Expr.sigma span) h.1, h.2⟩) ?_
    exact Env.tail_bindPtrns ..
  | pi span domain codomain =>
    refine .inScope ((binds_ptrn domain false _).bind fun domain' =>
      (binds_expr codomain _).bind fun codomain' => .pure fun decls hc hd => ⟨?_, hd.2, ?_⟩) ?_
    · simp only [Expr.mapSlots, hd.1, hc.1]
    · rw [Env.bindPtrn_congr _ _ hd.1]
      exact hc.2
    · exact Env.tail_bindPtrn ..
  | lambda span domain codomain body =>
    refine .inScope ((binds_ptrn domain false _).bind fun domain' =>
      (binds_expr codomain _).bind fun codomain' => (binds_expr body _).bind fun body' =>
        .pure fun decls hb hc hd => ⟨?_, hd.2, ?_, ?_⟩) ?_
    · simp only [Expr.mapSlots, hd.1, hc.1, hb.1]
    · rw [Env.bindPtrn_congr _ _ hd.1]
      exact hc.2
    · rw [Env.bindPtrn_congr _ _ hd.1]
      exact hb.2
    · exact Env.tail_bindPtrn ..
  | app span callee arg cps =>
    refine (binds_expr callee env).bind fun callee' => (binds_expr arg env).bind fun arg' =>
      .pure fun decls ha hc => ⟨?_, hc.2, ha.2⟩
    simp only [Expr.mapSlots, hc.1, ha.1]
  | field span value id =>
    refine (binds_expr value env).bind fun value' => .pure fun decls h => ⟨?_, h.2⟩
    simp only [Expr.mapSlots, h.1]
  | prefixed span op operand =>
    refine (binds_expr operand env).bind fun operand' => .pure fun decls h => ⟨?_, h.2⟩
    simp only [Expr.mapSlots, h.1]
  | postfixed span operand op =>
    refine (binds_expr operand env).bind fun operand' => .pure fun decls h => ⟨?_, h.2⟩
    simp only [Expr.mapSlots, h.1]
  | binary span left op right =>
    refine (binds_expr left env).bind fun left' => (binds_expr right env).bind fun right' =>
      .pure fun decls hr hl => ⟨?_, hl.2, hr.2⟩
    simp only [Expr.mapSlots, hl.1, hr.1]
  | block span stmnts value =>
    have hitems := binds_declareItems context (Stmnt.mapSlotsList Slot.reset id stmnts) env
    rw [Frame.ofItems_mapSlots] at hitems
    refine .inScope (hitems.bind fun _ => (binds_stmnts stmnts _).bind fun stmnts' =>
      (binds_expr value _).bind fun value' => .pure fun decls hv hs _ => ⟨?_, ?_⟩) ?_
    · simp only [Expr.mapSlots, hs.1, hv.1]
    · simp only [Expr.Scoped, Frame.ofItems_congr _ hs.1, Env.bindStmnts_congr _ _ hs.1]
      exact ⟨hs.2, hv.2⟩
    · exact Env.tail_bindStmnts ..
  | branch span cond yes no =>
    refine (binds_expr cond env).bind fun cond' => (binds_expr yes env).bind fun yes' =>
      (binds_expr no env).bind fun no' => .pure fun decls hn hy hc => ⟨?_, hc.2, hy.2, hn.2⟩
    simp only [Expr.mapSlots, hc.1, hy.1, hn.1]
  | select span scrutinee arms =>
    refine (binds_expr scrutinee env).bind fun scrutinee' => (binds_arms arms env).bind fun arms' =>
      .pure fun decls ha hs => ⟨?_, hs.2, ha.2⟩
    simp only [Expr.mapSlots, hs.1, ha.1]
  | forLoop span ptrn iter body =>
    refine (binds_expr iter env).bind fun iter' => .inScope
      ((binds_ptrn ptrn false _).bind fun ptrn' => (binds_expr body _).bind fun body' =>
        .pure fun decls hb hp hi => ⟨?_, hi.2, hp.2, ?_⟩) ?_
    · simp only [Expr.mapSlots, hp.1, hi.1, hb.1]
    · rw [Env.bindPtrn_congr _ _ hp.1]
      exact hb.2
    · exact Env.tail_bindPtrn ..
  | whileLoop span cond body =>
    refine (binds_expr cond env).bind fun cond' => (binds_expr body env).bind fun body' =>
      .pure fun decls hb hc => ⟨?_, hc.2, hb.2⟩
    simp only [Expr.mapSlots, hc.1, hb.1]
  | pack span domain body =>
    refine .inScope ((binds_ptrn domain false _).bind fun domain' =>
      (binds_expr body _).bind fun body' => .pure fun decls hb hd => ⟨?_, hd.2, ?_⟩) ?_
    · simp only [Expr.mapSlots, hd.1, hb.1]
    · rw [Env.bindPtrn_congr _ _ hd.1]
      exact hb.2
    · exact Env.tail_bindPtrn ..
  | variadic span domain body =>
    refine .inScope ((binds_ptrn domain false _).bind fun domain' =>
      (binds_expr body _).bind fun body' => .pure fun decls hb hd => ⟨?_, hd.2, ?_⟩) ?_
    · simp only [Expr.mapSlots, hd.1, hb.1]
    · rw [Env.bindPtrn_congr _ _ hd.1]
      exact hb.2
    · exact Env.tail_bindPtrn ..
  | qualifier span value => exact .pure fun decls => ⟨rfl, trivial⟩
  | bottom span => exact .pure fun decls => ⟨rfl, trivial⟩
  | unknown span => exact .pure fun decls => ⟨rfl, trivial⟩
  | error span => exact .pure fun decls => ⟨rfl, trivial⟩

theorem binds_expr? (expr : Option Expr) (env : Env) :
    Binds (bindExpr? context (Expr.mapSlots? Slot.reset id expr)) env env fun decls expr' =>
      Expr.mapSlots? Slot.reset id expr' = Expr.mapSlots? Slot.reset id expr ∧
        Expr.Scoped? context.wildcard decls env expr' := by
  cases expr with
  | none => exact .pure fun decls => ⟨rfl, trivial⟩
  | some expr =>
    exact (binds_expr expr env).bind fun expr' =>
      .pure fun decls h => ⟨congrArg some h.1, h.2⟩

theorem binds_ptrn (ptrn : Ptrn) (covered : Bool) (env : Env) :
    Binds (bindPtrn context covered (ptrn.mapSlots Slot.reset id)) env
      (env.bindPtrn context.wildcard ptrn) fun decls ptrn' =>
        ptrn'.mapSlots Slot.reset id = ptrn.mapSlots Slot.reset id ∧
          ptrn'.Scoped context.wildcard decls env := by
  cases ptrn with
  | name span ident decl ty typed =>
    refine (binds_expr? ty env).bind fun ty' => ?_
    split
    · exact (binds_report _ span env).bind fun _ =>
        (binds_declare context ident.symbol decl env).bind fun _ =>
          .pure fun decls _ _ h => ⟨congrArg (Ptrn.name span ident decl · typed) h.1, h.2⟩
    · exact (binds_declare context ident.symbol decl env).bind fun _ =>
        .pure fun decls _ h => ⟨congrArg (Ptrn.name span ident decl · typed) h.1, h.2⟩
  | tuple span elems ty typed =>
    refine (binds_expr? ty env).bind fun ty' => (binds_ptrns elems _ env).bind fun elems' =>
      .pure fun decls he ht => ⟨?_, ht.2, he.2⟩
    simp only [Ptrn.mapSlots, ht.1, he.1]
  | error span => exact .pure fun decls => ⟨rfl, trivial⟩

theorem binds_ptrns (ptrns : List Ptrn) (covered : Bool) (env : Env) :
    Binds (bindPtrns context covered (Ptrn.mapSlotsList Slot.reset id ptrns)) env
      (env.bindPtrns context.wildcard ptrns) fun decls ptrns' =>
        Ptrn.mapSlotsList Slot.reset id ptrns' = Ptrn.mapSlotsList Slot.reset id ptrns ∧
          Ptrn.ScopedList context.wildcard decls env ptrns' := by
  cases ptrns with
  | nil => exact .pure fun decls => ⟨rfl, trivial⟩
  | cons ptrn ptrns =>
    refine (binds_ptrn ptrn covered env).bind fun ptrn' =>
      (binds_ptrns ptrns covered _).bind fun ptrns' => .pure fun decls hs h => ⟨?_, h.2, ?_⟩
    · simp only [Ptrn.mapSlotsList, h.1, hs.1]
    · rw [Env.bindPtrn_congr _ _ h.1]
      exact hs.2

theorem binds_elems (elems : List Elem) (env : Env) :
    Binds (bindElems context (Elem.mapSlotsList Slot.reset id elems)) env env fun decls elems' =>
      Elem.mapSlotsList Slot.reset id elems' = Elem.mapSlotsList Slot.reset id elems ∧
        Elem.ScopedList context.wildcard decls env elems' := by
  cases elems with
  | nil => exact .pure fun decls => ⟨rfl, trivial⟩
  | cons elem elems =>
    obtain ⟨name, expr⟩ := elem
    refine (binds_expr expr env).bind fun expr' => (binds_elems elems env).bind fun elems' =>
      .pure fun decls hs h => ⟨?_, h.2, hs.2⟩
    simp only [Elem.mapSlotsList, h.1, hs.1]

theorem binds_arms (arms : List Arm) (env : Env) :
    Binds (bindArms context (Arm.mapSlotsList Slot.reset id arms)) env env fun decls arms' =>
      Arm.mapSlotsList Slot.reset id arms' = Arm.mapSlotsList Slot.reset id arms ∧
        Arm.ScopedList context.wildcard decls env arms' := by
  cases arms with
  | nil => exact .pure fun decls => ⟨rfl, trivial⟩
  | cons arm arms =>
    obtain ⟨span, ptrn, body⟩ := arm
    have harm : Binds (Binder.inScope do
        let ptrn ← bindPtrn context false (ptrn.mapSlots Slot.reset id)
        let body ← bindExpr context (body.mapSlots Slot.reset id)
        return Arm.mk span ptrn body) env env fun decls arm =>
          arm.span = span ∧ arm.ptrn.mapSlots Slot.reset id = ptrn.mapSlots Slot.reset id ∧
            arm.body.mapSlots Slot.reset id = body.mapSlots Slot.reset id ∧
            arm.ptrn.Scoped context.wildcard decls env.inner ∧
            arm.body.Scoped context.wildcard decls
              (env.inner.bindPtrn context.wildcard arm.ptrn) := by
      refine .inScope ((binds_ptrn ptrn false _).bind fun ptrn' => (binds_expr body _).bind
        fun body' => .pure fun decls hb hp => ⟨rfl, hp.1, hb.1, hp.2, ?_⟩) ?_
      · rw [Env.bindPtrn_congr _ _ hp.1]
        exact hb.2
      · exact Env.tail_bindPtrn ..
    refine harm.bind fun ⟨_, ptrn', body'⟩ => (binds_arms arms env).bind fun arms' =>
      .pure fun decls hs ⟨hspan, hptrn, hbody, h⟩ => ⟨?_, h.1, h.2, hs.2⟩
    simp only at hspan hptrn hbody
    simp only [Arm.mapSlotsList, hspan, hptrn, hbody, hs.1]

theorem binds_stmnt (stmnt : Stmnt) (env : Env) :
    Binds (bindStmnt context (stmnt.mapSlots Slot.reset id)) env
      (env.bindStmnt context.wildcard stmnt) fun decls stmnt' =>
        stmnt'.mapSlots Slot.reset id = stmnt.mapSlots Slot.reset id ∧
          stmnt'.Scoped context.wildcard decls env := by
  cases stmnt with
  | expr span expr =>
    exact (binds_expr expr env).bind fun expr' =>
      .pure fun decls h => ⟨congrArg (Stmnt.expr span) h.1, h.2⟩
  | bind span ptrn init =>
    refine (binds_expr init env).bind fun init' => (binds_ptrn ptrn false env).bind fun ptrn' =>
      .pure fun decls hp hi => ⟨?_, hi.2, hp.2⟩
    simp only [Stmnt.mapSlots, hp.1, hi.1]
  | item it =>
    obtain ⟨span, name, expr, decl, value⟩ := it
    refine (binds_expr expr env).bind fun expr' => .pure fun decls h => ⟨?_, h.2⟩
    simp only [Stmnt.mapSlots, h.1, id_eq]

theorem binds_stmnts (stmnts : List Stmnt) (env : Env) :
    Binds (bindStmnts context (Stmnt.mapSlotsList Slot.reset id stmnts)) env
      (env.bindStmnts context.wildcard stmnts) fun decls stmnts' =>
        Stmnt.mapSlotsList Slot.reset id stmnts' = Stmnt.mapSlotsList Slot.reset id stmnts ∧
          Stmnt.ScopedList context.wildcard decls env stmnts' := by
  cases stmnts with
  | nil => exact .pure fun decls => ⟨rfl, trivial⟩
  | cons stmnt stmnts =>
    refine (binds_stmnt stmnt env).bind fun stmnt' =>
      (binds_stmnts stmnts _).bind fun stmnts' => .pure fun decls hs h => ⟨?_, h.2, ?_⟩
    · simp only [Stmnt.mapSlotsList, h.1, hs.1]
    · rw [Env.bindStmnt_congr _ _ h.1]
      exact hs.2

end

theorem binds_module (stmnts : List Stmnt) :
    Binds (bindModule context (Stmnt.mapSlotsList Slot.reset id stmnts)) [] [] fun decls stmnts' =>
      Stmnt.mapSlotsList Slot.reset id stmnts' = Stmnt.mapSlotsList Slot.reset id stmnts ∧
        Stmnt.ScopedList context.wildcard decls [.ofItems context.wildcard stmnts'] stmnts' := by
  have hitems := binds_declareItems context (Stmnt.mapSlotsList Slot.reset id stmnts) []
  rw [Frame.ofItems_mapSlots] at hitems
  refine .inScope (hitems.bind fun _ => (binds_stmnts context stmnts _).mono
    fun decls stmnts' hs _ => ⟨hs.1, ?_⟩) ?_
  · rw [Frame.ofItems_congr _ hs.1]
    exact hs.2
  · exact Env.tail_bindStmnts ..

end Binder

/-- A tree without annotations of names. -/
def Module.Unresolved (module : Module) : Prop :=
  Stmnt.mapSlotsList Slot.reset id module.stmnts = module.stmnts

/-- What resolving the names of a module for the first time leaves: the same tree, annotated
lexically, and no new declarations unless an error is reported. -/
theorem Module.Unresolved.resolveNames {module : Module} (h : module.Unresolved)
    (names : Interner) :
    let bound := module.resolveNames names
    Stmnt.mapSlotsList Slot.reset id bound.module.stmnts = module.stmnts ∧
      bound.module.Scoped (names.intern Interner.wildcard).1 ∧
      (∀ d ∈ bound.reports, d.isError = true) ∧
      (bound.reports = #[] → bound.module.decls = module.decls) := by
  have hbinds := Binder.binds_module
    ⟨(names.intern Interner.wildcard).2, (names.intern Interner.wildcard).1, module.bound⟩
    module.stmnts ⟨[], module.decls, #[]⟩ rfl
  rw [h] at hbinds
  obtain ⟨hext, -, hpost⟩ := hbinds
  obtain ⟨hsame, hscoped⟩ := hpost _ fun _ hd => hd
  exact ⟨hsame, hscoped, hext.errors (by simp), fun hr => hext.silent (by rw [← Array.size_eq_zero_iff] at hr; exact hr)⟩

/-- What has just been read is not resolved. -/
theorem Compiler.unresolved_parseSource (c : Compiler) (name source : String) :
    (c.parseSource name source).1.Unresolved := by
  rw [Compiler.result_parseSource]
  exact Module.parse_blank rfl rfl _ _ _

/-- Binding what was read from a source, with or without errors in it, changes annotations only and
gives every use of a name its lexical declaration. -/
theorem Compiler.bind_lexical (c c' : Compiler) (name source : String) :
    let parsed := (c.parseSource name source).1
    let bound := (c'.bind parsed).1
    Stmnt.mapSlotsList Slot.reset id bound.stmnts = parsed.stmnts ∧
      bound.Scoped (c'.names.intern Interner.wildcard).1 := by
  intro parsed
  have hparsed : parsed.Unresolved := c.unresolved_parseSource name source
  clear_value parsed
  obtain ⟨hsame, hscoped, -, -⟩ := hparsed.resolveNames c'.names
  rw [module_bind]
  exact ⟨hsame, hscoped⟩

end ImpLang
