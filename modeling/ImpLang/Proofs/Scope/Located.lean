import ImpLang.Proofs.Parser.Located
import ImpLang.Proofs.Scope.Rebinding

/-!
Name resolution makes no spans of its own: its declarations and its reports stand where an identifier
or a pattern does. So whatever is compiled, every location lies in its source.
-/

namespace ImpLang

/-- The declarations and the reports of a pass have a property of spans. -/
structure BindState.Spanned (p : Span → Prop) (s : BindState) : Prop where
  decls : ∀ decl ∈ s.decls.toArray, p decl.span
  reports : ∀ d ∈ s.reports, p d.span

namespace Binder

variable (p : Span → Prop)

/-- A step that adds declarations and reports only at spans with a property. -/
def Stays {α : Type} (step : Binder α) : Prop :=
  ∀ s : BindState, s.Spanned p → (step.run s).2.Spanned p

variable {p}

namespace Stays

variable {α β : Type}

theorem pure {a : α} : Stays p (Pure.pure a) := fun _ hs => hs

theorem bind {step : Binder α} {next : α → Binder β} (h : Stays p step)
    (h' : ∀ a, Stays p (next a)) : Stays p (step >>= next) :=
  fun s hs => h' _ _ (h s hs)

theorem inScope {step : Binder α} (h : Stays p step) : Stays p (Binder.inScope step) := by
  intro s hs
  have hrun := h { s with scopes := [] :: s.scopes } ⟨hs.decls, hs.reports⟩
  exact ⟨hrun.decls, hrun.reports⟩

end Stays

variable (context : BindContext)

theorem stays_report (error : ScopeError) {span : Span} (h : p span) :
    Stays p (report error span) := by
  refine fun s hs => ⟨hs.decls, fun d hd => ?_⟩
  rcases Array.mem_push.1 hd with hd | rfl
  · exact hs.reports d hd
  · exact h

theorem stays_declare (symbol : Symbol) (decl : DeclId) :
    Stays p (declare context symbol decl) := by
  rw [declare]
  split
  · exact .pure
  · exact fun s hs => ⟨hs.decls, hs.reports⟩

theorem stays_declareItems (stmnts : List Stmnt) : Stays p (declareItems context stmnts) := by
  intro s hs
  obtain ⟨scopes, hrun⟩ := run_declareItems context stmnts s
  rw [hrun]
  exact ⟨hs.decls, hs.reports⟩

/-- A placeholder stands where the name does that it is for. -/
theorem stays_placeholder {id : Id} (h : p id.span) : Stays p (placeholder context id) := by
  refine (stays_report _ h).bind fun _ s hs => ⟨fun decl hdecl => ?_, hs.reports⟩
  rcases Array.mem_push.1 hdecl with hdecl | rfl
  · exact hs.decls decl hdecl
  · exact h

theorem stays_target {id : Id} (h : p id.span) (slot : Slot DeclId) :
    Stays p (target context id slot) := by
  have hplaceholder := stays_placeholder context h
  refine .bind (fun s hs => hs) fun s => ?_
  split
  · exact .pure
  · split
    · split
      · exact .pure
      · exact hplaceholder
    · exact hplaceholder

theorem stays_resolve {id : Id} (h : p id.span) (slot : Slot DeclId) :
    Stays p (resolve context id slot) := by
  refine (stays_target context h slot).bind fun decl => ?_
  split
  · exact .pure
  · exact (stays_report _ h).bind fun _ => .pure

variable {context}

mutual

theorem stays_expr {expr : Expr} (h : (Part.expr expr).Spanned p) :
    Stays p (bindExpr context expr) := by
  cases expr with
  | name span id slot =>
    exact (stays_resolve context (h.id id (List.mem_singleton_self _)) slot).bind fun _ => .pure
  | literal span value => exact .pure
  | tuple span elems =>
    exact (stays_elems (List.forall_mem_map.1 h.child)).bind fun _ => .pure
  | sigma span elems =>
    exact .inScope ((stays_ptrns false (List.forall_mem_map.1 h.child)).bind fun _ => .pure)
  | pi span domain codomain =>
    have ⟨hdomain, hcodomain⟩ := h.pair rfl
    exact .inScope ((stays_ptrn false hdomain).bind fun _ => (stays_expr hcodomain).bind fun _ =>
      .pure)
  | lambda span domain codomain body =>
    have ⟨hdomain, hcodomain, hbody⟩ := h.triple rfl
    exact .inScope ((stays_ptrn false hdomain).bind fun _ => (stays_expr hcodomain).bind fun _ =>
      (stays_expr hbody).bind fun _ => .pure)
  | app span callee arg cps =>
    have ⟨hcallee, harg⟩ := h.pair rfl
    exact (stays_expr hcallee).bind fun _ => (stays_expr harg).bind fun _ => .pure
  | field span value id => exact (stays_expr (h.only (a := .expr value) rfl)).bind fun _ => .pure
  | prefixed span op operand =>
    exact (stays_expr (h.only (a := .expr operand) rfl)).bind fun _ => .pure
  | postfixed span operand op =>
    exact (stays_expr (h.only (a := .expr operand) rfl)).bind fun _ => .pure
  | binary span left op right =>
    have ⟨hleft, hright⟩ := h.pair rfl
    exact (stays_expr hleft).bind fun _ => (stays_expr hright).bind fun _ => .pure
  | block span stmnts value =>
    have ⟨hstmnts, hvalue⟩ := List.forall_mem_append.1 h.child
    exact .inScope ((stays_declareItems context stmnts).bind fun _ =>
      (stays_stmnts (List.forall_mem_map.1 hstmnts)).bind fun _ =>
      (stays_expr (List.forall_mem_singleton.1 hvalue)).bind fun _ => .pure)
  | branch span cond yes no =>
    have ⟨hcond, hyes, hno⟩ := h.triple rfl
    exact (stays_expr hcond).bind fun _ => (stays_expr hyes).bind fun _ =>
      (stays_expr hno).bind fun _ => .pure
  | select span scrutinee arms =>
    have ⟨hscrutinee, harms⟩ := List.forall_mem_cons.1 h.child
    exact (stays_expr hscrutinee).bind fun _ =>
      (stays_arms (List.forall_mem_map.1 harms)).bind fun _ => .pure
  | forLoop span ptrn iter body =>
    have ⟨hptrn, hiter, hbody⟩ := h.triple rfl
    exact (stays_expr hiter).bind fun _ => .inScope ((stays_ptrn false hptrn).bind fun _ =>
      (stays_expr hbody).bind fun _ => .pure)
  | whileLoop span cond body =>
    have ⟨hcond, hbody⟩ := h.pair rfl
    exact (stays_expr hcond).bind fun _ => (stays_expr hbody).bind fun _ => .pure
  | pack span domain body =>
    have ⟨hdomain, hbody⟩ := h.pair rfl
    exact .inScope ((stays_ptrn false hdomain).bind fun _ => (stays_expr hbody).bind fun _ => .pure)
  | variadic span domain body =>
    have ⟨hdomain, hbody⟩ := h.pair rfl
    exact .inScope ((stays_ptrn false hdomain).bind fun _ => (stays_expr hbody).bind fun _ => .pure)
  | qualifier span value => exact .pure
  | bottom span => exact .pure
  | unknown span => exact .pure
  | error span => exact .pure

theorem stays_expr? {expr : Option Expr} (h : ∀ e ∈ expr.toList, (Part.expr e).Spanned p) :
    Stays p (bindExpr? context expr) := by
  cases expr with
  | none => exact .pure
  | some expr => exact (stays_expr (h expr (List.mem_singleton_self _))).bind fun _ => .pure

/-- A missing ascription is reported at its pattern. -/
theorem stays_ptrn (covered : Bool) {ptrn : Ptrn} (h : (Part.ptrn ptrn).Spanned p) :
    Stays p (bindPtrn context covered ptrn) := by
  cases ptrn with
  | name span id decl ty typed =>
    refine (stays_expr? (List.forall_mem_map.1 h.child)).bind fun ty => ?_
    split
    · exact (stays_report _ h.span).bind fun _ =>
        (stays_declare context id.symbol decl).bind fun _ => .pure
    · exact (stays_declare context id.symbol decl).bind fun _ => .pure
  | tuple span elems ty typed =>
    have ⟨helems, hty⟩ := List.forall_mem_append.1 h.child
    exact (stays_expr? (List.forall_mem_map.1 hty)).bind fun _ =>
      (stays_ptrns _ (List.forall_mem_map.1 helems)).bind fun _ => .pure
  | error span => exact .pure

theorem stays_ptrns (covered : Bool) {ptrns : List Ptrn}
    (h : ∀ ptrn ∈ ptrns, (Part.ptrn ptrn).Spanned p) :
    Stays p (bindPtrns context covered ptrns) := by
  cases ptrns with
  | nil => exact .pure
  | cons ptrn ptrns =>
    have ⟨hptrn, hptrns⟩ := List.forall_mem_cons.1 h
    exact (stays_ptrn covered hptrn).bind fun _ => (stays_ptrns covered hptrns).bind fun _ => .pure

theorem stays_elems {elems : List Elem} (h : ∀ elem ∈ elems, (Part.expr elem.expr).Spanned p) :
    Stays p (bindElems context elems) := by
  cases elems with
  | nil => exact .pure
  | cons elem elems =>
    obtain ⟨id, expr⟩ := elem
    have ⟨hexpr, helems⟩ := List.forall_mem_cons.1 h
    exact (stays_expr hexpr).bind fun _ => (stays_elems helems).bind fun _ => .pure

theorem stays_arms {arms : List Arm} (h : ∀ arm ∈ arms, (Part.arm arm).Spanned p) :
    Stays p (bindArms context arms) := by
  cases arms with
  | nil => exact .pure
  | cons arm arms =>
    obtain ⟨span, ptrn, body⟩ := arm
    have ⟨harm, harms⟩ := List.forall_mem_cons.1 h
    have ⟨hptrn, hbody⟩ := harm.pair rfl
    refine Stays.bind ?_ fun _ => (stays_arms harms).bind fun _ => .pure
    exact .inScope ((stays_ptrn false hptrn).bind fun _ => (stays_expr hbody).bind fun _ => .pure)

theorem stays_stmnt {stmnt : Stmnt} (h : (Part.stmnt stmnt).Spanned p) :
    Stays p (bindStmnt context stmnt) := by
  cases stmnt with
  | expr span expr => exact (stays_expr (h.only (a := .expr expr) rfl)).bind fun _ => .pure
  | bind span ptrn init =>
    have ⟨hptrn, hinit⟩ := h.pair rfl
    exact (stays_expr hinit).bind fun _ => (stays_ptrn false hptrn).bind fun _ => .pure
  | item it =>
    obtain ⟨span, id, expr, decl, value⟩ := it
    have hitem := h.only (a := .item ⟨span, id, expr, decl, value⟩) rfl
    exact (stays_expr (hitem.only (a := .expr expr) rfl)).bind fun _ => .pure

theorem stays_stmnts {stmnts : List Stmnt} (h : ∀ stmnt ∈ stmnts, (Part.stmnt stmnt).Spanned p) :
    Stays p (bindStmnts context stmnts) := by
  cases stmnts with
  | nil => exact .pure
  | cons stmnt stmnts =>
    have ⟨hstmnt, hstmnts⟩ := List.forall_mem_cons.1 h
    exact (stays_stmnt hstmnt).bind fun _ => (stays_stmnts hstmnts).bind fun _ => .pure

end

theorem stays_module (context : BindContext) {stmnts : List Stmnt}
    (h : ∀ stmnt ∈ stmnts, (Part.stmnt stmnt).Spanned p) :
    Stays p (bindModule context stmnts) :=
  .inScope ((stays_declareItems context stmnts).bind fun _ => stays_stmnts h)

end Binder

/-- Resolving the names of a module for the first time keeps its spans, and all that it adds stands
at one of them. -/
theorem Module.Unresolved.resolveNames_spanned {p : Span → Prop} {module : Module}
    (h : module.Unresolved) (names : Interner) (htree : (Part.module module).Spanned p)
    (hdecls : ∀ decl ∈ module.decls.toArray, p decl.span) :
    let bound := module.resolveNames names
    (Part.module bound.module).Spanned p ∧
      (∀ decl ∈ bound.module.decls.toArray, p decl.span) ∧ ∀ d ∈ bound.reports, p d.span := by
  intro bound
  obtain ⟨hsame, -⟩ := h.resolveNames names
  have hstmnts : ∀ stmnt ∈ module.stmnts, (Part.stmnt stmnt).Spanned p :=
    List.forall_mem_map.1 htree.child
  have hstate := Binder.stays_module
    ⟨(names.intern Interner.wildcard).2, (names.intern Interner.wildcard).1, module.bound⟩
    hstmnts ⟨[], module.decls, #[]⟩ ⟨hdecls, by simp⟩
  refine ⟨?_, hstate.decls, hstate.reports⟩
  -- Up to what is annotated the bound tree is the one that was read.
  refine Part.Spanned.of_mapSlots Slot.reset id
    (.mk htree.span (List.forall_mem_nil _) ?_)
  show ∀ child ∈ (Stmnt.mapSlotsList Slot.reset id bound.module.stmnts).map Part.stmnt,
    child.Spanned p
  rw [hsame]
  exact htree.child

namespace Compiler

/-- Whatever is wrong with a source, every location in what is compiled from it is a range of the
source: that of every part of the tree and of every identifier in it, of every declaration, and of
every report made on the way. -/
theorem compile_in (c : Compiler) (name source : String) :
    let file := (c.addFile name).1
    let out := c.compile name source
    (∀ part, (Part.module out.1).Has part → part.span.In file source.toList ∧
        ∀ id ∈ part.ids, id.span.In file source.toList) ∧
      (∀ decl ∈ out.1.decls.toArray, decl.span.In file source.toList) ∧
      ∃ reports, out.2.diagnostics = c.diagnostics ++ reports ∧
        ∀ d ∈ reports, d.span.In file source.toList := by
  intro file out
  have hparsed := c.unresolved_parseSource name source
  have hdiagnostics := c.diagnostics_parseSource name source
  obtain ⟨htree, hdecls, hread⟩ := Module.parse_located ⟨c.files.size⟩ source c.names
  rw [← result_parseSource c name source] at htree hdecls
  simp only [out, compile]
  generalize c.parseSource name source = read at *
  obtain ⟨hbound, hall, hresolved⟩ := hparsed.resolveNames_spanned read.2.names htree hdecls
  have hbind := diagnostics_bind read.2 read.1
  rw [hdiagnostics, Array.append_assoc] at hbind
  exact ⟨hbound, hall, _, hbind, fun d hd =>
    (Array.mem_append.1 hd).elim (hread d) (hresolved d)⟩

end Compiler

end ImpLang
