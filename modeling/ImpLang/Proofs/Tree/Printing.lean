import ImpLang.Proofs.Tree.Relabel

/-!
The printed text of a tree shows texts only: neither spans nor annotations, and of a symbol only the
text behind it.
-/

namespace ImpLang

theorem Literal.map_map {α β γ : Type} (f : α → β) (k : β → γ) (value : Literal α) :
    (value.map f).map k = value.map (k ∘ f) := by
  cases value <;> rfl

/-- Behind a renamed symbol stands the same text, in another name table. -/
def Relabel.KeepsTexts (g : Relabel) (names names' : Interner) : Prop :=
  ∀ symbol, names'.resolve? (g.symbol symbol) = names.resolve? symbol

theorem Relabel.KeepsTexts.name {g : Relabel} {names names' : Interner}
    (h : g.KeepsTexts names names') (symbol : Symbol) :
    names'.name (g.symbol symbol) = names.name symbol := by
  rw [Interner.name, Interner.name, h symbol]

theorem Relabel.KeepsTexts.literal {g : Relabel} {names names' : Interner}
    (h : g.KeepsTexts names names') (value : Literal Symbol) :
    (value.map g.symbol).map names'.name = value.map names.name := by
  rw [Literal.map_map]
  exact congrArg (Literal.map · value) (funext h.name)

namespace Print

/-! ## Shapes -/

section Shape

variable (g : Relabel) (e : Expr)

@[simp] theorem isAtomic_relabel : isAtomic (e.relabel g) = isAtomic e := by cases e <;> rfl

@[simp] theorem typeParens_relabel : typeParens (e.relabel g) = typeParens e := by cases e <;> rfl

@[simp] theorem infixParens_relabel (op : InfixOp) (isLeft : Bool) :
    infixParens op isLeft (e.relabel g) = infixParens op isLeft e := by cases e <;> rfl

@[simp] theorem isName_relabel : isName (e.relabel g) = isName e := by cases e <;> rfl

@[simp] theorem isTuple_relabel : isTuple (e.relabel g) = isTuple e := by cases e <;> rfl

@[simp] theorem isBottom_relabel : isBottom (e.relabel g) = isBottom e := by cases e <;> rfl

@[simp] theorem isUnknown_relabel : isUnknown (e.relabel g) = isUnknown e := by cases e <;> rfl

@[simp] theorem isLone_relabelList (es : List Elem) :
    isLone (Elem.relabelList g es) = isLone es := by
  rcases es with _ | ⟨⟨_ | i, e⟩, _ | ⟨⟨j, next⟩, es⟩⟩ <;> rfl

@[simp] theorem isEmpty_relabelList (ss : List Stmnt) :
    (Stmnt.relabelList g ss).isEmpty = ss.isEmpty := by cases ss <;> rfl

@[simp] theorem function_relabel (domain : String) (text body : String) :
    function domain (e.relabel g) text body = function domain e text body := by
  rw [function, function, isUnknown_relabel, typeParens_relabel]

end Shape

variable {names names' : Interner} {g : Relabel}

theorem name_relabel (h : g.KeepsTexts names names') (i : Id) :
    names'.name (i.relabel g).symbol = names.name i.symbol := h.name i.symbol

/-! ## Texts -/

mutual

theorem expr_relabel (h : g.KeepsTexts names names')
    (depth : Nat) (element : Bool) (e : Expr) :
    expr names' depth element (e.relabel g) = expr names depth element e := by
  cases e
  case name span i decl => exact name_relabel h i
  case literal span value =>
    rw [Expr.relabel, expr, expr, h.literal]
  case tuple span es =>
    rw [Expr.relabel, expr, expr, elems_relabel h depth es, isLone_relabelList]
  case sigma span ps => rw [Expr.relabel, expr, expr, sigma_relabel h depth ps]
  case pi span d c =>
    rw [Expr.relabel, expr, expr, isBottom_relabel, ptrn_relabel h depth d,
      expr_relabel h depth false c]
  case lambda span d c b =>
    rw [Expr.relabel, expr, expr, function_relabel, ptrn_relabel h depth d,
      expr_relabel h depth false c, expr_relabel h depth false b]
  case app span callee arg cps =>
    rw [Expr.relabel, expr, expr, isAtomic_relabel, isTuple_relabel,
      expr_relabel h depth false callee, expr_relabel h depth false arg,
      expr_relabel h depth true arg]
  case field span value i =>
    rw [Expr.relabel, expr, expr, isAtomic_relabel, expr_relabel h depth false value,
      name_relabel h i]
  case prefixed span op operand =>
    rw [Expr.relabel, expr, expr, isAtomic_relabel, expr_relabel h depth false operand]
  case postfixed span operand op =>
    rw [Expr.relabel, expr, expr, isAtomic_relabel, expr_relabel h depth false operand]
  case binary span left op right =>
    rw [Expr.relabel, expr, expr, isName_relabel, infixParens_relabel, infixParens_relabel,
      expr_relabel h depth false left, expr_relabel h depth false right]
  case block span ss value =>
    rw [Expr.relabel, expr, expr, Expr.isUnit_relabel, isEmpty_relabelList,
      stmnts_relabel h (depth + 1) ss, expr_relabel h _ false value]
  case branch span cond yes no =>
    rw [Expr.relabel, expr, expr, Expr.isEmptyBlock_relabel, expr_relabel h depth false cond,
      expr_relabel h depth false yes, expr_relabel h depth false no]
  case select span scrutinee as =>
    rw [Expr.relabel, expr, expr, expr_relabel h depth false scrutinee,
      arms_relabel h (depth + 1) as]
  case forLoop span p iter body =>
    rw [Expr.relabel, expr, expr, ptrn_relabel h depth p, expr_relabel h depth false iter,
      expr_relabel h depth false body]
  case whileLoop span cond body =>
    rw [Expr.relabel, expr, expr, expr_relabel h depth false cond, expr_relabel h depth false body]
  case pack span d b =>
    rw [Expr.relabel, expr, expr, ptrn_relabel h depth d, expr_relabel h depth false b]
  case variadic span d b =>
    rw [Expr.relabel, expr, expr, ptrn_relabel h depth d, expr_relabel h depth false b]
  all_goals rfl

theorem ascription_relabel (h : g.KeepsTexts names names')
    (depth : Nat) (ty : Option Expr) :
    ascription names' depth (Expr.relabel? g ty) = ascription names depth ty := by
  cases ty with
  | none => rfl
  | some ty =>
    rw [Expr.relabel?, ascription, ascription, typeParens_relabel, expr_relabel h depth false ty]

theorem ptrn_relabel (h : g.KeepsTexts names names')
    (depth : Nat) (p : Ptrn) : ptrn names' depth (p.relabel g) = ptrn names depth p := by
  cases p with
  | name span i decl ty typed =>
    rw [Ptrn.relabel, ptrn, ptrn, name_relabel h i, ascription_relabel h depth ty]
  | tuple span ps ty typed =>
    rw [Ptrn.relabel, ptrn, ptrn, ptrns_relabel h depth ps, ascription_relabel h depth ty]
  | error span => rfl

theorem ptrns_relabel (h : g.KeepsTexts names names')
    (depth : Nat) (ps : List Ptrn) :
    ptrns names' depth (Ptrn.relabelList g ps) = ptrns names depth ps := by
  cases ps with
  | nil => rfl
  | cons p ps =>
    rw [Ptrn.relabelList_cons, ptrns, ptrns, ptrn_relabel h depth p, ptrns_relabel h depth ps]

/-- Whether an element binds the wildcard is a matter of texts too. -/
theorem sigma_relabel (h : g.KeepsTexts names names')
    (depth : Nat) (ps : List Ptrn) :
    sigma names' depth (Ptrn.relabelList g ps) = sigma names depth ps := by
  cases ps with
  | nil => rfl
  | cons p ps =>
    have hptrn := ptrn_relabel h depth p
    have hrest := sigma_relabel h depth ps
    rcases p with ⟨span, i, decl, _ | ty, typed⟩ | ⟨span, qs, ty, typed⟩ | ⟨span⟩
    case name.some =>
      have hwildcard : names'.resolve? (i.relabel g).symbol = names.resolve? i.symbol := h i.symbol
      simp only [Ptrn.relabel, Expr.relabel?] at hptrn
      simp only [Ptrn.relabelList_cons, Ptrn.relabel, Expr.relabel?, sigma]
      rw [hwildcard, hptrn, hrest, expr_relabel h depth false ty]
    all_goals
      simp only [Ptrn.relabel, Expr.relabel?] at hptrn
      simp only [Ptrn.relabelList_cons, Ptrn.relabel, Expr.relabel?, sigma]
      rw [hptrn, hrest]

theorem elems_relabel (h : g.KeepsTexts names names')
    (depth : Nat) (es : List Elem) :
    elems names' depth (Elem.relabelList g es) = elems names depth es := by
  match es with
  | [] => rfl
  | ⟨none, e⟩ :: es =>
    rw [Elem.relabelList_cons, Option.map_none, elems, elems, expr_relabel h depth true e,
      elems_relabel h depth es]
  | ⟨some i, e⟩ :: es =>
    rw [Elem.relabelList_cons, Option.map_some, elems, elems, name_relabel h i,
      expr_relabel h depth false e, elems_relabel h depth es]

theorem arms_relabel (h : g.KeepsTexts names names')
    (depth : Nat) (as : List Arm) :
    arms names' depth (Arm.relabelList g as) = arms names depth as := by
  match as with
  | [] => rfl
  | ⟨span, p, e⟩ :: as =>
    rw [Arm.relabelList_cons, arms, arms, ptrn_relabel h depth p, expr_relabel h depth false e,
      arms_relabel h depth as]

theorem stmnt_relabel (h : g.KeepsTexts names names')
    (depth : Nat) (st : Stmnt) : stmnt names' depth (st.relabel g) = stmnt names depth st := by
  match st with
  | .expr span e => rw [Stmnt.relabel, stmnt, stmnt, expr_relabel h depth false e]
  | .bind span p e =>
    rw [Stmnt.relabel, stmnt, stmnt, ptrn_relabel h depth p, expr_relabel h depth false e]
  | .item ⟨span, i, e, decl, value⟩ =>
    have he := expr_relabel h depth false e
    cases e
    case lambda inner d c b =>
      simp only [Stmnt.relabel, Expr.relabel, stmnt]
      rw [function_relabel, name_relabel h i, ptrn_relabel h depth d,
        expr_relabel h depth false c, expr_relabel h depth false b]
    all_goals
      simp only [Expr.relabel] at he
      simp only [Stmnt.relabel, Expr.relabel, stmnt]
      rw [he, name_relabel h i]

theorem stmnts_relabel (h : g.KeepsTexts names names')
    (depth : Nat) (ss : List Stmnt) :
    stmnts names' depth (Stmnt.relabelList g ss) = stmnts names depth ss := by
  cases ss with
  | nil => rfl
  | cons st ss =>
    rw [Stmnt.relabelList_cons, stmnts, stmnts, stmnt_relabel h depth st, stmnts_relabel h depth ss]

end

/-! ## Annotations -/

section Annotations

variable (name : Slot DeclId → Slot DeclId) (item : Slot Value → Slot Value)

section Shape

variable (e : Expr)

@[simp] theorem isAtomic_mapSlots : isAtomic (e.mapSlots name item) = isAtomic e := by
  cases e <;> rfl

@[simp] theorem typeParens_mapSlots : typeParens (e.mapSlots name item) = typeParens e := by
  cases e <;> rfl

@[simp] theorem infixParens_mapSlots (op : InfixOp) (isLeft : Bool) :
    infixParens op isLeft (e.mapSlots name item) = infixParens op isLeft e := by cases e <;> rfl

@[simp] theorem isName_mapSlots : isName (e.mapSlots name item) = isName e := by cases e <;> rfl

@[simp] theorem isTuple_mapSlots : isTuple (e.mapSlots name item) = isTuple e := by cases e <;> rfl

@[simp] theorem isBottom_mapSlots : isBottom (e.mapSlots name item) = isBottom e := by
  cases e <;> rfl

@[simp] theorem isUnknown_mapSlots : isUnknown (e.mapSlots name item) = isUnknown e := by
  cases e <;> rfl

@[simp] theorem isUnit_mapSlots : (e.mapSlots name item).isUnit = e.isUnit := by
  cases e
  case tuple span es => rcases es with _ | ⟨⟨i, first⟩, es⟩ <;> rfl
  all_goals rfl

@[simp] theorem isEmptyBlock_mapSlots : (e.mapSlots name item).isEmptyBlock = e.isEmptyBlock := by
  cases e
  case block span ss value =>
    cases ss with
    | nil => exact isUnit_mapSlots name item value
    | cons s ss => rfl
  all_goals rfl

@[simp] theorem isLone_mapSlotsList (es : List Elem) :
    isLone (Elem.mapSlotsList name item es) = isLone es := by
  rcases es with _ | ⟨⟨_ | i, e⟩, _ | ⟨⟨j, next⟩, es⟩⟩ <;> rfl

@[simp] theorem isEmpty_mapSlotsList (ss : List Stmnt) :
    (Stmnt.mapSlotsList name item ss).isEmpty = ss.isEmpty := by cases ss <;> rfl

@[simp] theorem function_mapSlots (domain text body : String) :
    function domain (e.mapSlots name item) text body = function domain e text body := by
  rw [function, function, isUnknown_mapSlots, typeParens_mapSlots]

end Shape

variable (names : Interner)

mutual

theorem expr_mapSlots (depth : Nat) (element : Bool) (e : Expr) :
    expr names depth element (e.mapSlots name item) = expr names depth element e := by
  cases e <;> simp only [Expr.mapSlots, expr, isAtomic_mapSlots, infixParens_mapSlots,
    isName_mapSlots, isTuple_mapSlots, isBottom_mapSlots, isUnit_mapSlots, isEmptyBlock_mapSlots,
    isLone_mapSlotsList, isEmpty_mapSlotsList, function_mapSlots, expr_mapSlots, ptrn_mapSlots,
    sigma_mapSlotsList, elems_mapSlotsList, arms_mapSlotsList, stmnts_mapSlotsList]

theorem ascription_mapSlots? (depth : Nat) (ty : Option Expr) :
    ascription names depth (Expr.mapSlots? name item ty) = ascription names depth ty := by
  cases ty with
  | none => rfl
  | some ty => rw [Expr.mapSlots?, ascription, ascription, typeParens_mapSlots, expr_mapSlots depth]

theorem ptrn_mapSlots (depth : Nat) (p : Ptrn) :
    ptrn names depth (p.mapSlots name item) = ptrn names depth p := by
  cases p <;> simp only [Ptrn.mapSlots, ptrn, ascription_mapSlots?, ptrns_mapSlotsList]

theorem ptrns_mapSlotsList (depth : Nat) (ps : List Ptrn) :
    ptrns names depth (Ptrn.mapSlotsList name item ps) = ptrns names depth ps := by
  cases ps with
  | nil => rfl
  | cons p ps => rw [Ptrn.mapSlotsList, ptrns, ptrns, ptrn_mapSlots depth p, ptrns_mapSlotsList depth ps]

theorem sigma_mapSlotsList (depth : Nat) (ps : List Ptrn) :
    sigma names depth (Ptrn.mapSlotsList name item ps) = sigma names depth ps := by
  cases ps with
  | nil => rfl
  | cons p ps =>
    have hrest := sigma_mapSlotsList depth ps
    rcases p with ⟨span, i, decl, _ | ty, typed⟩ | ⟨span, qs, ty, typed⟩ | ⟨span⟩
    case name.some =>
      have hptrn := ptrn_mapSlots depth (.name span i decl (some ty) typed)
      rw [Ptrn.mapSlots, Expr.mapSlots?] at hptrn
      simp only [Ptrn.mapSlotsList, Ptrn.mapSlots, Expr.mapSlots?, sigma, hptrn, hrest,
        expr_mapSlots depth false ty]
    case tuple =>
      have hptrn := ptrn_mapSlots depth (.tuple span qs ty typed)
      rw [Ptrn.mapSlots] at hptrn
      simp only [Ptrn.mapSlotsList, Ptrn.mapSlots, sigma, hptrn, hrest]
    all_goals simp only [Ptrn.mapSlotsList, Ptrn.mapSlots, Expr.mapSlots?, sigma, hrest]

theorem elems_mapSlotsList (depth : Nat) (es : List Elem) :
    elems names depth (Elem.mapSlotsList name item es) = elems names depth es := by
  match es with
  | [] => rfl
  | ⟨none, e⟩ :: es =>
    rw [Elem.mapSlotsList, elems, elems, expr_mapSlots depth true e, elems_mapSlotsList depth es]
  | ⟨some i, e⟩ :: es =>
    rw [Elem.mapSlotsList, elems, elems, expr_mapSlots depth false e, elems_mapSlotsList depth es]

theorem arms_mapSlotsList (depth : Nat) (as : List Arm) :
    arms names depth (Arm.mapSlotsList name item as) = arms names depth as := by
  match as with
  | [] => rfl
  | ⟨_, p, e⟩ :: as =>
    rw [Arm.mapSlotsList, arms, arms, ptrn_mapSlots depth p, expr_mapSlots depth false e,
      arms_mapSlotsList depth as]

theorem stmnt_mapSlots (depth : Nat) (s : Stmnt) :
    stmnt names depth (s.mapSlots name item) = stmnt names depth s := by
  match s with
  | .expr span e => rw [Stmnt.mapSlots, stmnt, stmnt, expr_mapSlots depth false e]
  | .bind span p e =>
    rw [Stmnt.mapSlots, stmnt, stmnt, ptrn_mapSlots depth p, expr_mapSlots depth false e]
  | .item ⟨span, i, e, decl, value⟩ =>
    have he := expr_mapSlots depth false e
    cases e
    case lambda inner d c b =>
      simp only [Stmnt.mapSlots, Expr.mapSlots, stmnt]
      rw [function_mapSlots, ptrn_mapSlots depth d, expr_mapSlots depth false c,
        expr_mapSlots depth false b]
    all_goals
      simp only [Expr.mapSlots] at he
      simp only [Stmnt.mapSlots, Expr.mapSlots, stmnt, he]

theorem stmnts_mapSlotsList (depth : Nat) (ss : List Stmnt) :
    stmnts names depth (Stmnt.mapSlotsList name item ss) = stmnts names depth ss := by
  cases ss with
  | nil => rfl
  | cons s ss =>
    rw [Stmnt.mapSlotsList, stmnts, stmnts, stmnt_mapSlots depth s, stmnts_mapSlotsList depth ss]

end

end Annotations

end Print

theorem Module.print_relabel {names names' : Interner} {g : Relabel}
    (h : g.KeepsTexts names names') (module : Module) :
    (module.relabel g).print names' = module.print names := by
  have hstmnts := Print.stmnts_relabel h 0 module.stmnts
  exact congrArg (fun texts : List String => String.join (texts.map (· ++ "\n"))) hstmnts

/-- Trees that differ in annotations only are written alike. -/
theorem Module.print_congr {module module' : Module}
    (h : Stmnt.mapSlotsList Slot.reset Slot.reset module'.stmnts =
      Stmnt.mapSlotsList Slot.reset Slot.reset module.stmnts) (names : Interner) :
    module'.print names = module.print names := by
  have hstmnts : Print.stmnts names 0 module'.stmnts = Print.stmnts names 0 module.stmnts := by
    rw [← Print.stmnts_mapSlotsList Slot.reset Slot.reset names, h, Print.stmnts_mapSlotsList]
  rw [Module.print, Module.print, hstmnts]

end ImpLang
