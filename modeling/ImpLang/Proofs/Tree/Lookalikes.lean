import ImpLang.Proofs.Tree.Alike
import ImpLang.Proofs.Tree.Relabel

/-!
What is alike is printed alike. Whether trees are alike is not a matter of their places.
-/

namespace ImpLang

variable {names names' : Interner}

/-! ## Places -/

/-- Everything at one place. -/
def Relabel.flat : Relabel := ⟨fun _ => default, id, id, id⟩

mutual

theorem Expr.alike_of_flat {e e' : Expr} (h : Expr.Alike names names' (e.relabel .flat) e') :
    Expr.Alike names names' e e' := by
  cases e <;> cases h
  case name same => exact .name same
  case literal value _ _ same =>
    have hvalue : value.map Relabel.flat.symbol = value := value.map_id
    exact .literal (hvalue ▸ same)
  case tuple elems => exact .tuple (Elem.alikeList_of_flat elems)
  case sigma elems => exact .sigma (Ptrn.alikeList_of_flat elems)
  case pi domain codomain => exact .pi (Ptrn.alike_of_flat domain) (Expr.alike_of_flat codomain)
  case lambda domain codomain body =>
    exact .lambda (Ptrn.alike_of_flat domain) (Expr.alike_of_flat codomain) (Expr.alike_of_flat body)
  case app callee arg => exact .app (Expr.alike_of_flat callee) (Expr.alike_of_flat arg)
  case field value same => exact .field (Expr.alike_of_flat value) same
  case prefixed operand => exact .prefixed (Expr.alike_of_flat operand)
  case postfixed operand => exact .postfixed (Expr.alike_of_flat operand)
  case binary left right => exact .binary (Expr.alike_of_flat left) (Expr.alike_of_flat right)
  case block stmnts value =>
    exact .block (Stmnt.alikeList_of_flat stmnts) (Expr.alike_of_flat value)
  case branch cond yes no =>
    exact .branch (Expr.alike_of_flat cond) (Expr.alike_of_flat yes) (Expr.alike_of_flat no)
  case select scrutinee arms =>
    exact .select (Expr.alike_of_flat scrutinee) (Arm.alikeList_of_flat arms)
  case forLoop ptrn iter body =>
    exact .forLoop (Ptrn.alike_of_flat ptrn) (Expr.alike_of_flat iter) (Expr.alike_of_flat body)
  case whileLoop cond body =>
    exact .whileLoop (Expr.alike_of_flat cond) (Expr.alike_of_flat body)
  case pack domain body => exact .pack (Ptrn.alike_of_flat domain) (Expr.alike_of_flat body)
  case variadic domain body => exact .variadic (Ptrn.alike_of_flat domain) (Expr.alike_of_flat body)
  case qualifier => exact .qualifier
  case bottom => exact .bottom
  case unknown => exact .unknown
  case error => exact .error
  termination_by structural e

theorem Expr.alike?_of_flat {e e' : Option Expr}
    (h : Expr.Alike? names names' (Expr.relabel? .flat e) e') : Expr.Alike? names names' e e' := by
  cases e <;> cases h
  case none => exact .none
  case some same => exact .some (Expr.alike_of_flat same)
  termination_by structural e

theorem Ptrn.alike_of_flat {p p' : Ptrn} (h : Ptrn.Alike names names' (p.relabel .flat) p') :
    Ptrn.Alike names names' p p' := by
  cases p <;> cases h
  case name same type => exact .name same (Expr.alike?_of_flat type)
  case tuple elems type => exact .tuple (Ptrn.alikeList_of_flat elems) (Expr.alike?_of_flat type)
  case error => exact .error
  termination_by structural p

theorem Ptrn.alikeList_of_flat {ps ps' : List Ptrn}
    (h : Ptrn.AlikeList names names' (Ptrn.relabelList .flat ps) ps') :
    Ptrn.AlikeList names names' ps ps' := by
  cases ps <;> cases h
  case nil => exact .nil
  case cons first rest => exact .cons (Ptrn.alike_of_flat first) (Ptrn.alikeList_of_flat rest)
  termination_by structural ps

theorem Elem.alikeList_of_flat {es es' : List Elem}
    (h : Elem.AlikeList names names' (Elem.relabelList .flat es) es') :
    Elem.AlikeList names names' es es' := by
  match es with
  | [] =>
    cases h
    exact .nil
  | ⟨none, e⟩ :: es =>
    cases h with
    | plain expr rest => exact .plain (Expr.alike_of_flat expr) (Elem.alikeList_of_flat rest)
  | ⟨some id, e⟩ :: es =>
    cases h with
    | named same expr rest =>
      exact .named same (Expr.alike_of_flat expr) (Elem.alikeList_of_flat rest)
  termination_by structural es

theorem Arm.alikeList_of_flat {as as' : List Arm}
    (h : Arm.AlikeList names names' (Arm.relabelList .flat as) as') :
    Arm.AlikeList names names' as as' := by
  match as with
  | [] =>
    cases h
    exact .nil
  | ⟨span, p, e⟩ :: as =>
    cases h with
    | cons ptrn body rest =>
      exact .cons (Ptrn.alike_of_flat ptrn) (Expr.alike_of_flat body) (Arm.alikeList_of_flat rest)
  termination_by structural as

theorem Stmnt.alike_of_flat {s s' : Stmnt} (h : Stmnt.Alike names names' (s.relabel .flat) s') :
    Stmnt.Alike names names' s s' := by
  match s with
  | .expr span e =>
    cases h with
    | expr same => exact .expr (Expr.alike_of_flat same)
  | .bind span p e =>
    cases h with
    | bind ptrn init => exact .bind (Ptrn.alike_of_flat ptrn) (Expr.alike_of_flat init)
  | .item ⟨span, id, e, decl, value⟩ =>
    cases h with
    | item same expr => exact .item same (Expr.alike_of_flat expr)
  termination_by structural s

theorem Stmnt.alikeList_of_flat {ss ss' : List Stmnt}
    (h : Stmnt.AlikeList names names' (Stmnt.relabelList .flat ss) ss') :
    Stmnt.AlikeList names names' ss ss' := by
  cases ss <;> cases h
  case nil => exact .nil
  case cons first rest => exact .cons (Stmnt.alike_of_flat first) (Stmnt.alikeList_of_flat rest)
  termination_by structural ss

end

/-! ## Texts -/

theorem Symbol.Alike.name {symbol symbol' : Symbol} (h : Symbol.Alike names names' symbol symbol') :
    names'.name symbol' = names.name symbol := by
  obtain ⟨text, htext, htext'⟩ := h
  rw [Interner.name, Interner.name, htext, htext']

theorem Symbol.Alike.resolve? {symbol symbol' : Symbol}
    (h : Symbol.Alike names names' symbol symbol') :
    names'.resolve? symbol' = names.resolve? symbol := by
  obtain ⟨text, htext, htext'⟩ := h
  rw [htext, htext']

theorem Literal.map_name {value : Literal Symbol} {text : Literal String}
    (h : value.map names.resolve? = text.map some) : value.map names.name = text := by
  cases value <;> cases text <;> simp_all [Literal.map, Interner.name]

theorem Literal.Alike.map_name {value value' : Literal Symbol}
    (h : Literal.Alike names names' value value') :
    value'.map names'.name = value.map names.name := by
  obtain ⟨text, htext, htext'⟩ := h
  rw [Literal.map_name htext, Literal.map_name htext']

namespace Expr.Alike

variable {e e' : Expr} (h : Expr.Alike names names' e e')

include h

theorem isAtomic : Print.isAtomic e' = Print.isAtomic e := by cases h <;> rfl

theorem typeParens : Print.typeParens e' = Print.typeParens e := by cases h <;> rfl

theorem infixParens (op : InfixOp) (isLeft : Bool) :
    Print.infixParens op isLeft e' = Print.infixParens op isLeft e := by cases h <;> rfl

theorem isName : Print.isName e' = Print.isName e := by cases h <;> rfl

theorem isTuple : Print.isTuple e' = Print.isTuple e := by cases h <;> rfl

theorem isBottom : Print.isBottom e' = Print.isBottom e := by cases h <;> rfl

theorem isUnknown : Print.isUnknown e' = Print.isUnknown e := by cases h <;> rfl

theorem isUnit : e'.isUnit = e.isUnit := by
  cases h with
  | tuple elems => cases elems <;> rfl
  | _ => rfl

theorem isEmptyBlock : e'.isEmptyBlock = e.isEmptyBlock := by
  cases h with
  | block stmnts value =>
    cases stmnts with
    | nil => exact value.isUnit
    | cons first rest => rfl
  | _ => rfl

theorem print_function (domain text body : String) :
    Print.function domain e' text body = Print.function domain e text body := by
  rw [Print.function, Print.function, h.isUnknown, h.typeParens]

end Expr.Alike

theorem Elem.AlikeList.isLone {es es' : List Elem} (h : Elem.AlikeList names names' es es') :
    Print.isLone es' = Print.isLone es := by
  cases h with
  | nil => rfl
  | plain expr rest => cases rest <;> rfl
  | named same expr rest => cases rest <;> rfl

theorem Stmnt.AlikeList.isEmpty {ss ss' : List Stmnt} (h : Stmnt.AlikeList names names' ss ss') :
    ss'.isEmpty = ss.isEmpty := by
  cases h <;> rfl

namespace Print

mutual

theorem expr_alike {e e' : Expr} (h : Expr.Alike names names' e e') (depth : Nat)
    (element : Bool) : expr names' depth element e' = expr names depth element e := by
  cases e <;> cases h
  case name same => exact same.name
  case literal same => rw [expr, expr, same.map_name]
  case tuple elems => rw [expr, expr, elems_alike elems depth, elems.isLone]
  case sigma elems => rw [expr, expr, sigma_alike elems depth]
  case pi domain codomain =>
    rw [expr, expr, codomain.isBottom, ptrn_alike domain depth, expr_alike codomain depth false]
  case lambda domain codomain body =>
    rw [expr, expr, codomain.print_function, ptrn_alike domain depth,
      expr_alike codomain depth false, expr_alike body depth false]
  case app callee arg =>
    rw [expr, expr, callee.isAtomic, arg.isTuple, expr_alike callee depth false,
      expr_alike arg depth false, expr_alike arg depth true]
  case field value same =>
    rw [expr, expr, value.isAtomic, expr_alike value depth false, same.name]
  case prefixed operand => rw [expr, expr, operand.isAtomic, expr_alike operand depth false]
  case postfixed operand => rw [expr, expr, operand.isAtomic, expr_alike operand depth false]
  case binary left right =>
    rw [expr, expr, left.isName, left.infixParens, right.infixParens,
      expr_alike left depth false, expr_alike right depth false]
  case block stmnts value =>
    rw [expr, expr, value.isUnit, stmnts.isEmpty, stmnts_alike stmnts (depth + 1),
      expr_alike value _ false]
  case branch cond yes no =>
    rw [expr, expr, no.isEmptyBlock, expr_alike cond depth false, expr_alike yes depth false,
      expr_alike no depth false]
  case select scrutinee arms =>
    rw [expr, expr, expr_alike scrutinee depth false, arms_alike arms (depth + 1)]
  case forLoop p iter body =>
    rw [expr, expr, ptrn_alike p depth, expr_alike iter depth false, expr_alike body depth false]
  case whileLoop cond body =>
    rw [expr, expr, expr_alike cond depth false, expr_alike body depth false]
  case pack domain body => rw [expr, expr, ptrn_alike domain depth, expr_alike body depth false]
  case variadic domain body =>
    rw [expr, expr, ptrn_alike domain depth, expr_alike body depth false]
  all_goals rfl
  termination_by structural e

theorem ascription_alike {ty ty' : Option Expr} (h : Expr.Alike? names names' ty ty')
    (depth : Nat) : ascription names' depth ty' = ascription names depth ty := by
  cases ty <;> cases h
  case none => rfl
  case some same => rw [ascription, ascription, same.typeParens, expr_alike same depth false]
  termination_by structural ty

theorem ptrn_alike {p p' : Ptrn} (h : Ptrn.Alike names names' p p') (depth : Nat) :
    ptrn names' depth p' = ptrn names depth p := by
  cases p <;> cases h
  case name same type => rw [ptrn, ptrn, same.name, ascription_alike type depth]
  case tuple elems type => rw [ptrn, ptrn, ptrns_alike elems depth, ascription_alike type depth]
  case error => rfl
  termination_by structural p

theorem ptrns_alike {ps ps' : List Ptrn} (h : Ptrn.AlikeList names names' ps ps') (depth : Nat) :
    ptrns names' depth ps' = ptrns names depth ps := by
  cases ps <;> cases h
  case nil => rfl
  case cons first rest => rw [ptrns, ptrns, ptrn_alike first depth, ptrns_alike rest depth]
  termination_by structural ps

/-- Whether an element binds the wildcard is a matter of texts too. -/
theorem sigma_alike {ps ps' : List Ptrn} (h : Ptrn.AlikeList names names' ps ps') (depth : Nat) :
    sigma names' depth ps' = sigma names depth ps := by
  cases ps <;> cases h
  case nil => rfl
  case cons first rest =>
    have hfirst := ptrn_alike first depth
    have hrest := sigma_alike rest depth
    cases first with
    | name same type =>
      cases type with
      | none => simp only [sigma, hfirst, hrest]
      | some alike =>
        simp only [sigma, hfirst, hrest, same.resolve?, expr_alike alike depth false]
    | tuple | error => simp only [sigma, hfirst, hrest]
  termination_by structural ps

theorem elems_alike {es es' : List Elem} (h : Elem.AlikeList names names' es es') (depth : Nat) :
    elems names' depth es' = elems names depth es := by
  match es with
  | [] =>
    cases h
    rfl
  | ⟨none, e⟩ :: es =>
    cases h with
    | plain expr rest => rw [elems, elems, expr_alike expr depth true, elems_alike rest depth]
  | ⟨some id, e⟩ :: es =>
    cases h with
    | named same expr rest =>
      rw [elems, elems, expr_alike expr depth false, elems_alike rest depth, same.name]
  termination_by structural es

theorem arms_alike {as as' : List Arm} (h : Arm.AlikeList names names' as as') (depth : Nat) :
    arms names' depth as' = arms names depth as := by
  match as with
  | [] =>
    cases h
    rfl
  | ⟨span, p, e⟩ :: as =>
    cases h with
    | cons ptrn body rest =>
      rw [arms, arms, ptrn_alike ptrn depth, expr_alike body depth false, arms_alike rest depth]
  termination_by structural as

theorem stmnt_alike {s s' : Stmnt} (h : Stmnt.Alike names names' s s') (depth : Nat) :
    stmnt names' depth s' = stmnt names depth s := by
  match s with
  | .expr span e =>
    cases h with
    | expr same => rw [stmnt, stmnt, expr_alike same depth false]
  | .bind span p e =>
    cases h with
    | bind ptrn init => rw [stmnt, stmnt, ptrn_alike ptrn depth, expr_alike init depth false]
  | .item ⟨span, id, e, decl, value⟩ =>
    cases h with
    | item same alike =>
      have hvalue := expr_alike alike depth false
      cases e <;> cases alike
      case lambda domain codomain body =>
        rw [stmnt, stmnt, codomain.print_function, ptrn_alike domain depth,
          expr_alike codomain depth false, expr_alike body depth false, same.name]
      all_goals simp only [stmnt, hvalue, same.name]
  termination_by structural s

theorem stmnts_alike {ss ss' : List Stmnt} (h : Stmnt.AlikeList names names' ss ss')
    (depth : Nat) : stmnts names' depth ss' = stmnts names depth ss := by
  cases ss <;> cases h
  case nil => rfl
  case cons first rest => rw [stmnts, stmnts, stmnt_alike first depth, stmnts_alike rest depth]
  termination_by structural ss

end

end Print

theorem Module.print_alike {module module' : Module}
    (h : Stmnt.AlikeList names names' module.stmnts module'.stmnts) :
    module'.print names' = module.print names := by
  rw [Module.print, Module.print, Print.stmnts_alike h]

end ImpLang
