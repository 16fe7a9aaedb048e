import ImpLang.Proofs.Tree.Annotation
import ImpLang.Tree.Printer

/-!
Trees up to what they refer to outside of themselves: places in a source, symbols of a name table,
declarations of an arena, values of a builder. A relabelling renames all four.
-/

namespace ImpLang

def Slot.map {α β : Type} (f : α → β) (slot : Slot α) : Slot β := ⟨slot.get?.map f⟩

@[simp] theorem Slot.map_unset {α β : Type} (f : α → β) : (unset : Slot α).map f = unset := rfl

@[simp] theorem Slot.map_id {α : Type} (slot : Slot α) : slot.map id = slot := by
  rw [Slot.map, Option.map_id_fun, id_eq]

structure Relabel where
  span : Span → Span
  symbol : Symbol → Symbol
  decl : DeclId → DeclId
  value : Value → Value

variable (g : Relabel)

namespace Relabel

/-- Rename symbols only. -/
def symbols (f : Symbol → Symbol) : Relabel := ⟨id, f, id, id⟩

/-- Rename values only. -/
def values (f : Value → Value) : Relabel := ⟨id, id, id, f⟩

/-- Rename nothing. -/
def refl : Relabel := symbols id

section

variable (f : Symbol → Symbol)

@[simp] theorem symbols_span : (symbols f).span = id := rfl

@[simp] theorem symbols_symbol : (symbols f).symbol = f := rfl

@[simp] theorem symbols_decl : (symbols f).decl = id := rfl

@[simp] theorem symbols_value : (symbols f).value = id := rfl

end

section

variable (f : Value → Value)

@[simp] theorem values_span : (values f).span = id := rfl

@[simp] theorem values_symbol : (values f).symbol = id := rfl

@[simp] theorem values_decl : (values f).decl = id := rfl

@[simp] theorem values_value : (values f).value = f := rfl

end

end Relabel

def Id.relabel (i : Id) : Id := ⟨g.symbol i.symbol, g.span i.span⟩

mutual

def Expr.relabel : Expr → Expr
  | .name span i decl => .name (g.span span) (i.relabel g) (decl.map g.decl)
  | .literal span value => .literal (g.span span) (value.map g.symbol)
  | .tuple span elems => .tuple (g.span span) (Elem.relabelList elems)
  | .sigma span elems => .sigma (g.span span) (Ptrn.relabelList elems)
  | .pi span domain codomain => .pi (g.span span) domain.relabel codomain.relabel
  | .lambda span domain codomain body =>
    .lambda (g.span span) domain.relabel codomain.relabel body.relabel
  | .app span callee arg cps => .app (g.span span) callee.relabel arg.relabel cps
  | .field span value i => .field (g.span span) value.relabel (i.relabel g)
  | .prefixed span op operand => .prefixed (g.span span) op operand.relabel
  | .postfixed span operand op => .postfixed (g.span span) operand.relabel op
  | .binary span left op right => .binary (g.span span) left.relabel op right.relabel
  | .block span stmnts value => .block (g.span span) (Stmnt.relabelList stmnts) value.relabel
  | .branch span cond yes no => .branch (g.span span) cond.relabel yes.relabel no.relabel
  | .select span scrutinee arms => .select (g.span span) scrutinee.relabel (Arm.relabelList arms)
  | .forLoop span ptrn iter body => .forLoop (g.span span) ptrn.relabel iter.relabel body.relabel
  | .whileLoop span cond body => .whileLoop (g.span span) cond.relabel body.relabel
  | .pack span domain body => .pack (g.span span) domain.relabel body.relabel
  | .variadic span domain body => .variadic (g.span span) domain.relabel body.relabel
  | .qualifier span value => .qualifier (g.span span) value
  | .bottom span => .bottom (g.span span)
  | .unknown span => .unknown (g.span span)
  | .error span => .error (g.span span)

def Expr.relabel? : Option Expr → Option Expr
  | none => none
  | some expr => some expr.relabel

def Ptrn.relabel : Ptrn → Ptrn
  | .name span i decl ty typed =>
    .name (g.span span) (i.relabel g) (g.decl decl) (Expr.relabel? ty) typed
  | .tuple span elems ty typed =>
    .tuple (g.span span) (Ptrn.relabelList elems) (Expr.relabel? ty) typed
  | .error span => .error (g.span span)

def Ptrn.relabelList : List Ptrn → List Ptrn
  | [] => []
  | ptrn :: ptrns => ptrn.relabel :: Ptrn.relabelList ptrns

def Elem.relabelList : List Elem → List Elem
  | [] => []
  | ⟨i, expr⟩ :: elems => ⟨i.map (Id.relabel g), expr.relabel⟩ :: Elem.relabelList elems

def Arm.relabelList : List Arm → List Arm
  | [] => []
  | ⟨span, ptrn, body⟩ :: arms =>
    ⟨g.span span, ptrn.relabel, body.relabel⟩ :: Arm.relabelList arms

def Stmnt.relabel : Stmnt → Stmnt
  | .expr span expr => .expr (g.span span) expr.relabel
  | .bind span ptrn init => .bind (g.span span) ptrn.relabel init.relabel
  | .item ⟨span, i, expr, decl, value⟩ =>
    .item ⟨g.span span, i.relabel g, expr.relabel, g.decl decl, value.map g.value⟩

def Stmnt.relabelList : List Stmnt → List Stmnt
  | [] => []
  | stmnt :: stmnts => stmnt.relabel :: Stmnt.relabelList stmnts

end

def Item.relabel (item : Item) : Item :=
  ⟨g.span item.span, item.id.relabel g, item.expr.relabel g, g.decl item.decl,
    item.value.map g.value⟩

def Decl.relabel (decl : Decl) : Decl := ⟨g.symbol decl.symbol, g.span decl.span, decl.kind⟩

def Decls.relabel (decls : Decls) : Decls := ⟨decls.toArray.map (Decl.relabel g)⟩

/-- A module whose statements and declarations are renamed; the file stays. -/
def Module.relabel (module : Module) : Module :=
  { module with
    span := g.span module.span
    stmnts := Stmnt.relabelList g module.stmnts
    decls := module.decls.relabel g }

theorem Stmnt.relabel_item (item : Item) : (Stmnt.item item).relabel g = .item (item.relabel g) := by
  cases item
  rfl

@[simp] theorem Stmnt.relabelList_nil : Stmnt.relabelList g [] = [] := rfl

@[simp] theorem Stmnt.relabelList_cons (s : Stmnt) (ss : List Stmnt) :
    Stmnt.relabelList g (s :: ss) = s.relabel g :: Stmnt.relabelList g ss := rfl

@[simp] theorem Ptrn.relabelList_nil : Ptrn.relabelList g [] = [] := rfl

@[simp] theorem Ptrn.relabelList_cons (p : Ptrn) (ps : List Ptrn) :
    Ptrn.relabelList g (p :: ps) = p.relabel g :: Ptrn.relabelList g ps := rfl

@[simp] theorem Elem.relabelList_nil : Elem.relabelList g [] = [] := rfl

@[simp] theorem Elem.relabelList_cons (i : Option Id) (e : Expr) (es : List Elem) :
    Elem.relabelList g (⟨i, e⟩ :: es) =
      ⟨i.map (Id.relabel g), e.relabel g⟩ :: Elem.relabelList g es := rfl

@[simp] theorem Arm.relabelList_nil : Arm.relabelList g [] = [] := rfl

@[simp] theorem Arm.relabelList_cons (span : Span) (p : Ptrn) (e : Expr) (as : List Arm) :
    Arm.relabelList g (⟨span, p, e⟩ :: as) =
      ⟨g.span span, p.relabel g, e.relabel g⟩ :: Arm.relabelList g as := rfl

/-! ## The shape of a tree -/

namespace Expr

variable (e : Expr)

@[simp] theorem span_relabel : (e.relabel g).span = g.span e.span := by cases e <;> rfl

@[simp] theorem isError_relabel : (e.relabel g).isError = e.isError := by cases e <;> rfl

@[simp] theorem isStmntLike_relabel : (e.relabel g).isStmntLike = e.isStmntLike := by cases e <;> rfl

@[simp] theorem withSpan_relabel (span : Span) :
    (e.withSpan span).relabel g = (e.relabel g).withSpan (g.span span) := by cases e <;> rfl

@[simp] theorem isUnit_relabel : (e.relabel g).isUnit = e.isUnit := by
  cases e
  case tuple span elems =>
    cases elems with
    | nil => rfl
    | cons elem elems =>
      cases elem
      rfl
  all_goals rfl

@[simp] theorem isEmptyBlock_relabel : (e.relabel g).isEmptyBlock = e.isEmptyBlock := by
  cases e
  case block span stmnts value =>
    cases stmnts with
    | nil => exact isUnit_relabel g value
    | cons stmnt stmnts => rfl
  all_goals rfl

end Expr

namespace Ptrn

variable (p : Ptrn)

@[simp] theorem span_relabel : (p.relabel g).span = g.span p.span := by cases p <;> rfl

@[simp] theorem isError_relabel : (p.relabel g).isError = p.isError := by cases p <;> rfl

theorem ty?_relabel : (p.relabel g).ty? = Expr.relabel? g p.ty? := by cases p <;> rfl

end Ptrn

@[simp] theorem Expr.isSome_relabel? (e : Option Expr) :
    (Expr.relabel? g e).isSome = e.isSome := by
  cases e <;> rfl

/-! ## Renaming values -/

@[simp] theorem Literal.map_id {α : Type} (value : Literal α) : value.map id = value := by
  cases value <;> rfl

/-- A renaming of values that changes none of those among some nodes. -/
def Node.Fixed (f : Value → Value) (nodes : List Node) : Prop :=
  ∀ it, .item it ∈ nodes → it.value.map f = it.value

section

variable {f : Value → Value}

namespace Node

theorem fixed_cons {node : Node} {nodes : List Node} :
    Fixed f (node :: nodes) ↔
      (∀ it, node = .item it → it.value.map f = it.value) ∧ Fixed f nodes := by
  simp only [Fixed, List.mem_cons, or_imp, forall_and, eq_comm (a := node)]

theorem fixed_append {nodes more : List Node} :
    Fixed f (nodes ++ more) ↔ Fixed f nodes ∧ Fixed f more := by
  simp only [Fixed, List.mem_append, or_imp, forall_and]

end Node

theorem Id.relabel_values (i : Id) : i.relabel (.values f) = i := rfl

theorem Id.map_relabel_values (i : Option Id) : i.map (Id.relabel (.values f)) = i := by
  cases i <;> rfl

mutual

/-- Values stand in the slots of items and nowhere else. -/
theorem Expr.relabel_values {e : Expr} (h : Node.Fixed f e.nodes) : e.relabel (.values f) = e := by
  cases e <;> simp only [Expr.nodes, Node.fixed_cons, Node.fixed_append] at h <;>
    simp only [Expr.relabel, Id.relabel_values, Expr.relabel_values, Ptrn.relabel_values,
      Ptrn.relabelList_values, Elem.relabelList_values, Arm.relabelList_values,
      Stmnt.relabelList_values, Relabel.values_span, Relabel.values_symbol, Relabel.values_decl,
      Slot.map_id, Literal.map_id, id_eq, h]

theorem Expr.relabel?_values {e : Option Expr} (h : Node.Fixed f (Expr.nodesOf? e)) :
    Expr.relabel? (.values f) e = e := by
  cases e with
  | none => rfl
  | some e => rw [Expr.relabel?, Expr.relabel_values h]

theorem Ptrn.relabel_values {p : Ptrn} (h : Node.Fixed f p.nodes) : p.relabel (.values f) = p := by
  cases p <;> simp only [Ptrn.nodes, Node.fixed_cons, Node.fixed_append] at h <;>
    simp only [Ptrn.relabel, Id.relabel_values, Expr.relabel?_values, Ptrn.relabelList_values,
      Relabel.values_span, Relabel.values_decl, id_eq, h]

theorem Ptrn.relabelList_values {ps : List Ptrn} (h : Node.Fixed f (Ptrn.nodesOf ps)) :
    Ptrn.relabelList (.values f) ps = ps := by
  cases ps with
  | nil => rfl
  | cons p ps =>
    obtain ⟨hp, hps⟩ := Node.fixed_append.1 h
    rw [Ptrn.relabelList, Ptrn.relabel_values hp, Ptrn.relabelList_values hps]

theorem Elem.relabelList_values {es : List Elem} (h : Node.Fixed f (Elem.nodesOf es)) :
    Elem.relabelList (.values f) es = es := by
  match es with
  | [] => rfl
  | ⟨i, e⟩ :: es =>
    obtain ⟨he, hes⟩ := Node.fixed_append.1 h
    rw [Elem.relabelList, Id.map_relabel_values, Expr.relabel_values he, Elem.relabelList_values hes]

theorem Arm.relabelList_values {as : List Arm} (h : Node.Fixed f (Arm.nodesOf as)) :
    Arm.relabelList (.values f) as = as := by
  match as with
  | [] => rfl
  | ⟨span, p, e⟩ :: as =>
    obtain ⟨hfirst, has⟩ := Node.fixed_append.1 h
    obtain ⟨hp, he⟩ := Node.fixed_append.1 hfirst
    rw [Arm.relabelList, Ptrn.relabel_values hp, Expr.relabel_values he, Arm.relabelList_values has]
    rfl

theorem Stmnt.relabel_values {s : Stmnt} (h : Node.Fixed f s.nodes) : s.relabel (.values f) = s := by
  match s with
  | .expr span e =>
    obtain ⟨-, he⟩ := Node.fixed_cons.1 h
    rw [Stmnt.relabel, Expr.relabel_values he]
    rfl
  | .bind span p e =>
    obtain ⟨hp, he⟩ := Node.fixed_append.1 (Node.fixed_cons.1 h).2
    rw [Stmnt.relabel, Ptrn.relabel_values hp, Expr.relabel_values he]
    rfl
  | .item ⟨span, i, e, decl, slot⟩ =>
    obtain ⟨hitem, he⟩ := Node.fixed_cons.1 (Node.fixed_cons.1 h).2
    have hslot : slot.map f = slot := hitem _ rfl
    rw [Stmnt.relabel, Expr.relabel_values he, Relabel.values_value, hslot]
    rfl

theorem Stmnt.relabelList_values {ss : List Stmnt} (h : Node.Fixed f (Stmnt.nodesOf ss)) :
    Stmnt.relabelList (.values f) ss = ss := by
  cases ss with
  | nil => rfl
  | cons s ss =>
    obtain ⟨hs, hss⟩ := Node.fixed_append.1 h
    rw [Stmnt.relabelList, Stmnt.relabel_values hs, Stmnt.relabelList_values hss]

end

end

/-- Renaming nothing leaves what there is. -/
theorem Stmnt.relabelList_refl (ss : List Stmnt) : Stmnt.relabelList .refl ss = ss :=
  Stmnt.relabelList_values fun it _ => it.value.map_id

end ImpLang
