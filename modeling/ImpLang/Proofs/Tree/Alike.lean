import ImpLang.Tree.Basic

/-!
Trees that are alike: the same constructs, operators and literals, with names and strings of the
same texts. Spans, declarations and annotations do not count, and each tree has a name table of its
own.
-/

namespace ImpLang

variable (names names' : Interner)

/-- Two symbols with one text. -/
def Symbol.Alike (symbol symbol' : Symbol) : Prop :=
  ∃ text, names.resolve? symbol = some text ∧ names'.resolve? symbol' = some text

def Literal.Alike (value value' : Literal Symbol) : Prop :=
  ∃ text : Literal String, value.map names.resolve? = text.map some ∧
    value'.map names'.resolve? = text.map some

mutual

inductive Expr.Alike : Expr → Expr → Prop
  | name {span span' id id' decl decl'} (same : Symbol.Alike names names' id.symbol id'.symbol) :
      Expr.Alike (.name span id decl) (.name span' id' decl')
  | literal {span span' value value'} (same : Literal.Alike names names' value value') :
      Expr.Alike (.literal span value) (.literal span' value')
  | tuple {span span' es es'} (elems : Elem.AlikeList es es') :
      Expr.Alike (.tuple span es) (.tuple span' es')
  | sigma {span span' ps ps'} (elems : Ptrn.AlikeList ps ps') :
      Expr.Alike (.sigma span ps) (.sigma span' ps')
  | pi {span span' d d' c c'} (domain : Ptrn.Alike d d') (codomain : Expr.Alike c c') :
      Expr.Alike (.pi span d c) (.pi span' d' c')
  | lambda {span span' d d' c c' b b'} (domain : Ptrn.Alike d d') (codomain : Expr.Alike c c')
      (body : Expr.Alike b b') : Expr.Alike (.lambda span d c b) (.lambda span' d' c' b')
  | app {span span' f f' a a' cps} (callee : Expr.Alike f f') (arg : Expr.Alike a a') :
      Expr.Alike (.app span f a cps) (.app span' f' a' cps)
  | field {span span' e e' id id'} (value : Expr.Alike e e')
      (same : Symbol.Alike names names' id.symbol id'.symbol) :
      Expr.Alike (.field span e id) (.field span' e' id')
  | prefixed {span span' op e e'} (operand : Expr.Alike e e') :
      Expr.Alike (.prefixed span op e) (.prefixed span' op e')
  | postfixed {span span' e e' op} (operand : Expr.Alike e e') :
      Expr.Alike (.postfixed span e op) (.postfixed span' e' op)
  | binary {span span' l l' op r r'} (left : Expr.Alike l l') (right : Expr.Alike r r') :
      Expr.Alike (.binary span l op r) (.binary span' l' op r')
  | block {span span' ss ss' e e'} (stmnts : Stmnt.AlikeList ss ss') (value : Expr.Alike e e') :
      Expr.Alike (.block span ss e) (.block span' ss' e')
  | branch {span span' c c' y y' n n'} (cond : Expr.Alike c c') (yes : Expr.Alike y y')
      (no : Expr.Alike n n') : Expr.Alike (.branch span c y n) (.branch span' c' y' n')
  | select {span span' e e' as as'} (scrutinee : Expr.Alike e e') (arms : Arm.AlikeList as as') :
      Expr.Alike (.select span e as) (.select span' e' as')
  | forLoop {span span' p p' i i' b b'} (ptrn : Ptrn.Alike p p') (iter : Expr.Alike i i')
      (body : Expr.Alike b b') : Expr.Alike (.forLoop span p i b) (.forLoop span' p' i' b')
  | whileLoop {span span' c c' b b'} (cond : Expr.Alike c c') (body : Expr.Alike b b') :
      Expr.Alike (.whileLoop span c b) (.whileLoop span' c' b')
  | pack {span span' p p' e e'} (domain : Ptrn.Alike p p') (body : Expr.Alike e e') :
      Expr.Alike (.pack span p e) (.pack span' p' e')
  | variadic {span span' p p' e e'} (domain : Ptrn.Alike p p') (body : Expr.Alike e e') :
      Expr.Alike (.variadic span p e) (.variadic span' p' e')
  | qualifier {span span' value} : Expr.Alike (.qualifier span value) (.qualifier span' value)
  | bottom {span span'} : Expr.Alike (.bottom span) (.bottom span')
  | unknown {span span'} : Expr.Alike (.unknown span) (.unknown span')
  | error {span span'} : Expr.Alike (.error span) (.error span')

inductive Expr.Alike? : Option Expr → Option Expr → Prop
  | none : Expr.Alike? none none
  | some {e e'} (same : Expr.Alike e e') : Expr.Alike? (some e) (some e')

inductive Ptrn.Alike : Ptrn → Ptrn → Prop
  | name {span span' id id' decl decl' ty ty' typed}
      (same : Symbol.Alike names names' id.symbol id'.symbol) (type : Expr.Alike? ty ty') :
      Ptrn.Alike (.name span id decl ty typed) (.name span' id' decl' ty' typed)
  | tuple {span span' ps ps' ty ty' typed} (elems : Ptrn.AlikeList ps ps')
      (type : Expr.Alike? ty ty') : Ptrn.Alike (.tuple span ps ty typed) (.tuple span' ps' ty' typed)
  | error {span span'} : Ptrn.Alike (.error span) (.error span')

inductive Ptrn.AlikeList : List Ptrn → List Ptrn → Prop
  | nil : Ptrn.AlikeList [] []
  | cons {p p' ps ps'} (first : Ptrn.Alike p p') (rest : Ptrn.AlikeList ps ps') :
      Ptrn.AlikeList (p :: ps) (p' :: ps')

inductive Elem.AlikeList : List Elem → List Elem → Prop
  | nil : Elem.AlikeList [] []
  | plain {e e' es es'} (expr : Expr.Alike e e') (rest : Elem.AlikeList es es') :
      Elem.AlikeList (⟨none, e⟩ :: es) (⟨none, e'⟩ :: es')
  | named {id id' e e' es es'} (same : Symbol.Alike names names' id.symbol id'.symbol)
      (expr : Expr.Alike e e') (rest : Elem.AlikeList es es') :
      Elem.AlikeList (⟨some id, e⟩ :: es) (⟨some id', e'⟩ :: es')

inductive Arm.AlikeList : List Arm → List Arm → Prop
  | nil : Arm.AlikeList [] []
  | cons {span span' p p' e e' as as'} (ptrn : Ptrn.Alike p p') (body : Expr.Alike e e')
      (rest : Arm.AlikeList as as') :
      Arm.AlikeList (⟨span, p, e⟩ :: as) (⟨span', p', e'⟩ :: as')

inductive Stmnt.Alike : Stmnt → Stmnt → Prop
  | expr {span span' e e'} (same : Expr.Alike e e') : Stmnt.Alike (.expr span e) (.expr span' e')
  | bind {span span' p p' e e'} (ptrn : Ptrn.Alike p p') (init : Expr.Alike e e') :
      Stmnt.Alike (.bind span p e) (.bind span' p' e')
  | item {span span' id id' e e' decl decl' slot slot'}
      (same : Symbol.Alike names names' id.symbol id'.symbol) (expr : Expr.Alike e e') :
      Stmnt.Alike (.item ⟨span, id, e, decl, slot⟩) (.item ⟨span', id', e', decl', slot'⟩)

inductive Stmnt.AlikeList : List Stmnt → List Stmnt → Prop
  | nil : Stmnt.AlikeList [] []
  | cons {s s' ss ss'} (first : Stmnt.Alike s s') (rest : Stmnt.AlikeList ss ss') :
      Stmnt.AlikeList (s :: ss) (s' :: ss')

end

variable {names names'}

theorem Expr.Alike.isError {e e' : Expr} (h : Expr.Alike names names' e e') :
    e.isError = e'.isError := by
  cases h <;> rfl

theorem Expr.Alike.isStmntLike {e e' : Expr} (h : Expr.Alike names names' e e') :
    e.isStmntLike = e'.isStmntLike := by
  cases h <;> rfl

/-- The spans at the roots do not count. -/
theorem Expr.Alike.withSpan {e e' : Expr} (h : Expr.Alike names names' e e') (span span' : Span) :
    Expr.Alike names names' (e.withSpan span) (e'.withSpan span') := by
  cases h with
  | name same => exact .name same
  | literal same => exact .literal same
  | tuple elems => exact .tuple elems
  | sigma elems => exact .sigma elems
  | pi domain codomain => exact .pi domain codomain
  | lambda domain codomain body => exact .lambda domain codomain body
  | app callee arg => exact .app callee arg
  | field value same => exact .field value same
  | prefixed operand => exact .prefixed operand
  | postfixed operand => exact .postfixed operand
  | binary left right => exact .binary left right
  | block stmnts value => exact .block stmnts value
  | branch cond yes no => exact .branch cond yes no
  | select scrutinee arms => exact .select scrutinee arms
  | forLoop ptrn iter body => exact .forLoop ptrn iter body
  | whileLoop cond body => exact .whileLoop cond body
  | pack domain body => exact .pack domain body
  | variadic domain body => exact .variadic domain body
  | qualifier => exact .qualifier
  | bottom => exact .bottom
  | unknown => exact .unknown
  | error => exact .error

theorem Ptrn.Alike.isError {p p' : Ptrn} (h : Ptrn.Alike names names' p p') :
    p.isError = p'.isError := by
  cases h <;> rfl

theorem Ptrn.Alike.isError_ty? {p p' : Ptrn} (h : Ptrn.Alike names names' p p') :
    (p.ty?.map Expr.isError).getD false = (p'.ty?.map Expr.isError).getD false := by
  have htype : ∀ {ty ty' : Option Expr}, Expr.Alike? names names' ty ty' →
      (ty.map Expr.isError).getD false = (ty'.map Expr.isError).getD false := by
    intro ty ty' h
    cases h with
    | none => rfl
    | some same => exact same.isError
  cases h with
  | name _ type => exact htype type
  | tuple _ type => exact htype type
  | error => rfl

/-- Elements one by one. -/
theorem Elem.AlikeList.of_first {e e' : Elem} {es es' : List Elem}
    (h : Elem.AlikeList names names' [e] [e']) (hs : Elem.AlikeList names names' es es') :
    Elem.AlikeList names names' (e :: es) (e' :: es') := by
  cases h with
  | plain expr _ => exact .plain expr hs
  | named same expr _ => exact .named same expr hs

end ImpLang
