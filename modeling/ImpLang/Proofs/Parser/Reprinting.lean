import ImpLang.Proofs.Parser.Named
import ImpLang.Proofs.Parser.Printed
import ImpLang.Proofs.Tree.Lookalikes

/-!
Printed trees are read back, by induction on the tree: each construct takes its parts to be read back
and gives the tokens of the whole, with a derivation of the tree they spell. Places are not printed,
so the tree that is derived has all of them at one place.
-/

namespace ImpLang

open Token (Lexes Anything sign named closes closes_append lexes_between)

/-! ## Trees that are printed to be read -/

/-- Whether a node is printed as it can be read. Floats are left out, named functions whose domain is a
plain name, and bare assignments where the printer puts parentheses around them. -/
def Node.isClear : Node → Bool
  | .expr (.literal _ value) => !value.isFloat
  | .expr (.lambda _ _ codomain _) => !codomain.isBare
  | .expr (.app _ callee _ _) => !callee.isBare
  | .expr (.field _ value _) => !value.isBare
  | .expr (.prefixed _ _ operand) => !operand.isBare
  | .expr (.postfixed _ operand _) => !operand.isBare
  | .expr (.binary _ left op right) => !left.isBare && (op.prec == .assign || !right.isBare)
  | .ptrn (.name _ _ _ ty _) => ty.all (!·.isBare)
  | .ptrn (.tuple _ _ ty _) => ty.all (!·.isBare)
  | .item ⟨_, _, .lambda _ (.name ..) _ _, _, _⟩ => false
  | _ => true

structure Node.Printable (names : Interner) (node : Node) : Prop where
  regular : node.Regular
  faultless : node.isError = false
  named : node.Named names
  clear : node.isClear = true

def Node.AllPrintable (names : Interner) (nodes : List Node) : Prop :=
  ∀ node ∈ nodes, node.Printable names

namespace Node

variable {names : Interner} {node : Node} {nodes nodes' : List Node}

theorem allPrintable_cons : AllPrintable names (node :: nodes) ↔
    node.Printable names ∧ AllPrintable names nodes := List.forall_mem_cons

theorem allPrintable_append : AllPrintable names (nodes ++ nodes') ↔
    AllPrintable names nodes ∧ AllPrintable names nodes' := List.forall_mem_append

end Node

theorem Interner.name_of_resolve? {names : Interner} {symbol : Symbol} {text : String}
    (h : names.resolve? symbol = some text) : names.name symbol = text := by
  rw [name, h, Option.getD_some]

/-! ## Shapes at one place -/

section Shape

variable (g : Relabel) (e : Expr)

@[simp] theorem Expr.isBare_relabel : (e.relabel g).isBare = e.isBare := by
  cases e
  case binary span l op r => cases l <;> cases op <;> rfl
  all_goals rfl

@[simp] theorem Expr.fits_relabel (level : Prec) : (e.relabel g).fits level = e.fits level := by
  cases e <;> rfl

@[simp] theorem Expr.isBlock_relabel : (e.relabel g).isBlock = e.isBlock := by cases e <;> rfl

@[simp] theorem Expr.isBranch_relabel : (e.relabel g).isBranch = e.isBranch := by cases e <;> rfl

@[simp] theorem Ptrn.isTyped_relabel (p : Ptrn) : (p.relabel g).isTyped = p.isTyped := by
  cases p <;> rfl

@[simp] theorem Elem.length_relabelList (es : List Elem) :
    (Elem.relabelList g es).length = es.length := by
  induction es with
  | nil => rfl
  | cons elem es ih =>
    cases elem
    rw [relabelList_cons, List.length_cons, List.length_cons, ih]

end Shape

theorem Expr.relabel_isUnit {e : Expr} (h : e.isUnit = true) :
    e.relabel .flat = .emptyTuple default := by
  cases e
  case tuple span es =>
    cases es with
    | nil => rfl
    | cons elem es => cases h
  all_goals cases h

theorem Expr.relabel_isEmptyBlock {e : Expr} (h : e.isEmptyBlock = true) :
    e.relabel .flat = .emptyBlock default := by
  cases e
  case block span ss value =>
    cases ss with
    | nil => rw [relabel, relabel_isUnit h]; rfl
    | cons s ss => cases h
  all_goals cases h

/-! ## One construct -/

section Construct

variable (names : Interner) (depth : Nat)

/-- The printed text of an expression is read back. -/
def Expr.Readable (element : Bool) (e : Expr) : Prop :=
  ∃ ts, Expr.Spelt names element (Print.expr names depth element e) (e.relabel .flat) ts

def Ptrn.Readable (p : Ptrn) : Prop :=
  ∃ ts, Ptrn.Spelt names (Print.ptrn names depth p) (p.relabel .flat) ts

def Expr.ReadableAscription (ty : Option Expr) : Prop :=
  ∃ ts, Expr.Ascribed names (Print.ascription names depth ty) (Expr.relabel? .flat ty) ts

def Ptrn.ReadableList (typed : Bool) (ps : List Ptrn) : Prop :=
  ∃ ts, Lexes Closing (Print.commas (Print.ptrns names depth ps)) ts ∧
    Derives names .free (.ptrns typed (Ptrn.relabelList .flat ps)) ts

def Ptrn.ReadableSigma (ps : List Ptrn) : Prop :=
  ∃ ts, Lexes Closing (Print.commas (Print.sigma names depth ps)) ts ∧
    Derives names .free (.sigmaElems (Ptrn.relabelList .flat ps)) ts

def Elem.ReadableList (es : List Elem) : Prop :=
  ∃ ts, Lexes Closing (Print.commas (Print.elems names depth es)) ts ∧
    Derives names .free (.elems (Elem.relabelList .flat es) (2 ≤ es.length)) ts

def Arm.ReadableList (as : List Arm) : Prop :=
  ∃ ts, Lexes Anything (String.join (Print.arms names depth as)) ts ∧
    Derives names .free (.arms (Arm.relabelList .flat as)) ts

def Stmnt.Readable (s : Stmnt) : Prop :=
  ∃ ts, Stmnt.Spelt names (Print.stmnt names depth s) (s.relabel .flat) ts

/-- The statements of a block stand on lines of their own in front of its value. -/
def Stmnt.ReadableList (ss : List Stmnt) : Prop :=
  ∀ {text value vs}, Expr.Body names text [] value vs → ∃ ts, Expr.Body names
    (String.join ((Print.stmnts names depth ss).map (Print.newline depth ++ ·)) ++ text)
    (Stmnt.relabelList .flat ss) value ts

end Construct

variable {names : Interner} {depth : Nat} {element : Bool} {span : Span}

namespace Expr

theorem readable_name {id : Id} {decl : Slot DeclId}
    (h : Node.Printable names (.expr (.name span id decl))) :
    (name span id decl).Readable names depth element := by
  obtain ⟨⟨text, hid, hname⟩, rfl⟩ := h.named
  rw [Readable, Print.expr, Interner.name_of_resolve? hid]
  exact ⟨_, .name hid hname⟩

theorem readable_literal {value : Literal Symbol}
    (h : Node.Printable names (.expr (.literal span value))) :
    (literal span value).Readable names depth element := by
  obtain ⟨text, hvalue, hwhole⟩ := h.named
  have hclear : value.isFloat = false := Bool.not_inj h.clear
  have hsame : text.isFloat = value.isFloat := by
    have hfloat := congrArg Literal.isFloat hvalue
    cases value <;> cases text <;> simp_all [Literal.map, Literal.isFloat]
  rw [Readable, Print.expr, Literal.map_name hvalue]
  rw [← Literal.map_id value] at hvalue
  exact ⟨_, .literal hvalue (hwhole (hsame.trans hclear))⟩

theorem readable_tuple {es : List Elem} (hes : Elem.ReadableList names depth es) :
    (tuple span es).Readable names depth element := by
  obtain ⟨ts, hlexes, hderives⟩ := hes
  rw [← Elem.length_relabelList .flat] at hderives
  rw [Readable, Print.expr, ← Print.isLone_relabelList .flat]
  exact Spelt.tuple_of_elems hlexes hderives

theorem readable_sigma {ps : List Ptrn} (hps : Ptrn.ReadableSigma names depth ps) :
    (sigma span ps).Readable names depth element := by
  obtain ⟨ts, hlexes, hderives⟩ := hps
  exact ⟨_, .sigma hlexes hderives⟩

/-- A pattern that has to be typed, or must not be. -/
theorem derives_ptrn {p : Ptrn} {typed : Bool} {text : String} {ts : List Token}
    (h : Ptrn.Spelt names text (p.relabel .flat) ts) (htyped : p.isTyped = typed) :
    ∃ reach, Prec.assign < reach ∧ Derives names .free (.ptrn typed reach (p.relabel .flat)) ts := by
  rw [← htyped, ← Ptrn.isTyped_relabel .flat]
  exact h.derives

theorem readable_pi {d : Ptrn} {c : Expr} (h : Node.Printable names (.expr (.pi span d c)))
    (hd : d.Readable names depth) (hc : c.Readable names depth false) :
    (pi span d c).Readable names depth element := by
  obtain ⟨ds, hd⟩ := hd
  obtain ⟨cs, hc⟩ := hc
  obtain ⟨reach, -, hdomain⟩ := derives_ptrn hd h.regular
  rw [Readable, Print.expr]
  cases hbottom : Print.isBottom c with
  | true =>
    cases c
    case bottom => exact ⟨_, .continuation hd.lexes hdomain⟩
    all_goals cases hbottom
  | false => exact ⟨_, .pi hd.lexes hdomain hc⟩

theorem exists_function {d : Ptrn} {c b : Expr} (hd : d.Readable names depth)
    (hc : c.Readable names depth false) (hb : b.Readable names depth false)
    (hregular : d.isTyped = true ∧ b.isBlock = true) (hclear : c.isBare = false) :
    ∃ ts, Lexes Closing (Print.function (Print.ptrn names depth d) c
        (Print.expr names depth false c) (Print.expr names depth false b)) ts ∧
      Derives names .free
        (.function (d.relabel .flat) (c.relabel .flat) (b.relabel .flat)) ts := by
  obtain ⟨ds, hd⟩ := hd
  obtain ⟨cs, hc⟩ := hc
  obtain ⟨bs, hb⟩ := hb
  obtain ⟨reach, -, hdomain⟩ := derives_ptrn hd hregular.1
  rw [← Print.function_relabel .flat]
  exact Expr.function hd.lexes hdomain hc ((isBare_relabel ..).trans hclear) hb
    ((isBlock_relabel ..).trans hregular.2)

theorem readable_lambda {d : Ptrn} {c b : Expr}
    (h : Node.Printable names (.expr (.lambda span d c b))) (hd : d.Readable names depth)
    (hc : c.Readable names depth false) (hb : b.Readable names depth false) :
    (lambda span d c b).Readable names depth element := by
  obtain ⟨ts, hlexes, hderives⟩ := exists_function hd hc hb h.regular (Bool.not_inj h.clear)
  exact ⟨_, .lambda hlexes hderives⟩

/-- The argument of a call stands between parentheses, be they its own or not. -/
theorem exists_argument {arg : Expr} (h : arg.Readable names depth false)
    (h' : arg.Readable names depth true) :
    ∃ inner ts, (if Print.isTuple arg then Print.expr names depth false arg
        else "(" ++ Print.expr names depth true arg ++ ")") = "(" ++ inner ∧
      Lexes Closing ("(" ++ inner) ts ∧
      Derives names .free (.parens (arg.relabel .flat)) ts := by
  obtain ⟨ts, h⟩ := h
  obtain ⟨us, h'⟩ := h'
  cases htuple : Print.isTuple arg with
  | true =>
    obtain ⟨span, es, rfl⟩ : ∃ span es, arg = .tuple span es := by
      cases arg <;> first | exact ⟨_, _, rfl⟩ | cases htuple
    obtain ⟨reach, hderives⟩ := h.derives
    have hlexes := h.lexes
    rw [Print.expr, String.append_assoc, String.append_assoc] at hlexes
    refine ⟨_, ts, ?_, hlexes, hderives⟩
    rw [if_pos rfl, Print.expr, String.append_assoc, String.append_assoc]
  | false =>
    have hlexes : Lexes Closing _ _ := Token.lexes_parens h'.lexes
    rw [String.append_assoc] at hlexes
    refine ⟨_, _, ?_, hlexes, h'.grouped nofun⟩
    rw [if_neg nofun, String.append_assoc]

theorem exists_operand {e : Expr} (h : e.Readable names depth false) (hbare : e.isBare = false) :
    ∃ ts, Operand names (Print.wrap (!Print.isAtomic e) (Print.expr names depth false e))
      (e.relabel .flat) ts := by
  obtain ⟨ts, h⟩ := h
  rw [← Print.isAtomic_relabel .flat]
  exact ⟨_, h.operand ((isBare_relabel ..).trans hbare)⟩

theorem readable_app {f a : Expr} {cps : Bool} (h : Node.Printable names (.expr (.app span f a cps)))
    (hf : f.Readable names depth false) (ha : a.Readable names depth false)
    (ha' : a.Readable names depth true) : (app span f a cps).Readable names depth element := by
  obtain ⟨fs, hcallee⟩ := exists_operand hf (Bool.not_inj h.clear)
  obtain ⟨inner, ts, htext, hlexes, hderives⟩ := exists_argument ha ha'
  rw [Readable, Print.expr, htext]
  exact Spelt.app hcallee hlexes hderives

theorem readable_field {e : Expr} {id : Id} (h : Node.Printable names (.expr (.field span e id)))
    (he : e.Readable names depth false) : (field span e id).Readable names depth element := by
  obtain ⟨ts, hoperand⟩ := exists_operand he (Bool.not_inj h.clear)
  obtain ⟨text, hid, hname⟩ : id.IsNamed names := h.named
  rw [Readable, Print.expr, Interner.name_of_resolve? hid]
  exact ⟨_, .field hoperand hid hname⟩

theorem readable_prefixed {op : PrefixOp} {e : Expr}
    (h : Node.Printable names (.expr (.prefixed span op e))) (he : e.Readable names depth false) :
    (prefixed span op e).Readable names depth element := by
  obtain ⟨ts, hoperand⟩ := exists_operand he (Bool.not_inj h.clear)
  rw [Readable, Print.expr]
  exact Spelt.prefixed hoperand

theorem readable_postfixed {op : PostfixOp} {e : Expr}
    (h : Node.Printable names (.expr (.postfixed span e op))) (he : e.Readable names depth false) :
    (postfixed span e op).Readable names depth element := by
  obtain ⟨ts, hoperand⟩ := exists_operand he (Bool.not_inj h.clear)
  rw [Readable, Print.expr]
  exact Spelt.postfixed hoperand

theorem readable_binary {l r : Expr} {op : InfixOp}
    (h : Node.Printable names (.expr (.binary span l op r))) (hl : l.Readable names depth false)
    (hr : r.Readable names depth false) : (binary span l op r).Readable names depth element := by
  obtain ⟨ls, hl⟩ := hl
  obtain ⟨rs, hr⟩ := hr
  obtain ⟨hleft, hright⟩ : l.isBare = false ∧ (op.prec ≠ .assign → r.isBare = false) := by
    simpa [Node.isClear, imp_iff_not_or] using h.clear
  rw [Readable, Print.expr, Print.infixParens_eq, Print.infixParens_eq, if_pos rfl, if_neg nofun,
    ← fits_relabel .flat r]
  refine Spelt.binary hl hr ?_ ((isBare_relabel ..).trans hleft)
    (fun hop => (isBare_relabel ..).trans (hright hop)) ?_
  · intro hparens
    simpa using (Bool.or_eq_false_iff.1 hparens).2
  · intro hparens hop hname
    rw [Print.isName_relabel] at hname
    simpa [hop, hname] using (Bool.or_eq_false_iff.1 hparens).1

/-- The lines of a block with statements. -/
theorem print_block (depth : Nat) (text : String) (texts : List String) (value : Option String) :
    Print.block depth (text :: texts) value =
      "\x7b" ++ (String.join ((text :: texts).map (Print.newline (depth + 1) ++ ·)) ++
        (value.map (Print.newline (depth + 1) ++ ·)).getD "") ++ Print.newline depth ++ "\x7d" := by
  cases value <;>
    simp [Print.block, String.join_append, String.join_cons, String.join_nil, String.append_assoc]

theorem readable_block {ss : List Stmnt} {value : Expr}
    (hss : Stmnt.ReadableList names (depth + 1) ss)
    (hvalue : ∀ depth, value.Readable names depth false) :
    (block span ss value).Readable names depth element := by
  rw [Readable, Print.expr, relabel]
  cases ss with
  | nil =>
    cases hunit : value.isUnit with
    | true =>
      rw [relabel_isUnit hunit]
      exact ⟨_, .block_unit⟩
    | false =>
      obtain ⟨vs, hv⟩ := hvalue depth
      exact ⟨_, .block_value hv⟩
  | cons s ss =>
    rw [Print.stmnts, print_block, ← Print.stmnts]
    cases hunit : value.isUnit with
    | true =>
      obtain ⟨ts, hbody⟩ := hss .unit
      rw [relabel_isUnit hunit]
      exact ⟨_, .block depth hbody⟩
    | false =>
      obtain ⟨vs, hv⟩ := hvalue (depth + 1)
      obtain ⟨ts, hbody⟩ := hss (.last (depth + 1) hv)
      exact ⟨_, .block depth hbody⟩

theorem readable_branch {c y n : Expr} (h : Node.Printable names (.expr (.branch span c y n)))
    (hc : c.Readable names depth false) (hy : y.Readable names depth false)
    (hn : n.Readable names depth false) : (branch span c y n).Readable names depth element := by
  obtain ⟨cs, hc⟩ := hc
  obtain ⟨ys, hy⟩ := hy
  obtain ⟨ns, hn⟩ := hn
  obtain ⟨hyes, hno⟩ : y.isBlock = true ∧ (n.isBlock = true ∨ n.isBranch = true) := h.regular
  rw [← isBlock_relabel .flat] at hyes
  rw [← isBlock_relabel .flat, ← isBranch_relabel .flat] at hno
  rw [Readable, Print.expr, ← isEmptyBlock_relabel .flat n]
  refine Spelt.branch hc hy hn hyes hno fun hempty => ⟨default, ?_⟩
  rw [isEmptyBlock_relabel] at hempty
  exact relabel_isEmptyBlock hempty

theorem readable_select {e : Expr} {as : List Arm} (he : e.Readable names depth false)
    (has : Arm.ReadableList names (depth + 1) as) :
    (select span e as).Readable names depth element := by
  obtain ⟨es, he⟩ := he
  obtain ⟨ts, hlexes, hderives⟩ := has
  exact ⟨_, .select depth he hlexes hderives⟩

theorem readable_forLoop {p : Ptrn} {i b : Expr}
    (h : Node.Printable names (.expr (.forLoop span p i b))) (hp : p.Readable names depth)
    (hi : i.Readable names depth false) (hb : b.Readable names depth false) :
    (forLoop span p i b).Readable names depth element := by
  obtain ⟨ps, hp⟩ := hp
  obtain ⟨is, hi⟩ := hi
  obtain ⟨bs, hb⟩ := hb
  obtain ⟨htyped, hblock⟩ : p.isTyped = false ∧ b.isBlock = true := h.regular
  obtain ⟨reach, -, hptrn⟩ := derives_ptrn hp htyped
  exact ⟨_, .forLoop hp.lexes hptrn hi hb ((isBlock_relabel ..).trans hblock)⟩

theorem readable_whileLoop {c b : Expr} (h : Node.Printable names (.expr (.whileLoop span c b)))
    (hc : c.Readable names depth false) (hb : b.Readable names depth false) :
    (whileLoop span c b).Readable names depth element := by
  obtain ⟨cs, hc⟩ := hc
  obtain ⟨bs, hb⟩ := hb
  have hblock : b.isBlock = true := h.regular
  exact ⟨_, .whileLoop hc hb ((isBlock_relabel ..).trans hblock)⟩

theorem readable_pack {d : Ptrn} {b : Expr} (h : Node.Printable names (.expr (.pack span d b)))
    (hd : d.Readable names depth) (hb : b.Readable names depth false) :
    (pack span d b).Readable names depth element := by
  obtain ⟨ds, hd⟩ := hd
  obtain ⟨bs, hb⟩ := hb
  obtain ⟨reach, -, hdomain⟩ := derives_ptrn hd h.regular
  exact ⟨_, .pack hd.lexes hdomain hb⟩

theorem readable_variadic {d : Ptrn} {b : Expr}
    (h : Node.Printable names (.expr (.variadic span d b))) (hd : d.Readable names depth)
    (hb : b.Readable names depth false) : (variadic span d b).Readable names depth element := by
  obtain ⟨ds, hd⟩ := hd
  obtain ⟨bs, hb⟩ := hb
  obtain ⟨reach, -, hdomain⟩ := derives_ptrn hd h.regular
  exact ⟨_, .variadic hd.lexes hdomain hb⟩

theorem readable_ascription {ty : Expr} (h : ty.Readable names depth false)
    (hbare : ty.isBare = false) : ReadableAscription names depth (some ty) := by
  obtain ⟨ts, hty⟩ := h
  rw [ReadableAscription, Print.ascription, ← Print.typeParens_relabel .flat]
  exact Ascribed.some hty ((isBare_relabel ..).trans hbare)

end Expr

namespace Ptrn

theorem readable_name {id : Id} {decl : DeclId} {ty : Option Expr} {typed : Bool}
    (h : Node.Printable names (.ptrn (.name span id decl ty typed)))
    (hty : Expr.ReadableAscription names depth ty) :
    (name span id decl ty typed).Readable names depth := by
  obtain ⟨text, hid, hname⟩ : id.IsNamed names := h.named
  obtain ⟨ts, hty⟩ := hty
  rw [Readable, Print.ptrn, Interner.name_of_resolve? hid]
  exact ⟨_, .name hid hname hty⟩

theorem readable_tuple {ps : List Ptrn} {ty : Option Expr} {typed : Bool}
    (hps : ReadableList names depth typed ps) (hty : Expr.ReadableAscription names depth ty) :
    (tuple span ps ty typed).Readable names depth := by
  obtain ⟨es, hlexes, hderives⟩ := hps
  obtain ⟨ts, hty⟩ := hty
  exact ⟨_, .tuple hlexes hderives hty⟩

theorem readableList_cons {p : Ptrn} {ps : List Ptrn} {typed : Bool} (htyped : p.isTyped = typed)
    (hp : p.Readable names depth) (hps : ReadableList names depth typed ps) :
    ReadableList names depth typed (p :: ps) := by
  obtain ⟨ts, hp⟩ := hp
  obtain ⟨us, hlexes, hderives⟩ := hps
  obtain ⟨reach, -, hptrn⟩ := Expr.derives_ptrn hp htyped
  cases ps with
  | nil => exact ⟨ts, hp.lexes, .ptrnsOne hptrn⟩
  | cons q ps =>
    exact ⟨_, Token.lexes_commas hp.lexes hlexes (List.cons_ne_nil _ _), .ptrnsCons hptrn rfl hderives⟩

/-- Where the wildcard is bound, the type is written alone. -/
theorem exists_sigmaElem {id : Id} {decl : DeclId} {ty : Expr}
    (h : Node.Printable names (.ptrn (.name span id decl (some ty) true)))
    (hty : ty.Readable names depth false) :
    ∃ us, Lexes Closing (if names.resolve? id.symbol = some Interner.wildcard
        then Print.expr names depth false ty
        else Print.ptrn names depth (.name span id decl (some ty) true)) us ∧
      Derives names .free (.sigmaElem ((name span id decl (some ty) true).relabel .flat)) us := by
  obtain ⟨text, hid, hname⟩ : id.IsNamed names := h.named
  split
  · next hwildcard =>
    obtain ⟨ts, hty⟩ := hty
    have helem := sigmaElem_plain decl hwildcard hty
    rw [Expr.span_relabel] at helem
    exact ⟨ts, hty.lexes, helem⟩
  · obtain ⟨us, htype⟩ := Expr.readable_ascription hty (Bool.not_inj h.clear)
    rw [Print.ptrn, Interner.name_of_resolve? hid]
    exact ⟨_, (Token.lexes_named hname).maybe htype.lexes htype.ends, sigmaElem_named hid htype⟩

theorem readableSigma_cons {id : Id} {decl : DeclId} {ty : Expr} {ps : List Ptrn}
    (h : Node.Printable names (.ptrn (.name span id decl (some ty) true)))
    (hty : ty.Readable names depth false) (htyped : ∀ p ∈ ps, p.IsTypedName)
    (hps : ReadableSigma names depth ps) :
    ReadableSigma names depth (.name span id decl (some ty) true :: ps) := by
  obtain ⟨ts, hlexes, hderives⟩ := exists_sigmaElem h hty
  obtain ⟨us, hlexes', hderives'⟩ := hps
  rw [ReadableSigma, Print.sigma]
  cases ps with
  | nil => exact ⟨ts, hlexes, .sigmaElemsOne hderives⟩
  | cons q ps =>
    obtain ⟨_, _, _, _, rfl⟩ := htyped q List.mem_cons_self
    refine ⟨_, Token.lexes_commas hlexes hlexes' ?_, .sigmaElemsCons hderives rfl hderives'⟩
    rw [Print.sigma]
    exact List.cons_ne_nil _ _

end Ptrn

namespace Elem

theorem exists_elem {i : Option Id} {e : Expr} {es : List Elem} (hi : ∀ id ∈ i, id.IsNamed names)
    (he : e.Readable names depth false) (he' : e.Readable names depth true) :
    ∃ text ts, Print.elems names depth (⟨i, e⟩ :: es) = text :: Print.elems names depth es ∧
      Lexes Closing text ts ∧
      Derives names .free (.elem ⟨i.map (Id.relabel .flat), e.relabel .flat⟩) ts := by
  cases i with
  | none =>
    obtain ⟨ts, he⟩ := he'
    exact ⟨_, ts, by rw [Print.elems], he.lexes, he.elem nofun⟩
  | some id =>
    obtain ⟨text, hid, hname⟩ := hi id rfl
    obtain ⟨ts, he⟩ := he
    obtain ⟨reach, hexpr⟩ := he.whole
    have hsign : Lexes Anything " = " [sign .assign] := lexes_between (by decide) (by decide)
    refine ⟨_, named text :: sign .assign :: ts, by rw [Print.elems], ?_,
      .elemNamed ⟨rfl, ⟨text, rfl, hid⟩, trivial⟩ rfl hexpr⟩
    rw [Interner.name_of_resolve? hid]
    exact ((Token.lexes_named hname).closed hsign (by decide)).snug he.lexes

theorem readableList_cons {i : Option Id} {e : Expr} {es : List Elem}
    (hi : ∀ id ∈ i, id.IsNamed names) (he : e.Readable names depth false)
    (he' : e.Readable names depth true) (hes : ReadableList names depth es) :
    ReadableList names depth (⟨i, e⟩ :: es) := by
  obtain ⟨text, ts, helems, hlexes, hderives⟩ := exists_elem hi he he'
  obtain ⟨us, hlexes', hderives'⟩ := hes
  rw [ReadableList, helems, relabelList_cons]
  cases es with
  | nil => exact ⟨ts, hlexes, .elemsOne hderives⟩
  | cons elem es =>
    have hne : Print.elems names depth (elem :: es) ≠ [] := by
      obtain ⟨i, e⟩ := elem
      cases i <;> rw [Print.elems] <;> exact List.cons_ne_nil _ _
    have hseparated : decide (2 ≤ (⟨i, e⟩ :: elem :: es : List Elem).length) = true := by simp
    rw [hseparated]
    exact ⟨_, Token.lexes_commas hlexes hlexes' hne, .elemsCons hderives rfl hderives'⟩

end Elem

theorem Arm.readableList_cons {p : Ptrn} {e : Expr} {as : List Arm} (htyped : p.isTyped = false)
    (hp : p.Readable names depth) (he : e.Readable names depth false)
    (has : ReadableList names depth as) : ReadableList names depth (⟨span, p, e⟩ :: as) := by
  obtain ⟨ps, hp⟩ := hp
  obtain ⟨es, he⟩ := he
  obtain ⟨ts, hlexes, hderives⟩ := has
  obtain ⟨reach, -, hptrn⟩ := Expr.derives_ptrn hp htyped
  obtain ⟨reach', hbody⟩ := he.whole
  rw [ReadableList, Print.arms, String.join_cons]
  exact ⟨_, Arm.lexes_cons hp.lexes he hlexes,
    .armsCons hptrn rfl hbody trivial (.inr ⟨_, rfl, rfl⟩) hderives⟩

namespace Stmnt

theorem readable_expr {e : Expr} (he : e.Readable names depth false) :
    (expr span e).Readable names depth := by
  obtain ⟨ts, he⟩ := he
  exact ⟨_, .expr he⟩

theorem readable_bind {p : Ptrn} {e : Expr} (h : Node.Printable names (.stmnt (.bind span p e)))
    (hp : p.Readable names depth) (he : e.Readable names depth false) :
    (bind span p e).Readable names depth := by
  obtain ⟨ps, hp⟩ := hp
  obtain ⟨ts, he⟩ := he
  obtain ⟨reach, hreach, hptrn⟩ := Expr.derives_ptrn hp h.regular
  exact ⟨_, .bind hp.lexes hptrn hreach he⟩

theorem readable_define {id : Id} {e : Expr} {decl : DeclId} {value : Slot Value}
    (h : Node.Printable names (.item ⟨span, id, e, decl, value⟩))
    (hlambda : ∀ inner d c b, e ≠ .lambda inner d c b) (he : e.Readable names depth false) :
    (item ⟨span, id, e, decl, value⟩).Readable names depth := by
  obtain ⟨⟨text, hid, hname⟩, hvalue⟩ := h.named
  obtain rfl : value = .unset := hvalue
  obtain ⟨ts, he⟩ := he
  have htext : Print.stmnt names depth (item ⟨span, id, e, decl, .unset⟩) =
      "def " ++ names.name id.symbol ++ " = " ++ Print.expr names depth false e ++ ";" := by
    cases e
    case lambda => exact absurd rfl (hlambda _ _ _ _)
    all_goals rfl
  rw [Readable, htext, Interner.name_of_resolve? hid]
  exact ⟨_, .define hid hname he⟩

/-- The domain of a named function is a tuple, whose parenthesis ends the name. -/
theorem readable_function {id : Id} {inner : Span} {d : Ptrn} {c b : Expr} {decl : DeclId}
    {value : Slot Value} (h : Node.Printable names (.item ⟨span, id, .lambda inner d c b, decl, value⟩))
    (hfault : d.isError = false) (hlambda : Node.Printable names (.expr (.lambda inner d c b)))
    (hd : d.Readable names depth) (hc : c.Readable names depth false)
    (hb : b.Readable names depth false) :
    (item ⟨span, id, .lambda inner d c b, decl, value⟩).Readable names depth := by
  obtain ⟨⟨text, hid, hname⟩, hvalue⟩ := h.named
  obtain rfl : value = .unset := hvalue
  obtain ⟨ts, hlexes, hderives⟩ := Expr.exists_function hd hc hb hlambda.regular
    (Bool.not_inj hlambda.clear)
  have hends : closes (Print.function (Print.ptrn names depth d) c (Print.expr names depth false c)
      (Print.expr names depth false b)) = true := by
    cases d with
    | name => cases h.clear
    | error => cases hfault
    | tuple =>
      rw [Print.function, Print.ptrn]
      refine closes_append (closes_append (closes_append ?_ _) _) _
      exact closes_append (closes_append (closes_append (by decide) _) _) _
  rw [Readable, Print.stmnt, Interner.name_of_resolve? hid]
  exact ⟨_, .function hid hname hlexes hderives hends⟩

theorem readableList_nil : ReadableList names depth [] := by
  intro text value vs hvalue
  rw [Print.stmnts, List.map_nil, String.join_nil, String.empty_append]
  exact ⟨vs, hvalue⟩

theorem readableList_cons {s : Stmnt} {ss : List Stmnt} (hs : s.Readable names depth)
    (hss : ReadableList names depth ss) : ReadableList names depth (s :: ss) := by
  intro text value vs hvalue
  obtain ⟨ts, hs⟩ := hs
  obtain ⟨us, hbody⟩ := hss hvalue
  rw [Print.stmnts, List.map_cons, String.join_cons, String.append_assoc]
  exact ⟨_, .cons depth hs hbody⟩

end Stmnt

/-! ## All constructs -/

section All

open Node (allPrintable_cons allPrintable_append)

mutual

theorem Expr.readable {e : Expr} (h : Node.AllPrintable names e.nodes) (depth : Nat)
    (element : Bool) : e.Readable names depth element := by
  cases e <;> obtain ⟨hroot, hparts⟩ := allPrintable_cons.1 h
  case name => exact Expr.readable_name hroot
  case literal => exact Expr.readable_literal hroot
  case tuple => exact Expr.readable_tuple (Elem.readableList hparts hroot.named depth)
  case sigma => exact Expr.readable_sigma (Ptrn.readableSigma hparts hroot.regular depth)
  case pi =>
    obtain ⟨hd, hc⟩ := allPrintable_append.1 hparts
    exact Expr.readable_pi hroot (Ptrn.readable hd depth) (Expr.readable hc depth false)
  case lambda =>
    obtain ⟨hdc, hb⟩ := allPrintable_append.1 hparts
    obtain ⟨hd, hc⟩ := allPrintable_append.1 hdc
    exact Expr.readable_lambda hroot (Ptrn.readable hd depth) (Expr.readable hc depth false)
      (Expr.readable hb depth false)
  case app =>
    obtain ⟨hf, ha⟩ := allPrintable_append.1 hparts
    exact Expr.readable_app hroot (Expr.readable hf depth false) (Expr.readable ha depth false)
      (Expr.readable ha depth true)
  case field => exact Expr.readable_field hroot (Expr.readable hparts depth false)
  case prefixed => exact Expr.readable_prefixed hroot (Expr.readable hparts depth false)
  case postfixed => exact Expr.readable_postfixed hroot (Expr.readable hparts depth false)
  case binary =>
    obtain ⟨hl, hr⟩ := allPrintable_append.1 hparts
    exact Expr.readable_binary hroot (Expr.readable hl depth false) (Expr.readable hr depth false)
  case block =>
    obtain ⟨hss, hvalue⟩ := allPrintable_append.1 hparts
    exact Expr.readable_block (Stmnt.readableList hss (depth + 1)) fun depth =>
      Expr.readable hvalue depth false
  case branch =>
    obtain ⟨hcy, hn⟩ := allPrintable_append.1 hparts
    obtain ⟨hc, hy⟩ := allPrintable_append.1 hcy
    exact Expr.readable_branch hroot (Expr.readable hc depth false) (Expr.readable hy depth false)
      (Expr.readable hn depth false)
  case select =>
    obtain ⟨he, has⟩ := allPrintable_append.1 hparts
    exact Expr.readable_select (Expr.readable he depth false)
      (Arm.readableList has hroot.regular (depth + 1))
  case forLoop =>
    obtain ⟨hpi, hb⟩ := allPrintable_append.1 hparts
    obtain ⟨hp, hi⟩ := allPrintable_append.1 hpi
    exact Expr.readable_forLoop hroot (Ptrn.readable hp depth) (Expr.readable hi depth false)
      (Expr.readable hb depth false)
  case whileLoop =>
    obtain ⟨hc, hb⟩ := allPrintable_append.1 hparts
    exact Expr.readable_whileLoop hroot (Expr.readable hc depth false) (Expr.readable hb depth false)
  case pack =>
    obtain ⟨hd, hb⟩ := allPrintable_append.1 hparts
    exact Expr.readable_pack hroot (Ptrn.readable hd depth) (Expr.readable hb depth false)
  case variadic =>
    obtain ⟨hd, hb⟩ := allPrintable_append.1 hparts
    exact Expr.readable_variadic hroot (Ptrn.readable hd depth) (Expr.readable hb depth false)
  case qualifier => exact Expr.Spelt.qualifier _
  case bottom => exact ⟨_, .bottom⟩
  case unknown => exact ⟨_, .unknown⟩
  case error => cases hroot.faultless

theorem Ptrn.readable {p : Ptrn} (h : Node.AllPrintable names p.nodes) (depth : Nat) :
    p.Readable names depth := by
  cases p <;> obtain ⟨hroot, hparts⟩ := allPrintable_cons.1 h
  case name _ _ _ ty _ =>
    cases ty with
    | none => exact Ptrn.readable_name hroot ⟨_, .none⟩
    | some ty =>
      exact Ptrn.readable_name hroot
        (Expr.readable_ascription (Expr.readable hparts depth false) (Bool.not_inj hroot.clear))
  case tuple _ ps ty _ =>
    obtain ⟨hty, hps⟩ := allPrintable_append.1 hparts
    have hlist := Ptrn.readableList hps hroot.regular depth
    cases ty with
    | none => exact Ptrn.readable_tuple hlist ⟨_, .none⟩
    | some ty =>
      exact Ptrn.readable_tuple hlist
        (Expr.readable_ascription (Expr.readable hty depth false) (Bool.not_inj hroot.clear))
  case error => cases hroot.faultless

theorem Ptrn.readableList {ps : List Ptrn} {typed : Bool}
    (h : Node.AllPrintable names (Ptrn.nodesOf ps)) (htyped : ∀ p ∈ ps, p.isTyped = typed)
    (depth : Nat) : Ptrn.ReadableList names depth typed ps := by
  cases ps with
  | nil => exact ⟨[], Token.Lexes.empty, .ptrnsNil⟩
  | cons p ps =>
    obtain ⟨hp, hps⟩ := allPrintable_append.1 h
    obtain ⟨hfirst, hrest⟩ := List.forall_mem_cons.1 htyped
    exact Ptrn.readableList_cons hfirst (Ptrn.readable hp depth) (Ptrn.readableList hps hrest depth)

/-- The elements of a dependent tuple are names with types, which are printed on their own. -/
theorem Ptrn.readableSigma {ps : List Ptrn} (h : Node.AllPrintable names (Ptrn.nodesOf ps))
    (hnames : ∀ p ∈ ps, p.IsTypedName) (depth : Nat) : Ptrn.ReadableSigma names depth ps := by
  match ps with
  | [] => exact ⟨[], Token.Lexes.empty, .sigmaElemsNil⟩
  | .name span id decl (some ty) true :: ps =>
    obtain ⟨hp, hps⟩ := allPrintable_append.1 h
    obtain ⟨hroot, hty⟩ := allPrintable_cons.1 hp
    have hrest := (List.forall_mem_cons.1 hnames).2
    exact Ptrn.readableSigma_cons hroot (Expr.readable hty depth false) hrest
      (Ptrn.readableSigma hps hrest depth)
  | .name _ _ _ none _ :: _ | .name _ _ _ (some _) false :: _ | .tuple .. :: _ | .error _ :: _ =>
    obtain ⟨_, _, _, _, hp⟩ := hnames _ List.mem_cons_self
    cases hp

theorem Elem.readableList {es : List Elem} (h : Node.AllPrintable names (Elem.nodesOf es))
    (hids : ∀ e ∈ es, ∀ id ∈ e.id, id.IsNamed names) (depth : Nat) :
    Elem.ReadableList names depth es := by
  match es with
  | [] => exact ⟨[], Token.Lexes.empty, .elemsNil⟩
  | ⟨i, e⟩ :: es =>
    obtain ⟨he, hes⟩ := allPrintable_append.1 h
    obtain ⟨hid, hrest⟩ := List.forall_mem_cons.1 hids
    exact Elem.readableList_cons hid (Expr.readable he depth false) (Expr.readable he depth true)
      (Elem.readableList hes hrest depth)

theorem Arm.readableList {as : List Arm} (h : Node.AllPrintable names (Arm.nodesOf as))
    (htyped : ∀ arm ∈ as, arm.ptrn.isTyped = false) (depth : Nat) :
    Arm.ReadableList names depth as := by
  match as with
  | [] => exact ⟨[], Token.Lexes.empty, .armsNil⟩
  | ⟨span, p, e⟩ :: as =>
    obtain ⟨hpe, has⟩ := allPrintable_append.1 h
    obtain ⟨hp, he⟩ := allPrintable_append.1 hpe
    obtain ⟨hfirst, hrest⟩ := List.forall_mem_cons.1 htyped
    exact Arm.readableList_cons hfirst (Ptrn.readable hp depth) (Expr.readable he depth false)
      (Arm.readableList has hrest depth)

theorem Stmnt.readable {s : Stmnt} (h : Node.AllPrintable names s.nodes) (depth : Nat) :
    s.Readable names depth := by
  match s with
  | .expr span e =>
    exact Stmnt.readable_expr (Expr.readable (allPrintable_cons.1 h).2 depth false)
  | .bind span p e =>
    obtain ⟨hroot, hparts⟩ := allPrintable_cons.1 h
    obtain ⟨hp, he⟩ := allPrintable_append.1 hparts
    exact Stmnt.readable_bind hroot (Ptrn.readable hp depth) (Expr.readable he depth false)
  | .item ⟨span, id, e, decl, value⟩ =>
    obtain ⟨hitem, he⟩ := allPrintable_cons.1 (allPrintable_cons.1 h).2
    have hreadable := Expr.readable he depth false
    cases e
    case lambda inner d c b =>
      obtain ⟨hlambda, hparts⟩ := allPrintable_cons.1 he
      obtain ⟨hdc, hb⟩ := allPrintable_append.1 hparts
      obtain ⟨hd, hc⟩ := allPrintable_append.1 hdc
      have hfault : d.isError = false := by
        cases d <;> exact (allPrintable_cons.1 hd).1.faultless
      exact Stmnt.readable_function hitem hfault hlambda (Ptrn.readable hd depth)
        (Expr.readable hc depth false) (Expr.readable hb depth false)
    all_goals exact Stmnt.readable_define hitem nofun hreadable

theorem Stmnt.readableList {ss : List Stmnt} (h : Node.AllPrintable names (Stmnt.nodesOf ss))
    (depth : Nat) : Stmnt.ReadableList names depth ss := by
  cases ss with
  | nil => exact Stmnt.readableList_nil
  | cons s ss =>
    obtain ⟨hs, hss⟩ := allPrintable_append.1 h
    exact Stmnt.readableList_cons (Stmnt.readable hs depth) (Stmnt.readableList hss depth)

end

end All

end ImpLang
