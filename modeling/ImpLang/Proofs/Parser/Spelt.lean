import ImpLang.Proofs.Parser.Shape
import ImpLang.Proofs.Token.Adjoining
import ImpLang.Proofs.Tree.Printing

/-!
What a printed expression is read as: tokens that spell the expression, with as few levels of the
grammar around it as its form needs, and with a begin that is taken for nothing else. The printer's
parentheses make such tokens an operand; they stand wherever the expression alone would not do.
-/

namespace ImpLang

/-! ## Operators as tokens -/

theorem PrefixOp.exists_fixed (op : PrefixOp) : ∃ entry ∈ fixedLexemes,
    entry.2.prefixOp? = some op ∧ entry.1 = op.text.toList ∧ entry.1.head? ≠ some '/' := by
  cases op <;> decide

theorem PostfixOp.exists_fixed (op : PostfixOp) : ∃ entry ∈ fixedLexemes,
    entry.2.postfixOp? = some op ∧ Lexeme.isComplete op.text entry.2 = true := by
  cases op <;> decide

theorem InfixOp.exists_fixed (op : InfixOp) : ∃ entry ∈ fixedLexemes,
    entry.2.infixOp? = some op ∧ entry.2.isPlain = true ∧ entry.2.text = op.text := by
  cases op <;> decide

namespace Expr

/-- An assignment to a plain name. Between parentheses it is read as a tuple of one named element. -/
def isBare : Expr → Bool
  | .binary _ (.name ..) .assign _ => true
  | _ => false

/-- Whether an expression may stand without parentheses where operators have to bind at least as
strongly as given. -/
def fits (level : Prec) : Expr → Bool
  | .binary _ _ op _ => level ≤ op.prec
  | .prefixed .. => true
  | e => Print.isAtomic e

theorem fits_of_isAtomic {e : Expr} (h : Print.isAtomic e = true) (level : Prec) :
    e.fits level = true := by
  cases e <;> first | rfl | cases h

theorem isStmntLike_of_fits {e : Expr} {level : Prec} (h : e.fits level = true) :
    e.isStmntLike = false := by
  cases e <;> first | rfl | cases h

/-- Assignments group to the right. -/
theorem fits_of_isBare {e : Expr} (h : e.isBare = true) {op : InfixOp} (hop : op.prec = .assign) :
    e.fits op.rightLevel = true := by
  cases e
  case binary span l inner r =>
    cases l
    case name =>
      cases inner
      case assign => rw [InfixOp.rightLevel, InfixOp.isRightAssoc, hop]; rfl
      all_goals cases h
    all_goals cases h
  all_goals cases h

end Expr

namespace Print

theorem typeParens_eq (e : Expr) : typeParens e = !e.fits .orOr := by
  have hlevel : ∀ op : InfixOp, decide (op.prec < .orOr) = !decide (Prec.orOr ≤ op.prec) := by
    intro op
    cases op <;> rfl
  cases e
  case binary => exact hlevel _
  all_goals rfl

/-- Parentheses stand around an operand that does not bind as strongly as its place asks for. -/
theorem infixParens_eq (op : InfixOp) (isLeft : Bool) (e : Expr) :
    infixParens op isLeft e = !e.fits (if isLeft then op.leftLevel else op.rightLevel) := by
  have hlevel : ∀ p q : Prec, p ≠ .postfixed → ∀ isLeft : Bool,
      (decide (q < p) || (q == p && isLeft == (p == .assign))) =
        !decide ((if isLeft then (if p == .assign then p.next else p)
          else if p == .assign then p else p.next) ≤ q) := by
    intro p q hp isLeft
    revert hp
    cases isLeft <;> cases p <;> cases q <;> decide
  cases e
  case binary inner _ =>
    have hop := hlevel op.prec inner.prec (by cases op <;> decide) isLeft
    cases isLeft <;> exact hop
  all_goals rfl

end Print

/-! ## The narrowest phrase -/

namespace Expr

/-- The narrowest phrase that derives an expression of a form. What a function type takes behind it
is a matter of its last part, so it is given. -/
def phrase (reach : Prec) (e : Expr) : Phrase :=
  match e with
  | .tuple .. => .parens e
  | .block .. => .block e
  | .branch .. => .branch e
  | .select .. | .forLoop .. | .whileLoop .. => .form e
  | .prefixed .. => .expr .postfixed .postfixed e
  | .binary _ _ op _ => .expr op.prec .postfixed e
  | .pi .. => .operand reach e
  | _ => .operand .postfixed e

theorem isSolid_phrase (reach : Prec) (e : Expr) : (e.phrase reach).isSolid = true := by
  cases e <;> rfl

end Expr

namespace Derives

variable {names : Interner} {place : Placement} {reach : Prec} {e : Expr} {ts : List Token}

theorem form_of_phrase (h : Derives names place (e.phrase reach) ts)
    (hlike : e.isStmntLike = true) : Derives names place (.form e) ts := by
  cases e
  case block => exact .formBlock h
  case branch => exact .formBranch h
  case select | forLoop | whileLoop => exact h
  all_goals cases hlike

theorem operand_of_phrase (h : Derives names place (e.phrase reach) ts)
    (hatomic : Print.isAtomic e = true) : Derives names place (.operand .postfixed e) ts := by
  cases e
  case tuple => exact .parens h
  case name | literal | sigma | app | field | postfixed | pack | variadic | qualifier | bottom
      | unknown | error => exact h
  all_goals cases hatomic

theorem expr_of_phrase (h : Derives names place (e.phrase reach) ts) :
    ∃ reach', Derives names place (.expr .bottom reach' e) ts := by
  cases e
  case tuple => exact ⟨_, .exprOperand (.parens h)⟩
  case block | branch | select | forLoop | whileLoop =>
    exact ⟨_, .exprOperand (.operandForm (h.form_of_phrase rfl))⟩
  case prefixed | binary => exact ⟨_, h.mono (Nat.zero_le _)⟩
  all_goals exact ⟨_, .exprOperand h⟩

theorem fit_of_phrase {level : Prec} (h : Derives names place (e.phrase reach) ts)
    (hfits : e.fits level = true) : Derives names place (.expr level .postfixed e) ts := by
  cases e
  case prefixed => exact h.mono (Prec.le_postfixed level)
  case binary => exact h.mono (of_decide_eq_true hfits)
  all_goals exact .exprOperand (h.operand_of_phrase hfits)

end Derives

/-! ## First tokens -/

namespace Token

/-- What the begin of some tokens allows: only a `form` begins like one, no name stands in front of a
colon, and only a `bare` assignment has one in front of its sign. A name alone is a `name`. -/
structure Front (form bare name : Prop) (ts : List Token) : Prop where
  form : (firstKind ts).startsForm = true → form
  colon : firstKind ts = .identifier → firstKind ts.tail ≠ .colon
  assign : firstKind ts = .identifier → firstKind ts.tail = .assign → bare
  name : firstKind ts = .identifier → ts.tail = [] → name

namespace Front

variable {form bare name name' : Prop} {t : Token} {ts us : List Token}

theorem of_first (hname : t.kind ≠ .identifier) (hform : t.kind.startsForm = true → form) :
    Front form bare name (t :: ts) :=
  ⟨hform, fun h => absurd h hname, fun h => absurd h hname, fun h => absurd h hname⟩

theorem mono {form' bare' : Prop} (h : Front form bare name ts) (hform : form → form')
    (hbare : bare → bare') (hname : name → name') : Front form' bare' name' ts :=
  ⟨fun hk => hform (h.form hk), h.colon, fun hk hk' => hbare (h.assign hk hk'),
    fun hk hk' => hname (h.name hk hk')⟩

/-- Operands that more follows. -/
theorem append (h : Front False False name ts) (hts : ts ≠ []) (hus : us ≠ [])
    (hcolon : firstKind us ≠ .colon) (hassign : name → firstKind us = .assign → bare) :
    Front form bare name' (ts ++ us) := by
  obtain ⟨t, ts, rfl⟩ := List.exists_cons_of_ne_nil hts
  refine ⟨fun hk => (h.form hk).elim, fun hk => ?_, fun hk hk' => ?_, fun hk hnil => ?_⟩
  · cases ts with
    | nil => exact hcolon
    | cons u ts => exact h.colon hk
  · cases ts with
    | nil => exact hassign (h.name hk rfl) hk'
    | cons u ts => exact (h.assign hk hk').elim
  · exact absurd (List.append_eq_nil_iff.1 hnil).2 hus

end Front

/-- The tokens of a text with parentheses around it. -/
def wrap (parens : Bool) (ts : List Token) : List Token :=
  if parens then sign .lParen :: (ts ++ [sign .rParen]) else ts

theorem lexes_parens {P : List Char → Prop} {text : String} {ts : List Token}
    (h : Lexes Closing text ts) :
    Lexes P ("(" ++ text ++ ")") (sign .lParen :: (ts ++ [sign .rParen])) := by
  have hopen : Lexes Anything "(" [sign .lParen] := lexes_complete (by decide)
  exact (hopen.snug h).closed (lexes_complete (by decide)) (by decide)

theorem lexes_wrap {text : String} {ts : List Token} (parens : Bool) (h : Lexes Closing text ts) :
    Lexes Closing (Print.wrap parens text) (wrap parens ts) := by
  cases parens with
  | false => exact h
  | true => exact lexes_parens h

/-- A text whose first character carries on no operator. -/
def opens (text : String) : Bool :=
  text.toList.head?.any fun c => fixedLexemes.all fun entry => !entry.1.tail.contains c

theorem inert_of_opens {text : String} (h : opens text = true) (behind : List Char) :
    Inert (text.toList ++ behind) := by
  obtain ⟨c, hc, hnone⟩ := (Option.any_eq_true ..).1 h
  obtain ⟨rest, htext⟩ := List.head?_eq_some_iff.1 hc
  intro d hd entry hentry
  rw [htext] at hd
  obtain rfl := Option.some.inj hd
  simpa using List.all_eq_true.1 hnone entry hentry

theorem opens_append {text : String} (h : opens text = true) (more : String) :
    opens (text ++ more) = true := by
  obtain ⟨c, hc, hnone⟩ := (Option.any_eq_true ..).1 h
  rw [opens, String.toList_append, List.head?_append, hc]
  exact hnone

theorem opens_wrap {text : String} {parens : Bool} (h : parens = false → opens text = true) :
    opens (Print.wrap parens text) = true := by
  cases parens with
  | false => exact h rfl
  | true => exact opens_append (opens_append (by decide) text) ")"

end Token

/-! ## Printed expressions -/

namespace Expr

variable {names : Interner} {element : Bool} {text : String} {e : Expr} {ts : List Token}

/-- A text is read as tokens that spell an expression, of which no more than needed around it is
known. In an `element` of a tuple no bare assignment stands. -/
structure Spelt (names : Interner) (element : Bool) (text : String) (e : Expr) (ts : List Token) :
    Prop where
  lexes : Token.Lexes Closing text ts
  derives : ∃ reach, Derives names .free (e.phrase reach) ts
  opens : Print.isAtomic e = true → Token.opens text = true
  front : Token.Front (e.isStmntLike = true) (element = false ∧ e.isBare = true)
    (Print.isName e = true) ts

namespace Spelt

variable (h : Spelt names element text e ts)

include h

theorem ne_nil : ts ≠ [] := by
  obtain ⟨reach, hderives⟩ := h.derives
  exact hderives.ne_nil (e.isSolid_phrase reach)

theorem whole : ∃ reach, Derives names .free (.expr .bottom reach e) ts := by
  obtain ⟨reach, hderives⟩ := h.derives
  exact hderives.expr_of_phrase

/-- Where a statement may stand, what begins like a form is one. -/
theorem stmntExpr : Derives names .free (.stmntExpr e) ts := by
  by_cases hlike : e.isStmntLike = true
  · obtain ⟨reach, hderives⟩ := h.derives
    exact .stmntForm (hderives.form_of_phrase hlike)
  · obtain ⟨reach, hderives⟩ := h.whole
    obtain ⟨t, us, rfl⟩ := List.exists_cons_of_ne_nil h.ne_nil
    exact .stmntPlain hderives (Bool.eq_false_iff.2 fun hform => hlike (h.front.form hform))

theorem elem (hbare : element = false → e.isBare = false) :
    Derives names .free (.elem ⟨none, e⟩) ts := by
  obtain ⟨reach, hderives⟩ := h.whole
  refine .elemPlain hderives fun t u us hts hname hassign => ?_
  subst hts
  obtain ⟨helement, hall⟩ := h.front.assign hname hassign
  rw [hbare helement] at hall
  cases hall

theorem grouped (hbare : element = false → e.isBare = false) :
    Derives names .free (.parens e) (Token.wrap true ts) := by
  have hsame : e.withSpan e.span = e := by cases e <;> rfl
  exact hsame ▸ .grouped rfl (.elemsOne (h.elem hbare)) rfl trivial

/-- An operand of an infix operator or a type. -/
theorem fit {level : Prec} {parens : Bool} (hfits : parens = false → e.fits level = true)
    (hbare : parens = true → element = false → e.isBare = false) :
    Derives names .free (.expr level .postfixed e) (Token.wrap parens ts) := by
  cases parens with
  | false =>
    obtain ⟨reach, hderives⟩ := h.derives
    exact hderives.fit_of_phrase (hfits rfl)
  | true => exact .exprOperand (.parens (h.grouped (hbare rfl)))

theorem front_wrap {parens : Bool} (hlike : parens = false → e.isStmntLike = false)
    (hbare : e.isBare = false) :
    Token.Front False False (parens = false ∧ Print.isName e = true) (Token.wrap parens ts) := by
  cases parens with
  | false =>
    exact h.front.mono (by rw [hlike rfl]; nofun) (by rw [hbare]; nofun) fun hname => ⟨rfl, hname⟩
  | true => exact .of_first nofun nofun

omit h

end Spelt

/-- A text is read as tokens that spell an operand, which may stand behind an operator. -/
structure Operand (names : Interner) (text : String) (e : Expr) (ts : List Token) : Prop where
  lexes : Token.Lexes Closing text ts
  derives : Derives names .free (.operand .postfixed e) ts
  opens : Token.opens text = true
  front : Token.Front False False (Print.isName e = true) ts

/-- Parentheses make an operand of what is none. -/
theorem Spelt.operand (h : Spelt names false text e ts) (hbare : e.isBare = false) :
    Operand names (Print.wrap (!Print.isAtomic e) text) e (Token.wrap (!Print.isAtomic e) ts) := by
  have hatomic : (!Print.isAtomic e) = false → Print.isAtomic e = true := by simp
  refine ⟨Token.lexes_wrap _ h.lexes, ?_, Token.opens_wrap fun hp => h.opens (hatomic hp),
    (h.front_wrap (fun hp => isStmntLike_of_fits (fits_of_isAtomic (hatomic hp) .bottom)) hbare).mono
      id id And.right⟩
  cases hp : Print.isAtomic e with
  | false => exact .parens (h.grouped fun _ => hbare)
  | true =>
    obtain ⟨reach, hderives⟩ := h.derives
    exact hderives.operand_of_phrase hp

end Expr

end ImpLang
