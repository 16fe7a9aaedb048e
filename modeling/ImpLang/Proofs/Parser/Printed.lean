import ImpLang.Proofs.Parser.Spelt

/-!
What each construct is read as when it is printed, from what its parts are read as.
-/

namespace ImpLang

open Token (Lexes Anything sign named valued lexes_complete lexes_operator lexes_space
  lexes_named lexes_valued lexes_spaced lexes_between closes opens closes_append opens_append)
open Print (wrap)

/-! ## First characters -/

namespace Token

theorem opens_of_test {text : String} {p : Char → Bool} (h : text.toList.head?.any p = true)
    (hnone : ∀ entry ∈ fixedLexemes, entry.1.tail.all (!p ·) = true) : opens text = true := by
  obtain ⟨c, hc, hp⟩ := (Option.any_eq_true ..).1 h
  refine (Option.any_eq_true ..).2 ⟨c, hc, List.all_eq_true.2 fun entry hentry => ?_⟩
  have hall := List.all_eq_true.1 (hnone entry hentry)
  simp only [Bool.not_eq_true', Bool.eq_false_iff, ne_eq, List.contains_iff_mem] at hall ⊢
  exact fun hmem => hall c hmem hp

theorem opens_name {text : String} (h : IsName text) : opens text = true :=
  opens_of_test h.start (by decide +kernel)

theorem opens_literal (value : Literal String) (h : value.isWhole = true) :
    opens value.print = true := by
  cases value with
  | int value kind =>
    refine opens_append (opens_of_test (p := Char.isDigit) ?_ (by decide)) _
    have hne : Nat.toDigits 10 value.toNat ≠ [] := Nat.toDigits_ne_nil
    obtain ⟨c, rest, hdigits⟩ := List.exists_cons_of_ne_nil hne
    have hdigit : c.isDigit = true := Nat.isDigit_of_mem_toDigits (by decide) (by decide)
      (hdigits ▸ List.mem_cons_self)
    rw [Nat.toString_eq_ofList_toDigits, String.toList_ofList, hdigits]
    exact hdigit
  | float value kind => cases h
  | bool value => cases value <;> decide
  | char value | str text =>
    simp only [Literal.print, opens, String.toList_ofList, List.head?_cons]
    decide

end Token

namespace Expr

variable {names : Interner} {element : Bool} {span : Span}

namespace Spelt

theorem name {id : Id} {text : String} (hid : names.resolve? id.symbol = some text)
    (hname : IsName text) :
    Spelt names element text (.name span id .unset) [named text] where
  lexes := lexes_named hname
  derives := ⟨.bottom, .name ⟨rfl, ⟨text, rfl, hid⟩, trivial⟩ trivial⟩
  opens _ := Token.opens_name hname
  front := ⟨nofun, nofun, nofun, fun _ _ => rfl⟩

theorem literal {value : Literal Symbol} {text : Literal String}
    (hvalue : value.map names.resolve? = text.map some) (hwhole : text.isWhole = true) :
    Spelt names element text.print (.literal span value) [valued text] where
  lexes := lexes_valued hwhole
  derives := ⟨.bottom, .literal rfl rfl hvalue trivial⟩
  opens _ := Token.opens_literal text hwhole
  front := .of_first nofun nofun

theorem tuple {es : List Elem} {separated : Bool} {text : String} {ts : List Token}
    (hlexes : Lexes Closing text ts) (hderives : Derives names .free (.elems es separated) ts)
    (hseveral : separated = false → ∀ e, es ≠ [⟨none, e⟩]) :
    Spelt names element ("(" ++ text ++ ")") (.tuple span es)
      (sign .lParen :: (ts ++ [sign .rParen])) where
  lexes := Token.lexes_parens hlexes
  derives := ⟨.bottom, .tuple rfl hderives rfl hseveral trivial⟩
  opens _ := opens_append (opens_append (by decide) _) _
  front := .of_first nofun nofun

theorem sigma {ps : List Ptrn} {text : String} {ts : List Token} (hlexes : Lexes Closing text ts)
    (hderives : Derives names .free (.sigmaElems ps) ts) :
    Spelt names element ("[" ++ text ++ "]") (.sigma span ps)
      (sign .lBracket :: (ts ++ [sign .rBracket])) where
  lexes :=
    have hopen : Lexes Anything "[" [sign .lBracket] := lexes_complete (by decide)
    (hopen.snug hlexes).closed (lexes_complete (by decide)) (by decide)
  derives := ⟨.bottom, .sigma rfl hderives rfl trivial⟩
  opens _ := opens_append (opens_append (by decide) _) _
  front := .of_first nofun nofun

/-- A call, whose argument stands between parentheses of its own. -/
theorem app {f a : Expr} {cps : Bool} {text inner : String} {fs us : List Token}
    (hf : Operand names text f fs) (hlexes : Lexes Closing ("(" ++ inner) us)
    (harg : Derives names .free (.parens a) us) :
    ∃ ts, Spelt names element (text ++ (if cps then "!" else "") ++ ("(" ++ inner))
      (.app span f a cps) ts := by
  have hopens := opens_append (opens_append hf.opens (if cps then "!" else "")) ("(" ++ inner)
  have hcallee := hf.derives.ne_nil rfl
  have hne := harg.ne_nil rfl
  have hfirst : Token.firstKind us = .lParen := of_decide_eq_true (harg.starts hne)
  cases cps with
  | false =>
    refine ⟨fs ++ us, ?_, ⟨.bottom, .app hf.derives harg trivial⟩, fun _ => hopens,
      hf.front.append hcallee hne (by rw [hfirst]; nofun) (by rw [hfirst]; nofun)⟩
    rw [if_neg nofun, String.append_empty]
    exact hf.lexes.closed hlexes (closes_append (by decide) inner)
  | true =>
    refine ⟨fs ++ sign .not :: us, ?_, ⟨.bottom, .appCps hf.derives rfl harg trivial⟩,
      fun _ => hopens, hf.front.append hcallee (List.cons_ne_nil _ _) nofun nofun⟩
    have hmark : Lexes Inert "!" [sign .not] := lexes_operator (by decide) (by decide)
    rw [if_pos rfl, String.append_assoc]
    exact hf.lexes.closed (hmark.append hlexes fun behind _ =>
      Token.inert_of_opens (opens_append (by decide) inner) behind) (closes_append (by decide) _)

/-- A point in front of a name makes no fraction of a number. -/
theorem field {e : Expr} {id : Id} {text name : String} {es : List Token}
    (h : Operand names text e es) (hid : names.resolve? id.symbol = some name)
    (hname : IsName name) :
    Spelt names element (text ++ "." ++ name) (.field span e id) (es ++ [sign .dot, named name]) where
  lexes := by
    have hdot : Lexes Anything "." [sign .dot] := lexes_complete (by decide)
    rw [String.append_assoc]
    refine h.lexes.append (hdot.snug (lexes_named hname)) fun behind _ => ⟨?_, ?_⟩
    · rw [String.toList_append]
      exact fun c hc => Option.some.inj hc ▸ (by decide)
    · obtain ⟨c, rest, hchars, hstart, -⟩ := Spelled.exists_first hname.start hname.rest
      rw [String.toList_append, hchars, List.append_assoc]
      show Number.fraction ('.' :: c :: (rest ++ behind)) = []
      rw [Number.fraction, if_neg (by rw [isDigit_of_isIdentStart hstart]; exact Bool.false_ne_true)]
  derives := ⟨.bottom, .field h.derives rfl ⟨rfl, ⟨name, rfl, hid⟩, trivial⟩ trivial⟩
  opens _ := opens_append (opens_append h.opens _) _
  front := h.front.append (h.derives.ne_nil rfl) (List.cons_ne_nil _ _) nofun nofun

theorem prefixed {e : Expr} {op : PrefixOp} {text : String} {es : List Token}
    (h : Operand names text e es) :
    ∃ ts, Spelt names element (op.text ++ text) (.prefixed span op e) ts := by
  obtain ⟨⟨chars, kind⟩, hentry, hkind, rfl, hslash⟩ := op.exists_fixed
  refine ⟨sign kind :: es, (lexes_operator hentry hslash).append h.lexes fun behind _ =>
    Token.inert_of_opens h.opens behind, ⟨.bottom, .exprPrefixed hkind (.exprOperand h.derives) trivial⟩,
    nofun, .of_first ?_ ?_⟩
  all_goals
    revert hkind
    cases kind <;> simp [sign, TokenKind.prefixOp?, TokenKind.startsForm]

theorem postfixed {e : Expr} {op : PostfixOp} {text : String} {es : List Token}
    (h : Operand names text e es) :
    ∃ ts, Spelt names element (text ++ op.text) (.postfixed span e op) ts := by
  obtain ⟨⟨chars, kind⟩, -, hkind, hcomplete⟩ := op.exists_fixed
  refine ⟨es ++ [sign kind], h.lexes.closed (lexes_complete hcomplete) (by cases op <;> decide),
    ⟨.bottom, .postfixed h.derives hkind trivial⟩, fun _ => opens_append h.opens _,
    h.front.append (h.derives.ne_nil rfl) (List.cons_ne_nil _ _) ?_ fun _ => ?_⟩
  all_goals
    revert hkind
    cases kind <;> simp [sign, Token.firstKind, TokenKind.postfixOp?]

/-- An infix operator between its operands. A name that is the target of an assignment stands
between parentheses in an element of a tuple. -/
theorem binary {l r : Expr} {op : InfixOp} {ltext rtext : String} {ls rs : List Token}
    {parens : Bool} (hl : Spelt names false ltext l ls) (hr : Spelt names false rtext r rs)
    (hfits : parens = false → l.fits op.leftLevel = true) (hbare : l.isBare = false)
    (hbare' : op.prec ≠ .assign → r.isBare = false)
    (htarget : parens = false → op = .assign → Print.isName l = true → element = false) :
    ∃ ts, Spelt names element (wrap parens ltext ++ " " ++ op.text ++ " " ++
      wrap (!r.fits op.rightLevel) rtext) (.binary span l op r) ts := by
  obtain ⟨⟨chars, kind⟩, -, hkind, hplain, htext⟩ := op.exists_fixed
  dsimp only at hkind hplain htext
  have hsign : Lexes Anything (" " ++ (op.text ++ " ")) [sign kind] :=
    lexes_between hplain (by rw [htext])
  have hlexes := (((Token.lexes_wrap parens hl.lexes).closed hsign (closes_append (by decide) _)).snug
    (Token.lexes_wrap (!r.fits op.rightLevel) hr.lexes))
  have hleft := hl.fit hfits fun _ _ => hbare
  have hright : Derives names .free (.expr op.rightLevel .postfixed r)
      (Token.wrap (!r.fits op.rightLevel) rs) := by
    refine hr.fit (by simp) fun hparens _ => ?_
    -- Behind an assignment sign a bare assignment stands without parentheses.
    by_cases hassign : op.prec = .assign
    · rw [Bool.eq_false_iff]
      intro hall
      rw [fits_of_isBare hall hassign] at hparens
      cases hparens
    · exact hbare' hassign
  refine ⟨_, by simpa only [String.append_assoc] using hlexes, ⟨.bottom, ?_⟩, nofun, ?_⟩
  · rw [List.append_assoc]
    exact .exprBinary hkind (Prec.le_refl _) hleft op.prec_lt_postfixed hright trivial
  · rw [List.append_assoc]
    have hfront := hl.front_wrap (fun hparens => isStmntLike_of_fits (hfits hparens)) hbare
    refine hfront.append (hleft.ne_nil rfl) (List.cons_ne_nil _ _) ?_ ?_
    · revert hkind
      cases kind <;> simp [sign, Token.firstKind, TokenKind.infixOp?]
    · rintro ⟨hparens, hname⟩ hassign
      have hop : op = .assign := by
        rw [show kind = .assign from hassign] at hkind
        exact (Option.some.inj hkind).symm
      refine ⟨htarget hparens hop hname, ?_⟩
      subst hop
      cases l <;> first | rfl | cases hname

end Spelt

/-! ## Functions -/

theorem Spelt.derives_block {text : String} {e : Expr} {ts : List Token}
    (h : Spelt names element text e ts) (hblock : e.isBlock = true) :
    Derives names .free (.block e) ts := by
  obtain ⟨reach, hderives⟩ := h.derives
  cases e
  case block => exact hderives
  all_goals cases hblock

/-- A type, which stands between parentheses unless it is read above assignments. -/
theorem Spelt.type {text : String} {e : Expr} {ts : List Token}
    (h : Spelt names false text e ts) (hbare : e.isBare = false) :
    ∃ us, Lexes Closing (wrap (Print.typeParens e) text) us ∧
      Derives names .free (.expr .orOr .postfixed e) us :=
  ⟨_, Token.lexes_wrap _ h.lexes, h.fit (by simp [Print.typeParens_eq]) fun _ _ => hbare⟩

/-- A function from its domain on. -/
theorem function {d : Ptrn} {c b : Expr} {reach : Prec} {dtext ctext btext : String}
    {ds cs bs : List Token} (hlexes : Lexes Closing dtext ds)
    (hdomain : Derives names .free (.ptrn true reach d) ds) (hc : Spelt names false ctext c cs)
    (hbare : c.isBare = false) (hb : Spelt names false btext b bs) (hblock : b.isBlock = true) :
    ∃ ts, Lexes Closing (Print.function dtext c ctext btext) ts ∧
      Derives names .free (.function d c b) ts := by
  have hbody := lexes_space.snug hb.lexes
  rw [Print.function]
  cases hopen : Print.isUnknown c with
  | true =>
    obtain ⟨span, rfl⟩ : ∃ span, c = .unknown span := by
      cases c <;> first | exact ⟨_, rfl⟩ | cases hopen
    refine ⟨ds ++ ([] ++ bs), ?_, .function hdomain (.codomainOpen trivial) (hb.derives_block hblock)⟩
    rw [if_pos rfl, String.append_empty, String.append_assoc]
    exact hlexes.closed hbody (closes_append (by decide) _)
  | false =>
    obtain ⟨us, htype, hderives⟩ := hc.type hbare
    have harrow : Lexes Anything " -> " [sign .arrow] := lexes_between (by decide) (by decide)
    have hresult := (harrow.snug htype).closed hbody (closes_append (by decide) btext)
    refine ⟨ds ++ (sign .arrow :: us ++ bs), ?_,
      .function hdomain (.codomainWritten rfl hderives) (hb.derives_block hblock)⟩
    rw [if_neg Bool.false_ne_true, String.append_assoc, String.append_assoc]
    exact hlexes.closed hresult (closes_append (closes_append (by decide) _) _)

namespace Spelt

theorem lambda {d : Ptrn} {c b : Expr} {text : String} {ts : List Token}
    (hlexes : Lexes Closing text ts) (hderives : Derives names .free (.function d c b) ts) :
    Spelt names element ("λ" ++ text) (.lambda span d c b) (sign .lambda :: ts) where
  lexes :=
    have hmark : Lexes Anything "λ" [sign .lambda] := lexes_complete (by decide)
    hmark.snug hlexes
  derives := ⟨.bottom, .lambda rfl hderives trivial⟩
  opens := nofun
  front := .of_first nofun nofun

theorem continuation {d : Ptrn} {inner : Span} {reach : Prec} {text : String} {ts : List Token}
    (hlexes : Lexes Closing text ts) (hderives : Derives names .free (.ptrn true reach d) ts) :
    Spelt names element ("cn " ++ text) (.pi span d (.bottom inner)) (sign .kwCn :: ts) where
  lexes :=
    have hmark : Lexes Anything "cn " [sign .kwCn] := lexes_spaced (by decide) (by decide)
    hmark.snug hlexes
  derives := ⟨reach, .continuation rfl hderives trivial trivial⟩
  opens := nofun
  front := .of_first nofun nofun

theorem pi {d : Ptrn} {c : Expr} {reach : Prec} {dtext ctext : String} {ds cs : List Token}
    (hlexes : Lexes Closing dtext ds) (hdomain : Derives names .free (.ptrn true reach d) ds)
    (hc : Spelt names false ctext c cs) :
    Spelt names element ("Π " ++ dtext ++ " → " ++ ctext) (.pi span d c)
      (sign .pi :: (ds ++ sign .arrow :: cs)) where
  lexes := by
    have hmark : Lexes Anything "Π" [sign .pi] := lexes_complete (by decide)
    have harrow : Lexes Anything "→" [sign .arrow] := lexes_complete (by decide)
    have hall := (((hmark.snug lexes_space).snug hlexes).closed
      ((lexes_space.snug harrow).snug lexes_space) (by decide)).snug hc.lexes
    simpa using hall
  derives :=
    have ⟨_, hderives⟩ := hc.whole
    ⟨.bottom, .pi rfl hdomain rfl hderives trivial⟩
  opens := nofun
  front := .of_first nofun nofun

/-- A pattern and an expression behind it, between brackets of their own. -/
theorem lexes_package {P : List Char → Prop} {e : Expr} {dtext text left right : String}
    {opening closing : TokenKind} {ds es : List Token} (hlexes : Lexes Closing dtext ds)
    (h : Spelt names false text e es) (hopen : Lexeme.isComplete left opening = true)
    (hclose : Lexeme.isComplete right closing = true) (hcloses : closes right = true) :
    Lexes P (left ++ dtext ++ "; " ++ text ++ right)
      (sign opening :: (ds ++ sign .semi :: (es ++ [sign closing]))) := by
  have hleft : Lexes Anything left [sign opening] := lexes_complete hopen
  have hsemi : Lexes Anything "; " [sign .semi] := lexes_spaced (by decide) (by decide)
  have hall := (((hleft.snug hlexes).closed hsemi (by decide)).snug h.lexes).closed
    (lexes_complete hclose (P := P)) hcloses
  simpa using hall

theorem pack {d : Ptrn} {e : Expr} {reach : Prec} {dtext text : String} {ds es : List Token}
    (hlexes : Lexes Closing dtext ds) (hdomain : Derives names .free (.ptrn false reach d) ds)
    (h : Spelt names false text e es) :
    Spelt names element ("‹" ++ dtext ++ "; " ++ text ++ "›") (.pack span d e)
      (sign .lPack :: (ds ++ sign .semi :: (es ++ [sign .rPack]))) where
  lexes := lexes_package hlexes h (by decide) (by decide) (by decide +kernel)
  derives :=
    have ⟨_, hderives⟩ := h.whole
    ⟨.bottom, .pack rfl hdomain rfl hderives rfl trivial⟩
  opens _ := opens_append (opens_append (opens_append (opens_append (by decide) _) _) _) _
  front := .of_first nofun nofun

theorem variadic {d : Ptrn} {e : Expr} {reach : Prec} {dtext text : String} {ds es : List Token}
    (hlexes : Lexes Closing dtext ds) (hdomain : Derives names .free (.ptrn false reach d) ds)
    (h : Spelt names false text e es) :
    Spelt names element ("«" ++ dtext ++ "; " ++ text ++ "»") (.variadic span d e)
      (sign .lVariadic :: (ds ++ sign .semi :: (es ++ [sign .rVariadic]))) where
  lexes := lexes_package hlexes h (by decide) (by decide) (by decide +kernel)
  derives :=
    have ⟨_, hderives⟩ := h.whole
    ⟨.bottom, .variadic rfl hdomain rfl hderives rfl trivial⟩
  opens _ := opens_append (opens_append (opens_append (opens_append (by decide) _) _) _) _
  front := .of_first nofun nofun

/-- An expression that is one token. -/
theorem single {e : Expr} {kind : TokenKind} {text : String}
    (hcomplete : Lexeme.isComplete text kind = true) (hopens : Token.opens text = true)
    (hname : kind ≠ .identifier) (hform : kind.startsForm = false)
    (hderives : Derives names .free (e.phrase .bottom) [sign kind]) :
    Spelt names element text e [sign kind] where
  lexes := lexes_complete hcomplete
  derives := ⟨.bottom, hderives⟩
  opens _ := hopens
  front := .of_first hname fun h => absurd (hform.symm.trans h) nofun

theorem qualifier (value : Qualifier) :
    ∃ ts, Spelt names element value.text (.qualifier span value) ts := by
  cases value
  · exact ⟨[sign .unlimited], single (by decide) (by decide) nofun rfl (.qualifier rfl trivial)⟩
  · exact ⟨[sign .relevant], single (by decide) (by decide) nofun rfl (.qualifier rfl trivial)⟩
  · exact ⟨[sign .affine], single (by decide) (by decide) nofun rfl (.qualifier rfl trivial)⟩
  · exact ⟨[sign .linear], single (by decide) (by decide) nofun rfl (.qualifier rfl trivial)⟩

theorem bottom : Spelt names element "⊥" (.bottom span) [sign .bottom] :=
  single (by decide) (by decide) nofun rfl (.bottom rfl trivial)

theorem unknown : Spelt names element "?" (.unknown span) [sign .question] :=
  single (by decide) (by decide) nofun rfl (.unknown rfl trivial)

/-! ## Forms -/

theorem whileLoop {c b : Expr} {ctext btext : String} {cs bs : List Token}
    (hc : Spelt names false ctext c cs) (hb : Spelt names false btext b bs)
    (hblock : b.isBlock = true) :
    Spelt names element ("while " ++ ctext ++ " " ++ btext) (.whileLoop span c b)
      (sign .kwWhile :: (cs ++ bs)) where
  lexes := by
    have hmark : Lexes Anything "while " [sign .kwWhile] := lexes_spaced (by decide) (by decide)
    have hall := ((hmark.snug hc.lexes).closed lexes_space (by decide)).snug hb.lexes
    simpa using hall
  derives :=
    have ⟨_, hcond⟩ := hc.whole
    ⟨.bottom, .formWhile rfl hcond (hb.derives_block hblock) trivial⟩
  opens := nofun
  front := .of_first nofun fun _ => rfl

theorem forLoop {p : Ptrn} {i b : Expr} {reach : Prec} {ptext itext btext : String}
    {ps is bs : List Token} (hlexes : Lexes Closing ptext ps)
    (hptrn : Derives names .free (.ptrn false reach p) ps) (hi : Spelt names false itext i is)
    (hb : Spelt names false btext b bs) (hblock : b.isBlock = true) :
    Spelt names element ("for " ++ ptext ++ " in " ++ itext ++ " " ++ btext) (.forLoop span p i b)
      (sign .kwFor :: (ps ++ sign .kwIn :: (is ++ bs))) where
  lexes := by
    have hmark : Lexes Anything "for " [sign .kwFor] := lexes_spaced (by decide) (by decide)
    have hsign : Lexes Anything " in " [sign .kwIn] := lexes_between (by decide) (by decide)
    have hall := ((((hmark.snug hlexes).closed hsign (by decide)).snug hi.lexes).closed
      lexes_space (by decide)).snug hb.lexes
    simpa using hall
  derives :=
    have ⟨_, hiter⟩ := hi.whole
    ⟨.bottom, .formFor rfl hptrn rfl hiter (hb.derives_block hblock) trivial⟩
  opens := nofun
  front := .of_first nofun fun _ => rfl

/-- An alternative that is an empty block is not written. -/
theorem branch {c y n : Expr} {ctext ytext ntext : String} {cs ys ns : List Token}
    (hc : Spelt names false ctext c cs) (hy : Spelt names false ytext y ys)
    (hn : Spelt names false ntext n ns) (hyes : y.isBlock = true)
    (hno : n.isBlock = true ∨ n.isBranch = true)
    (hempty : n.isEmptyBlock = true → ∃ span, n = .emptyBlock span) :
    ∃ ts, Spelt names element ("if " ++ ctext ++ " " ++ ytext ++
      (if n.isEmptyBlock then "" else " else " ++ ntext)) (.branch span c y n) ts := by
  have hmark : Lexes Anything "if " [sign .kwIf] := lexes_spaced (by decide) (by decide)
  have hfront := ((hmark.snug hc.lexes).closed lexes_space (by decide)).snug hy.lexes
  rw [List.append_nil] at hfront
  obtain ⟨_, hcond⟩ := hc.whole
  have hbranch : ∀ {text : String} {ts : List Token}, Lexes Closing text ts →
      (text = "" ∨ closes text = true) → Derives names .free (.otherwise ys n) ts →
      Spelt names element ("if " ++ ctext ++ " " ++ ytext ++ text) (.branch span c y n)
        (sign .kwIf :: (cs ++ (ys ++ ts))) := by
    intro text ts hlexes hends hderives
    refine ⟨?_, ⟨.bottom, .branch rfl hcond (hy.derives_block hyes) hderives trivial⟩, nofun,
      .of_first nofun fun _ => rfl⟩
    simpa using hfront.maybe hlexes hends
  cases hwritten : n.isEmptyBlock with
  | true =>
    obtain ⟨inner, rfl⟩ := hempty hwritten
    exact ⟨_, hbranch Token.Lexes.empty (.inl rfl) (.otherwiseNone trivial)⟩
  | false =>
    have helse : Lexes Anything " else " [sign .kwElse] := lexes_between (by decide) (by decide)
    refine ⟨_, hbranch (helse.snug hn.lexes) (.inr (closes_append (by decide) _)) ?_⟩
    rcases hno with hno | hno
    · exact .otherwiseBlock rfl (hn.derives_block hno)
    · obtain ⟨reach, hderives⟩ := hn.derives
      cases n
      case branch => exact .otherwiseBranch rfl hderives
      all_goals cases hno

end Spelt

end Expr

/-! ## Patterns -/

/-- A text is read as tokens that spell the ascription of a pattern, or that there is none. -/
structure Expr.Ascribed (names : Interner) (text : String) (ty : Option Expr) (ts : List Token) :
    Prop where
  lexes : Lexes Closing text ts
  ends : text = "" ∨ closes text = true
  derives : ∃ reach, Prec.assign < reach ∧ Derives names .free (.ascription reach ty) ts

namespace Expr.Ascribed

variable {names : Interner}

theorem none : Ascribed names "" none [] :=
  ⟨Token.Lexes.empty, .inl rfl, .postfixed, by decide, .ascriptionNone⟩

theorem some {text : String} {ty : Expr} {ts : List Token} (h : Spelt names false text ty ts)
    (hbare : ty.isBare = false) :
    ∃ us, Ascribed names (": " ++ wrap (Print.typeParens ty) text) (some ty) us := by
  obtain ⟨us, hlexes, hderives⟩ := h.type hbare
  have hmark : Lexes Anything ": " [sign .colon] := lexes_spaced (by decide) (by decide)
  exact ⟨sign .colon :: us, hmark.snug hlexes, .inr (closes_append (by decide) _), .orOr, by decide,
    .ascriptionSome rfl hderives (by decide) (Prec.le_refl _)⟩

end Expr.Ascribed

/-- A text is read as tokens that spell a pattern, behind which an assignment sign may stand. -/
structure Ptrn.Spelt (names : Interner) (text : String) (p : Ptrn) (ts : List Token) : Prop where
  lexes : Lexes Closing text ts
  derives : ∃ reach, Prec.assign < reach ∧ Derives names .free (.ptrn p.isTyped reach p) ts

namespace Ptrn.Spelt

variable {names : Interner} {span : Span} {typed : Bool} {ty : Option Expr} {text : String}
  {ts : List Token}

theorem name {id : Id} {decl : DeclId} {name : String} (hid : names.resolve? id.symbol = some name)
    (hname : IsName name) (h : Expr.Ascribed names text ty ts) :
    Spelt names (name ++ text) (.name span id decl ty typed) (named name :: ts) := by
  obtain ⟨reach, hreach, htype⟩ := h.derives
  exact ⟨(lexes_named hname).maybe h.lexes h.ends, reach, hreach,
    .ptrnName ⟨rfl, ⟨name, rfl, hid⟩, trivial⟩ htype trivial⟩

theorem tuple {ps : List Ptrn} {inner : String} {es : List Token} (hlexes : Lexes Closing inner es)
    (helems : Derives names .free (.ptrns typed ps) es) (h : Expr.Ascribed names text ty ts) :
    Spelt names ("(" ++ inner ++ ")" ++ text) (.tuple span ps ty typed)
      (sign .lParen :: (es ++ sign .rParen :: ts)) := by
  obtain ⟨reach, hreach, htype⟩ := h.derives
  have hall := (Token.lexes_parens (P := Closing) hlexes).maybe h.lexes h.ends
  exact ⟨by simpa using hall, reach, hreach, .ptrnTuple rfl helems rfl htype trivial⟩

end Ptrn.Spelt

/-- In a dependent tuple a type without a name binds the wildcard, at its own place. -/
theorem Ptrn.sigmaElem_plain {names : Interner} {symbol : Symbol} {ty : Expr} {text : String}
    {ts : List Token} (decl : DeclId) (hwildcard : names.resolve? symbol = some Interner.wildcard)
    (h : Expr.Spelt names false text ty ts) :
    Derives names .free (.sigmaElem (.name ty.span ⟨symbol, ty.span⟩ decl (some ty) true)) ts := by
  obtain ⟨reach, htype⟩ := h.whole
  refine .sigmaElemPlain htype (fun t u us hts hname => ?_) hwildcard
  subst hts
  exact h.front.colon hname

theorem Ptrn.sigmaElem_named {names : Interner} {span : Span} {id : Id} {decl : DeclId} {ty : Expr}
    {name text : String} {ts : List Token} (hid : names.resolve? id.symbol = some name)
    (h : Expr.Ascribed names text (some ty) ts) :
    Derives names .free (.sigmaElem (.name span id decl (some ty) true)) (named name :: ts) := by
  obtain ⟨reach, -, hascription⟩ := h.derives
  cases hascription with
  | ascriptionSome colon type _ _ =>
    exact .sigmaElemNamed ⟨rfl, ⟨name, rfl, hid⟩, trivial⟩ colon (type.mono (Nat.zero_le _)) trivial

/-! ## Lists -/

namespace Token

theorem lexes_newline {P : List Char → Prop} (depth : Nat) : Lexes P (Print.newline depth) [] := by
  refine Token.lexes_gap (List.all_eq_true.2 fun c hc => ?_)
  rw [Print.newline, String.toList_ofList, List.mem_cons] at hc
  rcases hc with rfl | hc
  · decide
  · rw [List.eq_of_mem_replicate hc]
    decide

theorem closes_newline (depth : Nat) : closes (Print.newline depth) = true := by
  rw [closes, Print.newline, String.toList_ofList, List.head?_cons]
  decide

theorem lexes_commas {x : String} {rest : List String} {ts us : List Token}
    (hx : Lexes Closing x ts) (hrest : Lexes Closing (Print.commas rest) us) (hne : rest ≠ []) :
    Lexes Closing (Print.commas (x :: rest)) (ts ++ sign .comma :: us) := by
  have hcomma : Lexes Anything ", " [sign .comma] := lexes_spaced (by decide) (by decide)
  have hall := (hx.closed hcomma (by decide)).snug hrest
  have hcons : Print.commas (x :: rest) = x ++ ", " ++ Print.commas rest := by
    obtain ⟨y, rest, rfl⟩ := List.exists_cons_of_ne_nil hne
    exact String.intercalate_cons_cons
  rw [hcons]
  simpa using hall

end Token

open Token (lexes_newline closes_newline)

/-- A case stands on a line of its own and ends in a comma. -/
theorem Arm.lexes_cons {names : Interner} {depth : Nat} {e : Expr} {ptext etext text : String}
    {ps es ts : List Token} (hp : Lexes Closing ptext ps) (he : Expr.Spelt names false etext e es)
    (hlexes : Lexes Anything text ts) :
    Lexes Anything (Print.newline depth ++ ptext ++ " => " ++ etext ++ "," ++ text)
      (ps ++ sign .fatArrow :: (es ++ ([sign .comma] ++ ts))) := by
  have hline : Lexes Anything (Print.newline depth) [] := lexes_newline depth
  have harrow : Lexes Anything " => " [sign .fatArrow] := lexes_between (by decide) (by decide)
  have hcomma : Lexes Anything "," [sign .comma] := lexes_complete (by decide)
  have hall := ((((hline.snug hp).closed harrow (by decide)).snug he.lexes).closed hcomma
    (by decide)).snug hlexes
  simpa using hall

/-- A single element without name needs a comma to be a tuple. -/
theorem Expr.Spelt.tuple_of_elems {names : Interner} {element : Bool} {span : Span} {es : List Elem}
    {text : String} {ts : List Token} (hlexes : Lexes Closing text ts)
    (hderives : Derives names .free (.elems es (2 ≤ es.length)) ts) :
    ∃ us, Expr.Spelt names element ("(" ++ text ++ (if Print.isLone es then "," else "") ++ ")")
      (.tuple span es) us := by
  have hassoc : ∀ more : String, "(" ++ text ++ more = "(" ++ (text ++ more) := fun _ =>
    String.append_assoc
  rw [hassoc]
  cases hlone : Print.isLone es with
  | true =>
    obtain ⟨e, rfl⟩ : ∃ e, es = [⟨none, e⟩] := by
      rcases es with _ | ⟨⟨_ | i, e⟩, _ | ⟨next, es⟩⟩ <;> first | exact ⟨e, rfl⟩ | cases hlone
    cases hderives with
    | elemsOne elem =>
      have hcomma : Lexes Closing "," [sign .comma] := lexes_complete (by decide)
      exact ⟨_, .tuple (hlexes.closed hcomma (by decide)) (.elemsCons elem rfl .elemsNil) nofun⟩
  | false =>
    rw [if_neg nofun, String.append_empty]
    refine ⟨_, .tuple hlexes hderives fun _ e he => ?_⟩
    subst he
    cases hlone

/-! ## Lines -/

/-- A text is read as tokens that spell a statement, in a block and in a module. -/
structure Stmnt.Spelt (names : Interner) (text : String) (s : Stmnt) (ts : List Token) : Prop where
  lexes : Lexes Closing text ts
  body : ∀ {close ss value us}, Derives names .free (.body close ss value) us →
    Derives names .free (.body close (s :: ss) value) (ts ++ us)
  stmnts : ∀ {ss us}, Derives names .free (.stmnts ss) us →
    Derives names .free (.stmnts (s :: ss)) (ts ++ us)

namespace Stmnt.Spelt

variable {names : Interner} {span : Span} {text : String} {e : Expr} {ts : List Token}

theorem of_binding {s : Stmnt} (hlexes : Lexes Closing text ts)
    (h : Derives names .free (.binding s) ts) : Spelt names text s ts :=
  ⟨hlexes, .bodyBinding h, .stmntsBinding h⟩

theorem expr (h : Expr.Spelt names false text e ts) :
    Spelt names (text ++ ";") (.expr span e) (ts ++ [sign .semi]) where
  lexes := h.lexes.closed (lexes_complete (by decide)) (by decide)
  body hrest := by
    rw [List.append_assoc]
    exact .bodyExpr h.stmntExpr rfl trivial hrest
  stmnts hrest := by
    rw [List.append_assoc]
    exact .stmntsExpr h.stmntExpr rfl trivial hrest

theorem bind {p : Ptrn} {reach : Prec} {ptext : String} {ps : List Token}
    (hlexes : Lexes Closing ptext ps) (hptrn : Derives names .free (.ptrn false reach p) ps)
    (hreach : Prec.assign < reach) (h : Expr.Spelt names false text e ts) :
    Spelt names ("let " ++ ptext ++ " = " ++ text ++ ";") (.bind span p e)
      (sign .kwLet :: (ps ++ sign .assign :: (ts ++ [sign .semi]))) := by
  have hmark : Lexes Anything "let " [sign .kwLet] := lexes_spaced (by decide) (by decide)
  have hsign : Lexes Anything " = " [sign .assign] := lexes_between (by decide) (by decide)
  have hend : Lexes Closing ";" [sign .semi] := lexes_complete (by decide)
  have hall := (((hmark.snug hlexes).closed hsign (by decide)).snug h.lexes).closed hend (by decide)
  obtain ⟨_, hinit⟩ := h.whole
  exact of_binding (by simpa using hall) (.bindLet rfl hptrn hreach rfl hinit rfl trivial)

theorem define {id : Id} {name : String} {decl : DeclId} (hid : names.resolve? id.symbol = some name)
    (hname : IsName name) (h : Expr.Spelt names false text e ts) :
    Spelt names ("def " ++ name ++ " = " ++ text ++ ";") (.item ⟨span, id, e, decl, .unset⟩)
      (sign .kwDef :: named name :: sign .assign :: (ts ++ [sign .semi])) := by
  have hmark : Lexes Anything "def " [sign .kwDef] := lexes_spaced (by decide) (by decide)
  have hsign : Lexes Anything " = " [sign .assign] := lexes_between (by decide) (by decide)
  have hend : Lexes Closing ";" [sign .semi] := lexes_complete (by decide)
  have hall := (((hmark.snug (lexes_named hname)).closed hsign (by decide)).snug h.lexes).closed
    hend (by decide)
  obtain ⟨_, hvalue⟩ := h.whole
  exact of_binding (by simpa using hall)
    (.bindDef rfl ⟨rfl, ⟨name, rfl, hid⟩, trivial⟩ rfl hvalue rfl trivial)

/-- Between a name and its domain nothing is written, so the domain has to end the name. -/
theorem function {id : Id} {name : String} {decl : DeclId} {inner : Span} {d : Ptrn} {c b : Expr}
    (hid : names.resolve? id.symbol = some name) (hname : IsName name)
    (hlexes : Lexes Closing text ts) (hderives : Derives names .free (.function d c b) ts)
    (hends : closes text = true) :
    Spelt names ("fn " ++ name ++ text) (.item ⟨span, id, .lambda inner d c b, decl, .unset⟩)
      (sign .kwFn :: named name :: ts) := by
  have hmark : Lexes Anything "fn " [sign .kwFn] := lexes_spaced (by decide) (by decide)
  exact of_binding ((hmark.snug (lexes_named hname)).closed hlexes hends)
    (.bindFn rfl ⟨rfl, ⟨name, rfl, hid⟩, trivial⟩ hderives trivial trivial)

end Stmnt.Spelt

namespace Expr

variable {names : Interner} {element : Bool} {span : Span}

/-- A text is read as tokens that spell the statements and the value of a block. -/
structure Body (names : Interner) (text : String) (ss : List Stmnt) (value : Expr)
    (ts : List Token) : Prop where
  lexes : Lexes Closing text ts
  ends : text = "" ∨ closes text = true
  derives : ∀ close, Derives names .free (.body close ss value) ts

namespace Body

variable {text : String} {ss : List Stmnt} {value : Expr} {ts : List Token}

theorem unit : Body names "" [] (.emptyTuple span) [] :=
  ⟨Token.Lexes.empty, .inl rfl, fun _ => .bodyEnd trivial⟩

theorem last {e : Expr} (depth : Nat) (h : Spelt names false text e ts) :
    Body names (Print.newline depth ++ text) [] e ts :=
  have hline : Lexes Anything (Print.newline depth) [] := lexes_newline depth
  ⟨hline.snug h.lexes, .inr (closes_append (closes_newline depth) text),
    fun _ => .bodyValue h.stmntExpr⟩

theorem cons {s : Stmnt} {stext : String} {st : List Token} (depth : Nat)
    (hs : s.Spelt names stext st) (h : Body names text ss value ts) :
    Body names (Print.newline depth ++ stext ++ text) (s :: ss) value (st ++ ts) := by
  have hline : Lexes Anything (Print.newline depth) [] := lexes_newline depth
  exact ⟨(hline.snug hs.lexes).maybe h.lexes h.ends,
    .inr (closes_append (closes_append (closes_newline depth) _) _),
    fun close => hs.body (h.derives close)⟩

end Body

namespace Spelt

theorem block {ss : List Stmnt} {value : Expr} {text : String} {ts : List Token} (depth : Nat)
    (h : Body names text ss value ts) :
    Spelt names element ("\x7b" ++ text ++ Print.newline depth ++ "\x7d") (.block span ss value)
      (sign .lBrace :: (ts ++ [sign .rBrace])) where
  lexes := by
    have hopen : Lexes Anything "\x7b" [sign .lBrace] := lexes_complete (by decide)
    have hline : Lexes Anything (Print.newline depth) [] := lexes_newline depth
    have hend : Lexes Closing "\x7d" [sign .rBrace] := lexes_complete (by decide)
    have hall := ((hopen.snug h.lexes).closed hline (closes_newline depth)).snug hend
    simpa using hall
  derives := ⟨.bottom, .block rfl (h.derives _) rfl trivial⟩
  opens := nofun
  front := .of_first nofun fun _ => rfl

theorem block_unit : Spelt names element "\x7b\x7d" (.block span [] (.emptyTuple span))
    [sign .lBrace, sign .rBrace] where
  lexes := by
    have hopen : Lexes Anything "\x7b" [sign .lBrace] := lexes_complete (by decide)
    have hend : Lexes Closing "\x7d" [sign .rBrace] := lexes_complete (by decide)
    exact hopen.snug hend
  derives := ⟨.bottom, .block rfl (.bodyEnd trivial) rfl trivial⟩
  opens := nofun
  front := .of_first nofun fun _ => rfl

theorem block_value {e : Expr} {text : String} {ts : List Token}
    (h : Spelt names false text e ts) :
    Spelt names element ("\x7b " ++ text ++ " \x7d") (.block span [] e)
      (sign .lBrace :: (ts ++ [sign .rBrace])) where
  lexes := by
    have hopen : Lexes Anything "\x7b" [sign .lBrace] := lexes_complete (by decide)
    have hend : Lexes Closing "\x7d" [sign .rBrace] := lexes_complete (by decide)
    exact ((hopen.snug lexes_space).snug h.lexes).closed (lexes_space.snug hend) (by decide)
  derives := ⟨.bottom, .block rfl (.bodyValue h.stmntExpr) rfl trivial⟩
  opens := nofun
  front := .of_first nofun fun _ => rfl

theorem select {e : Expr} {as : List Arm} {etext text : String} {es ts : List Token} (depth : Nat)
    (h : Spelt names false etext e es) (hlexes : Lexes Anything text ts)
    (harms : Derives names .free (.arms as) ts) :
    Spelt names element ("match " ++ etext ++ " \x7b" ++ text ++ Print.newline depth ++ "\x7d")
      (.select span e as) (sign .kwMatch :: (es ++ sign .lBrace :: (ts ++ [sign .rBrace]))) where
  lexes := by
    have hmark : Lexes Anything "match " [sign .kwMatch] := lexes_spaced (by decide) (by decide)
    have hopen : Lexes Anything "\x7b" [sign .lBrace] := lexes_complete (by decide)
    have hline : Lexes Anything (Print.newline depth) [] := lexes_newline depth
    have hend : Lexes Closing "\x7d" [sign .rBrace] := lexes_complete (by decide)
    have hall := ((((hmark.snug h.lexes).closed (lexes_space.snug hopen) (by decide)).snug hlexes).snug
      hline).snug hend
    simpa using hall
  derives :=
    have ⟨_, hscrutinee⟩ := h.whole
    ⟨.bottom, .formSelect rfl hscrutinee rfl harms rfl trivial⟩
  opens := nofun
  front := .of_first nofun fun _ => rfl

end Spelt

end Expr

end ImpLang
