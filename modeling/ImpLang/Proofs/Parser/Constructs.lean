import ImpLang.Proofs.Parser.Accepts

/-!
How tuples, patterns, functions and control flow are read.
-/

namespace ImpLang

open Word (Free firstKind)

namespace Parser

variable {N : Interner} {place : Placement}

/-! ## Tuples and dependent tuples -/

section Tuples

variable {span : Span} {t u : Token} {e : Expr} {ts us : List Token}

theorem accepts_elemNamed {reach : Prec} {id : Id} (hid : t.Spells N place id)
    (hassign : u.kind = .assign) (he : Accepts N (.expr .bottom reach e) ts) :
    Accepts N (.elem ⟨some id, e⟩) (t :: u :: ts) := by
  intro n s k hs hn hclose
  simp only [List.length_cons] at hn
  have hnamed : s.kind = .identifier ∧ s.nextKind = .assign :=
    ⟨hs.kind.trans hid.kind, hs.nextKind.trans hassign⟩
  have hname : Takes elemName s (Token.words ts ++ k) fun M out => ∃ id', out = some id' ∧
      Symbol.Alike N M id.symbol id'.symbol := by
    refine .look rfl (.look rfl ?_)
    rw [if_pos hnamed]
    refine (takes_ident hid hs _).bind fun id' v hv _ _ => ?_
    refine .bump hv (by rw [Token.kind_word, hassign]; nofun) fun w hw _ => ?_
    exact .pure hw fun M _ hid => ⟨id', rfl, hid⟩
  refine hname.bind fun out v hv _ _ => ?_
  refine (he.takes_closed hv (by omega) hclose (Prec.le_refl _)).bind fun e' w hw _ _ => ?_
  refine .pure hw fun M _ he hid => ?_
  obtain ⟨id', rfl, hid⟩ := hid
  exact .named hid he .nil

theorem accepts_elemPlain {reach : Prec} (hts : ts ≠ [])
    (he : Accepts N (.expr .bottom reach e) ts)
    (hplain : ∀ t u us, ts = t :: u :: us → t.kind = .identifier → u.kind ≠ .assign) :
    Accepts N (.elem ⟨none, e⟩) ts := by
  intro n s k hs hn hclose
  have hname : ¬ (s.kind = .identifier ∧ s.nextKind = .assign) := by
    rintro ⟨hident, hassign⟩
    rw [hs.kind, Word.firstKind_append hts] at hident
    rw [hs.nextKind] at hassign
    match ts, k with
    | [], _ => exact hts rfl
    | [t], [] => cases hident.symm.trans hassign
    | [t], w :: k =>
      have hkind : w.kind = .assign := hassign
      rw [Word.firstKind_cons, hkind] at hclose
      cases hclose
    | t :: u :: us, k => exact hplain t u us rfl hident hassign
  have hnone : Takes elemName s (Token.words ts ++ k) fun _ out => out = none := by
    refine .look rfl (.look rfl ?_)
    rw [if_neg hname]
    exact .pure hs fun _ _ => rfl
  refine hnone.bind fun out s hs _ hout => ?_
  subst hout
  refine (he.takes_closed hs hn hclose (Prec.le_refl _)).bind fun e' v hv _ _ => ?_
  exact .pure hv fun M _ he _ => .plain he .nil

/-- The begin of a list of elements, and what follows the first. -/
theorem takes_tupleElemsTurn {el : Elem} (hts : ts ≠ [])
    (hstart : (Token.firstKind ts).startsExpr = true) (hfit : el.expr.isError = false)
    (hel : Accepts N (.elem el) ts) {n : Nat} {s : State} {k k' : List Word}
    {Q : Interner → Turn (List Elem × Bool) → Prop} (hs : s.Faces (Token.words ts ++ k))
    (hn : 4 * (ts.length + k.length) ≤ n + 2) (hclose : (firstKind k).closes = true)
    (hgo : ∀ id e v, v.Faces k →
      Takes (do
        if ← acceptSeparator then return .goOn fun (elems, _) => (⟨id, e⟩ :: elems, true)
        else return .leave ([⟨id, e⟩], false)) v k' fun M turn =>
          Elem.AlikeList N M [el] [⟨id, e⟩] → Q M turn) :
    Takes (tupleElemsTurn (rules n)) s k' Q := by
  rw [tupleElemsTurn]
  have hkind : s.kind = Token.firstKind ts := by rw [hs.kind, Word.firstKind_append hts]
  refine .look rfl ?_
  rw [hkind]
  split
  · next hk => rw [hk] at hstart; cases hstart
  · next hk => rw [hk] at hstart; cases hstart
  · refine (hel n s k hs hn hclose).bind₂ fun id e v hv _ hsame => ?_
    have herror : e.isError = false := by
      cases hsame with
      | plain he _ => rw [← he.isError, ← hfit]
      | named _ he _ => rw [← he.isError, ← hfit]
    rw [if_neg (by rw [herror]; nofun)]
    exact hgo id e v hv

theorem accepts_elemsNil : Accepts N (.elems [] false) [] := by
  intro n s k hs hn hparen
  have hleft := hs.left
  rw [Token.words_nil, List.nil_append] at hleft
  rw [List.length_nil] at hn
  obtain ⟨n, rfl⟩ : ∃ m, n = m + 1 := ⟨n - 1, by omega⟩
  show Takes (tupleElems (rules n)) s k _
  refine .leave (.look rfl ?_)
  rw [hs.kind.trans hparen]
  exact .pure hs fun _ _ => ⟨_, rfl, ⟨.nil, rfl⟩⟩

theorem accepts_elemsOne {el : Elem} (hts : ts ≠ [])
    (hstart : (Token.firstKind ts).startsExpr = true) (hfit : el.expr.isError = false)
    (hel : Accepts N (.elem el) ts) : Accepts N (.elems [el] false) ts := by
  intro n s k hs hn hparen
  have hlength := List.length_pos_iff.2 hts
  obtain ⟨n, rfl⟩ : ∃ m, n = m + 1 := ⟨n - 1, by omega⟩
  show Takes (tupleElems (rules n)) s k _
  refine .leave (takes_tupleElemsTurn hts hstart hfit hel hs (by omega) (by rw [hparen]; rfl) ?_)
  intro id e v hv
  refine .noSeparator hv (by rw [hparen]; rfl) ?_
  exact .pure hv fun M _ hel => ⟨_, rfl, hel, rfl⟩

theorem accepts_elemsCons {el : Elem} {es : List Elem} {separated : Bool} (hts : ts ≠ [])
    (hstart : (Token.firstKind ts).startsExpr = true) (hfit : el.expr.isError = false)
    (hel : Accepts N (.elem el) ts) (hseparator : t.kind.isSeparator = true)
    (hes : Accepts N (.elems es separated) us) :
    Accepts N (.elems (el :: es) true) (ts ++ t :: us) := by
  intro n s k hs hn hparen
  simp only [List.length_append, List.length_cons] at hn
  simp only [Token.words_append, Token.words_cons, List.append_assoc, List.cons_append] at hs
  obtain ⟨n, rfl⟩ : ∃ m, n = m + 1 := ⟨n - 1, by omega⟩
  show Takes (tupleElems (rules n)) s k _
  refine .goOn (takes_tupleElemsTurn hts hstart hfit hel hs (by simp; omega)
    (TokenKind.closes_of_separator hseparator) ?_) fun w hw _ => hes n w k hw (by omega) hparen
  intro id e v hv
  refine .separator hv hseparator fun w hw _ => .pure hw fun M _ hel => ⟨_, rfl, ?_⟩
  intro out hes
  exact ⟨hel.of_first hes.1, rfl⟩

/-- A parenthesised list. What becomes of its elements depends on how many they are. -/
theorem accepts_parens {es : List Elem} {separated : Bool} (hopen : t.kind = .lParen)
    (hes : Accepts N (.elems es separated) ts) (hclose : u.kind = .rParen)
    (he : separated = false ∧ es = [⟨none, e⟩] ∨
      (separated = false → ∀ e, es ≠ [⟨none, e⟩]) ∧ e = .tuple span es) :
    Accepts N (.parens (e.withSpan span)) (t :: (ts ++ [u])) := by
  intro n s k hs hn
  simp only [List.length_append, List.length_cons, List.length_nil] at hn
  simp only [Token.words_cons, Token.words_append, List.cons_append, List.append_assoc] at hs
  refine .look rfl (.bump hs (by rw [Token.kind_word, hopen]; nofun) fun v hv _ => ?_)
  refine (hes n v _ hv (by simp; omega) hclose).bind fun out w hw _ hout => ?_
  obtain ⟨es', separated'⟩ := out
  obtain ⟨hes', rfl⟩ := hout
  refine .expect nofun hw hclose fun x hx _ => .look rfl ?_
  rcases he with ⟨hseparated, rfl⟩ | ⟨hseveral, rfl⟩
  · cases hes' with
    | plain _ hnil =>
      cases hnil
      have hlone : separated' = false := hseparated
      subst hlone
      refine .pure hx fun M _ hes => ?_
      cases hes.1 with
      | plain he _ => exact he.withSpan _ _
  · rw [grouping.eq_def]
    split
    · next hone =>
      cases hone
      cases hes' with
      | plain _ hnil =>
        cases hnil
        exact absurd rfl (hseveral rfl _)
    · next hsame =>
      cases hsame
      exact .pure hx fun M _ hes => .tuple hes.1

theorem accepts_sigmaElemNamed {reach : Prec} {id : Id} {decl : DeclId}
    (hid : t.Spells N place id) (hcolon : u.kind = .colon)
    (he : Accepts N (.expr .bottom reach e) ts) :
    Accepts N (.sigmaElem (.name span id decl (some e) true)) (t :: u :: ts) := by
  intro n s k hs hn hclose
  simp only [List.length_cons] at hn
  have hnamed : s.kind = .identifier ∧ s.nextKind = .colon :=
    ⟨hs.kind.trans hid.kind, hs.nextKind.trans hcolon⟩
  refine .look rfl (.look rfl (.look rfl ?_))
  rw [if_pos hnamed]
  refine (takes_ident hid hs _).bind fun id' v hv _ _ => ?_
  refine .declare id' nofun hv fun decl' w hw _ => ?_
  refine .bump hw (by rw [Token.kind_word, hcolon]; nofun) fun x hx _ => ?_
  refine (he.takes_closed hx (by omega) hclose (Prec.le_refl _)).bind fun e' y hy _ _ => ?_
  exact .look rfl (.pure hy fun M _ he hid => .name hid (.some he))

theorem accepts_sigmaElemPlain {reach : Prec} {symbol : Symbol} {decl : DeclId} (hts : ts ≠ [])
    (he : Accepts N (.expr .bottom reach e) ts)
    (hplain : ∀ t u us, ts = t :: u :: us → t.kind = .identifier → u.kind ≠ .colon)
    (hwildcard : N.resolve? symbol = some Interner.wildcard) :
    Accepts N (.sigmaElem (.name e.span ⟨symbol, e.span⟩ decl (some e) true)) ts := by
  intro n s k hs hn hclose
  have hname : ¬ (s.kind = .identifier ∧ s.nextKind = .colon) := by
    rintro ⟨hident, hcolon⟩
    rw [hs.kind, Word.firstKind_append hts] at hident
    rw [hs.nextKind] at hcolon
    match ts, k with
    | [], _ => exact hts rfl
    | [t], [] => cases hident.symm.trans hcolon
    | [t], w :: k =>
      have hkind : w.kind = .colon := hcolon
      rw [Word.firstKind_cons, hkind] at hclose
      cases hclose
    | t :: u :: us, k => exact hplain t u us rfl hident hcolon
  refine .look rfl (.look rfl (.look rfl ?_))
  rw [if_neg hname]
  refine (he.takes_closed hs hn hclose (Prec.le_refl _)).bind fun e' v hv _ _ => ?_
  refine .step rfl (.intern v Interner.wildcard) ?_
  have hinterned := hv.intern Interner.wildcard
  refine .step rfl (.declare _ _ nofun) (.pure (hinterned.declare _ _) fun M hM he => ?_)
  exact .name ⟨_, hwildcard,
    Interner.resolve?_of_le hM (v.names.resolve?_intern Interner.wildcard)⟩ (.some he)

theorem accepts_sigmaElemsNil : Accepts N (.sigmaElems []) [] := by
  intro n s k hs hn hbracket
  have hleft := hs.left
  rw [Token.words_nil, List.nil_append] at hleft
  rw [List.length_nil] at hn
  obtain ⟨n, rfl⟩ : ∃ m, n = m + 1 := ⟨n - 1, by omega⟩
  show Takes (sigmaElems (rules n)) s k _
  refine .leave (.look rfl ?_)
  rw [hs.kind.trans hbracket]
  exact .pure hs fun _ _ => ⟨_, rfl, .nil⟩

/-- The begin of a list of elements, and what follows the first. -/
theorem takes_sigmaElemsTurn {p : Ptrn} (hts : ts ≠ [])
    (hstart : (Token.firstKind ts).startsExpr = true)
    (hfit : (p.ty?.map Expr.isError).getD false = false) (hp : Accepts N (.sigmaElem p) ts) {n : Nat}
    {s : State} {k k' : List Word} {Q : Interner → Turn (List Ptrn) → Prop}
    (hs : s.Faces (Token.words ts ++ k)) (hn : 4 * (ts.length + k.length) ≤ n + 2)
    (hclose : (firstKind k).closes = true)
    (hgo : ∀ p' v, v.Faces k →
      Takes (do
        if ← acceptSeparator then return .goOn (p' :: ·)
        else return .leave [p']) v k' fun M turn => Ptrn.Alike N M p p' → Q M turn) :
    Takes (sigmaElemsTurn (rules n)) s k' Q := by
  rw [sigmaElemsTurn]
  have hkind : s.kind = Token.firstKind ts := by rw [hs.kind, Word.firstKind_append hts]
  refine .look rfl ?_
  rw [hkind]
  split
  · next hk => rw [hk] at hstart; cases hstart
  · next hk => rw [hk] at hstart; cases hstart
  · refine (hp n s k hs hn hclose).bind fun p' v hv _ hsame => ?_
    rw [if_neg (by rw [← hsame.isError_ty?, hfit]; nofun)]
    exact hgo p' v hv

theorem accepts_sigmaElemsOne {p : Ptrn} (hts : ts ≠ [])
    (hstart : (Token.firstKind ts).startsExpr = true)
    (hfit : (p.ty?.map Expr.isError).getD false = false) (hp : Accepts N (.sigmaElem p) ts) :
    Accepts N (.sigmaElems [p]) ts := by
  intro n s k hs hn hbracket
  have hlength := List.length_pos_iff.2 hts
  obtain ⟨n, rfl⟩ : ∃ m, n = m + 1 := ⟨n - 1, by omega⟩
  show Takes (sigmaElems (rules n)) s k _
  refine .leave (takes_sigmaElemsTurn hts hstart hfit hp hs (by omega) (by rw [hbracket]; rfl) ?_)
  intro p' v hv
  refine .noSeparator hv (by rw [hbracket]; rfl) ?_
  exact .pure hv fun M _ hp => ⟨_, rfl, .cons hp .nil⟩

theorem accepts_sigmaElemsCons {p : Ptrn} {ps : List Ptrn} (hts : ts ≠ [])
    (hstart : (Token.firstKind ts).startsExpr = true)
    (hfit : (p.ty?.map Expr.isError).getD false = false) (hp : Accepts N (.sigmaElem p) ts)
    (hseparator : t.kind.isSeparator = true) (hps : Accepts N (.sigmaElems ps) us) :
    Accepts N (.sigmaElems (p :: ps)) (ts ++ t :: us) := by
  intro n s k hs hn hbracket
  simp only [List.length_append, List.length_cons] at hn
  simp only [Token.words_append, Token.words_cons, List.append_assoc, List.cons_append] at hs
  obtain ⟨n, rfl⟩ : ∃ m, n = m + 1 := ⟨n - 1, by omega⟩
  show Takes (sigmaElems (rules n)) s k _
  refine .goOn (takes_sigmaElemsTurn hts hstart hfit hp hs (by simp; omega)
    (TokenKind.closes_of_separator hseparator) ?_) fun w hw _ => hps n w k hw (by omega) hbracket
  intro p' v hv
  exact .separator hv hseparator fun w hw _ =>
    .pure hw fun M _ hp => ⟨_, rfl, fun ps' hps => .cons hp hps⟩

theorem accepts_sigma {ps : List Ptrn} (hopen : t.kind = .lBracket)
    (hps : Accepts N (.sigmaElems ps) ts) (hclose : u.kind = .rBracket) :
    Accepts N (.operand .postfixed (.sigma span ps)) (t :: (ts ++ [u])) := by
  refine accepts_of_primary (List.cons_ne_nil _ _) (by rw [Token.firstKind_cons, hopen]; rfl) rfl ?_
  intro n construct s k hs hn _ _
  simp only [List.length_append, List.length_cons, List.length_nil] at hn
  simp only [Token.words_cons, Token.words_append, List.cons_append, List.append_assoc] at hs
  refine .look rfl ?_
  rw [hs.kind.trans hopen]
  refine .look rfl (.bump hs (by rw [Token.kind_word, hopen]; nofun) fun v hv _ => ?_)
  refine (hps n v _ hv (by simp; omega) hclose).bind fun ps' w hw _ _ => ?_
  refine .expect nofun hw hclose fun x hx _ => .look rfl ?_
  exact .pure hx fun M _ hps => .sigma hps

end Tuples

/-! ## Patterns -/

section Patterns

variable {typed : Bool} {reach : Prec} {span : Span} {t u : Token} {ts us : List Token}

theorem accepts_ascriptionNone : Accepts N (.ascription .postfixed none) [] := by
  intro n s k hs hn hfree _
  refine .decline hs hfree.colon ?_
  exact .pure hs fun _ _ => .none

theorem accepts_ascriptionSome {inner : Prec} {e : Expr} (hcolon : t.kind = .colon)
    (he : Accepts N (.expr .orOr inner e) ts) (hwithin : reach ≤ inner) (hlevel : reach ≤ .orOr) :
    Accepts N (.ascription reach (some e)) (t :: ts) := by
  intro n s k hs hn hfree hleaves
  rw [List.length_cons] at hn
  have hstops : Word.Stops reach k := by
    rcases hleaves with rfl | hstops
    · exact absurd hlevel (by decide)
    · exact hstops
  refine .accept nofun hs hcolon fun v hv _ => ?_
  refine (he.takes_expr hv (by omega) hfree (hstops.mono hwithin) (Prec.le_refl _)
    (hstops.mono hlevel)).bind fun e' w hw _ _ => ?_
  exact .pure hw fun M _ he => .some he

theorem accepts_ptrnName {id : Id} {decl : DeclId} {ty : Option Expr} (hid : t.Spells N place id)
    (hty : Accepts N (.ascription reach ty) ts) :
    Accepts N (.ptrn typed reach (.name span id decl ty typed)) (t :: ts) := by
  intro n construct s k hs hn hfree hleaves
  rw [List.length_cons] at hn
  obtain ⟨n, rfl⟩ : ∃ m, n = m + 1 := ⟨n - 1, by omega⟩
  show Takes (ptrn (rules n) typed construct) s k _
  refine .look rfl (.look rfl ?_)
  rw [hs.kind.trans hid.kind]
  refine (takes_ident hid hs _).bind fun id' v hv _ _ => ?_
  refine .declare id' nofun hv fun decl' w hw _ => ?_
  refine (hty n w k hw (by omega) hfree hleaves).bind fun ty' x hx _ _ => .look rfl ?_
  exact .pure hx fun M _ hty hid => .name hid hty

theorem accepts_ptrnTuple {ps : List Ptrn} {ty : Option Expr} (hopen : t.kind = .lParen)
    (hps : Accepts N (.ptrns typed ps) ts) (hclose : u.kind = .rParen)
    (hty : Accepts N (.ascription reach ty) us) :
    Accepts N (.ptrn typed reach (.tuple span ps ty typed)) (t :: (ts ++ u :: us)) := by
  intro n construct s k hs hn hfree hleaves
  simp only [List.length_append, List.length_cons] at hn
  simp only [Token.words_cons, Token.words_append, List.cons_append, List.append_assoc] at hs
  obtain ⟨n, rfl⟩ : ∃ m, n = m + 1 := ⟨n - 1, by omega⟩
  show Takes (ptrn (rules n) typed construct) s k _
  refine .look rfl (.look rfl ?_)
  rw [hs.kind.trans hopen]
  refine .bump hs (by rw [Token.kind_word, hopen]; nofun) fun v hv _ => ?_
  refine (hps n v _ hv (by simp; omega) hclose).bind fun ps' w hw _ _ => ?_
  refine .expect nofun hw hclose fun x hx _ => ?_
  refine (hty n x k hx (by omega) hfree hleaves).bind fun ty' y hy _ _ => .look rfl ?_
  exact .pure hy fun M _ hty hps => .tuple hps hty

theorem accepts_ptrnsNil : Accepts N (.ptrns typed []) [] := by
  intro n s k hs hn hparen
  have hleft := hs.left
  rw [Token.words_nil, List.nil_append] at hleft
  rw [List.length_nil] at hn
  obtain ⟨n, rfl⟩ : ∃ m, n = m + 1 := ⟨n - 1, by omega⟩
  show Takes (ptrnElems (rules n) typed) s k _
  refine .leave (.look rfl ?_)
  rw [hs.kind.trans hparen]
  exact .pure hs fun _ _ => ⟨_, rfl, .nil⟩

/-- The begin of a list of patterns, and what follows the first. -/
theorem takes_ptrnElemsTurn {p : Ptrn} (hts : ts ≠ [])
    (hstart : Token.firstKind ts = .identifier ∨ Token.firstKind ts = .lParen)
    (hfit : p.isError = false) (hp : Accepts N (.ptrn typed reach p) ts) {n : Nat}
    {s : State} {k k' : List Word} {Q : Interner → Turn (List Ptrn) → Prop}
    (hs : s.Faces (Token.words ts ++ k)) (hn : 4 * (ts.length + k.length) ≤ n + 3)
    (hclose : (firstKind k).closes = true)
    (hgo : ∀ p' v, v.Faces k →
      Takes (do
        if ← acceptSeparator then return .goOn (p' :: ·)
        else return .leave [p']) v k' fun M turn => Ptrn.Alike N M p p' → Q M turn) :
    Takes (ptrnElemsTurn (rules n) typed) s k' Q := by
  rw [ptrnElemsTurn]
  have hkind : s.kind = Token.firstKind ts := by rw [hs.kind, Word.firstKind_append hts]
  refine .look rfl ?_
  rw [hkind]
  split
  · next hk => simp [hk] at hstart
  · next hk => simp [hk] at hstart
  · refine (hp n _ s k hs hn (.of_closes hclose) (.inr (.of_closes hclose _ _))).bind
      fun p' v hv _ hsame => ?_
    rw [if_neg (by rw [← hsame.isError, hfit]; nofun)]
    exact hgo p' v hv

theorem accepts_ptrnsOne {p : Ptrn} (hts : ts ≠ [])
    (hstart : Token.firstKind ts = .identifier ∨ Token.firstKind ts = .lParen)
    (hfit : p.isError = false) (hp : Accepts N (.ptrn typed reach p) ts) :
    Accepts N (.ptrns typed [p]) ts := by
  intro n s k hs hn hparen
  have hlength := List.length_pos_iff.2 hts
  obtain ⟨n, rfl⟩ : ∃ m, n = m + 1 := ⟨n - 1, by omega⟩
  show Takes (ptrnElems (rules n) typed) s k _
  refine .leave (takes_ptrnElemsTurn hts hstart hfit hp hs (by omega) (by rw [hparen]; rfl) ?_)
  intro p' v hv
  refine .noSeparator hv (by rw [hparen]; rfl) ?_
  exact .pure hv fun M _ hp => ⟨_, rfl, .cons hp .nil⟩

theorem accepts_ptrnsCons {p : Ptrn} {ps : List Ptrn} (hts : ts ≠ [])
    (hstart : Token.firstKind ts = .identifier ∨ Token.firstKind ts = .lParen)
    (hfit : p.isError = false) (hp : Accepts N (.ptrn typed reach p) ts)
    (hseparator : t.kind.isSeparator = true) (hps : Accepts N (.ptrns typed ps) us) :
    Accepts N (.ptrns typed (p :: ps)) (ts ++ t :: us) := by
  intro n s k hs hn hparen
  simp only [List.length_append, List.length_cons] at hn
  simp only [Token.words_append, Token.words_cons, List.append_assoc, List.cons_append] at hs
  obtain ⟨n, rfl⟩ : ∃ m, n = m + 1 := ⟨n - 1, by omega⟩
  show Takes (ptrnElems (rules n) typed) s k _
  refine .goOn (takes_ptrnElemsTurn hts hstart hfit hp hs (by simp; omega)
    (TokenKind.closes_of_separator hseparator) ?_) fun w hw _ => hps n w k hw (by omega) hparen
  intro p' v hv
  exact .separator hv hseparator fun w hw _ =>
    .pure hw fun M _ hp => ⟨_, rfl, fun ps' hps => .cons hp hps⟩

end Patterns

/-! ## Functions and their types -/

section Functions

variable {reach reach' : Prec} {span : Span} {t u v : Token} {d : Ptrn} {c b e : Expr}
  {ts us ds cs bs : List Token}

theorem accepts_codomainOpen : Accepts N (.codomain ds (.unknown span)) [] := by
  intro n construct s k hs hn hbrace
  have hs : s.Faces k := hs
  refine .decline hs (by rw [hbrace]; nofun) ?_
  exact .look rfl (.pure hs fun _ _ => .unknown)

theorem accepts_codomainWritten (harrow : t.kind = .arrow)
    (hc : Accepts N (.expr .orOr reach c) ts) : Accepts N (.codomain ds c) (t :: ts) := by
  intro n construct s k hs hn hbrace
  rw [List.length_cons] at hn
  refine .accept nofun hs harrow fun w hw _ => ?_
  exact hc.takes_closed hw (by omega) (by rw [hbrace]; rfl) (Prec.le_refl _)

theorem accepts_function (hd : Accepts N (.ptrn true reach d) ds)
    (hc : Accepts N (.codomain ds c) cs) (hcs : cs = [] ∨ Token.firstKind cs = .arrow)
    (hb : Accepts N (.block b) bs) (hbs : bs ≠ []) (hbrace : Token.firstKind bs = .lBrace) :
    Accepts N (.function d c b) (ds ++ (cs ++ bs)) := by
  intro n inDomain inCodomain inBody s k hs hn
  simp only [List.length_append] at hn
  simp only [Token.words_append, List.append_assoc] at hs
  -- A domain is followed by an arrow or a brace, which belong to no pattern.
  have hclose : (firstKind (Token.words cs ++ (Token.words bs ++ k))).closes = true := by
    rcases hcs with rfl | hcs
    · rw [Token.words_nil, List.nil_append, Word.firstKind_append hbs, hbrace]
      rfl
    · cases cs with
      | nil => cases hcs
      | cons w cs =>
        rw [Word.firstKind_append (List.cons_ne_nil _ _), hcs]
        rfl
  refine (hd n _ s _ hs (by simp; omega) (.of_closes hclose)
    (.inr (.of_closes hclose _ _))).bind fun d' w hw _ _ => ?_
  refine (hc n _ w _ hw (by simp; omega) ?_).bind fun c' x hx _ _ => ?_
  · rw [Word.firstKind_append hbs, hbrace]
  refine (hb n _ x k hx (by omega)).bind fun b' y hy _ _ => ?_
  exact .pure hy fun M _ hb hc hd => ⟨hd, hc, hb⟩

/-- A function in front of what follows it. -/
theorem Accepts.takes_function {β : Type} {f : Ptrn → Expr → Expr → Parser β}
    {inDomain inCodomain inBody : String} (h : Accepts N (.function d c b) ts) {n : Nat} {s : State}
    {k k' : List Word} {Q : Interner → β → Prop} (hs : s.Faces (Token.words ts ++ k))
    (hn : 4 * (ts.length + k.length) ≤ n + 3)
    (hgo : ∀ d' c' b' w, w.Faces k → Takes (f d' c' b') w k' fun M out =>
      Ptrn.Alike N M d d' → Expr.Alike N M c c' → Expr.Alike N M b b' → Q M out) :
    Takes (do
      let d ← (rules n).ptrn true inDomain
      let c ← codomain (rules n) inCodomain
      let b ← (rules n).block inBody
      f d c b) s k' Q := by
  have hrun : Takes ((do
      let d ← (rules n).ptrn true inDomain
      let c ← codomain (rules n) inCodomain
      let b ← (rules n).block inBody
      return (d, c, b)) >>= fun out => f out.1 out.2.1 out.2.2) s k' Q := by
    refine (h n inDomain inCodomain inBody s k hs hn).bind fun out w hw _ _ => ?_
    refine (hgo out.1 out.2.1 out.2.2 w hw).mono ?_
    rintro M a ha ⟨hd, hc, hb⟩
    exact ha hd hc hb
  simpa only [bind_assoc, pure_bind] using hrun

theorem accepts_lambda (hk : t.kind = .lambda) (h : Accepts N (.function d c b) ts) :
    Accepts N (.operand .postfixed (.lambda span d c b)) (t :: ts) := by
  refine accepts_of_primary (List.cons_ne_nil _ _) (by rw [Token.firstKind_cons, hk]; rfl) rfl ?_
  intro n construct s k hs hn _ _
  rw [List.length_cons] at hn
  refine .look rfl ?_
  rw [hs.kind.trans hk]
  refine .look rfl (.bump hs (by rw [Token.kind_word, hk]; nofun) fun w hw _ => ?_)
  refine h.takes_function hw (by omega) fun d' c' b' x hx => .look rfl ?_
  exact .pure hx fun M _ hd hc hb => .lambda hd hc hb

theorem accepts_pi (hk : t.kind = .pi) (hd : Accepts N (.ptrn true reach d) ts)
    (harrow : u.kind = .arrow) (hc : Accepts N (.expr .bottom reach' c) us) :
    Accepts N (.operand .bottom (.pi span d c)) (t :: (ts ++ u :: us)) := by
  refine accepts_of_primary (List.cons_ne_nil _ _) (by rw [Token.firstKind_cons, hk]; rfl) rfl ?_
  intro n construct s k hs hn hfree hleaves
  simp only [List.length_append, List.length_cons] at hn
  simp only [Token.words_cons, Token.words_append, List.cons_append, List.append_assoc] at hs
  have hstops : Word.Stops .bottom k := hleaves.resolve_left nofun
  have hclose : u.word.kind.closes = true := by
    rw [Token.kind_word, harrow]
    rfl
  refine .look rfl ?_
  rw [hs.kind.trans hk]
  refine .look rfl (.bump hs (by rw [Token.kind_word, hk]; nofun) fun w hw _ => ?_)
  refine (hd n _ w _ hw (by simp; omega) (.of_closes hclose)
    (.inr (.of_closes hclose _ _))).bind fun d' x hx _ _ => ?_
  refine .expect nofun hx harrow fun y hy _ => ?_
  refine (hc.takes_expr hy (by omega) hfree (hstops.mono (Nat.zero_le _)) (Prec.le_refl _)
    hstops).bind fun c' z hz _ _ => .look rfl ?_
  exact .pure hz fun M _ hc hd => .pi hd hc

theorem accepts_continuation {inner : Span} (hk : t.kind = .kwCn)
    (hd : Accepts N (.ptrn true reach d) ts) :
    Accepts N (.operand reach (.pi span d (.bottom inner))) (t :: ts) := by
  refine accepts_of_primary (List.cons_ne_nil _ _) (by rw [Token.firstKind_cons, hk]; rfl) rfl ?_
  intro n construct s k hs hn hfree hleaves
  rw [List.length_cons] at hn
  refine .look rfl ?_
  rw [hs.kind.trans hk]
  refine .look rfl (.bump hs (by rw [Token.kind_word, hk]; nofun) fun w hw _ => ?_)
  refine (hd n _ w k hw (by omega) hfree hleaves).bind fun d' x hx _ _ => .look rfl (.look rfl ?_)
  exact .pure hx fun M _ hd => .pi hd .bottom

/-- A pattern, a semicolon, an expression and a closing bracket in front of what follows them. -/
theorem takes_bracketed {β : Type} {close : TokenKind} {inDomain inBody inBracket : String}
    {f : Ptrn → Expr → Parser β} (hclose : close.closes = true) (heof : close ≠ .eof)
    (hd : Accepts N (.ptrn false reach d) ts) (hsemi : u.kind = .semi)
    (he : Accepts N (.expr .bottom reach' e) us) (hv : v.kind = close) {n : Nat} {s : State}
    {k k' : List Word} {Q : Interner → β → Prop}
    (hs : s.Faces (Token.words (ts ++ u :: (us ++ [v])) ++ k))
    (hn : 4 * ((ts ++ u :: (us ++ [v])).length + k.length) ≤ n + 3)
    (hgo : ∀ d' e' w, w.Faces k → Takes (f d' e') w k' fun M out =>
      Ptrn.Alike N M d d' → Expr.Alike N M e e' → Q M out) :
    Takes (do
      let d ← (rules n).ptrn false inDomain
      let _ ← expect .semi inBracket
      let e ← (rules n).expr .bottom inBody
      let _ ← expect close inBracket
      f d e) s k' Q := by
  simp only [List.length_append, List.length_cons, List.length_nil] at hn
  simp only [Token.words_cons, Token.words_append, List.cons_append, List.append_assoc] at hs
  have hfirst : u.word.kind.closes = true := by
    rw [Token.kind_word, hsemi]
    rfl
  have hsecond : v.word.kind.closes = true := by rwa [Token.kind_word, hv]
  refine (hd n _ s _ hs (by simp; omega) (.of_closes hfirst)
    (.inr (.of_closes hfirst _ _))).bind fun d' w hw _ _ => ?_
  refine .expect nofun hw hsemi fun x hx _ => ?_
  refine (he.takes_closed hx (by simp; omega) hsecond (Prec.le_refl _)).bind fun e' y hy _ _ => ?_
  refine .expect heof hy hv fun z hz _ => ?_
  refine (hgo d' e' z hz).mono ?_
  intro M out hout he hd
  exact hout hd he

theorem accepts_pack (hopen : t.kind = .lPack) (hd : Accepts N (.ptrn false reach d) ts)
    (hsemi : u.kind = .semi) (he : Accepts N (.expr .bottom reach' e) us) (hclose : v.kind = .rPack) :
    Accepts N (.operand .postfixed (.pack span d e)) (t :: (ts ++ u :: (us ++ [v]))) := by
  refine accepts_of_primary (List.cons_ne_nil _ _) (by rw [Token.firstKind_cons, hopen]; rfl) rfl ?_
  intro n construct s k hs hn _ _
  rw [List.length_cons] at hn
  refine .look rfl ?_
  rw [hs.kind.trans hopen]
  refine .look rfl (.bump hs (by rw [Token.kind_word, hopen]; nofun) fun w hw _ => ?_)
  refine takes_bracketed rfl (by nofun) hd hsemi he hclose hw (by omega) fun d' e' x hx => .look rfl ?_
  exact .pure hx fun M _ hd he => .pack hd he

theorem accepts_variadic (hopen : t.kind = .lVariadic) (hd : Accepts N (.ptrn false reach d) ts)
    (hsemi : u.kind = .semi) (he : Accepts N (.expr .bottom reach' e) us)
    (hclose : v.kind = .rVariadic) :
    Accepts N (.operand .postfixed (.variadic span d e)) (t :: (ts ++ u :: (us ++ [v]))) := by
  refine accepts_of_primary (List.cons_ne_nil _ _) (by rw [Token.firstKind_cons, hopen]; rfl) rfl ?_
  intro n construct s k hs hn _ _
  rw [List.length_cons] at hn
  refine .look rfl ?_
  rw [hs.kind.trans hopen]
  refine .look rfl (.bump hs (by rw [Token.kind_word, hopen]; nofun) fun w hw _ => ?_)
  refine takes_bracketed rfl (by nofun) hd hsemi he hclose hw (by omega) fun d' e' x hx => .look rfl ?_
  exact .pure hx fun M _ hd he => .variadic hd he

end Functions

/-! ## Control flow -/

section Forms

variable {reach reach' : Prec} {span : Span} {t u v : Token} {p : Ptrn} {e b c y no : Expr}
  {ts us vs ys : List Token}

theorem accepts_formBlock (hts : ts ≠ []) (hbrace : Token.firstKind ts = .lBrace)
    (h : Accepts N (.block e) ts) : Accepts N (.form e) ts := by
  intro n construct s k hs hn _
  refine .look rfl ?_
  rw [hs.kind, Word.firstKind_append hts, hbrace]
  exact h n construct s k hs hn

theorem accepts_formBranch (hts : ts ≠ []) (hif : Token.firstKind ts = .kwIf)
    (h : Accepts N (.branch e) ts) : Accepts N (.form e) ts := by
  intro n construct s k hs hn helse
  refine .look rfl ?_
  rw [hs.kind, Word.firstKind_append hts, hif]
  exact h n s k hs hn helse

theorem accepts_formSelect {as : List Arm} (hk : t.kind = .kwMatch)
    (he : Accepts N (.expr .bottom reach e) ts) (hopen : u.kind = .lBrace)
    (has : Accepts N (.arms as) us) (hclose : v.kind = .rBrace) :
    Accepts N (.form (.select span e as)) (t :: (ts ++ u :: (us ++ [v]))) := by
  intro n construct s k hs hn _
  simp only [List.length_append, List.length_cons, List.length_nil] at hn
  simp only [Token.words_cons, Token.words_append, List.cons_append, List.append_assoc] at hs
  refine .look rfl ?_
  rw [hs.kind.trans hk]
  refine .look rfl (.bump hs (by rw [Token.kind_word, hk]; nofun) fun w hw _ => ?_)
  refine (he.takes_closed hw (by simp; omega) ?_ (Prec.le_refl _)).bind fun e' x hx _ _ => ?_
  · rw [Word.firstKind_cons, Token.kind_word, hopen]
    rfl
  refine .expect nofun hx hopen fun y hy _ => ?_
  rw [if_pos rfl]
  refine (has n y _ hy (by simp; omega) hclose).bind fun as' z hz _ _ => ?_
  refine .expect nofun hz hclose fun z' hz' _ => .look rfl ?_
  exact .pure hz' fun M _ has he => .select he has

theorem accepts_formFor (hk : t.kind = .kwFor) (hp : Accepts N (.ptrn false reach p) ts)
    (hin : u.kind = .kwIn) (he : Accepts N (.expr .bottom reach' e) us)
    (hb : Accepts N (.block b) vs) (hvs : vs ≠ []) (hbrace : Token.firstKind vs = .lBrace) :
    Accepts N (.form (.forLoop span p e b)) (t :: (ts ++ u :: (us ++ vs))) := by
  intro n construct s k hs hn _
  simp only [List.length_append, List.length_cons] at hn
  simp only [Token.words_cons, Token.words_append, List.cons_append, List.append_assoc] at hs
  have hclose : u.word.kind.closes = true := by
    rw [Token.kind_word, hin]
    rfl
  refine .look rfl ?_
  rw [hs.kind.trans hk]
  refine .look rfl (.bump hs (by rw [Token.kind_word, hk]; nofun) fun w hw _ => ?_)
  refine (hp n _ w _ hw (by simp; omega) (.of_closes hclose)
    (.inr (.of_closes hclose _ _))).bind fun p' x hx _ _ => ?_
  refine .expect nofun hx hin fun y hy _ => ?_
  refine (he.takes_closed hy (by simp; omega) ?_ (Prec.le_refl _)).bind fun e' z hz _ _ => ?_
  · rw [Word.firstKind_append hvs, hbrace]
    rfl
  refine (hb n _ z k hz (by omega)).bind fun b' z' hz' _ _ => .look rfl ?_
  exact .pure hz' fun M _ hb he hp => .forLoop hp he hb

theorem accepts_formWhile (hk : t.kind = .kwWhile) (he : Accepts N (.expr .bottom reach e) ts)
    (hb : Accepts N (.block b) us) (hus : us ≠ []) (hbrace : Token.firstKind us = .lBrace) :
    Accepts N (.form (.whileLoop span e b)) (t :: (ts ++ us)) := by
  intro n construct s k hs hn _
  simp only [List.length_append, List.length_cons] at hn
  simp only [Token.words_cons, Token.words_append, List.cons_append, List.append_assoc] at hs
  refine .look rfl ?_
  rw [hs.kind.trans hk]
  refine .look rfl (.bump hs (by rw [Token.kind_word, hk]; nofun) fun w hw _ => ?_)
  refine (he.takes_closed hw (by simp; omega) ?_ (Prec.le_refl _)).bind fun e' x hx _ _ => ?_
  · rw [Word.firstKind_append hus, hbrace]
    rfl
  refine (hb n _ x k hx (by omega)).bind fun b' y hy _ _ => .look rfl ?_
  exact .pure hy fun M _ hb he => .whileLoop he hb

theorem accepts_otherwiseNone : Accepts N (.otherwise ys (.emptyBlock span)) [] := by
  intro n s k hs hn helse
  have hs : s.Faces k := hs
  refine .decline hs helse ?_
  exact .look rfl (.pure hs fun _ _ => .block .nil (.tuple .nil))

theorem accepts_otherwiseBranch (hk : t.kind = .kwElse) (hts : ts ≠ [])
    (hif : Token.firstKind ts = .kwIf) (h : Accepts N (.branch e) ts) :
    Accepts N (.otherwise ys e) (t :: ts) := by
  intro n s k hs hn helse
  rw [List.length_cons] at hn
  rw [Token.words_cons, List.cons_append] at hs
  refine .accept nofun hs hk fun w hw _ => ?_
  have hat : w.kind = .kwIf := by rw [hw.kind, Word.firstKind_append hts, hif]
  refine .look (a := true) (by rw [← decide_eq_true hat]; rfl) ?_
  exact h n w k hw (by omega) helse

theorem accepts_otherwiseBlock (hk : t.kind = .kwElse) (hts : ts ≠ [])
    (hbrace : Token.firstKind ts = .lBrace) (h : Accepts N (.block e) ts) :
    Accepts N (.otherwise ys e) (t :: ts) := by
  intro n s k hs hn helse
  rw [List.length_cons] at hn
  rw [Token.words_cons, List.cons_append] at hs
  refine .accept nofun hs hk fun w hw _ => ?_
  have hat : w.kind ≠ .kwIf := by
    rw [hw.kind, Word.firstKind_append hts, hbrace]
    nofun
  refine .look (a := false) (by rw [← decide_eq_false hat]; rfl) ?_
  exact h n _ w k hw (by omega)

theorem accepts_branch (hk : t.kind = .kwIf) (hc : Accepts N (.expr .bottom reach c) ts)
    (hy : Accepts N (.block y) us) (hus : us ≠ []) (hbrace : Token.firstKind us = .lBrace)
    (hno : Accepts N (.otherwise us no) vs) :
    Accepts N (.branch (.branch span c y no)) (t :: (ts ++ (us ++ vs))) := by
  intro n s k hs hn helse
  simp only [List.length_append, List.length_cons] at hn
  simp only [Token.words_cons, Token.words_append, List.cons_append, List.append_assoc] at hs
  obtain ⟨n, rfl⟩ : ∃ m, n = m + 1 := ⟨n - 1, by omega⟩
  show Takes (branch (rules n)) s k _
  refine .look rfl (.bump hs (by rw [Token.kind_word, hk]; nofun) fun w hw _ => ?_)
  refine (hc.takes_closed hw (by simp; omega) ?_ (Prec.le_refl _)).bind fun c' x hx _ _ => ?_
  · rw [Word.firstKind_append hus, hbrace]
    rfl
  refine (hy n _ x _ hx (by simp; omega)).bind fun y' z hz _ _ => ?_
  refine (hno n z k hz (by omega) helse).bind fun no' z' hz' _ _ => .look rfl ?_
  exact .pure hz' fun M _ hno hy hc => .branch hc hy hno

/-- What stands apart from an expression does so in front of any closing token. -/
theorem stops_of_apart {k : List Word} (h : Token.Apart ts) (hk : (firstKind k).closes = true) :
    Word.Stops .bottom (Token.words ts ++ k) := by
  match ts, k with
  | [], k => exact .of_closes hk _ _
  | [t], [] => exact ⟨h.postfixOp, h.call, fun hcall => h.call hcall.2, h.field, h.infixOp⟩
  | [t], w :: k =>
    refine ⟨h.postfixOp, h.call, ?_, h.field, h.infixOp⟩
    rintro ⟨-, hparen⟩
    have hkind : w.kind = .lParen := hparen
    rw [Word.firstKind_cons, hkind] at hk
    cases hk
  | t :: u :: ts, k => exact h

theorem accepts_armsNil : Accepts N (.arms []) [] := by
  intro n s k hs hn hbrace
  have hleft := hs.left
  rw [Token.words_nil, List.nil_append] at hleft
  rw [List.length_nil] at hn
  obtain ⟨n, rfl⟩ : ∃ m, n = m + 1 := ⟨n - 1, by omega⟩
  show Takes (arms (rules n)) s k _
  refine .leave (.look rfl ?_)
  rw [hs.kind.trans hbrace]
  exact .pure hs fun _ _ => ⟨_, rfl, .nil⟩

theorem accepts_armsCons {as : List Arm} {separator : List Token} (hts : ts ≠ [])
    (hstart : Token.firstKind ts = .identifier ∨ Token.firstKind ts = .lParen)
    (hp : Accepts N (.ptrn false reach p) ts) (harrow : t.kind = .fatArrow)
    (he : Accepts N (.expr .bottom reach' e) us)
    (hseparator : separator = [] ∧ Token.Apart vs ∨
      ∃ u : Token, separator = [u] ∧ u.kind.isSeparator = true)
    (hvs : vs = [] ∨ Token.firstKind vs = .identifier ∨ Token.firstKind vs = .lParen)
    (has : Accepts N (.arms as) vs) :
    Accepts N (.arms (⟨span, p, e⟩ :: as)) (ts ++ t :: (us ++ (separator ++ vs))) := by
  intro n s k hs hn hbrace
  have hlength := List.length_pos_iff.2 hts
  simp only [List.length_append, List.length_cons] at hn
  simp only [Token.words_cons, Token.words_append, List.cons_append, List.append_assoc] at hs
  obtain ⟨n, rfl⟩ : ∃ m, n = m + 1 := ⟨n - 1, by omega⟩
  show Takes (arms (rules n)) s k _
  have hfirst : firstKind (Token.words vs ++ k) = .rBrace ∨
      firstKind (Token.words vs ++ k) = .identifier ∨
      firstKind (Token.words vs ++ k) = .lParen := by
    by_cases hnil : vs = []
    · subst hnil
      exact .inl hbrace
    · rw [Word.firstKind_append hnil]
      exact .inr (hvs.resolve_left hnil)
  have hfollow : Free (Token.words separator ++ (Token.words vs ++ k)) ∧
      Word.Stops .bottom (Token.words separator ++ (Token.words vs ++ k)) := by
    rcases hseparator with ⟨rfl, hapart⟩ | ⟨u, rfl, hu⟩
    · have hstops := stops_of_apart hapart (k := k) (by rw [hbrace]; rfl)
      refine ⟨?_, hstops⟩
      constructor <;> rw [Token.words_nil, List.nil_append] <;> rcases hfirst with h | h | h <;>
        rw [h] <;> nofun
    · have hclose : u.word.kind.closes = true := TokenKind.closes_of_separator hu
      exact ⟨.of_closes hclose, .of_closes hclose _ _⟩
  obtain ⟨hfree, hstops⟩ := hfollow
  have hclose : t.word.kind.closes = true := by
    rw [Token.kind_word, harrow]
    rfl
  refine .goOn ?_ fun y hy _ => has n y k hy (by omega) hbrace
  rw [armsTurn]
  refine .look rfl ?_
  rw [hs.kind, Word.firstKind_append hts]
  split
  · next hk => simp [hk] at hstart
  · next hk => simp [hk] at hstart
  refine .look rfl ?_
  refine (hp n _ s _ hs (by simp; omega) (.of_closes hclose)
    (.inr (.of_closes hclose _ _))).bind fun p' v hv hsv _ => ?_
  refine .expect nofun hv harrow fun w hw hvw => ?_
  refine (he.takes_expr hw (by simp; omega) hfree (hstops.mono (Nat.zero_le _)) (Prec.le_refl _)
    hstops).bind fun e' x hx hwx _ => ?_
  refine .look rfl (.look rfl ?_)
  have hconsumed : s.here.span.start.offset < x.prev.stop.offset :=
    hs.start_lt hx (hsv.trans (hvw.trans hwx)) (by simp; omega)
  have hrest : ∀ y, y.Faces (Token.words vs ++ k) →
      Takes (pure (Turn.goOn (⟨x.finish s.here.span, p', e'⟩ :: ·))) y (Token.words vs ++ k)
        fun M turn => Expr.Alike N M e e' → Ptrn.Alike N M p p' →
          ∃ wrap, turn = .goOn wrap ∧ ∀ as', Arm.AlikeList N M as as' →
            Arm.AlikeList N M (⟨span, p, e⟩ :: as) (wrap as') :=
    fun y hy => .pure hy fun M _ he hp => ⟨_, rfl, fun as' has => .cons hp he has⟩
  rcases hseparator with ⟨rfl, -⟩ | ⟨u, rfl, hu⟩
  · refine .noSeparator hx ?_ ?_
    · rw [Token.words_nil, List.nil_append]
      rcases hfirst with h | h | h <;> rw [h] <;> rfl
    · rw [if_neg nofun, if_pos hconsumed]
      exact hrest x hx
  · refine .separator hx hu fun y hy _ => ?_
    exact hrest y hy

end Forms

end Parser

end ImpLang
