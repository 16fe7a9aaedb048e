import ImpLang.Proofs.Parser.Takes

/-!
What it means that a phrase of the grammar is read: in front of words that do not belong to it, the
production for the phrase takes the words that spell it, reports nothing, and gives a tree that is
alike. It is shown here of expressions and operands.
-/

namespace ImpLang

open Word (Free firstKind)

namespace InfixOp

theorem leftLevel_le_of_prec_lt (op : InfixOp) {p : Prec} (h : op.prec < p) : op.leftLevel ≤ p := by
  revert h
  cases op <;> cases p <;> decide

/-- What an operator takes for its left operand does not end in a stronger one. -/
theorem prec_lt_of_leftLevel_le (op op' : InfixOp) (h : op'.leftLevel ≤ op.prec) :
    op'.prec < op.rightLevel := by
  revert h
  cases op <;> cases op' <;> decide

theorem prec_le_leftLevel (op : InfixOp) : op.prec ≤ op.leftLevel := by
  cases op <;> decide

end InfixOp

namespace Parser

variable (N : Interner)

/-- A run goes on to the operators behind an expression that is alike, whatever follows from there. -/
def Reaches (e : Expr) (m : Parser Expr) (s : State) (min : Prec) (k : List Word) : Prop :=
  ∀ (k' : List Word) (Q : Interner → Expr → Prop),
    (∀ n start e' t, t.Faces k → 4 * k.length ≤ n + 3 →
      Takes ((rules n).operators start min e') t k' fun M b => Expr.Alike N M e e' → Q M b) →
    Takes m s k' Q

/-- How the production for a phrase reads words, of which the first spell the phrase, with a number
of nested calls that suffices. -/
def Accepts : Phrase → List Token → Prop
  | .expr level reach e, ts => ∀ n min construct s k, s.Faces (Token.words ts ++ k) →
      4 * (ts.length + k.length) ≤ n + 2 → Free k → Word.Stops reach k → min ≤ level →
      (∀ op, (firstKind k).infixOp? = some op → op.leftLevel ≤ level) →
      Reaches N e ((rules n).expr min construct) s min k
  | .operand reach e, ts => ∀ n min construct s k, s.Faces (Token.words ts ++ k) →
      4 * (ts.length + k.length) ≤ n + 2 → Free k → (reach = .postfixed ∨ Word.Stops reach k) →
      Reaches N e ((rules n).expr min construct) s min k
  | .parens e, ts => ∀ n s k, s.Faces (Token.words ts ++ k) → 4 * (ts.length + k.length) ≤ n + 4 →
      Takes (tuple (rules n)) s k fun M e' => Expr.Alike N M e e'
  | .elems es separated, ts => ∀ n s k, s.Faces (Token.words ts ++ k) →
      4 * (ts.length + k.length) ≤ n + 1 → firstKind k = .rParen →
      Takes (rules n).tupleElems s k fun M out => Elem.AlikeList N M es out.1 ∧ out.2 = separated
  | .elem e, ts => ∀ n s k, s.Faces (Token.words ts ++ k) → 4 * (ts.length + k.length) ≤ n + 2 →
      (firstKind k).closes = true →
      Takes (do
        let id ← elemName
        let expr ← (rules n).expr .bottom "tuple element"
        return (id, expr)) s k fun M out => Elem.AlikeList N M [e] [⟨out.1, out.2⟩]
  | .sigmaElems ps, ts => ∀ n s k, s.Faces (Token.words ts ++ k) →
      4 * (ts.length + k.length) ≤ n + 1 → firstKind k = .rBracket →
      Takes (rules n).sigmaElems s k fun M ps' => Ptrn.AlikeList N M ps ps'
  | .sigmaElem p, ts => ∀ n s k, s.Faces (Token.words ts ++ k) →
      4 * (ts.length + k.length) ≤ n + 2 → (firstKind k).closes = true →
      Takes (sigmaElem (rules n)) s k fun M p' => Ptrn.Alike N M p p'
  | .ptrn typed reach p, ts => ∀ n construct s k, s.Faces (Token.words ts ++ k) →
      4 * (ts.length + k.length) ≤ n + 3 → Free k → (reach = .postfixed ∨ Word.Stops reach k) →
      Takes ((rules n).ptrn typed construct) s k fun M p' => Ptrn.Alike N M p p'
  | .ptrns typed ps, ts => ∀ n s k, s.Faces (Token.words ts ++ k) →
      4 * (ts.length + k.length) ≤ n + 2 → firstKind k = .rParen →
      Takes ((rules n).ptrnElems typed) s k fun M ps' => Ptrn.AlikeList N M ps ps'
  | .ascription reach ty, ts => ∀ n s k, s.Faces (Token.words ts ++ k) →
      4 * (ts.length + k.length) ≤ n + 6 → Free k → (reach = .postfixed ∨ Word.Stops reach k) →
      Takes (ascription (rules n)) s k fun M ty' => Expr.Alike? N M ty ty'
  | .codomain _ c, ts => ∀ n construct s k, s.Faces (Token.words ts ++ k) →
      4 * (ts.length + k.length) ≤ n + 6 → firstKind k = .lBrace →
      Takes (codomain (rules n) construct) s k fun M c' => Expr.Alike N M c c'
  | .function d c b, ts => ∀ n inDomain inCodomain inBody s k, s.Faces (Token.words ts ++ k) →
      4 * (ts.length + k.length) ≤ n + 3 →
      Takes (do
        let d ← (rules n).ptrn true inDomain
        let c ← codomain (rules n) inCodomain
        let b ← (rules n).block inBody
        return (d, c, b)) s k fun M out =>
          Ptrn.Alike N M d out.1 ∧ Expr.Alike N M c out.2.1 ∧ Expr.Alike N M b out.2.2
  | .block e, ts => ∀ n construct s k, s.Faces (Token.words ts ++ k) →
      4 * (ts.length + k.length) ≤ n + 3 →
      Takes ((rules n).block construct) s k fun M e' => Expr.Alike N M e e'
  | .body _ ss value, ts => ∀ n s k, s.Faces (Token.words ts ++ k) →
      4 * (ts.length + k.length) ≤ n + 1 → firstKind k = .rBrace →
      Takes (rules n).blockBody s k fun M out =>
        Stmnt.AlikeList N M ss out.1 ∧ Expr.Alike N M value out.2
  | .branch e, ts => ∀ n s k, s.Faces (Token.words ts ++ k) → 4 * (ts.length + k.length) ≤ n + 3 →
      firstKind k ≠ .kwElse → Takes (rules n).branch s k fun M e' => Expr.Alike N M e e'
  | .otherwise _ e, ts => ∀ n s k, s.Faces (Token.words ts ++ k) →
      4 * (ts.length + k.length) ≤ n + 4 → firstKind k ≠ .kwElse →
      Takes (otherwise (rules n)) s k fun M e' => Expr.Alike N M e e'
  | .arms as, ts => ∀ n s k, s.Faces (Token.words ts ++ k) → 4 * (ts.length + k.length) ≤ n + 1 →
      firstKind k = .rBrace →
      Takes (rules n).arms s k fun M as' => Arm.AlikeList N M as as'
  | .form e, ts => ∀ n construct s k, s.Faces (Token.words ts ++ k) →
      4 * (ts.length + k.length) ≤ n + 3 → firstKind k ≠ .kwElse →
      Takes (stmntExpr (rules n) construct) s k fun M e' => Expr.Alike N M e e'
  | .stmntExpr e, ts => ∀ n construct s k, s.Faces (Token.words ts ++ k) →
      4 * (ts.length + k.length) ≤ n + 2 → Free k →
      ((Token.firstKind ts).startsForm = true ∨ Word.Stops .bottom k) →
      Takes (stmntExpr (rules n) construct) s k fun M e' => Expr.Alike N M e e'
  | .binding st, ts => ∀ n s k, s.Faces (Token.words ts ++ k) →
      4 * (ts.length + k.length) ≤ n + 4 →
      (Token.firstKind ts = .kwLet →
        Takes (letStmnt (rules n)) s k fun M st' => Stmnt.Alike N M st st') ∧
      (Token.firstKind ts = .kwDef →
        Takes (defItem (rules n)) s k fun M it => Stmnt.Alike N M st (.item it)) ∧
      (Token.firstKind ts = .kwFn →
        Takes (fnItem (rules n)) s k fun M it => Stmnt.Alike N M st (.item it))
  | .stmnts ss, ts => ∀ n rounds s k, s.Faces (Token.words ts ++ k) →
      4 * (ts.length + k.length) ≤ n + 2 → ts.length < rounds → firstKind k = .eof →
      Takes (stmnts (rules n) rounds) s k fun M ss' => Stmnt.AlikeList N M ss ss'

variable {N} {place : Placement}

/-! ## Expressions -/

section Expressions

variable {n : Nat} {min : Prec} {construct : String} {s : State} {k : List Word} {e : Expr}

/-- In front of words that do not belong to it an expression ends. -/
theorem takes_operators (hs : s.Faces k) (hstops : Word.Stops min k) (hn : 0 < n) (start : Span) :
    Takes ((rules n).operators start min e) s k fun _ b => b = e := by
  obtain ⟨n, rfl⟩ : ∃ m, n = m + 1 := ⟨n - 1, by omega⟩
  show Takes (operators (rules n) start min e) s k _
  refine .look rfl ?_
  rw [hs.kind, hstops.postfixOp]
  dsimp only
  rw [if_neg hstops.call]
  refine .look rfl ?_
  rw [hs.nextKind, if_neg hstops.callCps, if_neg hstops.field]
  cases hop : (firstKind k).infixOp? with
  | none => exact .pure hs fun _ _ => rfl
  | some op =>
    have hweak := hstops.infixOp op hop
    show Takes (if op.prec < min then _ else _) s k _
    rw [if_pos hweak]
    exact .pure hs fun _ _ => rfl

theorem Reaches.takes {m : Parser Expr} (h : Reaches N e m s min k) (hstops : Word.Stops min k) :
    Takes m s k fun M e' => Expr.Alike N M e e' := by
  apply h
  intro n start e' t ht hn
  have hleft := ht.left
  refine (takes_operators ht hstops (by omega) start).mono ?_
  rintro M b rfl he
  exact he

/-- An expression is read as a whole in front of words that do not belong to it. -/
theorem Accepts.takes_expr {level reach : Prec} {ts : List Token}
    (h : Accepts N (.expr level reach e) ts) (hs : s.Faces (Token.words ts ++ k))
    (hn : 4 * (ts.length + k.length) ≤ n + 2) (hfree : Free k) (hreach : Word.Stops reach k)
    (hmin : min ≤ level) (hstops : Word.Stops min k) :
    Takes ((rules n).expr min construct) s k fun M e' => Expr.Alike N M e e' := by
  refine (h n min construct s k hs hn hfree hreach hmin ?_).takes hstops
  intro op hop
  exact op.leftLevel_le_of_prec_lt (Nat.lt_of_lt_of_le (hstops.infixOp op hop) hmin)

/-- In front of a closing token the levels do not matter. -/
theorem Accepts.takes_closed {level reach : Prec} {ts : List Token}
    (h : Accepts N (.expr level reach e) ts) (hs : s.Faces (Token.words ts ++ k))
    (hn : 4 * (ts.length + k.length) ≤ n + 2) (hclose : (firstKind k).closes = true)
    (hmin : min ≤ level) :
    Takes ((rules n).expr min construct) s k fun M e' => Expr.Alike N M e e' :=
  h.takes_expr hs hn (.of_closes hclose) (.of_closes hclose _ _) hmin (.of_closes hclose _ _)

theorem accepts_exprOperand {level reach : Prec} {ts : List Token}
    (h : Accepts N (.operand reach e) ts) : Accepts N (.expr level reach e) ts := by
  intro n min construct s k hs hn hfree hreach _ _
  exact h n min construct s k hs hn hfree (.inr hreach)

theorem accepts_exprPrefixed {level reach : Prec} {span : Span} {t : Token} {op : PrefixOp}
    {ts : List Token} (hk : t.kind.prefixOp? = some op) (h : Accepts N (.expr .prefixed reach e) ts) :
    Accepts N (.expr level reach (.prefixed span op e)) (t :: ts) := by
  intro n min construct s k hs hn hfree hreach _ _ k' Q hQ
  rw [List.length_cons] at hn
  obtain ⟨n, rfl⟩ : ∃ m, n = m + 1 := ⟨n - 1, by omega⟩
  have hne : t.kind ≠ .eof := by
    intro heof
    rw [heof] at hk
    cases hk
  have hprefixed : Word.Stops .prefixed k := by
    refine ⟨hreach.postfixOp, hreach.call, hreach.callCps, hreach.field, ?_⟩
    intro op _
    cases op <;> decide
  show Takes (expr (rules n) min construct) s k' Q
  refine .look rfl (.look rfl ?_)
  rw [hs.kind, Token.words_cons, List.cons_append, Word.firstKind_cons, Token.kind_word, hk]
  refine .bump hs hne fun u hu _ => ?_
  refine (h.takes_expr hu (by omega) hfree hreach (Prec.le_refl _) hprefixed).bind ?_
  intro e' v hv _ _
  refine .look rfl ?_
  refine (hQ n _ _ v hv (by omega)).mono ?_
  intro M b hb he
  exact hb (.prefixed he)

theorem accepts_exprBinary {level inner reach : Prec} {span : Span} {t : Token} {op : InfixOp}
    {left right : Expr} {ts us : List Token} (hk : t.kind.infixOp? = some op)
    (hstrength : level ≤ op.prec) (hleft : Accepts N (.expr op.leftLevel inner left) ts)
    (hbeyond : op.prec < inner) (hright : Accepts N (.expr op.rightLevel reach right) us) :
    Accepts N (.expr level reach (.binary span left op right)) (ts ++ t :: us) := by
  intro n min construct s k hs hn hfree hreach hmin hops k' Q hQ
  simp only [List.length_append, List.length_cons] at hn
  simp only [Token.words_append, Token.words_cons, List.append_assoc, List.cons_append] at hs
  have hkinds : t.kind ≠ .eof ∧ t.kind.postfixOp? = none ∧ t.kind ≠ .lParen ∧ t.kind ≠ .not ∧
      t.kind ≠ .dot ∧ t.kind ≠ .colon ∧ t.kind ≠ .kwElse := by
    revert hk
    cases t.kind <;> simp [TokenKind.infixOp?, TokenKind.postfixOp?]
  obtain ⟨heof, hpost, hparen, hnot, hdot, hcolon, helse⟩ := hkinds
  have hmin' : min ≤ op.prec := Prec.le_trans hmin hstrength
  have hstrong : ¬ op.prec < min := Nat.not_lt_of_le hmin'
  have hlevel : min ≤ op.leftLevel := Prec.le_trans hmin' op.prec_le_leftLevel
  refine hleft n min construct s _ hs (by simp; omega) ⟨hcolon, helse⟩ ?_ hlevel ?_ k' Q ?_
  · refine ⟨hpost, hparen, fun h => hnot h.1, hdot, ?_⟩
    intro op' hop'
    rw [Word.firstKind_cons, Token.kind_word, hk] at hop'
    cases hop'
    exact hbeyond
  · intro op' hop'
    rw [Word.firstKind_cons, Token.kind_word, hk] at hop'
    cases hop'
    exact Prec.le_refl _
  · intro m start left' u hu hm
    simp only [List.length_cons, List.length_append, Token.length_words] at hm
    obtain ⟨m, rfl⟩ : ∃ i, m = i + 1 := ⟨m - 1, by omega⟩
    show Takes (operators (rules m) start min left') u k' _
    refine .look rfl ?_
    rw [hu.kind, Word.firstKind_cons, Token.kind_word, hpost]
    dsimp only
    rw [if_neg hparen]
    refine .look rfl ?_
    rw [if_neg (fun h => hnot h.1), if_neg hdot, hk]
    show Takes (if op.prec < min then _ else _) u k' _
    rw [if_neg hstrong]
    refine .bump hu heof fun v hv _ => ?_
    -- The operators behind the right operand are all too weak for it.
    have hstops : Word.Stops op.rightLevel k :=
      ⟨hreach.postfixOp, hreach.call, hreach.callCps, hreach.field, fun op' hop' =>
        op.prec_lt_of_leftLevel_le op' (Prec.le_trans (hops op' hop') hstrength)⟩
    refine (hright.takes_expr hv (by omega) hfree hreach (Prec.le_refl _) hstops).bind ?_
    intro right' w hw _ _
    refine .look rfl ?_
    refine (hQ m _ _ w hw (by omega)).mono ?_
    intro M b hb hright hleft
    exact hb (.binary hleft hright)

end Expressions

/-! ## Operands -/

/-- Looking at the kind of the token in front. -/
theorem run_kind {α : Type} (f : TokenKind → Parser α) (s : State) : (kind >>= f) s = f s.kind s :=
  rfl

section Operands

variable {reach : Prec} {span : Span} {t u : Token} {e : Expr} {ts us : List Token}

/-- An operand that is not continued is read by `primary`. -/
theorem accepts_of_primary (hts : ts ≠ []) (hstart : (Token.firstKind ts).prefixOp? = none)
    (hfit : e.isError = false)
    (h : ∀ n construct s k, s.Faces (Token.words ts ++ k) → 4 * (ts.length + k.length) ≤ n + 3 →
      Free k → (reach = .postfixed ∨ Word.Stops reach k) →
      Takes (primary (rules n) construct) s k fun M e' => Expr.Alike N M e e') :
    Accepts N (.operand reach e) ts := by
  intro n min construct s k hs hn hfree hleaves k' Q hQ
  have hlength := List.length_pos_iff.2 hts
  obtain ⟨n, rfl⟩ : ∃ m, n = m + 1 := ⟨n - 1, by omega⟩
  show Takes (expr (rules n) min construct) s k' Q
  refine .look rfl (.look rfl ?_)
  rw [hs.kind, Word.firstKind_append hts, hstart]
  refine (h n construct s k hs (by omega) hfree hleaves).bind ?_
  intro e' v hv _ he'
  rw [if_neg (by rw [← he'.isError, hfit]; nofun)]
  refine (hQ n _ e' v hv (by omega)).mono ?_
  intro M b hb he
  exact hb he

/-- An operand behind which more of the same operand follows. -/
theorem accepts_continued {e' : Expr} (h : Accepts N (.operand .postfixed e) ts)
    (hfirst : Free (Token.words us)) (hus : us ≠ [])
    (hgo : ∀ n start min left s k k' (Q : Interner → Expr → Prop), s.Faces (Token.words us ++ k) →
      4 * (us.length + k.length) ≤ n + 4 →
      (∀ n start left' t, t.Faces k → 4 * k.length ≤ n + 3 →
        Takes ((rules n).operators start min left') t k' fun M b =>
          (Expr.Alike N M e left → Expr.Alike N M e' left') → Q M b) →
      Takes (operators (rules n) start min left) s k' Q) :
    Accepts N (.operand .postfixed e') (ts ++ us) := by
  intro n min construct s k hs hn hfree _ k' Q hQ
  rw [List.length_append] at hn
  rw [Token.words_append, List.append_assoc] at hs
  have hfree' : Free (Token.words us ++ k) := by
    obtain ⟨hcolon, helse⟩ := hfirst
    rw [Word.firstKind_words] at hcolon helse
    exact ⟨by rwa [Word.firstKind_append hus], by rwa [Word.firstKind_append hus]⟩
  refine h n min construct s _ hs (by simp; omega) hfree' (.inl rfl) k' Q ?_
  intro m start left v hv hm
  rw [List.length_append, Token.length_words] at hm
  have hlength := List.length_pos_iff.2 hus
  obtain ⟨m, rfl⟩ : ∃ i, m = i + 1 := ⟨m - 1, by omega⟩
  show Takes (operators (rules m) start min left) v k' _
  refine hgo m start min left v k k' _ hv (by omega) ?_
  intro i start' left' w hw hi
  refine (hQ i start' left' w hw hi).mono ?_
  intro M b hb halike he
  exact hb (halike he)

theorem accepts_postfixed {op : PostfixOp} (hk : t.kind.postfixOp? = some op)
    (h : Accepts N (.operand .postfixed e) ts) :
    Accepts N (.operand .postfixed (.postfixed span e op)) (ts ++ [t]) := by
  have hkinds : t.kind ≠ .eof ∧ t.kind ≠ .colon ∧ t.kind ≠ .kwElse := by
    revert hk
    cases t.kind <;> simp [TokenKind.postfixOp?]
  refine accepts_continued h ⟨hkinds.2.1, hkinds.2.2⟩ (List.cons_ne_nil _ _) ?_
  intro n start min left s k k' Q hs hn hQ
  rw [List.length_singleton] at hn
  refine .look rfl ?_
  rw [hs.kind, Token.words_cons, List.cons_append, Word.firstKind_cons, Token.kind_word, hk]
  refine .bump hs hkinds.1 fun v hv _ => ?_
  refine .look rfl ?_
  refine (hQ n _ _ v hv (by omega)).mono ?_
  intro M b hb
  exact hb .postfixed

theorem accepts_app {f a : Expr} (hf : Accepts N (.operand .postfixed f) ts)
    (hparen : Token.firstKind us = .lParen) (hus : us ≠ []) (ha : Accepts N (.parens a) us) :
    Accepts N (.operand .postfixed (.app span f a false)) (ts ++ us) := by
  refine accepts_continued hf ?_ hus ?_
  · constructor <;> rw [Word.firstKind_words, hparen] <;> nofun
  intro n start min left s k k' Q hs hn hQ
  have hkind : s.kind = .lParen := by rw [hs.kind, Word.firstKind_append hus, hparen]
  have hlength := List.length_pos_iff.2 hus
  refine .look rfl ?_
  rw [hkind]
  dsimp only [TokenKind.postfixOp?]
  rw [if_pos rfl]
  refine (ha n s k hs (by omega)).bind fun a' v hv _ _ => ?_
  refine .look rfl ?_
  refine (hQ n _ _ v hv (by omega)).mono ?_
  intro M b hb ha
  exact hb fun hf => .app hf ha

theorem accepts_appCps {f a : Expr} (hf : Accepts N (.operand .postfixed f) ts)
    (hk : t.kind = .not) (hparen : Token.firstKind us = .lParen) (hus : us ≠ [])
    (ha : Accepts N (.parens a) us) :
    Accepts N (.operand .postfixed (.app span f a true)) (ts ++ t :: us) := by
  refine accepts_continued hf ?_ (List.cons_ne_nil _ _) ?_
  · constructor <;> rw [Word.firstKind_words, Token.firstKind_cons, hk] <;> nofun
  intro n start min left s k k' Q hs hn hQ
  rw [List.length_cons] at hn
  have hkind : s.kind = .not := hs.kind.trans hk
  have hnext : s.nextKind = .lParen := by
    rw [hs.nextKind, Token.words_cons, List.cons_append,
      Word.nextKind_cons (by simp [Token.words, hus]), Word.firstKind_append hus, hparen]
  have hlength := List.length_pos_iff.2 hus
  refine .look rfl ?_
  rw [hkind]
  dsimp only [TokenKind.postfixOp?]
  rw [if_neg nofun]
  refine .look rfl ?_
  rw [hnext, if_pos ⟨rfl, rfl⟩]
  refine .bump hs (by rw [Token.kind_word, hk]; nofun) fun v hv _ => ?_
  refine (ha n v k hv (by omega)).bind fun a' w hw _ _ => ?_
  refine .look rfl ?_
  refine (hQ n _ _ w hw (by omega)).mono ?_
  intro M b hb ha
  exact hb fun hf => .app hf ha

theorem accepts_field {id : Id} (h : Accepts N (.operand .postfixed e) ts) (hk : t.kind = .dot)
    (hid : u.Spells N place id) :
    Accepts N (.operand .postfixed (.field span e id)) (ts ++ [t, u]) := by
  refine accepts_continued h ?_ (List.cons_ne_nil _ _) ?_
  · constructor <;> rw [Word.firstKind_words, Token.firstKind_cons, hk] <;> nofun
  intro n start min left s k k' Q hs hn hQ
  simp only [List.length_cons, List.length_nil] at hn
  have hkind : s.kind = .dot := hs.kind.trans hk
  refine .look rfl ?_
  rw [hkind]
  dsimp only [TokenKind.postfixOp?]
  rw [if_neg nofun]
  refine .look rfl ?_
  rw [if_neg (fun h => nomatch h.1), if_pos rfl]
  refine .bump hs (by rw [Token.kind_word, hk]; nofun) fun v hv _ => ?_
  refine (takes_ident hid hv _).bind fun id' w hw _ _ => ?_
  refine .look rfl ?_
  refine (hQ n _ _ w hw (by omega)).mono ?_
  intro M b hb hid
  exact hb fun he => .field he hid

theorem accepts_name {id : Id} (hid : t.Spells N place id) :
    Accepts N (.operand .postfixed (.name span id .unset)) [t] := by
  refine accepts_of_primary (List.cons_ne_nil _ _) ?_ rfl ?_
  · rw [Token.firstKind_cons, hid.kind]
    rfl
  intro n construct s k hs _ _ _
  refine .look rfl ?_
  rw [hs.kind.trans hid.kind]
  refine (takes_ident hid hs construct).bind fun id' v hv _ _ => ?_
  exact .pure hv fun M _ hid => .name hid

theorem accepts_literal {value : Literal Symbol} {text : Literal String} (hk : t.kind = .literal)
    (hpayload : t.payload = .literal text) (hsame : value.map N.resolve? = text.map some) :
    Accepts N (.operand .postfixed (.literal span value)) [t] := by
  refine accepts_of_primary (List.cons_ne_nil _ _) ?_ rfl ?_
  · rw [Token.firstKind_cons, hk]
    rfl
  intro n construct s k hs _ _ _
  have hne : t.word.kind ≠ .eof := by
    rw [Token.kind_word, hk]
    nofun
  refine .look rfl ?_
  rw [hs.kind.trans hk]
  refine .look rfl (.bump hs hne fun v hv _ => ?_)
  rw [hs.payload, Token.payload_word, hpayload]
  cases text with
  | str text =>
    refine .step rfl (.intern v text) (.pure (hv.intern text) fun M hM => .literal ⟨_, hsame, ?_⟩)
    exact congrArg Literal.str (Interner.resolve?_of_le hM (v.names.resolve?_intern text))
  | int value kind => exact .pure hv fun M _ => .literal ⟨_, hsame, rfl⟩
  | float value kind => exact .pure hv fun M _ => .literal ⟨_, hsame, rfl⟩
  | bool value => exact .pure hv fun M _ => .literal ⟨_, hsame, rfl⟩
  | char value => exact .pure hv fun M _ => .literal ⟨_, hsame, rfl⟩

theorem accepts_operandParens (hts : ts ≠ []) (hparen : Token.firstKind ts = .lParen)
    (hfit : e.isError = false) (h : Accepts N (.parens e) ts) :
    Accepts N (.operand .postfixed e) ts := by
  refine accepts_of_primary hts (by rw [hparen]; rfl) hfit ?_
  intro n construct s k hs hn _ _
  refine .look rfl ?_
  rw [hs.kind, Word.firstKind_append hts, hparen]
  exact h n s k hs (by omega)

theorem accepts_operandForm (hts : ts ≠ []) (hform : (Token.firstKind ts).startsForm = true)
    (hfit : e.isError = false) (h : Accepts N (.form e) ts) :
    Accepts N (.operand .postfixed e) ts := by
  have hstart : (Token.firstKind ts).prefixOp? = none := by
    revert hform
    cases Token.firstKind ts <;> simp [TokenKind.startsForm, TokenKind.prefixOp?]
  refine accepts_of_primary hts hstart hfit ?_
  intro n construct s k hs hn hfree _
  have hform := h n construct s k hs (by omega) hfree.kwElse
  -- Forms are read by `stmntExpr` and by `primary` in the same way.
  have hsame : primary (rules n) construct s = stmntExpr (rules n) construct s := by
    have hkind : s.kind.startsForm = true := by rwa [hs.kind, Word.firstKind_append hts]
    rw [primary, stmntExpr, run_kind, run_kind]
    revert hkind
    cases s.kind <;> intro hkind <;> first | rfl | cases hkind
  obtain ⟨e', v, hrun, hv⟩ := hform
  exact ⟨e', v, hsame.trans hrun, hv⟩

theorem accepts_single (expr : Span → Expr) (hstart : t.kind.prefixOp? = none)
    (heof : t.kind ≠ .eof) (hfit : (expr span).isError = false)
    (hsame : ∀ M span', Expr.Alike N M (expr span) (expr span'))
    (hprimary : ∀ n construct s, s.kind = t.kind → primary (rules n) construct s = single expr s) :
    Accepts N (.operand .postfixed (expr span)) [t] := by
  refine accepts_of_primary (List.cons_ne_nil _ _) hstart hfit ?_
  intro n construct s k hs _ _ _
  have h : Takes (single expr) s k fun M e' => Expr.Alike N M (expr span) e' :=
    .look rfl (.bump hs heof fun v hv _ => .pure hv fun M _ => hsame M _)
  obtain ⟨e', v, hrun, hv⟩ := h
  exact ⟨e', v, (hprimary n construct s hs.kind).trans hrun, hv⟩

theorem accepts_qualifier {value : Qualifier} (hk : t.kind.qualifier? = some value) :
    Accepts N (.operand .postfixed (.qualifier span value)) [t] := by
  refine accepts_single (.qualifier · value) ?_ ?_ rfl (fun _ _ => .qualifier) ?_
  · revert hk
    cases t.kind <;> simp [TokenKind.qualifier?, TokenKind.prefixOp?]
  · intro heof
    rw [heof] at hk
    cases hk
  · intro n construct s hkind
    rw [primary, run_kind, hkind]
    revert hk
    cases t.kind <;> intro hk <;> first | cases hk; rfl | cases hk

theorem accepts_bottom (hk : t.kind = .bottom) :
    Accepts N (.operand .postfixed (.bottom span)) [t] := by
  refine accepts_single .bottom (by rw [hk]; rfl) (by rw [hk]; nofun) rfl
    (fun _ _ => .bottom) ?_
  intro n construct s hkind
  rw [primary, run_kind, hkind, hk]

theorem accepts_unknown (hk : t.kind = .question) :
    Accepts N (.operand .postfixed (.unknown span)) [t] := by
  refine accepts_single .unknown (by rw [hk]; rfl) (by rw [hk]; nofun) rfl
    (fun _ _ => .unknown) ?_
  intro n construct s hkind
  rw [primary, run_kind, hkind, hk]

end Operands

end Parser

end ImpLang
