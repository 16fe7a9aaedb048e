import ImpLang.Proofs.Parser.Reading
import Mathlib.Data.List.Forall2

/-!
What stands in a block is divided at its semicolons. Every expression with a semicolon behind it is
a statement, and so is a form that the block goes on behind. An expression in front of the closing
brace is the value of the block, and without one the value is the empty tuple.
-/

namespace ImpLang

open Word (firstKind)

namespace Parser

/-- A source whose tokens are all read as one statement or expression, without a report. -/
def Whole (tokens : List Token) (expr : Expr) (names : Interner) : Prop :=
  ∃ (file : FileId) (source : String) (table : Interner) (construct : String) (t : State),
    let s := State.start file source table
    stmntExpr (rules (callLimit s)) construct s = some (expr, t) ∧
      t.behind = tokens.reverse ∧ t.kind = .eof ∧ t.reports = #[] ∧ t.names = names

variable {tokens : List Token} {expr : Expr} {names : Interner}

/-- What is read as a whole is a phrase of the grammar. -/
theorem Whole.derives (h : Whole tokens expr names) :
    Derives names .exact (.stmntExpr expr) tokens := by
  obtain ⟨file, source, table, construct, t, hrun, hbehind, -, hreports, rfl⟩ := h
  have hcalls : 4 * (State.start file source table).left + 2 ≤
      callLimit (State.start file source table) := by
    rw [State.left, callLimit]
    omega
  obtain ⟨e, u, hrun', ts, hreads, -⟩ :=
    runs_stmntExpr (rules_sound t.names _) (ok_start file source table) construct hcalls
  rw [hrun, Option.some.injEq, Prod.mk.injEq] at hrun'
  obtain ⟨rfl, rfl⟩ := hrun'
  have htokens := hreads.steps.behind
  rw [hbehind, behind_start, List.append_nil, List.reverse_inj] at htokens
  exact htokens ▸ hreads.derives ⟨hreports, Interner.le_refl _⟩

/-- What the grammar derives is read as a whole from a source of its own. -/
theorem exists_whole {N : Interner} {place : Placement} {e : Expr} {ts : List Token} {eof : Token}
    (file : FileId) (source : String) (h : Derives N place (.stmntExpr e) ts)
    (hsilent : ∀ lexed ∈ Token.lex file source, lexed.reports = [])
    (htokens : (Token.lex file source).map Lexed.token = ts ++ [eof]) (heof : eof.kind = .eof) :
    ∃ expr names, Whole ts expr names ∧ Expr.Alike N names e expr := by
  have hs := faces_start hsilent .empty
  have hpending := pending_start file source .empty
  rw [significant_of_silent hsilent, htokens] at hpending
  have hcalls := hs.le_callLimit
  rw [htokens, Token.words_append] at hs hcalls
  rw [List.length_append, Token.length_words] at hcalls
  have hclose : (firstKind (Token.words [eof])).closes = true := by
    rw [Token.words_cons, Word.firstKind_cons, Token.kind_word, heof]
    rfl
  obtain ⟨expr, t, hrun, ht, hst, halike⟩ := accepts h
    (callLimit (State.start file source .empty)) "" _ _ hs (by omega) (.of_closes hclose)
    (.inr (.of_closes hclose _ _))
  obtain ⟨hsteps, hrest⟩ := ht.consumed hs.ok hst hpending
  refine ⟨expr, t.names, ⟨file, source, .empty, "", t, hrun, ?_, ?_, ?_, rfl⟩,
    halike _ (Interner.le_refl _)⟩
  · rw [hsteps.behind, behind_start, List.append_nil]
  · rw [ht.kind, Token.words_cons, Word.firstKind_cons, Token.kind_word, heof]
  · rw [hst.reports, reports_start_of_silent hsilent]

/-- A source that is one name is read as a whole. -/
theorem exists_whole_name (file : FileId) (source text : String)
    (hsilent : ∀ lexed ∈ Token.lex file source, lexed.reports = [])
    (hwords : Token.words ((Token.lex file source).map Lexed.token) =
      [⟨.identifier, .name text⟩, ⟨.eof, .none⟩]) :
    ∃ t e N, Whole [t] e N ∧ t.word = ⟨.identifier, .name text⟩ := by
  rw [Token.words, List.map_eq_cons_iff] at hwords
  obtain ⟨t, behind, htokens, ht, hwords⟩ := hwords
  obtain ⟨eof, rfl, heof⟩ := List.map_eq_singleton_iff.1 hwords
  have hkind : t.kind = .identifier := congrArg Word.kind ht
  have hspells : t.Spells ⟨#[text]⟩ .free ⟨⟨0⟩, t.span⟩ :=
    ⟨hkind, ⟨text, congrArg Word.payload ht, rfl⟩, trivial⟩
  have hderives : Derives ⟨#[text]⟩ .free (.stmntExpr (.name t.span ⟨⟨0⟩, t.span⟩ .unset)) [t] :=
    .stmntPlain (.exprOperand (.name hspells trivial)) (by rw [hkind]; rfl)
  obtain ⟨e, N, hwhole, -⟩ := exists_whole file source hderives hsilent htokens
    (congrArg Word.kind heof)
  exact ⟨t, e, N, hwhole, ht⟩

/-- A source that is an empty block is read as a whole. -/
theorem exists_whole_block (file : FileId) (source : String)
    (hsilent : ∀ lexed ∈ Token.lex file source, lexed.reports = [])
    (hwords : Token.words ((Token.lex file source).map Lexed.token) =
      [⟨.lBrace, .none⟩, ⟨.rBrace, .none⟩, ⟨.eof, .none⟩]) :
    ∃ t u e N, Whole [t, u] e N ∧ t.word = ⟨.lBrace, .none⟩ ∧ u.word = ⟨.rBrace, .none⟩ := by
  rw [Token.words, List.map_eq_cons_iff] at hwords
  obtain ⟨t, _, htokens, ht, hwords⟩ := hwords
  obtain ⟨u, _, rfl, hu, hwords⟩ := List.map_eq_cons_iff.1 hwords
  obtain ⟨eof, rfl, heof⟩ := List.map_eq_singleton_iff.1 hwords
  have hderives : Derives .empty .free (.stmntExpr (.block t.span [] (.emptyTuple u.span)))
      (t :: ([] ++ [u])) :=
    .stmntForm (.formBlock (.block (congrArg Word.kind ht) (.bodyEnd trivial)
      (congrArg Word.kind hu) trivial))
  obtain ⟨e, N, hwhole, -⟩ := exists_whole file source hderives hsilent htokens
    (congrArg Word.kind heof)
  exact ⟨t, u, e, N, hwhole, ht, hu⟩

end Parser

/-- An expression begins with the word of a form only if it is one. -/
theorem Derives.isStmntLike {names : Interner} {place : Placement} {e : Expr} {ts : List Token}
    (h : Derives names place (.stmntExpr e) ts) (hform : (Token.firstKind ts).startsForm = true) :
    e.isStmntLike = true := by
  cases h with
  | stmntForm form =>
    cases form with
    | formBlock block => cases block; rfl
    | formBranch branch => cases branch; rfl
    | formSelect => rfl
    | formFor => rfl
    | formWhile => rfl
  | stmntPlain _ plain =>
    rw [Token.firstKind_cons, plain] at hform
    cases hform

/-- An expression in a block and the semicolons behind it. Its tokens are those of a source of its
own, which they make up. -/
structure Element where
  tokens : List Token
  expr : Expr
  names : Interner
  semis : Nat
  whole : Parser.Whole tokens expr names

namespace Element

def words (el : Element) : List Word :=
  Token.words el.tokens ++ List.replicate el.semis ⟨.semi, .none⟩

/-- Whether an element is the value of the block, with the elements behind it. -/
def isValue (el : Element) (behind : List Element) : Bool := behind.isEmpty && el.semis == 0

/-- All elements but a last one without a semicolon. -/
def statements : List Element → List Element
  | [] => []
  | el :: behind => if el.isValue behind then [] else el :: statements behind

/-- The last element if it has no semicolon. -/
def value? : List Element → Option Element
  | [] => none
  | el :: behind => if el.isValue behind then some el else value? behind

/-- A statement that is an element. -/
def IsStmnt (names : Interner) (el : Element) (st : Stmnt) : Prop :=
  ∃ span e, st = .expr span e ∧ Expr.Alike el.names names el.expr e

/-- A value that is an element, or the empty tuple at a brace. -/
def IsValue (names : Interner) (brace : Token) (el? : Option Element) (value : Expr) : Prop :=
  match el? with
  | some el => Expr.Alike el.names names el.expr value
  | none => value = .emptyTuple brace.span

/-- Statements and value of a block with the given elements. -/
def AreBody (names : Interner) (brace : Token) (els : List Element)
    (body : List Stmnt × Expr) : Prop :=
  List.Forall₂ (IsStmnt names) (statements els) body.1 ∧ IsValue names brace (value? els) body.2

/-- Elements can stand in a row: each one that has no semicolon and is not the last begins with a
brace or the word of a form. -/
def Separate (els : List Element) : Prop :=
  ∀ el ∈ els.dropLast, el.semis = 0 → (Token.firstKind el.tokens).startsForm = true

variable {names : Interner} {brace : Token} {els : List Element} (el : Element)

theorem accepts : Parser.Accepts el.names (.stmntExpr el.expr) el.tokens :=
  Parser.accepts el.whole.derives

theorem tokens_ne_nil : el.tokens ≠ [] := el.whole.derives.ne_nil rfl

theorem startsExpr : (Token.firstKind el.tokens).startsExpr = true :=
  el.whole.derives.starts el.tokens_ne_nil

theorem firstKind_words (k : List Word) :
    firstKind (el.words ++ k) = Token.firstKind el.tokens := by
  rw [words, List.append_assoc, Word.firstKind_append el.tokens_ne_nil]

theorem Separate.tail (h : Separate (el :: els)) : Separate els := by
  cases els with
  | nil => exact fun _ h => nomatch h
  | cons next els => exact fun other hother => h other (List.mem_cons_of_mem _ hother)

variable {el}

theorem areBody_cons (hel : el.isValue els = false) {span : Span} {e : Expr}
    {out : List Stmnt × Expr} (he : Expr.Alike el.names names el.expr e)
    (h : AreBody names brace els out) :
    AreBody names brace (el :: els) (.expr span e :: out.1, out.2) := by
  simp only [AreBody, statements, value?, hel, Bool.false_eq_true, if_false]
  exact ⟨.cons ⟨span, e, rfl, he⟩ h.1, h.2⟩

theorem areBody_value (hel : el.isValue [] = true) {e : Expr}
    (he : Expr.Alike el.names names el.expr e) : AreBody names brace [el] ([], e) := by
  simp only [AreBody, statements, value?, hel, if_true]
  exact ⟨.nil, he⟩

end Element

namespace Parser

open Element (AreBody Separate)

variable {n : Nat} {s : State} {k k' : List Word}

/-- Semicolons that end nothing are skipped. -/
theorem takes_semis {P : Interner → List Stmnt × Expr → Prop} (m : Nat)
    (hs : s.Faces (List.replicate m ⟨.semi, .none⟩ ++ k)) (hn : 4 * (m + k.length) ≤ n + 1)
    (hrest : ∀ n t, t.Faces k → Moves s t → 4 * k.length ≤ n + 1 →
      Takes (rules n).blockBody t k' P) : Takes (rules n).blockBody s k' P := by
  induction m generalizing n s with
  | zero => exact hrest n s hs (.refl s) (by omega)
  | succ m ih =>
    obtain ⟨n, rfl⟩ : ∃ i, n = i + 1 := ⟨n - 1, by omega⟩
    rw [List.replicate_succ, List.cons_append] at hs
    exact takes_bodySemi rfl hs fun t ht hst => ih ht (by omega) fun i u hu htu hi =>
      hrest i u hu (hst.trans htu) hi

/-- The elements of a block are read one by one up to the brace that closes it. -/
theorem takes_elements {brace : Token} (els : List Element)
    (hs : s.Faces (els.flatMap Element.words ++ k))
    (hn : 4 * ((els.flatMap Element.words).length + k.length) ≤ n + 1)
    (hbrace : firstKind k = .rBrace) (hhere : ∀ t, Moves s t → t.Faces k → t.here = brace)
    (hseparate : Separate els) :
    Takes (rules n).blockBody s k fun M out => AreBody M brace els out := by
  -- Whatever is consumed, the brace stays the token in front of the words left at the end.
  induction els generalizing n s with
  | nil =>
    have hs : s.Faces k := hs
    have hleft := hs.left
    obtain ⟨n, rfl⟩ : ∃ i, n = i + 1 := ⟨n - 1, by omega⟩
    refine takes_bodyEnd hs hbrace fun _ => ⟨.nil, ?_⟩
    rw [hhere s (.refl s) hs]
    rfl
  | cons el els ih =>
    have hlength := List.length_pos_iff.2 el.tokens_ne_nil
    simp only [List.flatMap_cons, Element.words, List.append_assoc] at hs
    simp only [List.flatMap_cons, Element.words, List.length_append, Token.length_words,
      List.length_replicate] at hn
    obtain ⟨n, rfl⟩ : ∃ i, n = i + 1 := ⟨n - 1, by omega⟩
    cases hsemis : el.semis with
    | succ m =>
      have hvalue : el.isValue els = false := by simp [Element.isValue, hsemis]
      rw [hsemis] at hs hn
      rw [List.replicate_succ, List.cons_append] at hs
      refine takes_bodyStmnt el.tokens_ne_nil el.startsExpr el.accepts rfl hs
        (by simp only [List.length_append, List.length_replicate]; omega) (fun t ht hst => ?_)
        fun M span e out he hout => Element.areBody_cons hvalue he hout
      refine takes_semis m ht (by rw [List.length_append]; omega) fun i u hu htu hi => ?_
      rw [List.length_append] at hi
      exact ih hu hi (fun v huv hv => hhere v ((hst.trans htu).trans huv) hv)
        (hseparate.tail el)
    | zero =>
      rw [hsemis] at hs hn
      cases els with
      | nil =>
        have hvalue : el.isValue [] = true := by simp [Element.isValue, hsemis]
        exact takes_bodyValue el.tokens_ne_nil el.startsExpr el.accepts hs (by simp at hn; omega)
          hbrace fun M e he => Element.areBody_value hvalue he
      | cons next els =>
        have hvalue : el.isValue (next :: els) = false := rfl
        have hform := hseparate el (List.mem_cons_self ..) hsemis
        have hnext : (firstKind ((next :: els).flatMap Element.words ++ k)).startsStmnt = true := by
          rw [List.flatMap_cons, List.append_assoc, next.firstKind_words]
          exact TokenKind.startsStmnt_of_expr next.startsExpr
        exact takes_bodyForm el.tokens_ne_nil el.startsExpr el.accepts
          (el.whole.derives.isStmntLike hform) hs (by simp at hn ⊢; omega) hnext (.inl hform)
          (fun t ht hst => ih ht (by simp at hn ⊢; omega)
            (fun u htu hu => hhere u (hst.trans htu) hu) (hseparate.tail el))
          fun M span e out he hout => Element.areBody_cons hvalue he hout

/-- Elements between braces are read as a block. -/
theorem takes_block {opening closing : Token} (els : List Element) (construct : String)
    (hs : s.Faces (opening.word :: (els.flatMap Element.words ++ closing.word :: k)))
    (hn : 4 * ((els.flatMap Element.words).length + (k.length + 1)) ≤ n + 1)
    (hopening : opening.kind = .lBrace) (hclosing : closing.kind = .rBrace)
    (hhere : ∀ t, Moves s t → t.Faces (closing.word :: k) → t.here = closing)
    (hseparate : Separate els) :
    Takes (block (rules n) construct) s k fun M e =>
      ∃ span out, e = .block span out.1 out.2 ∧ AreBody M closing els out := by
  refine .look rfl (.expect nofun hs hopening fun t ht hst => ?_)
  rw [if_pos rfl]
  refine (takes_elements els ht (by rwa [List.length_cons]) hclosing
    (fun u htu hu => hhere u (hst.trans htu) hu) hseparate).bind fun out u hu _ _ => ?_
  refine .expect nofun hu hclosing fun v hv _ => .look rfl ?_
  exact .pure hv fun M _ hbody => ⟨_, out, rfl, hbody⟩

/-- Elements between braces are a block. All but a last one without a semicolon are its statements,
in order, and that one is its value; without one the value is the empty tuple, where the closing
brace stands. -/
theorem block_of_elements (file : FileId) (source : String) (names : Interner) (construct : String)
    (default : Expr) {opening closing : Token} {body rest : List Token} (els : List Element)
    (hsilent : ∀ lexed ∈ Token.lex file source, lexed.reports = [])
    (htokens : (Token.lex file source).map Lexed.token = opening :: (body ++ closing :: rest))
    (hopening : opening.kind = .lBrace) (hbody : Token.words body = els.flatMap Element.words)
    (hclosing : closing.kind = .rBrace) (hseparate : Separate els) :
    let out := run (fun r => block r construct) default file source names
    out.2.behind = (opening :: (body ++ [closing])).reverse ∧ out.2.pending = rest ∧
      out.2.reports = #[] ∧
      ∃ span stmnts value, out.1 = .block span stmnts value ∧
        List.Forall₂ (Element.IsStmnt out.2.names) (Element.statements els) stmnts ∧
        Element.IsValue out.2.names closing (Element.value? els) value := by
  intro out
  have hs := faces_start hsilent names
  have hpending := pending_start file source names
  rw [significant_of_silent hsilent, htokens] at hpending
  have hcalls := hs.le_callLimit
  rw [htokens] at hs hcalls
  simp only [Token.words_cons, Token.words_append, hbody] at hs hcalls
  simp only [List.length_cons, List.length_append] at hcalls
  have hhere : ∀ u, Moves (State.start file source names) u →
      u.Faces (closing.word :: Token.words rest) → u.here = closing := by
    intro u hu hfaces
    have hfront : (State.start file source names).pending = opening :: body ++ closing :: rest :=
      hpending
    exact (List.cons.inj (hfaces.consumed hs.ok hu hfront).2).1
  obtain ⟨e, t, hrun, ht, hst, he⟩ :=
    takes_block (n := callLimit (State.start file source names)) els construct hs (by omega) hopening
      hclosing hhere hseparate
  have hout : out = (e, t) := by simp only [out, run, runFrom, hrun, Option.getD_some]
  have hwhole : (State.start file source names).pending =
      opening :: (body ++ [closing]) ++ rest := by
    rw [hpending]
    simp
  obtain ⟨hsteps, hrest⟩ := ht.consumed hs.ok hst hwhole
  obtain ⟨span, inside, rfl, hstmnts, hvalue⟩ := he _ (Interner.le_refl _)
  rw [hout]
  refine ⟨?_, hrest, ?_, span, _, _, rfl, hstmnts, hvalue⟩
  · rw [hsteps.behind, behind_start, List.append_nil]
  · rw [hst.reports, reports_start_of_silent hsilent names]

theorem block_of_elements_form :
    ∃ (opening closing : Token) (body rest : List Token) (els : List Element),
      (∀ lexed ∈ Token.lex ⟨0⟩ "\x7b \x7b\x7d a;; b \x7d", lexed.reports = []) ∧
      (Token.lex ⟨0⟩ "\x7b \x7b\x7d a;; b \x7d").map Lexed.token =
        opening :: (body ++ closing :: rest) ∧
      opening.kind = .lBrace ∧ Token.words body = els.flatMap Element.words ∧
      closing.kind = .rBrace ∧ Separate els ∧ els.map Element.semis = [0, 2, 0] ∧
      let out := run (fun r => block r "block") (.error (Span.origin ⟨0⟩)) ⟨0⟩
        "\x7b \x7b\x7d a;; b \x7d" .empty
      out.2.behind = (opening :: (body ++ [closing])).reverse ∧ out.2.pending = rest ∧
        out.2.reports = #[] ∧
        ∃ span stmnts value, out.1 = .block span stmnts value ∧
          List.Forall₂ (Element.IsStmnt out.2.names) (Element.statements els) stmnts ∧
          Element.IsValue out.2.names closing (Element.value? els) value := by
  -- The elements are read from sources of their own.
  obtain ⟨u, v, e, N, hblock, hu, hv⟩ :=
    exists_whole_block ⟨0⟩ "\x7b\x7d" (by decide +kernel) (by decide +kernel)
  obtain ⟨a, e', N', ha, haword⟩ :=
    exists_whole_name ⟨0⟩ "a" "a" (by decide +kernel) (by decide +kernel)
  obtain ⟨b, e'', N'', hb, hbword⟩ :=
    exists_whole_name ⟨0⟩ "b" "b" (by decide +kernel) (by decide +kernel)
  have hsilent : ∀ lexed ∈ Token.lex ⟨0⟩ "\x7b \x7b\x7d a;; b \x7d", lexed.reports = [] := by
    decide +kernel
  have hwords : Token.words ((Token.lex ⟨0⟩ "\x7b \x7b\x7d a;; b \x7d").map Lexed.token) =
      ⟨.lBrace, .none⟩ :: ([⟨.lBrace, .none⟩, ⟨.rBrace, .none⟩, ⟨.identifier, .name "a"⟩,
        ⟨.semi, .none⟩, ⟨.semi, .none⟩, ⟨.identifier, .name "b"⟩] ++
          ⟨.rBrace, .none⟩ :: [⟨.eof, .none⟩]) := by decide +kernel
  rw [Token.words, List.map_eq_cons_iff] at hwords
  obtain ⟨opening, _, htokens, hopening, hwords⟩ := hwords
  obtain ⟨body, _, rfl, hbody, hwords⟩ := List.map_eq_append_iff.1 hwords
  obtain ⟨closing, rest, rfl, hclosing, -⟩ := List.map_eq_cons_iff.1 hwords
  have hels : Token.words body =
      [⟨[u, v], e, N, 0, hblock⟩, ⟨[a], e', N', 2, ha⟩, ⟨[b], e'', N'', 0, hb⟩].flatMap
        Element.words := by
    rw [Token.words, hbody]
    simp [Element.words, hu, hv, haword, hbword, List.replicate]
  have hseparate : Separate
      [⟨[u, v], e, N, 0, hblock⟩, ⟨[a], e', N', 2, ha⟩, ⟨[b], e'', N'', 0, hb⟩] := by
    have hbrace : u.kind = .lBrace := congrArg Word.kind hu
    simp [Separate, Token.firstKind, hbrace, TokenKind.startsForm]
  exact ⟨opening, closing, body, rest, _, hsilent, htokens, congrArg Word.kind hopening, hels,
    congrArg Word.kind hclosing, hseparate, rfl,
    block_of_elements ⟨0⟩ _ .empty "block" _ _ hsilent htokens (congrArg Word.kind hopening) hels
      (congrArg Word.kind hclosing) hseparate⟩

end Parser

end ImpLang
