import ImpLang.Proofs.Parser.Constructs
import ImpLang.Proofs.Parser.Faultless

/-!
Every phrase of the grammar is read by its production.
-/

namespace ImpLang

open Word (Free firstKind)

namespace Parser

variable {N : Interner} {place : Placement}

/-! ## Statements and blocks -/

section Statements

variable {reach reach' : Prec} {span : Span} {t u v close : Token} {id : Id} {p d : Ptrn}
  {e b c value : Expr} {st : Stmnt} {ss : List Stmnt} {ts us : List Token}

theorem accepts_stmntPlain (hk : t.kind.startsForm = false)
    (h : Accepts N (.expr .bottom reach e) (t :: ts)) : Accepts N (.stmntExpr e) (t :: ts) := by
  intro n construct s k hs hn hfree hend
  have hstops : Word.Stops .bottom k := by
    refine hend.resolve_left fun hform => ?_
    rw [Token.firstKind_cons, hk] at hform
    cases hform
  have hkind : s.kind = t.kind := hs.kind
  have hrun : stmntExpr (rules n) construct s = (rules n).expr .bottom construct s := by
    rw [stmntExpr, run_kind, hkind]
    revert hk
    cases t.kind <;> intro hk <;> first | rfl | cases hk
  have hexpr : Takes ((rules n).expr .bottom construct) s k fun M e' => Expr.Alike N M e e' :=
    h.takes_expr hs hn hfree (hstops.mono (Nat.zero_le _)) (Prec.le_refl _) hstops
  obtain ⟨e', v, hv⟩ := hexpr
  exact ⟨e', v, hrun ▸ hv⟩

theorem accepts_stmntForm (h : Accepts N (.form e) ts) : Accepts N (.stmntExpr e) ts := by
  intro n construct s k hs hn hfree _
  exact h n construct s k hs (by omega) hfree.kwElse

theorem accepts_bindLet (hk : t.kind = .kwLet) (hp : Accepts N (.ptrn false reach p) ts)
    (hbeyond : Prec.assign < reach) (hassign : u.kind = .assign)
    (he : Accepts N (.expr .bottom reach' e) us) (hsemi : v.kind = .semi) :
    Accepts N (.binding (.bind span p e)) (t :: (ts ++ u :: (us ++ [v]))) := by
  intro n s k hs hn
  refine ⟨fun _ => ?_, fun h => ?_, fun h => ?_⟩
  · simp only [List.length_append, List.length_cons, List.length_nil] at hn
    simp only [Token.words_cons, Token.words_append, List.cons_append, List.append_assoc] at hs
    have hstops : ∀ k, Word.Stops reach (u.word :: k) := by
      intro k
      refine ⟨?_, ?_, ?_, ?_, ?_⟩ <;> rw [Word.firstKind_cons, Token.kind_word, hassign]
      · rfl
      · nofun
      · exact fun h => nomatch h.1
      · nofun
      · rintro op ⟨⟩
        exact hbeyond
    refine .look rfl (.bump hs (by rw [Token.kind_word, hk]; nofun) fun w hw _ => ?_)
    refine (hp n _ w _ hw (by simp; omega) ?_ (.inr (hstops _))).bind fun p' x hx _ _ => ?_
    · constructor <;> rw [Word.firstKind_cons, Token.kind_word, hassign] <;> nofun
    refine .expect nofun hx hassign fun y hy _ => ?_
    refine (he.takes_closed hy (by simp; omega) ?_ (Prec.le_refl _)).bind fun e' z hz _ _ => ?_
    · rw [Word.firstKind_cons, Token.kind_word, hsemi]
      rfl
    refine .expect nofun hz hsemi fun z' hz' _ => .look rfl ?_
    exact .pure hz' fun M _ he hp => .bind hp he
  · rw [Token.firstKind_cons, hk] at h
    cases h
  · rw [Token.firstKind_cons, hk] at h
    cases h

theorem accepts_bindDef {decl : DeclId} {w : Token} (hk : t.kind = .kwDef)
    (hid : u.Spells N place id) (hassign : v.kind = .assign)
    (he : Accepts N (.expr .bottom reach e) us) (hsemi : w.kind = .semi) :
    Accepts N (.binding (.item ⟨span, id, e, decl, .unset⟩)) (t :: u :: v :: (us ++ [w])) := by
  intro n s k hs hn
  refine ⟨fun h => ?_, fun _ => ?_, fun h => ?_⟩
  · rw [Token.firstKind_cons, hk] at h
    cases h
  · simp only [List.length_append, List.length_cons, List.length_nil] at hn
    simp only [Token.words_cons, Token.words_append, List.cons_append, List.append_assoc] at hs
    refine .look rfl (.bump hs (by rw [Token.kind_word, hk]; nofun) fun x hx _ => ?_)
    refine (takes_ident hid hx _).bind fun id' y hy _ _ => ?_
    refine .declare id' nofun hy fun decl' y hy _ => ?_
    refine .expect nofun hy hassign fun z hz _ => ?_
    refine (he.takes_closed hz (by simp; omega) ?_ (Prec.le_refl _)).bind fun e' z hz _ _ => ?_
    · rw [Word.firstKind_cons, Token.kind_word, hsemi]
      rfl
    refine .expect nofun hz hsemi fun z' hz' _ => .look rfl ?_
    exact .pure hz' fun M _ he hid => .item hid he
  · rw [Token.firstKind_cons, hk] at h
    cases h

theorem accepts_bindFn {decl : DeclId} {inner : Span} (hk : t.kind = .kwFn)
    (hid : u.Spells N place id) (h : Accepts N (.function d c b) ts) :
    Accepts N (.binding (.item ⟨span, id, .lambda inner d c b, decl, .unset⟩)) (t :: u :: ts) := by
  intro n s k hs hn
  refine ⟨fun h => ?_, fun h => ?_, fun _ => ?_⟩
  · rw [Token.firstKind_cons, hk] at h
    cases h
  · rw [Token.firstKind_cons, hk] at h
    cases h
  · simp only [List.length_cons] at hn
    simp only [Token.words_cons, List.cons_append] at hs
    refine .look rfl (.bump hs (by rw [Token.kind_word, hk]; nofun) fun x hx _ => ?_)
    refine (takes_ident hid hx _).bind fun id' y hy _ _ => ?_
    refine .declare id' nofun hy fun decl' y hy _ => .look rfl ?_
    refine h.takes_function hy (by omega) fun d' c' b' z hz => .look rfl (.look rfl ?_)
    exact .pure hz fun M _ hd hc hb hid => .item hid (.lambda hd hc hb)

theorem accepts_block (hopen : t.kind = .lBrace) (h : Accepts N (.body u ss value) ts)
    (hclose : u.kind = .rBrace) :
    Accepts N (.block (.block span ss value)) (t :: (ts ++ [u])) := by
  intro n construct s k hs hn
  simp only [List.length_append, List.length_cons, List.length_nil] at hn
  simp only [Token.words_cons, Token.words_append, List.cons_append, List.append_assoc] at hs
  obtain ⟨n, rfl⟩ : ∃ m, n = m + 1 := ⟨n - 1, by omega⟩
  show Takes (block (rules n) construct) s k _
  refine .look rfl (.expect nofun hs hopen fun w hw _ => ?_)
  rw [if_pos rfl]
  refine (h n w _ hw (by simp; omega) hclose).bind fun out x hx _ _ => ?_
  refine .expect nofun hx hclose fun y hy _ => .look rfl ?_
  exact .pure hy fun M _ hbody => .block hbody.1 hbody.2

theorem takes_bodyEnd {n : Nat} {s : State} {k : List Word}
    {P : Interner → List Stmnt × Expr → Prop} (hs : s.Faces k) (hbrace : firstKind k = .rBrace)
    (hP : ∀ M, P M ([], .emptyTuple s.here.span)) : Takes (rules (n + 1)).blockBody s k P := by
  show Takes (blockBody (rules n)) s k P
  refine .leave (.look rfl ?_)
  rw [hs.kind.trans hbrace]
  exact .look rfl (.pure hs fun M _ => ⟨_, rfl, hP M⟩)

theorem takes_bodySemi {n : Nat} {s : State} {w : Word} {k k' : List Word}
    {P : Interner → List Stmnt × Expr → Prop} (hsemi : w.kind = .semi) (hs : s.Faces (w :: k))
    (hrest : ∀ t, t.Faces k → Moves s t → Takes (rules n).blockBody t k' P) :
    Takes (rules (n + 1)).blockBody s k' P := by
  show Takes (blockBody (rules n)) s k' P
  refine .goOn (.look rfl ?_) hrest
  rw [hs.kind.trans hsemi]
  exact .bump hs (by rw [hsemi]; nofun) fun t ht _ =>
    .pure ht fun _ _ => ⟨_, rfl, fun _ hout => hout⟩

theorem accepts_bodyEnd : Accepts N (.body close [] (.emptyTuple span)) [] := by
  intro n s k hs hn hbrace
  have hs : s.Faces k := hs
  have hleft := hs.left
  rw [List.length_nil] at hn
  obtain ⟨n, rfl⟩ : ∃ m, n = m + 1 := ⟨n - 1, by omega⟩
  exact takes_bodyEnd hs hbrace fun _ => ⟨.nil, .tuple .nil⟩

theorem accepts_bodySemi (hsemi : t.kind = .semi) (h : Accepts N (.body close ss value) ts) :
    Accepts N (.body close ss value) (t :: ts) := by
  intro n s k hs hn hbrace
  rw [List.length_cons] at hn
  obtain ⟨n, rfl⟩ : ∃ m, n = m + 1 := ⟨n - 1, by omega⟩
  exact takes_bodySemi hsemi hs fun v hv _ => h n v k hv (by omega) hbrace

/-- A round that goes on to the rest of a block with a statement in front of it. -/
abbrev RestAlike (N M : Interner) (st : Stmnt) (ss : List Stmnt) (value : Expr)
    (turn : Turn (List Stmnt × Expr)) : Prop :=
  ∃ wrap, turn = .goOn wrap ∧ ∀ out : List Stmnt × Expr,
    Stmnt.AlikeList N M ss out.1 ∧ Expr.Alike N M value out.2 →
      Stmnt.AlikeList N M (st :: ss) (wrap out).1 ∧ Expr.Alike N M value (wrap out).2

theorem RestAlike.cons {N M : Interner} {st st' : Stmnt} {ss : List Stmnt} {value : Expr}
    (h : Stmnt.Alike N M st st') : RestAlike N M st ss value (blockRest st') :=
  ⟨_, rfl, fun _ hout => ⟨.cons h hout.1, hout.2⟩⟩

theorem accepts_bodyBinding (hts : ts ≠ [])
    (hstart : Token.firstKind ts = .kwLet ∨ Token.firstKind ts = .kwDef ∨
      Token.firstKind ts = .kwFn)
    (hst : Accepts N (.binding st) ts) (hrest : Accepts N (.body close ss value) us) :
    Accepts N (.body close (st :: ss) value) (ts ++ us) := by
  intro n s k hs hn hbrace
  have hlength := List.length_pos_iff.2 hts
  rw [List.length_append] at hn
  rw [Token.words_append, List.append_assoc] at hs
  obtain ⟨n, rfl⟩ : ∃ m, n = m + 1 := ⟨n - 1, by omega⟩
  obtain ⟨hlet, hdef, hfn⟩ := hst n s _ hs (by simp; omega)
  show Takes (blockBody (rules n)) s k _
  refine .goOn (.look rfl ?_) fun v hv _ => hrest n v k hv (by omega) hbrace
  rw [hs.kind, Word.firstKind_append hts]
  rcases hstart with hk | hk | hk <;> rw [hk]
  · exact (hlet hk).bind fun st' v hv _ _ => .pure hv fun _ _ hst => RestAlike.cons hst
  · exact (hdef hk).bind fun it v hv _ _ => .pure hv fun _ _ hst => RestAlike.cons hst
  · exact (hfn hk).bind fun it v hv _ _ => .pure hv fun _ _ hst => RestAlike.cons hst

/-- An expression in a block, and what follows it. -/
theorem takes_bodyExpr (hts : ts ≠ []) (hstart : (Token.firstKind ts).startsExpr = true)
    (he : Accepts N (.stmntExpr e) ts) {n : Nat} {s : State} {k k' : List Word}
    {Q : Interner → Turn (List Stmnt × Expr) → Prop} (hs : s.Faces (Token.words ts ++ k))
    (hn : 4 * (ts.length + k.length) ≤ n + 2) (hfree : Free k)
    (hend : (Token.firstKind ts).startsForm = true ∨ Word.Stops .bottom k)
    (hgo : ∀ start M e' v, v.Faces k → Expr.Alike N M e e' →
      Takes (do
        if ← accept .semi then return blockRest (.expr (← Parser.finish start) e')
        else if ← isAt .rBrace then return .leave ([], e')
        else
          unless e'.isStmntLike do
            let _ ← expect .rBrace "block"
          return blockRest (.expr e'.span e')) v k' fun M turn => Expr.Alike N M e e' → Q M turn) :
    Takes (blockBodyTurn (rules n)) s k' Q := by
  have hkinds : ∀ kind : TokenKind, kind.startsExpr = true → kind ≠ .semi ∧ kind ≠ .rBrace ∧
      kind ≠ .eof ∧ kind ≠ .kwLet ∧ kind ≠ .kwDef ∧ kind ≠ .kwFn := by
    intro kind
    cases kind <;> simp [TokenKind.startsExpr, TokenKind.prefixOp?]
  obtain ⟨hsemi, hbrace, heof, hlet, hdef, hfn⟩ := hkinds _ hstart
  rw [blockBodyTurn]
  refine .look rfl ?_
  rw [hs.kind, Word.firstKind_append hts]
  split
  · next hk => exact absurd hk hsemi
  · next hk => exact absurd hk hbrace
  · next hk => exact absurd hk heof
  · next hk => exact absurd hk hlet
  · next hk => exact absurd hk hdef
  · next hk => exact absurd hk hfn
  rw [if_pos hstart]
  refine .look rfl ?_
  refine (he n _ s k hs hn hfree hend).bind fun e' v hv _ he' => ?_
  exact hgo _ _ e' v hv he'

/-- An expression in front of the closing brace is the value of the block. -/
theorem takes_bodyValue (hts : ts ≠ []) (hstart : (Token.firstKind ts).startsExpr = true)
    (he : Accepts N (.stmntExpr e) ts) {n : Nat} {s : State} {k : List Word}
    {P : Interner → List Stmnt × Expr → Prop} (hs : s.Faces (Token.words ts ++ k))
    (hn : 4 * (ts.length + k.length) ≤ n + 2) (hbrace : firstKind k = .rBrace)
    (hP : ∀ M e', Expr.Alike N M e e' → P M ([], e')) : Takes (rules (n + 1)).blockBody s k P := by
  have hclose : (firstKind k).closes = true := by
    rw [hbrace]
    rfl
  show Takes (blockBody (rules n)) s k P
  refine .leave (takes_bodyExpr hts hstart he hs hn (.of_closes hclose)
    (.inr (.of_closes hclose _ _)) fun start M e' v hv _ => ?_)
  refine .decline hv (by rw [hbrace]; nofun) ?_
  rw [if_neg nofun]
  have hat : v.kind = .rBrace := hv.kind.trans hbrace
  refine .look (a := true) (by rw [← decide_eq_true hat]; rfl) ?_
  rw [if_pos rfl]
  exact .pure hv fun M _ he => ⟨_, rfl, hP M e' he⟩

/-- An expression in front of a semicolon is a statement. -/
theorem takes_bodyStmnt (hts : ts ≠ []) (hstart : (Token.firstKind ts).startsExpr = true)
    (he : Accepts N (.stmntExpr e) ts) {n : Nat} {s : State} {w : Word} {k k' : List Word}
    {P P' : Interner → List Stmnt × Expr → Prop} (hsemi : w.kind = .semi)
    (hs : s.Faces (Token.words ts ++ w :: k)) (hn : 4 * (ts.length + (k.length + 1)) ≤ n + 2)
    (hrest : ∀ t, t.Faces k → Moves s t → Takes (rules n).blockBody t k' P)
    (hP : ∀ M span e' out, Expr.Alike N M e e' → P M out → P' M (.expr span e' :: out.1, out.2)) :
    Takes (rules (n + 1)).blockBody s k' P' := by
  have hclose : (firstKind (w :: k)).closes = true := by
    rw [Word.firstKind_cons, hsemi]
    rfl
  show Takes (blockBody (rules n)) s k' P'
  refine .goOn (takes_bodyExpr hts hstart he hs hn (.of_closes hclose)
    (.inr (.of_closes hclose _ _)) fun start M e' v hv _ => ?_) hrest
  refine .accept nofun hv hsemi fun x hx _ => ?_
  rw [if_pos rfl]
  exact .look rfl (.pure hx fun M _ he => ⟨_, rfl, fun out hout => hP M _ e' out he hout⟩)

/-- A form without a semicolon is a statement if the block goes on behind it. -/
theorem takes_bodyForm (hts : ts ≠ []) (hstart : (Token.firstKind ts).startsExpr = true)
    (he : Accepts N (.stmntExpr e) ts) (hform : e.isStmntLike = true) {n : Nat} {s : State}
    {k k' : List Word} {P P' : Interner → List Stmnt × Expr → Prop}
    (hs : s.Faces (Token.words ts ++ k)) (hn : 4 * (ts.length + k.length) ≤ n + 2)
    (hnext : (firstKind k).startsStmnt = true)
    (hend : (Token.firstKind ts).startsForm = true ∨ Word.Stops .bottom k)
    (hrest : ∀ t, t.Faces k → Moves s t → Takes (rules n).blockBody t k' P)
    (hP : ∀ M span e' out, Expr.Alike N M e e' → P M out → P' M (.expr span e' :: out.1, out.2)) :
    Takes (rules (n + 1)).blockBody s k' P' := by
  have hkinds : firstKind k ≠ .colon ∧ firstKind k ≠ .kwElse ∧ firstKind k ≠ .semi ∧
      firstKind k ≠ .rBrace := by
    refine ⟨?_, ?_, ?_, ?_⟩ <;>
    · intro h
      rw [h] at hnext
      cases hnext
  obtain ⟨hcolon, helse, hsemi, hbrace⟩ := hkinds
  show Takes (blockBody (rules n)) s k' P'
  refine .goOn (takes_bodyExpr hts hstart he hs hn ⟨hcolon, helse⟩ hend
    fun start M e' v hv halike => ?_) hrest
  refine .decline hv hsemi ?_
  rw [if_neg nofun]
  have hat : v.kind ≠ .rBrace := by rwa [hv.kind]
  refine .look (a := false) (by rw [← decide_eq_false hat]; rfl) ?_
  rw [if_neg nofun, if_pos (by rw [← halike.isStmntLike, hform])]
  exact .pure hv fun M _ he => ⟨_, rfl, fun out hout => hP M _ e' out he hout⟩

theorem accepts_bodyValue (hts : ts ≠ []) (hstart : (Token.firstKind ts).startsExpr = true)
    (he : Accepts N (.stmntExpr e) ts) : Accepts N (.body close [] e) ts := by
  intro n s k hs hn hbrace
  have hlength := List.length_pos_iff.2 hts
  obtain ⟨n, rfl⟩ : ∃ m, n = m + 1 := ⟨n - 1, by omega⟩
  exact takes_bodyValue hts hstart he hs (by omega) hbrace fun _ _ he => ⟨.nil, he⟩

theorem accepts_bodyExpr (hts : ts ≠ []) (hstart : (Token.firstKind ts).startsExpr = true)
    (he : Accepts N (.stmntExpr e) ts) (hsemi : t.kind = .semi)
    (hrest : Accepts N (.body close ss value) us) :
    Accepts N (.body close (.expr span e :: ss) value) (ts ++ t :: us) := by
  intro n s k hs hn hbrace
  have hlength := List.length_pos_iff.2 hts
  simp only [List.length_append, List.length_cons] at hn
  simp only [Token.words_append, Token.words_cons, List.append_assoc, List.cons_append] at hs
  obtain ⟨n, rfl⟩ : ∃ m, n = m + 1 := ⟨n - 1, by omega⟩
  exact takes_bodyStmnt hts hstart he hsemi hs (by simp; omega)
    (fun v hv _ => hrest n v k hv (by omega) hbrace)
    fun _ _ _ _ he hout => ⟨.cons (.expr he) hout.1, hout.2⟩

theorem accepts_bodyForm (hts : ts ≠ []) (hstart : (Token.firstKind ts).startsExpr = true)
    (he : Accepts N (.stmntExpr e) ts) (hform : e.isStmntLike = true) (hus : us ≠ [])
    (hnext : Token.firstKind us ≠ .semi)
    (hgoes : Token.firstKind us = .semi ∨ (Token.firstKind us).startsStmnt = true)
    (hapart : (Token.firstKind ts).startsForm = true ∨ Token.Apart us)
    (hrest : Accepts N (.body close ss value) us) :
    Accepts N (.body close (.expr e.span e :: ss) value) (ts ++ us) := by
  intro n s k hs hn hbrace
  have hlength := List.length_pos_iff.2 hts
  rw [List.length_append] at hn
  rw [Token.words_append, List.append_assoc] at hs
  obtain ⟨n, rfl⟩ : ∃ m, n = m + 1 := ⟨n - 1, by omega⟩
  exact takes_bodyForm hts hstart he hform hs (by simp; omega)
    (by rw [Word.firstKind_append hus]; exact hgoes.resolve_left hnext)
    (hapart.imp_right fun h => stops_of_apart h (by rw [hbrace]; rfl))
    (fun v hv _ => hrest n v k hv (by omega) hbrace)
    fun _ _ _ _ he hout => ⟨.cons (.expr he) hout.1, hout.2⟩

/-! ## Modules -/

theorem accepts_stmntsNil : Accepts N (.stmnts []) [] := by
  intro n rounds s k hs hn hrounds heof
  have hs : s.Faces k := hs
  obtain ⟨rounds, rfl⟩ : ∃ m, rounds = m + 1 := ⟨rounds - 1, by omega⟩
  refine .leave (.look rfl ?_)
  rw [hs.kind.trans heof]
  exact .pure hs fun _ _ => ⟨_, rfl, .nil⟩

theorem accepts_stmntsSemi (hsemi : t.kind = .semi) (h : Accepts N (.stmnts ss) ts) :
    Accepts N (.stmnts ss) (t :: ts) := by
  intro n rounds s k hs hn hrounds heof
  rw [List.length_cons] at hn hrounds
  obtain ⟨rounds, rfl⟩ : ∃ m, rounds = m + 1 := ⟨rounds - 1, by omega⟩
  refine .goOn (.look rfl ?_) fun v hv _ => h n rounds v k hv (by omega) (by omega) heof
  rw [hs.kind.trans hsemi]
  exact .bump hs (by rw [Token.kind_word, hsemi]; nofun) fun v hv _ =>
    .pure hv fun _ _ => ⟨_, rfl, fun _ hss => hss⟩

/-- A statement without a report is followed by the others. -/
theorem takes_stmnts {n rounds : Nat} {s : State} {k k' : List Word}
    (hstart : (Token.firstKind ts).startsStmnt = true)
    (hst : Takes (stmnt (rules n) "module") s k fun M st' => Stmnt.Alike N M st st')
    (hkind : s.kind = Token.firstKind ts)
    (hrest : ∀ v, v.Faces k → Takes (stmnts (rules n) rounds) v k' fun M ss' =>
      Stmnt.AlikeList N M ss ss') :
    Takes (stmnts (rules n) (rounds + 1)) s k' fun M ss' => Stmnt.AlikeList N M (st :: ss) ss' := by
  rw [stmnts]
  refine .goOn ?_ fun v hv _ => hrest v hv
  rw [stmntsTurn]
  refine .look rfl ?_
  rw [hkind]
  split
  · next hk => rw [hk] at hstart; cases hstart
  · next hk => rw [hk] at hstart; cases hstart
  rw [if_pos hstart]
  refine .look rfl (hst.bind fun st' v hv hsv _ => .look (a := ()) ?_ ?_)
  · have hreports : ¬ s.reports.size < v.reports.size := by
      rw [hsv.reports]
      exact Nat.lt_irrefl _
    exact congrArg (fun t => some ((), t)) (if_neg fun h => hreports h.1)
  · exact .pure hv fun M _ hst => ⟨_, rfl, fun ss' hss => .cons hst hss⟩

theorem accepts_stmntsBinding (hts : ts ≠ [])
    (hstart : Token.firstKind ts = .kwLet ∨ Token.firstKind ts = .kwDef ∨
      Token.firstKind ts = .kwFn)
    (hst : Accepts N (.binding st) ts) (hrest : Accepts N (.stmnts ss) us) :
    Accepts N (.stmnts (st :: ss)) (ts ++ us) := by
  intro n rounds s k hs hn hrounds heof
  have hlength := List.length_pos_iff.2 hts
  rw [List.length_append] at hn hrounds
  rw [Token.words_append, List.append_assoc] at hs
  obtain ⟨rounds, rfl⟩ : ∃ m, rounds = m + 1 := ⟨rounds - 1, by omega⟩
  obtain ⟨hlet, hdef, hfn⟩ := hst n s _ hs (by simp; omega)
  have hkind : s.kind = Token.firstKind ts := by rw [hs.kind, Word.firstKind_append hts]
  have hstmnt : Takes (stmnt (rules n) "module") s (Token.words us ++ k) fun M st' =>
      Stmnt.Alike N M st st' := by
    refine .look rfl ?_
    rw [hkind]
    rcases hstart with hk | hk | hk <;> rw [hk]
    · exact hlet hk
    · exact (hdef hk).map
    · exact (hfn hk).map
  have hbegin : (Token.firstKind ts).startsStmnt = true := by
    rcases hstart with hk | hk | hk <;> rw [hk] <;> rfl
  exact takes_stmnts hbegin hstmnt hkind fun v hv => hrest n rounds v k hv (by omega) (by omega) heof

/-- An expression as a statement of a module, and what follows it. -/
theorem takes_stmntExpr (hts : ts ≠ []) (hstart : (Token.firstKind ts).startsExpr = true)
    (he : Accepts N (.stmntExpr e) ts) {n : Nat} {s : State} {k k' : List Word} {construct : String}
    {Q : Interner → Stmnt → Prop} (hs : s.Faces (Token.words ts ++ k))
    (hn : 4 * (ts.length + k.length) ≤ n + 2) (hfree : Free k)
    (hend : (Token.firstKind ts).startsForm = true ∨ Word.Stops .bottom k)
    (hgo : ∀ start M e' v, v.Faces k → Expr.Alike N M e e' →
      Takes (do
        unless ← accept .semi do
          unless e'.isStmntLike do
            let _ ← expect .semi "expression statement"
        return .expr (← Parser.finish start) e') v k' fun M out => Expr.Alike N M e e' → Q M out) :
    Takes (stmnt (rules n) construct) s k' Q := by
  have hkinds : ∀ kind : TokenKind, kind.startsExpr = true →
      kind ≠ .kwLet ∧ kind ≠ .kwDef ∧ kind ≠ .kwFn := by
    intro kind
    cases kind <;> simp [TokenKind.startsExpr, TokenKind.prefixOp?]
  obtain ⟨hlet, hdef, hfn⟩ := hkinds _ hstart
  rw [stmnt]
  refine .look rfl ?_
  rw [hs.kind, Word.firstKind_append hts]
  split
  · next hk => exact absurd hk hlet
  · next hk => exact absurd hk hdef
  · next hk => exact absurd hk hfn
  refine .look rfl ?_
  refine (he n _ s k hs hn hfree hend).bind fun e' v hv _ he' => ?_
  exact hgo _ _ e' v hv he'

theorem accepts_stmntsExpr (hts : ts ≠ []) (hstart : (Token.firstKind ts).startsExpr = true)
    (he : Accepts N (.stmntExpr e) ts) (hsemi : t.kind = .semi)
    (hrest : Accepts N (.stmnts ss) us) :
    Accepts N (.stmnts (.expr span e :: ss)) (ts ++ t :: us) := by
  intro n rounds s k hs hn hrounds heof
  have hlength := List.length_pos_iff.2 hts
  simp only [List.length_append, List.length_cons] at hn hrounds
  simp only [Token.words_append, Token.words_cons, List.append_assoc, List.cons_append] at hs
  obtain ⟨rounds, rfl⟩ : ∃ m, rounds = m + 1 := ⟨rounds - 1, by omega⟩
  have hkind : s.kind = Token.firstKind ts := by rw [hs.kind, Word.firstKind_append hts]
  have hclose : t.word.kind.closes = true := by
    rw [Token.kind_word, hsemi]
    rfl
  have hstmnt : Takes (stmnt (rules n) "module") s (Token.words us ++ k) fun M st' =>
      Stmnt.Alike N M (.expr span e) st' := by
    refine takes_stmntExpr hts hstart he hs (by simp; omega) (.of_closes hclose)
      (.inr (.of_closes hclose _ _)) fun start M e' v hv _ => ?_
    refine .accept nofun hv hsemi fun w hw _ => ?_
    rw [if_pos rfl]
    exact .look rfl (.pure hw fun M _ he => .expr he)
  exact takes_stmnts (TokenKind.startsStmnt_of_expr hstart) hstmnt hkind fun v hv =>
    hrest n rounds v k hv (by omega) (by omega) heof

theorem accepts_stmntsForm (hts : ts ≠ []) (hstart : (Token.firstKind ts).startsExpr = true)
    (he : Accepts N (.stmntExpr e) ts) (hform : e.isStmntLike = true)
    (hnext : Token.firstKind us ≠ .semi)
    (hgoes : us = [] ∨ Token.firstKind us = .semi ∨ (Token.firstKind us).startsStmnt = true)
    (hapart : (Token.firstKind ts).startsForm = true ∨ Token.Apart us)
    (hrest : Accepts N (.stmnts ss) us) :
    Accepts N (.stmnts (.expr span e :: ss)) (ts ++ us) := by
  intro n rounds s k hs hn hrounds heof
  have hlength := List.length_pos_iff.2 hts
  rw [List.length_append] at hn hrounds
  rw [Token.words_append, List.append_assoc] at hs
  obtain ⟨rounds, rfl⟩ : ∃ m, rounds = m + 1 := ⟨rounds - 1, by omega⟩
  have hkind : s.kind = Token.firstKind ts := by rw [hs.kind, Word.firstKind_append hts]
  have hfirst : firstKind (Token.words us ++ k) = .eof ∨
      (firstKind (Token.words us ++ k)).startsStmnt = true := by
    by_cases hnil : us = []
    · subst hnil
      exact .inl heof
    · rw [Word.firstKind_append hnil]
      exact .inr ((hgoes.resolve_left hnil).resolve_left hnext)
  have hfree : Free (Token.words us ++ k) := by
    constructor <;>
    · intro h
      rw [h] at hfirst
      rcases hfirst with h | h <;> cases h
  have hsemi : firstKind (Token.words us ++ k) ≠ .semi := by
    intro h
    rw [h] at hfirst
    rcases hfirst with h | h <;> cases h
  have hstmnt : Takes (stmnt (rules n) "module") s (Token.words us ++ k) fun M st' =>
      Stmnt.Alike N M (.expr span e) st' := by
    refine takes_stmntExpr hts hstart he hs (by simp; omega) hfree
      (hapart.imp_right fun h => stops_of_apart h (by rw [heof]; rfl)) fun start M e' v hv halike => ?_
    refine .decline hv hsemi ?_
    rw [if_neg nofun, if_pos (by rw [← halike.isStmntLike, hform])]
    exact .look rfl (.pure hv fun M _ he => .expr he)
  exact takes_stmnts (TokenKind.startsStmnt_of_expr hstart) hstmnt hkind fun v hv =>
    hrest n rounds v k hv (by omega) (by omega) heof

end Statements

/-- Every phrase is read by its production. -/
theorem accepts {phrase : Phrase} {ts : List Token} (h : Derives N place phrase ts) :
    Accepts N phrase ts := by
  have hbegins : ∀ {φ : Phrase} {ts : List Token}, Derives N place φ ts → φ.isSolid = true →
      ts ≠ [] ∧ φ.startsWith (Token.firstKind ts) = true := fun h hsolid =>
    ⟨h.ne_nil hsolid, h.starts (h.ne_nil hsolid)⟩
  have hbegin : ∀ {φ : Phrase} {ts : List Token}, Derives N place φ ts →
      ts = [] ∨ φ.startsWith (Token.firstKind ts) = true := fun h =>
    Decidable.or_iff_not_imp_left.2 h.starts
  have hptrn : ∀ {typed : Bool} {reach : Prec} {p : Ptrn} {ts : List Token},
      Derives N place (.ptrn typed reach p) ts → p.isError = false := by
    intro typed reach p ts h
    cases h <;> rfl
  have htype : ∀ {p : Ptrn} {ts : List Token}, Derives N place (.sigmaElem p) ts →
      (p.ty?.map Expr.isError).getD false = false := by
    intro p ts h
    cases h with
    | sigmaElemNamed _ _ type _ => exact type.faultless _ (Expr.mem_nodes _)
    | sigmaElemPlain type _ _ => exact type.faultless _ (Expr.mem_nodes _)
  induction h with
  | exprOperand _ ih => exact accepts_exprOperand ih
  | exprPrefixed kind _ _ ih => exact accepts_exprPrefixed kind ih
  | exprBinary kind strength _ beyond _ _ ihl ihr => exact accepts_exprBinary kind strength ihl beyond ihr
  | name spells _ => exact accepts_name spells
  | literal kind payload same _ => exact accepts_literal kind payload same
  | parens h ih =>
    obtain ⟨hne, hfirst⟩ := hbegins h rfl
    exact accepts_operandParens hne (of_decide_eq_true hfirst) (h.faultless _ (Expr.mem_nodes _)) ih
  | sigma opens _ closes _ ih => exact accepts_sigma opens ih closes
  | operandForm h ih =>
    obtain ⟨hne, hfirst⟩ := hbegins h rfl
    exact accepts_operandForm hne hfirst (h.faultless _ (Expr.mem_nodes _)) ih
  | lambda kind _ _ ih => exact accepts_lambda kind ih
  | pi kind _ arrow _ _ ihd ihc => exact accepts_pi kind ihd arrow ihc
  | continuation kind _ _ _ ih => exact accepts_continuation kind ih
  | pack opens _ semi _ closes _ ihd ihe => exact accepts_pack opens ihd semi ihe closes
  | variadic opens _ semi _ closes _ ihd ihe => exact accepts_variadic opens ihd semi ihe closes
  | qualifier kind _ => exact accepts_qualifier kind
  | bottom kind _ => exact accepts_bottom kind
  | unknown kind _ => exact accepts_unknown kind
  | postfixed _ kind _ ih => exact accepts_postfixed kind ih
  | app _ arg _ ihf iha =>
    obtain ⟨hne, hfirst⟩ := hbegins arg rfl
    exact accepts_app ihf (of_decide_eq_true hfirst) hne iha
  | appCps _ mark arg _ ihf iha =>
    obtain ⟨hne, hfirst⟩ := hbegins arg rfl
    exact accepts_appCps ihf mark (of_decide_eq_true hfirst) hne iha
  | field _ dot spells _ ih => exact accepts_field ih dot spells
  | grouped opens _ closes _ ih => exact accepts_parens opens ih closes (.inl ⟨rfl, rfl⟩)
  | tuple opens _ closes several _ ih =>
    exact accepts_parens opens ih closes (.inr ⟨several, rfl⟩)
  | elemsNil => exact accepts_elemsNil
  | elemsOne elem ih =>
    obtain ⟨hne, hfirst⟩ := hbegins elem rfl
    exact accepts_elemsOne hne hfirst (elem.faultless _ (Expr.mem_nodes _)) ih
  | elemsCons elem separator _ ih ihs =>
    obtain ⟨hne, hfirst⟩ := hbegins elem rfl
    exact accepts_elemsCons hne hfirst (elem.faultless _ (Expr.mem_nodes _)) ih separator ihs
  | elemNamed spells assign _ ih => exact accepts_elemNamed spells assign ih
  | elemPlain expr plain ih => exact accepts_elemPlain (expr.ne_nil rfl) ih plain
  | sigmaElemsNil => exact accepts_sigmaElemsNil
  | sigmaElemsOne elem ih =>
    obtain ⟨hne, hfirst⟩ := hbegins elem rfl
    exact accepts_sigmaElemsOne hne hfirst (htype elem) ih
  | sigmaElemsCons elem separator _ ih ihs =>
    obtain ⟨hne, hfirst⟩ := hbegins elem rfl
    exact accepts_sigmaElemsCons hne hfirst (htype elem) ih separator ihs
  | sigmaElemNamed spells colon _ _ ih => exact accepts_sigmaElemNamed spells colon ih
  | sigmaElemPlain type plain wildcard ih =>
    exact accepts_sigmaElemPlain (type.ne_nil rfl) ih plain wildcard
  | ptrnName spells _ _ ih => exact accepts_ptrnName spells ih
  | ptrnTuple opens _ closes _ _ ihs ih => exact accepts_ptrnTuple opens ihs closes ih
  | ptrnsNil => exact accepts_ptrnsNil
  | ptrnsOne elem ih =>
    obtain ⟨hne, hfirst⟩ := hbegins elem rfl
    exact accepts_ptrnsOne hne (of_decide_eq_true hfirst) (hptrn elem) ih
  | ptrnsCons elem separator _ ih ihs =>
    obtain ⟨hne, hfirst⟩ := hbegins elem rfl
    exact accepts_ptrnsCons hne (of_decide_eq_true hfirst) (hptrn elem) ih separator ihs
  | ascriptionNone => exact accepts_ascriptionNone
  | ascriptionSome colon _ within level ih => exact accepts_ascriptionSome colon ih within level
  | codomainOpen _ => exact accepts_codomainOpen
  | codomainWritten arrow _ ih => exact accepts_codomainWritten arrow ih
  | function _ codomain body ihd ihc ihb =>
    obtain ⟨hne, hfirst⟩ := hbegins body rfl
    exact accepts_function ihd ihc ((hbegin codomain).imp_right of_decide_eq_true) ihb hne
      (of_decide_eq_true hfirst)
  | formBlock block ih =>
    obtain ⟨hne, hfirst⟩ := hbegins block rfl
    exact accepts_formBlock hne (of_decide_eq_true hfirst) ih
  | formBranch branch ih =>
    obtain ⟨hne, hfirst⟩ := hbegins branch rfl
    exact accepts_formBranch hne (of_decide_eq_true hfirst) ih
  | formSelect kind _ opens _ closes _ ihe ihs => exact accepts_formSelect kind ihe opens ihs closes
  | formFor kind _ sign _ body _ ihp ihe ihb =>
    obtain ⟨hne, hfirst⟩ := hbegins body rfl
    exact accepts_formFor kind ihp sign ihe ihb hne (of_decide_eq_true hfirst)
  | formWhile kind _ body _ ihe ihb =>
    obtain ⟨hne, hfirst⟩ := hbegins body rfl
    exact accepts_formWhile kind ihe ihb hne (of_decide_eq_true hfirst)
  | branch kind _ yes _ _ ihc ihy ihn =>
    obtain ⟨hne, hfirst⟩ := hbegins yes rfl
    exact accepts_branch kind ihc ihy hne (of_decide_eq_true hfirst) ihn
  | otherwiseNone _ => exact accepts_otherwiseNone
  | otherwiseBranch kind branch ih =>
    obtain ⟨hne, hfirst⟩ := hbegins branch rfl
    exact accepts_otherwiseBranch kind hne (of_decide_eq_true hfirst) ih
  | otherwiseBlock kind block ih =>
    obtain ⟨hne, hfirst⟩ := hbegins block rfl
    exact accepts_otherwiseBlock kind hne (of_decide_eq_true hfirst) ih
  | armsNil => exact accepts_armsNil
  | armsCons ptrn arrow _ _ atMostOne arms ihp ihe ihs =>
    obtain ⟨hne, hfirst⟩ := hbegins ptrn rfl
    exact accepts_armsCons hne (of_decide_eq_true hfirst) ihp arrow ihe atMostOne
      ((hbegin arms).imp_right of_decide_eq_true) ihs
  | block opens _ closes _ ih => exact accepts_block opens ih closes
  | bodyEnd _ => exact accepts_bodyEnd
  | bodyValue expr ih =>
    obtain ⟨hne, hfirst⟩ := hbegins expr rfl
    exact accepts_bodyValue hne hfirst ih
  | bodySemi semi _ ih => exact accepts_bodySemi semi ih
  | bodyBinding stmnt _ ih ihs =>
    obtain ⟨hne, hfirst⟩ := hbegins stmnt rfl
    exact accepts_bodyBinding hne (of_decide_eq_true hfirst) ih ihs
  | bodyExpr expr semi _ _ ih ihs =>
    obtain ⟨hne, hfirst⟩ := hbegins expr rfl
    exact accepts_bodyExpr hne hfirst ih semi ihs
  | bodyForm expr form goesOn unfinished apart rest ih ihs =>
    obtain ⟨hne, hfirst⟩ := hbegins expr rfl
    exact accepts_bodyForm hne hfirst ih form goesOn unfinished
      (of_decide_eq_true (rest.starts goesOn)) apart ihs
  | stmntForm _ ih => exact accepts_stmntForm ih
  | stmntPlain _ plain ih => exact accepts_stmntPlain plain ih
  | bindLet kind _ beyond assign _ semi _ ihp ihe =>
    exact accepts_bindLet kind ihp beyond assign ihe semi
  | bindDef kind spells assign _ semi _ ih => exact accepts_bindDef kind spells assign ih semi
  | bindFn kind spells _ _ _ ih => exact accepts_bindFn kind spells ih
  | stmntsNil => exact accepts_stmntsNil
  | stmntsSemi semi _ ih => exact accepts_stmntsSemi semi ih
  | stmntsBinding stmnt _ ih ihs =>
    obtain ⟨hne, hfirst⟩ := hbegins stmnt rfl
    exact accepts_stmntsBinding hne (of_decide_eq_true hfirst) ih ihs
  | stmntsExpr expr semi _ _ ih ihs =>
    obtain ⟨hne, hfirst⟩ := hbegins expr rfl
    exact accepts_stmntsExpr hne hfirst ih semi ihs
  | stmntsForm expr form unfinished apart _ rest ih ihs =>
    obtain ⟨hne, hfirst⟩ := hbegins expr rfl
    exact accepts_stmntsForm hne hfirst ih form unfinished
      ((hbegin rest).imp_right of_decide_eq_true) apart ihs

end Parser

end ImpLang
