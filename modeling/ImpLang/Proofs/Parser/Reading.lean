import ImpLang.Proofs.Parser.Completeness
import ImpLang.Proofs.Parser.Source

/-!
A source whose tokens are without a report and spell statements of the grammar is read without a
report, and gives statements that are alike.
-/

namespace ImpLang

namespace Parser

section Start

variable {file : FileId} {source : String}

/-- A source on whose tokens nothing is reported has no invalid ones. -/
theorem significant_of_silent (h : ∀ lexed ∈ Token.lex file source, lexed.reports = []) :
    significant (Token.lex file source) = Token.lex file source := by
  have hall : ∀ all : List Lexed, (∀ lexed ∈ all, lexed.token.kind ≠ .invalid) →
      significant all = all := by
    intro all hvalid
    induction all with
    | nil => rfl
    | cons first rest ih =>
      rw [significant, if_neg (hvalid first (List.mem_cons_self ..)),
        ih fun lexed hlexed => hvalid lexed (List.mem_cons_of_mem _ hlexed)]
  apply hall
  intro lexed hlexed hkind
  exact Token.reported_lexFrom file _ _ _ lexed hlexed hkind (h lexed hlexed)

/-- At its begin the window looks at all tokens of a source. -/
theorem faces_start (h : ∀ lexed ∈ Token.lex file source, lexed.reports = []) (names : Interner) :
    (State.start file source names).Faces
      (Token.words ((Token.lex file source).map Lexed.token)) := by
  have hsignificant := significant_of_silent h
  refine ⟨ok_start file source names, ?_, ?_⟩
  · simp only [State.start, State.opening, hsignificant]
    split
    · simp
    · simp
    · next first second rest hlex =>
      intro lexed hlexed
      simp only [State.enter_beyond, List.drop_succ_cons, List.drop_zero] at hlexed
      refine h lexed ?_
      rw [hlex]
      exact List.mem_cons_of_mem _ (List.mem_cons_of_mem _ hlexed)
  · rw [pending_start, hsignificant]

/-- The nested calls allowed are enough for all words in front. -/
theorem State.Faces.le_callLimit {s : State} {k : List Word} (h : s.Faces k) :
    4 * k.length ≤ callLimit s := by
  have hleft := h.left
  rw [State.left] at hleft
  rw [callLimit]
  omega

theorem reports_start_of_silent (h : ∀ lexed ∈ Token.lex file source, lexed.reports = [])
    (names : Interner) : (State.start file source names).reports = #[] := by
  simp only [State.start, State.opening, significant_of_silent h]
  split
  · rfl
  · next first hlex => simp [h first (by simp [hlex])]
  · next first second rest hlex => simp [h first (by simp [hlex]), h second (by simp [hlex])]

end Start

end Parser

/-- What the grammar derives is read. -/
theorem Module.parse_accepts {N : Interner} {place : Placement} {ss : List Stmnt} {ts : List Token}
    {eof : Word} (file : FileId) (source : String) (names : Interner)
    (hsilent : ∀ lexed ∈ Token.lex file source, lexed.reports = [])
    (hwords : Token.words ((Token.lex file source).map Lexed.token) = Token.words ts ++ [eof])
    (heof : eof.kind = .eof) (h : Derives N place (.stmnts ss) ts) :
    (Module.parse file source names).reports = #[] ∧
      Stmnt.AlikeList N (Module.parse file source names).names ss
        (Module.parse file source names).result.stmnts := by
  have hfaces := Parser.faces_start hsilent names
  rw [hwords] at hfaces
  have hlimit := hfaces.le_callLimit
  have hrounds := congrArg List.length hwords
  simp only [Token.length_words, List.length_append, List.length_map, List.length_singleton]
    at hlimit hrounds
  have hcalls : 4 * (ts.length + [eof].length) ≤
      Parser.callLimit (Parser.State.start file source names) + 2 := by
    rw [List.length_singleton]
    omega
  obtain ⟨ss', t, hrun, -, hmoves, halike⟩ := Parser.accepts h _
    ((Token.lex file source).length + 1) _ [eof] hfaces hcalls (by omega) heof
  have hout : Parser.run (fun r => Parser.stmnts r ((Token.lex file source).length + 1)) [] file
      source names = (ss', t) := by
    simp only [Parser.run, Parser.runFrom, hrun, Option.getD_some]
  have hreports : (Module.parse file source names).reports = t.reports := by
    simp only [Module.parse_eq_run, hout]
  have hnames : (Module.parse file source names).names = t.names := by
    simp only [Module.parse_eq_run, hout]
  have hresult : (Module.parse file source names).result.stmnts = ss' := by
    simp only [Module.parse_eq_run, hout]
  rw [hreports, hnames, hresult, hmoves.reports, Parser.reports_start_of_silent hsilent]
  exact ⟨rfl, halike _ (Interner.le_refl _)⟩

/-- Everything but an assignment itself may stand where only operators stronger than assignments
may. -/
theorem Derives.above_assign {names : Interner} {place : Placement} {reach : Prec} {e : Expr}
    {ts : List Token} (h : Derives names place (.expr .bottom reach e) ts)
    (hplain : ∀ span left op right, e = .binary span left op right → op.prec ≠ .assign) :
    Derives names place (.expr .orOr reach e) ts := by
  cases h with
  | exprOperand operand => exact .exprOperand operand
  | exprPrefixed kind operand extent => exact .exprPrefixed kind operand extent
  | @exprBinary _ _ _ _ _ op _ _ _ _ kind strength lhs beyond rhs extent =>
    have habove : op.prec ≠ .assign → Prec.orOr ≤ op.prec := by cases op <;> decide
    exact .exprBinary kind (habove (hplain _ _ _ _ rfl)) lhs beyond rhs extent

/-- A name with a type and a value is read as that, unless the type ends in the codomain of a pi
type: what stands behind an arrow is any expression, which goes on behind an assignment sign. -/
theorem Module.parse_let {N : Interner} {id : Id} {ty init : Expr} {reach reach' : Prec}
    {kw name colon sign semi : Token} {ts us : List Token} {eof : Word} (file : FileId)
    (source : String) (names : Interner) (span inner : Span) (decl : DeclId)
    (hsilent : ∀ lexed ∈ Token.lex file source, lexed.reports = [])
    (hwords : Token.words ((Token.lex file source).map Lexed.token) =
      Token.words (kw :: (name :: colon :: ts ++ sign :: (us ++ [semi]))) ++ [eof])
    (hkw : kw.kind = .kwLet) (hname : name.Spells N .free id) (hcolon : colon.kind = .colon)
    (hty : Derives N .free (.expr .bottom reach ty) ts) (hbeyond : Prec.assign < reach)
    (hplain : ∀ span left op right, ty = .binary span left op right → op.prec ≠ .assign)
    (hsign : sign.kind = .assign) (hinit : Derives N .free (.expr .bottom reach' init) us)
    (hsemi : semi.kind = .semi) (heof : eof.kind = .eof) :
    (Module.parse file source names).reports = #[] ∧
      Stmnt.AlikeList N (Module.parse file source names).names
        [.bind span (.name inner id decl (some ty) false) init]
        (Module.parse file source names).result.stmnts := by
  have hlevel : Prec.orOr ≤ reach := by
    revert hbeyond
    cases reach <;> decide
  have hascription : Derives N .free (.ascription .orOr (some ty)) (colon :: ts) :=
    .ascriptionSome hcolon (hty.above_assign hplain) hlevel (Prec.le_refl _)
  have hbinding : Derives N .free (.binding (.bind span (.name inner id decl (some ty) false) init))
      (kw :: (name :: colon :: ts ++ sign :: (us ++ [semi]))) :=
    .bindLet hkw (.ptrnName hname hascription trivial) (by decide) hsign hinit hsemi trivial
  have hstmnts := Derives.stmntsBinding hbinding .stmntsNil
  rw [List.append_nil] at hstmnts
  exact parse_accepts file source names hsilent hwords heof hstmnts

end ImpLang
