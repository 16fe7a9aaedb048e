import ImpLang.Proofs.Compiler
import ImpLang.Proofs.Parser.Soundness
import ImpLang.Proofs.Token.Lexing

/-!
Parsing whole sources: a module that is read without any report is derived from all tokens of its
source.
-/

namespace ImpLang

namespace Parser

theorem tokens_significant (lexed : List Lexed) :
    (significant lexed).map Lexed.token =
      (lexed.map Lexed.token).filter fun token => token.kind ≠ .invalid := by
  induction lexed with
  | nil => rfl
  | cons first rest ih =>
    simp only [significant]
    split
    · next hinvalid =>
      rw [List.map_cons, List.filter_cons_of_neg (by simp [hinvalid]), ← ih]
      cases significant rest <;> rfl
    · next hvalid =>
      rw [List.map_cons, List.map_cons, List.filter_cons_of_pos (by simpa using hvalid), ih]

/-- The reports on an invalid token are kept with the token behind it. -/
theorem silent_of_significant {n : Nat} {lexed : List Lexed}
    (hstream : Stream n (lexed.map Lexed.token))
    (h : ∀ next ∈ significant lexed, next.reports = []) : ∀ next ∈ lexed, next.reports = [] := by
  induction lexed generalizing n with
  | nil => simp
  | cons first rest ih =>
    by_cases hinvalid : first.token.kind = .invalid
    · have hrest := hstream.tail (by simp [hinvalid])
      simp only [significant, if_pos hinvalid] at h
      have htokens := tokens_significant rest
      cases hsignificant : significant rest with
      | nil =>
        rw [hsignificant] at htokens
        exact absurd htokens.symm (hrest.filter_valid).ne_nil
      | cons next others =>
        rw [hsignificant] at h
        have hnext := h ⟨next.token, first.reports ++ next.reports⟩ (List.mem_cons_self ..)
        obtain ⟨hfirst, hnext⟩ := List.append_eq_nil_iff.1 hnext
        have hothers : ∀ other ∈ significant rest, other.reports = [] := by
          rw [hsignificant]
          intro other hother
          rcases List.mem_cons.1 hother with rfl | hother
          · exact hnext
          · exact h other (List.mem_cons_of_mem _ hother)
        intro other hother
        rcases List.mem_cons.1 hother with rfl | hother
        · exact hfirst
        · exact ih hrest hothers other hother
    · simp only [significant, if_neg hinvalid] at h
      intro other hother
      rcases List.mem_cons.1 hother with rfl | hother
      · exact h _ (List.mem_cons_self ..)
      · have hne : rest.map Lexed.token ≠ [] := by
          simp only [ne_eq, List.map_eq_nil_iff]
          exact List.ne_nil_of_mem hother
        obtain ⟨-, -, -, -, hrest⟩ := hstream.uncons hne
        exact ih hrest (fun next hnext => h next (List.mem_cons_of_mem _ hnext)) other hother

/-- Without the invalid tokens the reports are the same. -/
theorem reports_significant {p : Diagnostic → Prop} {lexed : List Lexed}
    (h : ∀ next ∈ lexed, ∀ d ∈ next.reports, p d) :
    ∀ next ∈ significant lexed, ∀ d ∈ next.reports, p d := by
  induction lexed with
  | nil => simp [significant]
  | cons first rest ih =>
    have hrest := ih fun next hnext => h next (List.mem_cons_of_mem _ hnext)
    have hfirst := h first (List.mem_cons_self ..)
    simp only [significant]
    split
    · cases hsignificant : significant rest with
      | nil => simp
      | cons next others =>
        rw [hsignificant] at hrest
        intro other hother d hd
        rcases List.mem_cons.1 hother with rfl | hother
        · rcases List.mem_append.1 hd with hd | hd
          · exact hfirst d hd
          · exact hrest next (List.mem_cons_self ..) d hd
        · exact hrest other (List.mem_cons_of_mem _ hother) d hd
    · intro other hother d hd
      rcases List.mem_cons.1 hother with rfl | hother
      · exact hfirst d hd
      · exact hrest other hother d hd

section Opening

variable (file : FileId) {tokens : List Lexed} (names : Interner)

/-- The window over some tokens begins with the first one. -/
theorem pending_opening (h : tokens ≠ []) :
    (State.opening file tokens names).pending = tokens.map Lexed.token := by
  simp only [State.opening]
  split
  · exact absurd rfl h
  · simp [State.pending]
  · simp [State.pending]

/-- In front of the first token nothing is consumed. -/
theorem behind_opening : (State.opening file tokens names).behind = [] := by
  simp only [State.opening]
  split <;> simp

/-- Nothing is reported or declared by the parser yet. -/
theorem fresh_opening : (State.opening file tokens names).lastError = none ∧
    (State.opening file tokens names).decls = Decls.empty := by
  simp only [State.opening]
  split <;> simp

variable (h : Stream 0 (tokens.map Lexed.token))

include h

theorem ok_opening : (State.opening file tokens names).Ok := by
  have hne : tokens ≠ [] := fun hnil => h.ne_nil (congrArg (List.map Lexed.token) hnil)
  refine ⟨?_, fun _ => ?_⟩
  · rw [pending_opening file names hne]
    apply h.mono
    rw [State.prev, behind_opening]
    exact Nat.le_refl 0
  · simp only [State.opening]
    split <;> simp

theorem left_opening_le : (State.opening file tokens names).left ≤ tokens.length := by
  have hne : tokens ≠ [] := fun hnil => h.ne_nil (congrArg (List.map Lexed.token) hnil)
  have hlength := congrArg List.length (pending_opening file names hne)
  simp only [State.pending, List.length_cons, List.length_map] at hlength
  simp only [State.left]
  omega

/-- The nested calls allowed for some tokens are enough, and a round for each token too. -/
theorem runs_opening (table : Interner) {rounds : Nat} (hrounds : tokens.length < rounds) :
    let s := State.opening file tokens names
    Runs (stmnts (rules (callLimit s)) rounds) s fun ss t =>
      ∃ ts, Steps s ts t ∧ EndSpelled table ss ts t := by
  intro s
  have hleft := left_opening_le file names h
  apply runs_stmnts (rules_sound table _) _ (ok_opening file names h) (by omega)
  simp only [callLimit, State.left, s]
  omega

end Opening

section Start

variable (file : FileId) (source : String) (names : Interner)

theorem stream_significant :
    Stream 0 ((significant (Token.lex file source)).map Lexed.token) := by
  rw [tokens_significant]
  exact (Token.stream_lexFrom file _ Place.first source.toList (Nat.lt_succ_self _)).filter_valid

theorem significant_ne_nil : significant (Token.lex file source) ≠ [] :=
  fun hnil => (stream_significant file source).ne_nil (congrArg (List.map Lexed.token) hnil)

/-- The window over a source begins with its first token. -/
theorem pending_start :
    (State.start file source names).pending =
      (significant (Token.lex file source)).map Lexed.token :=
  pending_opening file names (significant_ne_nil file source)

/-- In front of the first token nothing is consumed. -/
theorem behind_start : (State.start file source names).behind = [] := behind_opening file names

theorem names_start : names ≤ (State.start file source names).names := names_opening file names

theorem ok_start : (State.start file source names).Ok :=
  ok_opening file names (stream_significant file source)

/-- The first two tokens are in the window from the beginning. -/
theorem reports_start (h : (State.start file source names).reports = #[])
    (hrest : ∀ lexed ∈ (State.start file source names).beyond.drop 1, lexed.reports = []) :
    ∀ lexed ∈ significant (Token.lex file source), lexed.reports = [] := by
  simp only [State.start, State.opening] at h hrest
  split at h
  · next hnil => simp [hnil]
  · next first hfirst =>
    rw [hfirst]
    simpa using h
  · next first second rest hfirst =>
    rw [hfirst] at hrest ⊢
    simpa [and_assoc] using And.intro h (by simpa using hrest)

theorem errors_start : (State.start file source names).Errors := by
  have hsignificant := reports_significant
    (Token.isError_lexFrom file (source.toList.length + 1) Place.first source.toList)
  change ∀ next ∈ significant (Token.lex file source), _ at hsignificant
  simp only [State.start, State.opening]
  split
  · exact ⟨by simp, by simp⟩
  · next first h =>
    rw [h] at hsignificant
    exact ⟨by simpa using hsignificant first (List.mem_cons_self ..), by simp⟩
  · next first second rest h =>
    rw [h] at hsignificant
    have hbeyond : ∀ next ∈ second :: rest, ∀ d ∈ next.reports, d.isError = true :=
      fun next hnext => hsignificant next (List.mem_cons_of_mem _ hnext)
    refine ⟨fun d hd => ?_, by simpa using hbeyond⟩
    simp only [State.enter_reports, Array.mem_append, List.mem_toArray] at hd
    rcases hd with (hd | hd) | hd
    · cases hd
    · exact hsignificant first (List.mem_cons_self ..) d hd
    · exact hbeyond second (List.mem_cons_self ..) d hd

theorem declared_start (id : DeclId) :
    (State.start file source names).decls.isError id = false := by
  simp only [State.start, State.opening]
  split <;> simp [Decls.isError, Decls.get?, Decls.empty]

/-- Leaving out tokens makes a source no longer. -/
theorem length_significant_le :
    (significant (Token.lex file source)).length ≤ (Token.lex file source).length := by
  have hlength := congrArg List.length (tokens_significant (Token.lex file source))
  have hfilter := List.length_filter_le (fun token : Token => decide (token.kind ≠ .invalid))
    ((Token.lex file source).map Lexed.token)
  rw [List.length_map] at hlength hfilter
  omega

/-- The nested calls and the rounds allowed for a source are enough. -/
theorem runs_start (table : Interner) :
    Runs (stmnts (rules (callLimit (State.start file source names)))
        ((Token.lex file source).length + 1)) (State.start file source names) fun ss t =>
      ∃ ts, Steps (State.start file source names) ts t ∧ EndSpelled table ss ts t :=
  runs_opening file names (stream_significant file source) table
    (Nat.lt_succ_of_le (length_significant_le file source))

/-- The parsed module, from a run that does not use up its rounds. -/
theorem exists_run :
    ∃ ss t, stmnts (rules (callLimit (State.start file source names)))
        ((Token.lex file source).length + 1) (State.start file source names) = some (ss, t) ∧
      Module.parse file source names =
        ⟨⟨(Span.origin file).cover t.here.span, file, ss, t.decls, false⟩, t.names, t.reports⟩ := by
  obtain ⟨ss, t, hrun, -⟩ := runs_start file source names names
  refine ⟨ss, t, hrun, ?_⟩
  simp only [Module.parse_eq_run, run, runFrom, hrun, Option.getD_some]

/-- A run of the parser reaches the end of its source, and without reports it derives what it
consumed on the way. -/
theorem run_stmnts :
    let out := run (fun r => stmnts r ((Token.lex file source).length + 1)) [] file source names
    ∃ ts, Steps (State.start file source names) ts out.2 ∧ out.2.kind = .eof ∧
      (out.2.reports = #[] → Derives out.2.names .exact (.stmnts out.1) ts) := by
  intro out
  obtain ⟨ss, t, hrun, ts, hsteps, heof, hderives⟩ := runs_start file source names out.2.names
  have hout : out = (ss, t) := by
    simp only [out, run, runFrom, hrun, Option.getD_some]
  rw [hout] at hderives ⊢
  exact ⟨ts, hsteps, heof, fun hreports => hderives ⟨hreports, Interner.le_refl _⟩⟩

/-- A source whose tokens are all silent has no invalid one. -/
theorem tokens_of_silent (h : ∀ lexed ∈ significant (Token.lex file source), lexed.reports = []) :
    (significant (Token.lex file source)).map Lexed.token =
      (Token.lex file source).map Lexed.token := by
  have hstream := Token.stream_lexFrom file _ Place.first source.toList (Nat.lt_succ_self _)
  have hsilent := silent_of_significant hstream h
  rw [tokens_significant]
  refine List.filter_eq_self.2 fun token htoken => ?_
  obtain ⟨lexed, hlexed, rfl⟩ := List.mem_map.1 htoken
  rw [decide_eq_true_eq]
  intro hinvalid
  exact Token.reported_lexFrom file _ _ _ lexed hlexed hinvalid (hsilent lexed hlexed)

end Start

end Parser

/-- A module that is read without reports is derived from all the tokens of its source but the last,
which is the end of the file and of the module. -/
theorem Module.parse_covers (file : FileId) (source : String) (names : Interner)
    (h : (Module.parse file source names).reports = #[]) :
    ∃ ts eof, (Token.lex file source).map Lexed.token = ts ++ [eof] ∧ eof.kind = .eof ∧
      (Module.parse file source names).result.span = (Span.origin file).cover eof.span ∧
      Derives (Module.parse file source names).names .exact
        (.stmnts (Module.parse file source names).result.stmnts) ts := by
  obtain ⟨ts, hsteps, heof, hderives⟩ := Parser.run_stmnts file source names
  have hok := Parser.ok_start file source names
  have hend := (hsteps.ok hok).stream.eq_of_eof heof
  have hsilent := Parser.reports_start file source names (hsteps.reports h)
    (hsteps.silent_tokens h (List.map_eq_nil_iff.1 hend))
  have htokens := hsteps.pending hok
  rw [Parser.pending_start, Parser.tokens_of_silent file source hsilent, Parser.State.pending,
    hend] at htokens
  exact ⟨ts, _, htokens, heof, rfl, hderives h⟩

theorem Module.parse_derives (file : FileId) (source : String) (names : Interner)
    (h : (Module.parse file source names).reports = #[]) :
    ∃ ts eof, (Token.lex file source).map Lexed.token = ts ++ [eof] ∧ eof.kind = .eof ∧
      Derives (Module.parse file source names).names .exact
        (.stmnts (Module.parse file source names).result.stmnts) ts := by
  obtain ⟨ts, eof, htokens, heof, -, hderives⟩ := Module.parse_covers file source names h
  exact ⟨ts, eof, htokens, heof, hderives⟩

/-- All reports on a source are of errors. -/
theorem Module.parse_errors (file : FileId) (source : String) (names : Interner) :
    ∀ d ∈ (Module.parse file source names).reports, d.isError = true := by
  obtain ⟨ts, hsteps, -⟩ := Parser.run_stmnts file source names
  exact (hsteps.errors (Parser.errors_start file source names)).reports

/-- No declaration of a module as it is read stands for a missing one. -/
theorem Module.parse_declared (file : FileId) (source : String) (names : Interner) (id : DeclId) :
    (Module.parse file source names).result.decls.isError id = false := by
  obtain ⟨ts, hsteps, -⟩ := Parser.run_stmnts file source names
  exact hsteps.declared_only (Parser.declared_start file source names) id

namespace Compiler

/-- What is read from a source without a report is derived from exactly the tokens of the source in
front of its end. -/
theorem parseSource_derives (c : Compiler) (name source : String)
    (h : (c.parseSource name source).2.diagnostics = c.diagnostics) :
    ∃ ts eof,
      (Token.lex (c.parseSource name source).1.file source).map Lexed.token = ts ++ [eof] ∧
      eof.kind = .eof ∧ (∀ token ∈ ts, token.kind ≠ .eof) ∧
      Derives (c.parseSource name source).2.names .exact
        (.stmnts (c.parseSource name source).1.stmnts) ts := by
  have hreports : (Module.parse ⟨c.files.size⟩ source c.names).reports = #[] := by
    rw [diagnostics_parseSource] at h
    exact Array.append_right_eq_self.1 h
  obtain ⟨ts, eof, htokens, heof, hderives⟩ := Module.parse_derives _ source c.names hreports
  have hstream := Token.stream_lexFrom ⟨c.files.size⟩ _ Place.first source.toList
    (Nat.lt_succ_self _)
  change Stream _ ((Token.lex ⟨c.files.size⟩ source).map Lexed.token) at hstream
  rw [htokens] at hstream
  rw [result_parseSource, names_parseSource]
  exact ⟨ts, eof, htokens, heof, hstream.ne_eof (List.cons_ne_nil _ _), hderives⟩

theorem parseSource_derives_def :
    (new.parseSource "a" "def x = y + 1;").2.diagnostics = new.diagnostics ∧
      ∃ ts eof, (Token.lex (new.parseSource "a" "def x = y + 1;").1.file "def x = y + 1;").map
          Lexed.token = ts ++ [eof] ∧
        eof.kind = .eof ∧ (∀ token ∈ ts, token.kind ≠ .eof) ∧
        Derives (new.parseSource "a" "def x = y + 1;").2.names .exact
          (.stmnts (new.parseSource "a" "def x = y + 1;").1.stmnts) ts := by
  have h : (new.parseSource "a" "def x = y + 1;").2.diagnostics = new.diagnostics := by
    decide +kernel
  exact ⟨h, parseSource_derives new "a" "def x = y + 1;" h⟩

end Compiler

end ImpLang
