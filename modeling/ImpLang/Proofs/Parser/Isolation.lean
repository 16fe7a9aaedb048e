import ImpLang.Proofs.Parser.Following
import ImpLang.Proofs.Parser.Keeping
import ImpLang.Proofs.Parser.Reading
import ImpLang.Proofs.Parser.Renaming
import ImpLang.Proofs.Parser.Window
import ImpLang.Proofs.Token.Lines
import ImpLang.Proofs.Token.Tiling

/-!
Errors stay where they are. What is wrong with the statements of a text has no effect on the lines
behind it that begin with a word of their own: they are read as they are read alone, and no report is
made on them but at that word.
-/

namespace ImpLang

namespace Parser

/-- The link between a run on a text and one on the same text below other lines. -/
def Link.below (lines : List Char) (decls : Decls) (reports : Array Diagnostic)
    (source target : Interner) : Link :=
  .ofLt (Place.below lines) (fun _ _ => Nat.add_lt_add_iff_left) decls reports source target

section First

variable {L : Link} {r r' : Rules} [r.Growing] [r'.Growing] (hr : Rules.Followed L r r')
  {before : State → State → Prop} [L.Looking before]
  (hbump : Follows L before bump bump (Maps id))
  (hword : ∀ s s', before s s' → s.kind ∈ TokenKind.stmntWords)

include hr hbump hword

/-- A round that begins in front of a word looks at nothing that was done before. -/
theorem follows_stmntsTurn_word :
    Follows L before (stmntsTurn r) (stmntsTurn r') (Turn.Follows (Stmnt.relabelList L.relabel)) := by
  refine .kindAt (p := (· ∈ TokenKind.stmntWords)) hword fun here hhere => ?_
  have hstarts : here.startsStmnt = true ∧ here ≠ .eof ∧ here ≠ .semi := by
    revert hhere
    cases here <;> decide
  obtain ⟨hstarts, heof, hsemi⟩ := hstarts
  split
  · exact absurd rfl heof
  · exact absurd rfl hsemi
  · refine .ite (fun _ => ?_) fun hneg => absurd hstarts hneg
    refine .reported fun n => (follows_stmnt_word hr hbump _ fun s s' hs => ?_).bind fun stmnt =>
      (follows_recover n).then (.pure (.goOn fun _ => rfl))
    have hkind := hword s s' hs
    simp only [TokenKind.stmntWords, List.mem_cons, List.not_mem_nil, or_false] at hkind
    rcases hkind with hkind | hkind | hkind
    · exact .inr (.inl hkind)
    · exact .inr (.inr hkind)
    · exact .inl hkind

theorem follows_stmnts_word (rounds rounds' : Nat) :
    Follows L before (stmnts r rounds) (stmnts r' rounds') (Maps (Stmnt.relabelList L.relabel)) := by
  cases rounds with
  | zero => exact .failure_left
  | succ rounds =>
    cases rounds' with
    | zero => exact .failure_right
    | succ rounds' =>
      -- Behind the word both runs agree on what they did since, so later rounds are the usual ones.
      exact follows_loop (follows_stmntsTurn_word hr hbump hword) (follows_stmnts hr rounds rounds')

end First

/-! ## The begin of a source -/

section Start

variable (file : FileId) (source : String) (names : Interner)

theorem fresh_start : (State.start file source names).lastError = none ∧
    (State.start file source names).decls = Decls.empty := fresh_opening file names

theorem numbered_start : (State.start file source names).Numbered := by
  intro token htoken text htext
  revert htoken
  simp only [State.start, State.opening]
  split
  · intro htoken
    obtain rfl : token = ⟨.eof, Span.origin file, "", .none⟩ := by
      simpa [State.pending] using htoken
    cases htext
  · next first hfirst =>
    intro htoken
    obtain rfl : token = first.token := by simpa [State.pending] using htoken
    exact State.mem_texts_enter _ htext
  · next first second rest hfirst =>
    intro htoken
    have htwo : token = first.token ∨ token = second.token := by
      simpa [State.pending] using htoken
    rcases htwo with rfl | rfl
    · exact Interner.within_of_le (State.enter_names ..) text (State.mem_texts_enter _ htext)
    · exact State.mem_texts_enter _ htext

theorem State.of_mem_texts_enter {s : State} {lexed : Lexed} {text : String}
    (h : text ∈ (s.enter lexed).names.texts) :
    text ∈ s.names.texts ∨ lexed.token.internedText? = some text := by
  rw [enter_names_eq] at h
  cases htext : lexed.token.internedText? with
  | none =>
    rw [htext] at h
    exact .inl h
  | some other =>
    rw [htext] at h
    exact (Interner.mem_texts_intern.1 h).imp_right fun heq => congrArg some heq.symm

/-- At the begin of a source only the texts of the window are new. -/
theorem of_mem_texts_start {text : String}
    (h : text ∈ (State.start file source names).names.texts) : text ∈ names.texts ∨
      ∃ token ∈ (State.start file source names).pending.take 2, token.internedText? = some text := by
  revert h
  simp only [State.start, State.opening]
  split
  · exact .inl
  · next first hfirst =>
    refine fun h => (State.of_mem_texts_enter h).imp_right fun htext => ?_
    exact ⟨first.token, by simp [State.pending], htext⟩
  · next first second rest hfirst =>
    intro h
    rcases State.of_mem_texts_enter h with h | htext
    · refine (State.of_mem_texts_enter h).imp_right fun htext => ?_
      exact ⟨first.token, by simp [State.pending], htext⟩
    · exact .inr ⟨second.token, by simp [State.pending], htext⟩

variable {file source}

theorem beyond_start (h : ∀ lexed ∈ Token.lex file source, lexed.reports = []) :
    ∀ lexed ∈ (State.start file source names).beyond, lexed.reports = [] := by
  simp only [State.start, State.opening, significant_of_silent h]
  split
  · simp
  · simp
  · next first second rest hlex =>
    rw [hlex] at h
    simpa using fun lexed hlexed => h lexed (List.mem_cons_of_mem _ hlexed)

theorem pending_start_of_silent (h : ∀ lexed ∈ Token.lex file source, lexed.reports = []) :
    (State.start file source names).pending = (Token.lex file source).map Lexed.token := by
  rw [pending_start, significant_of_silent h]

end Start

/-- What is read without a report has no faults in its tokens. -/
theorem silent_of_parse {file : FileId} {source : String} {names : Interner}
    (h : (Module.parse file source names).reports = #[]) :
    ∀ lexed ∈ Token.lex file source, lexed.reports = [] := by
  obtain ⟨ts, hsteps, heof, -⟩ := run_stmnts file source names
  have hok := ok_start file source names
  have hend := (hsteps.ok hok).stream.eq_of_eof heof
  have hsilent := reports_start file source names (hsteps.reports h)
    (hsteps.silent_tokens h (List.map_eq_nil_iff.1 hend))
  exact silent_of_significant
    (Token.stream_lexFrom file _ Place.first source.toList (Nat.lt_succ_self _)) hsilent

/-- A run on a text and lines behind it has come to these lines. -/
structure Reached (file : FileId) (behind : String) (names : Interner) (lines : List Char)
    (u : State) : Prop where
  ok : u.Ok
  pending : u.pending = ((Token.lex file behind).map Lexed.token).map (Token.below lines)
  beyond : ∀ lexed ∈ u.beyond, lexed.reports = []
  names : names ≤ u.names
  numbered : u.Numbered
  complained : u.Complained

namespace Reached

variable {file : FileId} {behind : String} {names : Interner} {lines : List Char} {u : State}
  (h : Reached file behind names lines u)
  (hbehind : ∀ lexed ∈ Token.lex file behind, lexed.reports = []) (source target : Interner)

include h hbehind

/-- There it has in front what a run on the lines begins with. -/
theorem ahead :
    (Link.below lines u.decls u.reports source target).Ahead (State.start file behind names) u := by
  have hstart := pending_start_of_silent names hbehind
  have hsame : u.pending = (State.start file behind names).pending.map (Token.below lines) := by
    rw [h.pending, hstart]
  obtain ⟨hhere, hrest⟩ := List.cons.inj hsame
  have hsilent := beyond_start names hbehind
  refine ⟨hhere, Lexed.eq_of_silent ?_ h.beyond ?_, ?_, ?_, ?_, fun _ _ => ⟨trivial, trivial⟩⟩
  · rw [List.map_map] at hrest
    rw [hrest, List.map_map]
    rfl
  · intro lexed hlexed
    obtain ⟨other, hother, rfl⟩ := List.mem_map.1 hlexed
    exact List.map_eq_nil_iff.2 (hsilent other hother)
  · -- Only the texts of the window are new at the begin, and those the other run has by then.
    intro text htext
    rcases of_mem_texts_start file behind names htext with hold | ⟨token, htoken, htext⟩
    · exact Interner.within_of_le h.names text hold
    · refine h.numbered (token.below lines) ?_ text htext
      rw [hsame, ← List.map_take]
      exact List.mem_map_of_mem htoken
  · rw [(fresh_start file behind names).2]
    simp [Link.below, Link.ofLt, Decls.empty]
  · rw [reports_start_of_silent hbehind]
    simp [Link.below, Link.ofLt]

/-- Behind the first token it agrees with that run on everything since. -/
theorem rel (hk : u.kind ≠ .eof) :
    (Link.below lines u.decls u.reports source target).Rel (State.start file behind names).bump
      u.bump := by
  have hahead := h.ahead hbehind source target
  have hbump := hahead.bump
  refine ⟨hbump, ?_, trivial, ?_, fun token htoken => ?_⟩
  · rw [State.prev_bump, State.prev_bump, hahead.here]
    rfl
  · rw [State.prevKind_bump, State.prevKind_bump, hahead.here]
    rfl
  · rw [State.lastError_bump, State.lastError_bump, (fresh_start file behind names).1]
    refine iff_of_false (fun hlast => ?_) (by simp)
    -- A complaint so far is about a token in front of all those that come.
    have hle := h.complained _ hlast
    have hstream := h.ok.stream
    rw [State.pending_bump u (h.ok.beyond_ne_nil hk)] at hstream
    have hpending : u.bump.pending =
        (State.start file behind names).bump.pending.map (Token.below lines) := by
      rw [State.pending, State.pending, List.map_cons, hbump.here, hbump.beyond, List.map_map,
        List.map_map]
      rfl
    have hmem : token.below lines ∈ u.bump.pending := hpending ▸ List.mem_map_of_mem htoken
    obtain ⟨-, -, -, hlt, hrest⟩ := hstream.uncons (List.cons_ne_nil _ _)
    exact absurd hle (Nat.not_le.2 (Nat.lt_of_lt_of_le hlt (hrest.le_start _ hmem)))

/-- From there on it reads the lines as they are read alone. -/
theorem follows {first : Token} {rest : List Token}
    (hfirst : (Token.lex file behind).map Lexed.token = first :: rest)
    (hword : first.kind ∈ TokenKind.stmntWords) {calls calls' rounds rounds' : Nat}
    {ss ss' : List Stmnt} {t t' : State}
    (hrun : stmnts (rules calls) rounds (State.start file behind names) = some (ss, t))
    (hrun' : stmnts (rules calls') rounds' u = some (ss', t')) :
    let L := Link.below lines u.decls u.reports t.names t'.names
    ss' = Stmnt.relabelList L.relabel ss ∧ L.Rel t t' := by
  intro L
  have hahead := h.ahead hbehind t.names t'.names
  have hpending := pending_start_of_silent names hbehind
  rw [hfirst] at hpending
  have hhere : (State.start file behind names).kind = first.kind :=
    congrArg Token.kind (List.cons.inj hpending).1
  have hkind : u.kind ≠ .eof := by
    rw [hahead.kind, hhere]
    revert hword
    cases first.kind <;> decide
  let begins (s s' : State) : Prop := s = State.start file behind names ∧ s' = u
  have hlooking : L.Looking begins := ⟨by rintro _ _ ⟨rfl, rfl⟩; exact hahead⟩
  have hbump : Follows L begins bump bump (Maps id) := .move fun s s' hs => by
    obtain ⟨rfl, rfl⟩ := hs
    exact h.rel hbehind t.names t'.names hkind
  have hwords : ∀ s s', begins s s' → s.kind ∈ TokenKind.stmntWords := by
    rintro _ _ ⟨rfl, rfl⟩
    rwa [hhere]
  exact follows_stmnts_word (follows_rules calls calls') hbump hwords rounds rounds' _ _ ss t ss' t'
    ⟨rfl, rfl⟩ hrun hrun' (Interner.le_refl _) (Interner.le_refl _)

end Reached

section Lines

variable {file : FileId} (names : Interner) {text behind : String} {first : Token}
  {rest : List Token} (htext : ∀ lexed ∈ Token.lex file text, lexed.reports = [])
  (hnested : TokenKind.nested []
    (((Token.lex file text).map Lexed.token).map Token.kind) = true)
  (hbehind : ∀ lexed ∈ Token.lex file behind, lexed.reports = [])
  (hfirst : (Token.lex file behind).map Lexed.token = first :: rest)
  (hword : first.kind ∈ TokenKind.stmntWords)

include htext hnested hbehind hfirst hword

/-- The begin of a text and the lines behind it is in front of the word that the lines begin with. -/
theorem outside_start :
    let lines := text.toList ++ ['\n']
    let s := State.start file (text ++ "\n" ++ behind) names
    ∃ ts, s.pending = ts ++ (first :: rest).map (Token.below lines) ∧
      (∀ token ∈ ts, token ∈ (Token.lex file text).map Lexed.token) ∧
      s.pending.Pairwise (fun a b => a.span.stop.offset ≤ b.span.start.offset) ∧
      Outside ((first :: rest).map (Token.below lines)) s ∧ s.reports = #[] ∧
      ∀ lexed ∈ s.beyond, lexed.reports = [] := by
  intro lines s
  obtain ⟨front, span, hfront, hwhole⟩ := Token.lex_lines htext behind
  have hsilent : ∀ lexed ∈ Token.lex file (text ++ "\n" ++ behind), lexed.reports = [] := by
    rw [hwhole]
    refine List.forall_mem_append.2 ⟨fun lexed hlexed => ?_, List.forall_mem_map.2 ?_⟩
    · exact htext lexed (hfront ▸ List.mem_append_left _ hlexed)
    · exact fun lexed hlexed => List.map_eq_nil_iff.2 (hbehind lexed hlexed)
  have hpending : s.pending =
      front.map Lexed.token ++ (first :: rest).map (Token.below lines) := by
    rw [pending_start_of_silent names hsilent, hwhole, List.map_append, ← hfirst, List.map_map,
      List.map_map]
    rfl
  refine ⟨_, hpending, ?_, ?_, ⟨[], ok_start .., ⟨_, _, rfl, hword⟩, _, hpending, ?_⟩,
    reports_start_of_silent hsilent names, beyond_start names hsilent⟩
  · intro token htoken
    rw [hfront, List.map_append]
    exact List.mem_append_left _ htoken
  · obtain ⟨opening, htiles, -⟩ := Token.tiles_lexFrom file _ Place.first
      (text ++ "\n" ++ behind).toList (Nat.lt_succ_self _)
    rw [pending_start_of_silent names hsilent]
    exact htiles.ordered
  · rw [hfront, List.map_append, List.map_append] at hnested
    have hlast : TokenKind.eof.closer? = none ∧ TokenKind.eof.isCloser = false := ⟨rfl, rfl⟩
    rwa [← TokenKind.nested_concat hlast.1 hlast.2]

/-- A run on a text and the lines behind it comes to these lines. What it has reported then is at a
token in front of them or at their first one. -/
theorem reaches {calls rounds : Nat} {ss : List Stmnt} {t : State}
    (hrun : stmnts (rules calls) rounds
      (State.start file (text ++ "\n" ++ behind) names) = some (ss, t)) :
    let lines := text.toList ++ ['\n']
    ∃ before others rounds' u, Reached file behind names lines u ∧
      stmnts (rules calls) rounds' u = some (others, t) ∧ ss = before ++ others ∧
      ∀ d ∈ u.reports,
        (∃ token ∈ (Token.lex file text).map Lexed.token ++ [first.below lines],
          d.span = token.span) ∧
        ∀ token ∈ rest, d.span.stop.offset ≤ (token.below lines).span.start.offset := by
  intro lines
  obtain ⟨ts, hpending, hts, hordered, houtside, hreports, hbeyond⟩ :=
    outside_start names htext hnested hbehind hfirst hword
  obtain ⟨before, others, rounds', u, us, hsteps, hpending', hrest, hss⟩ :=
    stmnts_reach (kept_rules _) _ houtside hrun
  have hok := ok_start file (text ++ "\n" ++ behind) names
  have hreached : Reached file behind names lines u :=
    { ok := hsteps.ok hok
      pending := by rw [hpending', hfirst]
      beyond := fun lexed hlexed => hbeyond lexed (hsteps.beyond_suffix.subset hlexed)
      names := Interner.le_trans (names_start ..) hsteps.names
      numbered := hsteps.numbered (numbered_start _ _ _)
      complained := hsteps.complained hok fun offset hlast => by
        rw [(fresh_start ..).1] at hlast
        cases hlast }
  refine ⟨before, others, rounds', u, hreached, hrest, hss, fun d hd => ?_⟩
  have hconsumed : us = ts := by
    have hall := hsteps.pending hok
    rw [hpending, hpending'] at hall
    exact (List.append_cancel_right hall).symm
  have hhere : u.here = first.below lines := (List.cons.inj hpending').1
  obtain hstart | ⟨token, htoken, hspan⟩ := hsteps.reported hok hbeyond d hd
  · rw [hreports] at hstart
    exact absurd hstart (Array.not_mem_empty d)
  · rw [hconsumed, hhere] at htoken
    refine ⟨⟨token, ?_, hspan⟩, fun other hother => ?_⟩
    · exact (List.mem_append.1 htoken).elim (fun h => List.mem_append_left _ (hts token h))
        (List.mem_append_right _)
    · rw [hpending, List.map_cons, List.append_cons] at hordered
      rw [hspan]
      exact (List.pairwise_append.1 hordered).2.2 token htoken _ (List.mem_map_of_mem hother)

end Lines

end Parser

/-- The statements of a text and of the lines behind it: whatever is wrong with the text, if its
brackets are nested and the lines begin with a word and are read alone without a report, they are read
like that, and every report is at a token of the text or at that word. -/
theorem Module.parse_isolates (file : FileId) (names : Interner) {text behind : String}
    {first : Token} {rest : List Token}
    (htext : ∀ lexed ∈ Token.lex file text, lexed.reports = [])
    (hnested : TokenKind.nested []
      (((Token.lex file text).map Lexed.token).map Token.kind) = true)
    (hfirst : (Token.lex file behind).map Lexed.token = first :: rest)
    (hword : first.kind ∈ TokenKind.stmntWords)
    (hread : (Module.parse file behind names).reports = #[]) :
    let lines := text.toList ++ ['\n']
    let alone := Module.parse file behind names
    let whole := Module.parse file (text ++ "\n" ++ behind) names
    alone.names.Within whole.names ∧ ∃ (before : List Stmnt) (decls : Decls),
      let moved : Relabel :=
        ⟨Span.below lines, alone.names.carry whole.names, fun id => ⟨decls.size + id.index⟩, id⟩
      whole.result.stmnts = before ++ Stmnt.relabelList moved alone.result.stmnts ∧
      whole.result.decls.toArray =
        decls.toArray ++ alone.result.decls.toArray.map (Decl.relabel moved) ∧
      ∀ d ∈ whole.reports,
        (∃ token ∈ (Token.lex file text).map Lexed.token ++ [first.below lines],
          d.span = token.span) ∧
        ∀ token ∈ rest, d.span.stop.offset ≤ (token.below lines).span.start.offset := by
  intro lines alone whole
  have hbehind := Parser.silent_of_parse hread
  obtain ⟨ss, t, hrun, heq⟩ := Parser.exists_run file (text ++ "\n" ++ behind) names
  obtain ⟨ss', t', hrun', heq'⟩ := Parser.exists_run file behind names
  obtain ⟨before, others, rounds, u, hreached, hrest, rfl, hreports⟩ :=
    Parser.reaches names htext hnested hbehind hfirst hword hrun
  obtain ⟨hothers, hrel⟩ := hreached.follows hbehind hfirst hword hrun' hrest
  -- The lines are read alone without a report, so all reports are made before they begin.
  have hnone : t'.reports = #[] := by
    rw [heq'] at hread
    exact hread
  have hearlier : t.reports = u.reports := by
    have hall := hrel.reports
    rwa [hnone, Array.map_empty, Array.append_empty] at hall
  have halone : alone = _ := heq'
  have hwhole : whole = _ := heq
  rw [halone, hwhole]
  refine ⟨hrel.names, before, u.decls, congrArg (before ++ ·) hothers, hrel.decls, ?_⟩
  show ∀ d ∈ t.reports, _
  rwa [hearlier]

namespace Compiler

/-- Whatever is wrong with a text of closed comments and nested brackets, lines behind it that begin
with a word of their own and are read alone without a report are read like that: the same statements
end the source, up to where they stand, the numbers of their names and those of their declarations.
Every report is at a token of the text or at that word, and stands in front of what follows it. -/
theorem parseSource_isolates (c : Compiler) (name text behind : String) (first : Token)
    (rest : List Token)
    (htext : (c.lex (c.addFile name).1 text).2.diagnostics = c.diagnostics)
    (hnested : TokenKind.nested [] ((c.lex (c.addFile name).1 text).1.map Token.kind) = true)
    (hfirst : (c.lex (c.addFile name).1 behind).1 = first :: rest)
    (hword : first.kind ∈ TokenKind.stmntWords)
    (hread : (c.parseSource name behind).2.diagnostics = c.diagnostics) :
    let lines := text.toList ++ ['\n']
    let alone := c.parseSource name behind
    let whole := c.parseSource name (text ++ "\n" ++ behind)
    alone.2.names.Within whole.2.names ∧ ∃ (before : List Stmnt) (decls : Decls)
        (reports : Array Diagnostic),
      let moved : Relabel := ⟨Span.below lines, alone.2.names.carry whole.2.names,
        fun id => ⟨decls.size + id.index⟩, id⟩
      whole.1.stmnts = before ++ Stmnt.relabelList moved alone.1.stmnts ∧
      whole.1.decls.toArray = decls.toArray ++ alone.1.decls.toArray.map (Decl.relabel moved) ∧
      whole.2.diagnostics = c.diagnostics ++ reports ∧
      ∀ d ∈ reports,
        (∃ token ∈ (c.lex (c.addFile name).1 text).1 ++ [first.below lines],
          d.span = token.span) ∧
        ∀ token ∈ rest, d.span.stop.offset ≤ (token.below lines).span.start.offset := by
  have hsilent : ∀ lexed ∈ Token.lex ⟨c.files.size⟩ text, lexed.reports = [] := by
    have hnone := Array.append_right_eq_self.1 ((diagnostics_lex c text _).symm.trans htext)
    exact List.flatMap_eq_nil_iff.1 (congrArg Array.toList hnone)
  rw [tokens_lex] at hnested hfirst
  rw [diagnostics_parseSource] at hread
  obtain ⟨hnames, before, decls, hstmnts, hdecls, hreports⟩ :=
    Module.parse_isolates ⟨c.files.size⟩ c.names hsilent hnested hfirst hword
      (Array.append_right_eq_self.1 hread)
  simp only [names_parseSource, result_parseSource, tokens_lex]
  exact ⟨hnames, before, decls, _, hstmnts, hdecls, diagnostics_parseSource .., hreports⟩

/-- A definition whose value breaks off, with a bracket pair inside, and one behind it. -/
theorem parseSource_isolates_def :
    let text := "def a = (1 +) * match"
    let behind := "def b = 2;"
    let lines := text.toList ++ ['\n']
    let alone := new.parseSource "a" behind
    let whole := new.parseSource "a" (text ++ "\n" ++ behind)
    ∃ first rest,
      (new.lex (new.addFile "a").1 text).2.diagnostics = new.diagnostics ∧
      TokenKind.nested [] ((new.lex (new.addFile "a").1 text).1.map Token.kind) = true ∧
      (new.lex (new.addFile "a").1 behind).1 = first :: rest ∧
      first.kind ∈ TokenKind.stmntWords ∧
      alone.2.diagnostics = new.diagnostics ∧
      alone.2.names.Within whole.2.names ∧ ∃ (before : List Stmnt) (decls : Decls)
          (reports : Array Diagnostic),
        let moved : Relabel := ⟨Span.below lines, alone.2.names.carry whole.2.names,
          fun id => ⟨decls.size + id.index⟩, id⟩
        whole.1.stmnts = before ++ Stmnt.relabelList moved alone.1.stmnts ∧
        whole.1.decls.toArray = decls.toArray ++ alone.1.decls.toArray.map (Decl.relabel moved) ∧
        whole.2.diagnostics = new.diagnostics ++ reports ∧
        ∀ d ∈ reports,
          (∃ token ∈ (new.lex (new.addFile "a").1 text).1 ++ [first.below lines],
            d.span = token.span) ∧
          ∀ token ∈ rest, d.span.stop.offset ≤ (token.below lines).span.start.offset := by
  intro text behind
  have htext : (new.lex (new.addFile "a").1 text).2.diagnostics = new.diagnostics := by
    decide +kernel
  have hnested : TokenKind.nested []
      ((new.lex (new.addFile "a").1 text).1.map Token.kind) = true := by decide +kernel
  have hread : (new.parseSource "a" behind).2.diagnostics = new.diagnostics := by decide +kernel
  have hhead : (new.lex (new.addFile "a").1 behind).1.head?.map Token.kind = some .kwDef := by
    decide +kernel
  obtain ⟨first, hfirst, hkind⟩ := Option.map_eq_some_iff.1 hhead
  obtain ⟨rest, hlex⟩ := List.head?_eq_some_iff.1 hfirst
  have hword : first.kind ∈ TokenKind.stmntWords := by
    rw [hkind]
    decide
  exact ⟨first, rest, htext, hnested, hlex, hword, hread,
    parseSource_isolates new "a" text behind first rest htext hnested hlex hword hread⟩

end Compiler

end ImpLang
