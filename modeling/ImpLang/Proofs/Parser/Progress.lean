import ImpLang.Proofs.Parser.Source

/-!
Progress of the parser on every source, however wrong: a round of a loop leaves the loop or consumes a
token, no move consumes the end of the file, and so a run ends with each token of its source consumed
once.
-/

namespace ImpLang

namespace Parser

/-- A round of a loop comes to an end. It moves along its source, by a token at least if the loop goes
on. -/
def Advances {α : Type} (round : Parser (Turn α)) (s : State) : Prop :=
  Runs round s fun turn t => ∃ ts, Steps s ts t ∧ (turn.goesOn = true → ts ≠ [])

theorem Advances.of_turned {α : Type} {round : Parser (Turn α)} {s : State}
    {spells : α → List Token → State → Prop}
    (h : Runs round s fun turn t => ∃ ts, Turned spells s turn ts t) : Advances round s := by
  apply h.mono
  rintro turn t ⟨ts, hturn⟩
  exact ⟨ts, hturn.steps, hturn.consumes⟩

/-- Every loop of the parser advances. -/
structure Rules.Advances (r : Rules) (s : State) : Prop where
  stmnts : Parser.Advances (stmntsTurn r) s
  blockBody : Parser.Advances (blockBodyTurn r) s
  tupleElems : Parser.Advances (tupleElemsTurn r) s
  sigmaElems : Parser.Advances (sigmaElemsTurn r) s
  ptrnElems : ∀ typed, Parser.Advances (ptrnElemsTurn r typed) s
  arms : Parser.Advances (armsTurn r) s

/-- Loops advance where enough nested calls are left. -/
theorem advances_rules {s : State} (hs : s.Ok) {calls : Nat} (hcalls : 4 * s.left + 2 ≤ calls) :
    (rules calls).Advances s := by
  -- The names only matter for what the rounds spell.
  have hr := rules_sound s.names calls
  exact {
    stmnts := .of_turned (runs_stmntsTurn hr hs hcalls)
    blockBody := .of_turned (runs_blockBodyTurn hr hs hcalls)
    tupleElems := .of_turned (runs_tupleElemsTurn hr hs hcalls)
    sigmaElems := .of_turned (runs_sigmaElemsTurn hr hs hcalls)
    ptrnElems := fun typed => .of_turned (runs_ptrnElemsTurn hr hs typed (by omega))
    arms := .of_turned (runs_armsTurn hr hs hcalls) }

namespace State

/-- A round of a search ends where it is, or behind one token; or it consumes a token and the search
goes on. -/
def SearchAdvances (s : State) (depth : Nat) : Prop :=
  (∃ ts t, s.searchTurn depth = .inl t ∧ Steps s ts t) ∨
    ∃ depth', s.searchTurn depth = .inr depth' ∧ Steps s [s.here] s.bump

theorem search_advances (s : State) (depth : Nat) : s.SearchAdvances depth := by
  cases h : s.searchTurn depth with
  | inl t =>
    obtain ⟨ts, hsteps⟩ := steps_searchTurn h
    exact .inl ⟨ts, t, h, hsteps⟩
  | inr depth' => exact .inr ⟨depth', h, steps_bump (kind_of_searchTurn h)⟩

/-- A search with a round for each token ahead ends by a round that ends it, never for want of
rounds. -/
theorem synchronize_ends {rounds : Nat} (depth : Nat) {s : State} (hs : s.Ok) (h : s.left < rounds) :
    ∃ ts u last, Steps s ts u ∧ u.searchTurn last = .inl (s.synchronize rounds depth) := by
  induction rounds generalizing depth s with
  | zero => omega
  | succ rounds ih =>
    rw [synchronize]
    split
    · next t hturn => exact ⟨[], s, depth, .refl s, hturn⟩
    · next depth' hturn =>
      have hbump := steps_bump (kind_of_searchTurn hturn)
      have hleft := hbump.left hs
      rw [List.length_singleton] at hleft
      obtain ⟨ts, u, last, hsteps, hlast⟩ := ih depth' (hbump.ok hs) (by omega)
      exact ⟨_, u, last, hbump.trans hsteps, hlast⟩

end State

/-- What is consumed on the way to the end of a source is all of it but the invalid tokens. -/
theorem Steps.consumed {file : FileId} {source : String} {names : Interner} {t : State}
    {ts : List Token} (h : Steps (State.start file source names) ts t) (heof : t.kind = .eof) :
    t.behind.reverse = ((Token.lex file source).map Lexed.token).filter fun token =>
      token.kind ≠ .invalid ∧ token.kind ≠ .eof := by
  have hok := ok_start file source names
  have hend := (h.ok hok).stream.eq_of_eof heof
  have hpending := h.pending hok
  rw [pending_start, tokens_significant, State.pending, hend] at hpending
  have hstream := stream_significant file source
  rw [tokens_significant, hpending] at hstream
  have hts : ts.filter (fun token => decide (token.kind ≠ .eof)) = ts := by
    refine List.filter_eq_self.2 fun token htoken => ?_
    exact decide_eq_true (hstream.ne_eof (List.cons_ne_nil _ _) token htoken)
  have hhere : decide (t.here.kind ≠ .eof) = false := decide_eq_false (not_not_intro heof)
  calc t.behind.reverse
      = ts := by rw [h.behind, behind_start, List.append_nil, List.reverse_reverse]
    _ = (ts ++ [t.here]).filter fun token => decide (token.kind ≠ .eof) := by
      rw [List.filter_append, hts, List.filter_cons_of_neg (hhere ▸ Bool.false_ne_true), List.filter_nil,
        List.append_nil]
    _ = _ := by
      rw [← hpending, List.filter_filter]
      congr 1
      funext token
      rw [Bool.decide_and, Bool.and_comm]

end Parser

/-- On every source the loops of the parser advance wherever they stand, and its run ends at the end of
the file. Each token but that and the invalid ones is consumed once and in order, and nothing else
is. -/
theorem Module.parse_progress (file : FileId) (source : String) (names : Interner) :
    let start := Parser.State.start file source names
    (∀ ts s, Parser.Steps start ts s →
      (∀ calls, 4 * s.left + 2 ≤ calls → (Parser.rules calls).Advances s) ∧
      ∀ depth, s.SearchAdvances depth ∧ ∃ us u last, Parser.Steps s us u ∧
        u.searchTurn last = .inl (s.synchronize (s.beyond.length + 1) depth)) ∧
    ∃ ss t, Parser.stmnts (Parser.rules (Parser.callLimit start)) ((Token.lex file source).length + 1)
        start = some (ss, t) ∧
      (Module.parse file source names).result.stmnts = ss ∧ t.kind = .eof ∧
      Parser.Steps start t.behind.reverse t ∧
      t.behind.reverse = ((Token.lex file source).map Lexed.token).filter fun token =>
        token.kind ≠ .invalid ∧ token.kind ≠ .eof := by
  intro start
  have hstart : start.Ok := Parser.ok_start file source names
  refine ⟨?_, ?_⟩
  · intro ts s hsteps
    have hs := hsteps.ok hstart
    refine ⟨fun calls hcalls => Parser.advances_rules hs hcalls, fun depth => ⟨s.search_advances depth, ?_⟩⟩
    exact Parser.State.synchronize_ends depth hs (Nat.lt_succ_self _)
  · obtain ⟨ss, t, hrun, ts, hsteps, heof, -⟩ := Parser.runs_start file source names names
    have hts : t.behind.reverse = ts := by
      rw [hsteps.behind, Parser.behind_start, List.append_nil, List.reverse_reverse]
    refine ⟨ss, t, hrun, ?_, heof, by rwa [hts], hsteps.consumed heof⟩
    simp only [Module.parse_eq_run, Parser.run, Parser.runFrom, hrun, Option.getD_some]

end ImpLang
