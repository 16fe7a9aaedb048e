import ImpLang.Proofs.Parser.Reading
import ImpLang.Proofs.Parser.Renaming
import ImpLang.Proofs.Token.Lines
import ImpLang.Proofs.Token.Tiling

/-!
Where tokens stand does not matter. Sources on whose tokens nothing is reported and whose tokens say
the same are read as one module, up to places and the numbers of symbols, and with the same reports.

Two tokens may touch in one source and stand apart in the other, and the next two the other way. So
both sources are compared with a third layout, in which all tokens stand apart.
-/

namespace ImpLang

namespace Place

/-- Two places are the same, or the second one is behind the first. -/
def Upto (p q : Place) : Prop := p = q ∨ p.offset < q.offset

theorem Upto.le {p q : Place} (h : p.Upto q) : p.offset ≤ q.offset := by
  rcases h with rfl | h
  · exact Nat.le_refl _
  · exact Nat.le_of_lt h

theorem Upto.trans {p q r : Place} (h : p.Upto q) (h' : q.Upto r) : p.Upto r := by
  rcases h with rfl | h
  · exact h'
  · exact .inr (Nat.lt_of_lt_of_le h h'.le)

theorem upto_of_past {p q : Place} {text : List Char} (h : q = p.past text) : p.Upto q := by
  rw [h]
  by_cases hnil : text = []
  · rw [hnil]
    exact .inl rfl
  · exact .inr (Token.offset_lt_past p hnil)

end Place

namespace Token

/-- What a token is, wherever it stands. -/
def bare (token : Token) : Token := { token with span := default }

/-- The places where tokens start and stop, from the first token on. The last token is empty, and its
place repeats. -/
def edge : List Token → Nat → Place
  | [], _ => Place.first
  | [last], _ => last.span.start
  | first :: _ :: _, 0 => first.span.start
  | first :: _ :: _, 1 => first.span.stop
  | _ :: second :: rest, n + 2 => edge (second :: rest) n

/-- The begin of a text and the edges of its tokens. -/
def mark (tokens : List Token) : Nat → Place
  | 0 => Place.first
  | n + 1 => edge tokens n

/-- Tokens of one byte each, with a byte between them; the last token is empty. -/
def spread (file : FileId) : Nat → List Token → List Token
  | _, [] => []
  | n, [last] => [{ last with span := ⟨file, ⟨n, Pos.first⟩, ⟨n, Pos.first⟩⟩ }]
  | n, first :: second :: rest =>
    { first with span := ⟨file, ⟨n, Pos.first⟩, ⟨n + 1, Pos.first⟩⟩ } ::
      spread file (n + 2) (second :: rest)

/-- Where tokens are spread to depends on their number only. -/
theorem spread_bare (file : FileId) (n : Nat) (tokens : List Token) :
    spread file n (tokens.map bare) = spread file n tokens := by
  induction tokens generalizing n with
  | nil => rfl
  | cons first rest ih =>
    cases rest with
    | nil => rfl
    | cons second rest => exact congrArg (List.cons _) (ih (n + 2))

/-- A spread token starts an even number of bytes behind the first one, and stops in front of where
another token would start behind the last one. -/
theorem placed_spread (file : FileId) (n : Nat) (tokens : List Token) :
    ∀ t ∈ spread file n tokens, (∃ i < tokens.length, t.span.start.offset = n + 2 * i) ∧
      t.span.stop.offset + 1 < n + 2 * tokens.length := by
  induction tokens generalizing n with
  | nil => exact List.forall_mem_nil _
  | cons first rest ih =>
    cases rest with
    | nil => exact List.forall_mem_singleton.2 ⟨⟨0, Nat.zero_lt_one, rfl⟩, Nat.lt_succ_self _⟩
    | cons second rest =>
      refine List.forall_mem_cons.2 ⟨⟨⟨0, by simp, rfl⟩, ?_⟩, fun t ht => ?_⟩
      · show n + 1 + 1 < n + 2 * (rest.length + 1 + 1)
        omega
      · obtain ⟨⟨i, hi, hstart⟩, hstop⟩ := ih (n + 2) t ht
        simp only [List.length_cons] at hi hstop ⊢
        exact ⟨⟨i + 1, by omega, by omega⟩, by omega⟩

end Token

open Token (edge mark spread)

theorem Stream.spread {m n : Nat} {tokens : List Token} (h : Stream m tokens) (file : FileId)
    {k : Nat} (hk : k ≤ n) : Stream k (Token.spread file n tokens) := by
  induction h generalizing k n with
  | eof kind _ => exact .eof kind hk
  | token kind fits _ _ rest ih =>
    obtain ⟨second, rest, rfl⟩ := List.exists_cons_of_ne_nil rest.ne_nil
    exact .token kind fits hk (Nat.lt_succ_self _) (ih (Nat.le_succ _))

namespace Tiles

variable {file : FileId} {opening : Option Place} {place : Place} {text : List Char}
  {tokens : List Token}

theorem ne_nil (h : Tiles file opening place text tokens) : tokens ≠ [] := by
  cases h <;> simp

/-- No edge is in front of the one before it. -/
theorem upto_edge (h : Tiles file opening place text tokens) :
    place.Upto (edge tokens 0) ∧ ∀ n, (edge tokens n).Upto (edge tokens (n + 1)) := by
  induction h with
  | eof _ _ span => exact ⟨Place.upto_of_past (congrArg Span.start span), fun _ => .inl rfl⟩
  | unclosed _ _ _ span => exact ⟨Place.upto_of_past (congrArg Span.start span), fun _ => .inl rfl⟩
  | @token _ place gap chars rest token tokens _ _ _ _ span tiles ih =>
    obtain ⟨second, tokens, rfl⟩ := List.exists_cons_of_ne_nil tiles.ne_nil
    obtain ⟨hnext, hlater⟩ := ih
    refine ⟨Place.upto_of_past (congrArg Span.start span), fun n => ?_⟩
    match n with
    | 0 =>
      have hstop : token.span.stop = token.span.start.past chars := by rw [span]
      exact Place.upto_of_past hstop
    | 1 =>
      show token.span.stop.Upto (edge (second :: tokens) 0)
      rw [span]
      exact hnext
    | n + 2 => exact hlater n

/-- No token but the last is empty. -/
theorem edge_lt (h : Tiles file opening place text tokens) {i : Nat} (hi : i + 1 < tokens.length) :
    (edge tokens (2 * i)).offset < (edge tokens (2 * i + 1)).offset := by
  induction h generalizing i with
  | eof => simp at hi
  | unclosed => simp at hi
  | @token _ place gap chars rest token tokens _ ne_nil _ _ span tiles ih =>
    obtain ⟨second, tokens, rfl⟩ := List.exists_cons_of_ne_nil tiles.ne_nil
    cases i with
    | zero =>
      show token.span.start.offset < token.span.stop.offset
      rw [span]
      exact Token.offset_lt_past _ ne_nil
    | succ i => exact ih (Nat.lt_of_succ_lt_succ hi)

/-- From the layout in which they stand apart, tokens are moved to their places edge by edge. -/
theorem map_spread (h : Tiles file opening place text tokens) {L : Parser.Link} {n : Nat}
    (hplace : ∀ k, L.place ⟨n + k, Pos.first⟩ = edge tokens k) :
    (spread file n tokens).map L.token = tokens := by
  have hmoved : ∀ {token : Token} {start stop : Place}, token.span = ⟨file, start, stop⟩ →
      ∀ {from' to' : Place}, L.place from' = start → L.place to' = stop →
        L.token { token with span := ⟨file, from', to'⟩ } = token := by
    rintro ⟨kind, _, text, payload⟩ start stop rfl from' to' rfl rfl
    rfl
  induction h generalizing n with
  | @eof place gap token _ _ span =>
    have hstart : L.place ⟨n, Pos.first⟩ = place.past gap :=
      (hplace 0).trans (congrArg Span.start span)
    exact congrArg (fun t => [t]) (hmoved span hstart hstart)
  | @unclosed place gap comment token _ _ _ span =>
    have hstart : L.place ⟨n, Pos.first⟩ = place.past (gap ++ comment) :=
      (hplace 0).trans (congrArg Span.start span)
    exact congrArg (fun t => [t]) (hmoved span hstart hstart)
  | @token _ place gap chars rest token tokens _ _ _ _ span tiles ih =>
    obtain ⟨second, tokens, rfl⟩ := List.exists_cons_of_ne_nil tiles.ne_nil
    have hfirst : L.place ⟨n, Pos.first⟩ = place.past gap :=
      (hplace 0).trans (congrArg Span.start span)
    have hlast : L.place ⟨n + 1, Pos.first⟩ = (place.past gap).past chars :=
      (hplace 1).trans (congrArg Span.stop span)
    have hrest : ∀ k, L.place ⟨n + 2 + k, Pos.first⟩ = edge (second :: tokens) k := fun k => by
      rw [Nat.add_assoc, Nat.add_comm 2 k]
      exact hplace (k + 2)
    exact congrArg₂ List.cons (hmoved span hfirst hlast) (ih hrest)

theorem upto_mark (h : Tiles file opening Place.first text tokens) {m n : Nat} (hmn : m ≤ n) :
    (mark tokens m).Upto (mark tokens n) := by
  induction hmn with
  | refl => exact .inl rfl
  | @step n _ ih =>
    refine ih.trans ?_
    cases n with
    | zero => exact h.upto_edge.1
    | succ n => exact h.upto_edge.2 n

/-- A token that starts in front of another edge stops there or before. -/
theorem mark_lt (h : Tiles file opening Place.first text tokens) {i n : Nat} (hi : 2 * i + 1 < n)
    (hn : n < 2 * tokens.length) :
    (mark tokens (2 * i + 1)).offset < (mark tokens n).offset :=
  Nat.lt_of_lt_of_le (h.edge_lt (by omega)) (h.upto_mark hi).le

end Tiles

namespace Parser

namespace Link

/-- The link between a run on tokens that stand apart and one on the tokens of a source. -/
def laid {file : FileId} {opening : Option Place} {text : List Char} {tokens : List Token}
    (h : Tiles file opening Place.first text tokens) (source target : Interner) : Link where
  place p := mark tokens p.offset
  starts p := ∃ i < tokens.length, p.offset = 2 * i + 1
  stops q := q.offset < 2 * tokens.length
  mono _ _ hpq := (h.upto_mark hpq).le
  eq_or_lt _ _ hpq := h.upto_mark (Nat.le_of_lt hpq)
  start_inj := by
    rintro p q ⟨i, hi, hp⟩ ⟨j, hj, hq⟩ hsame
    rw [hp, hq] at hsame
    rcases Nat.lt_trichotomy i j with hij | rfl | hij
    · have hlt := h.mark_lt (i := i) (n := 2 * j + 1) (by omega) (by omega)
      omega
    · rw [hp, hq]
    · have hlt := h.mark_lt (i := j) (n := 2 * i + 1) (by omega) (by omega)
      omega
  lt_stop := by
    rintro p q ⟨i, -, hp⟩ hq hpq
    rw [hp] at hpq ⊢
    exact h.mark_lt hpq hq
  decls := Decls.empty
  reports := #[]
  source := source
  target := target

variable {file : FileId} {opening : Option Place} {text : List Char} {tokens : List Token}
  (h : Tiles file opening Place.first text tokens) (source target : Interner)

/-- Tokens that stand apart become those of the source. -/
theorem map_spread_laid : (spread file 1 tokens).map (laid h source target).token = tokens :=
  h.map_spread fun k => congrArg (mark tokens) (Nat.add_comm 1 k)

theorem placed_laid : ∀ t ∈ spread file 1 tokens,
    (laid h source target).starts t.span.start ∧ (laid h source target).stops t.span.stop := by
  intro t ht
  obtain ⟨⟨i, hi, hstart⟩, hstop⟩ := Token.placed_spread file 1 tokens t ht
  refine ⟨⟨i, hi, hstart.trans (Nat.add_comm ..)⟩, ?_⟩
  show t.span.stop.offset < 2 * tokens.length
  omega

/-- What lies between the begin of a text and a place moves with it. -/
theorem cover_origin (L : Link) (hfirst : L.place Place.first = Place.first) (file : FileId)
    (s : Span) : (Span.origin file).cover (L.span s) = L.span ((Span.origin file).cover s) := by
  have hstop : (if 0 < (L.place s.stop).offset then L.place s.stop else Place.first) =
      L.place (if 0 < s.stop.offset then s.stop else Place.first) := by
    by_cases hempty : 0 < s.stop.offset
    · rw [if_pos hempty]
      rcases L.eq_or_lt Place.first s.stop hempty with hsame | hlt
      · rw [← hsame, hfirst]
        exact ite_self _
      · rw [hfirst] at hlt
        exact if_pos hlt
    · have hle := L.mono s.stop Place.first (Nat.le_of_not_lt hempty)
      rw [hfirst] at hle
      rw [if_neg hempty, hfirst]
      exact if_neg (Nat.not_lt.2 hle)
  show Span.mk file Place.first _ = Span.mk file (L.place Place.first) _
  rw [hfirst]
  exact congrArg (Span.mk file Place.first) hstop

end Link

/-- The tokens of a source on which nothing is reported. -/
def silent (tokens : List Token) : List Lexed := tokens.map (⟨·, []⟩)

theorem tokens_silent (tokens : List Token) : (silent tokens).map Lexed.token = tokens := by
  rw [silent, List.map_map]
  exact List.map_id _

/-- A run on tokens that stand apart begins like one on the tokens of a source. -/
theorem rel_laid {file : FileId} {opening : Option Place} {text : List Char} {tokens : List Token}
    (h : Tiles file opening Place.first text tokens) (source target names : Interner) :
    (Link.laid h source target).Rel
      (State.opening file (silent (spread file 1 tokens)) Interner.empty)
      (State.opening file (silent tokens) names) := by
  have hmoved : (silent (spread file 1 tokens)).map (Link.laid h source target).lexed =
      silent tokens := by
    have htokens := Link.map_spread_laid h source target
    rw [silent, List.map_map]
    conv_rhs => rw [silent, ← htokens, List.map_map]
    rfl
  have hne : silent (spread file 1 tokens) ≠ [] := by
    have hspread : spread file 1 tokens ≠ [] := fun hnil => by
      have htokens := Link.map_spread_laid h source target
      rw [hnil] at htokens
      exact h.ne_nil htokens.symm
    simpa [silent] using hspread
  have hstopped : (Link.laid h source target).stops Place.first := by
    have hpos := List.length_pos_of_ne_nil h.ne_nil
    show 0 < 2 * tokens.length
    omega
  rw [← hmoved]
  refine rel_opening (Interner.within_empty names) rfl rfl rfl file _ hstopped ?_
  rw [pending_opening file _ hne, tokens_silent]
  exact Link.placed_laid h source target

theorem start_of_silent {file : FileId} {source : String}
    (h : ∀ lexed ∈ Token.lex file source, lexed.reports = []) (names : Interner) :
    State.start file source names =
      State.opening file (silent ((Token.lex file source).map Lexed.token)) names := by
  have hlexed : Token.lex file source = silent ((Token.lex file source).map Lexed.token) :=
    Lexed.eq_of_silent (tokens_silent _).symm h (by simp [silent])
  rw [State.start, significant_of_silent h, ← hlexed]

end Parser

/-- One reading shows in another: both are the same up to places and the numbers of symbols. -/
structure Parsed.Shows (place : Span → Span) (p p' : Parsed Module) : Prop where
  names : p.names.Within p'.names
  result : p'.result = p.result.relabel ⟨place, p.names.carry p'.names, id, id⟩
  reports : p'.reports = p.reports.map fun d => { d with span := place d.span }

namespace Parser

/-- A run on the tokens of a source as they stand apart shows in the reading of the source. -/
theorem shows_spread {file : FileId} {source : String}
    (h : ∀ lexed ∈ Token.lex file source, lexed.reports = []) (names : Interner)
    {calls rounds : Nat} {ss : List Stmnt} {t : State}
    (hrun : stmnts (rules calls) rounds
      (State.opening file (silent (spread file 1 ((Token.lex file source).map Lexed.token)))
        Interner.empty) = some (ss, t)) :
    ∃ place, Parsed.Shows place
      ⟨⟨(Span.origin file).cover t.here.span, file, ss, t.decls, false⟩, t.names, t.reports⟩
      (Module.parse file source names) := by
  obtain ⟨_, htiles, -⟩ := Token.tiles_lexFrom file _ Place.first source.toList (Nat.lt_succ_self _)
  change Tiles file _ _ _ ((Token.lex file source).map Lexed.token) at htiles
  obtain ⟨ss', t', hrun', heq⟩ := exists_run file source names
  rw [start_of_silent h] at hrun'
  let L := Link.laid htiles t.names t'.names
  obtain ⟨hss, hrel⟩ := follows_stmnts (follows_rules _ _) _ _ _ _ ss t ss' t'
    (rel_laid htiles t.names t'.names names) hrun hrun' (Interner.le_refl _) (Interner.le_refl _)
  have hrelabel : L.relabel = ⟨L.span, t.names.carry t'.names, id, id⟩ := by
    rw [Link.relabel, Link.decl_eq_id rfl]
    rfl
  have hdecls : t'.decls = t.decls.relabel L.relabel :=
    congrArg Decls.mk (hrel.decls.trans (Array.empty_append ..))
  have hspan : (Span.origin file).cover t'.here.span =
      L.span ((Span.origin file).cover t.here.span) := by
    rw [hrel.here]
    exact L.cover_origin rfl file _
  rw [heq]
  refine ⟨L.span, hrel.names, ?_, hrel.reports.trans (Array.empty_append ..)⟩
  rw [← hrelabel, hss, hdecls, hspan]
  rfl

end Parser

/-- Sources on which the lexer has nothing to report and whose tokens are the same, wherever they
stand, are read as one module up to places and the numbers of symbols, whatever is wrong with it, and
the same is reported on them. -/
theorem Module.parse_layout (file : FileId) {source source' : String} (names names' : Interner)
    (h : ∀ lexed ∈ Token.lex file source, lexed.reports = [])
    (h' : ∀ lexed ∈ Token.lex file source', lexed.reports = [])
    (htokens : ((Token.lex file source).map Lexed.token).map Token.bare =
      ((Token.lex file source').map Lexed.token).map Token.bare) :
    ∃ (p : Parsed Module) (place place' : Span → Span),
      Parsed.Shows place p (Module.parse file source names) ∧
        Parsed.Shows place' p (Module.parse file source' names') := by
  have hstream : Stream 0 ((Parser.silent (spread file 1 ((Token.lex file source).map
      Lexed.token))).map Lexed.token) := by
    rw [Parser.tokens_silent]
    exact (Token.stream_lexFrom file _ Place.first source.toList (Nat.lt_succ_self _)).spread file
      (Nat.zero_le 1)
  obtain ⟨ss, t, hrun, -⟩ := Parser.runs_opening file Interner.empty hstream names
    (Nat.lt_succ_self _)
  have hrun' := hrun
  rw [← Token.spread_bare, htokens, Token.spread_bare] at hrun'
  obtain ⟨place, hshows⟩ := Parser.shows_spread h names hrun
  obtain ⟨place', hshows'⟩ := Parser.shows_spread h' names' hrun'
  exact ⟨_, place, place', hshows, hshows'⟩

/-- Spaces, comments and new lines between tokens. -/
example :
    ((Token.lex ⟨0⟩ "f(a,;)").map Lexed.token).map Token.bare =
      ((Token.lex ⟨0⟩ "f ( a, // none\n;)").map Lexed.token).map Token.bare := by cbv

/-- What the lexer reports matters. Behind a statement in which an invalid character stands, the next
one may be skipped: two statements are left of three. -/
example :
    (Module.parse ⟨0⟩ "({}) b; c;" .empty).result.stmnts.length = 3 ∧
      (Module.parse ⟨0⟩ "({}) @ b; c;" .empty).result.stmnts.length = 2 ∧
      (Module.parse ⟨0⟩ "({}) @ b; c;" .empty).reports.map Diagnostic.code = #[some "E0001"] := by
  decide +kernel

namespace Compiler

/-- A source may be laid out in any way that leaves its tokens and has nothing for the lexer to
report: it is read as the same module, up to places and the numbers of symbols, and whatever is wrong
with it is reported in the same order and with the same codes and messages. -/
theorem parseSource_layout (c : Compiler) (name source source' : String)
    (h : (c.lex (c.addFile name).1 source).2.diagnostics = c.diagnostics)
    (h' : (c.lex (c.addFile name).1 source').2.diagnostics = c.diagnostics)
    (htokens : (c.lex (c.addFile name).1 source).1.map Token.bare =
      (c.lex (c.addFile name).1 source').1.map Token.bare) :
    let left := c.parseSource name source
    let right := c.parseSource name source'
    ∃ (p : Parsed Module) (place place' : Span → Span) (reports reports' : Array Diagnostic),
      left.2.diagnostics = c.diagnostics ++ reports ∧
      right.2.diagnostics = c.diagnostics ++ reports' ∧
      Parsed.Shows place p ⟨left.1, left.2.names, reports⟩ ∧
      Parsed.Shows place' p ⟨right.1, right.2.names, reports'⟩ := by
  rw [tokens_lex, tokens_lex] at htokens
  obtain ⟨p, place, place', hleft, hright⟩ := Module.parse_layout ⟨c.files.size⟩ c.names c.names
    (silent_of_lex h) (silent_of_lex h') htokens
  simp only [diagnostics_parseSource, names_parseSource, result_parseSource]
  exact ⟨p, place, place', _, _, rfl, rfl, hleft, hright⟩

end Compiler

end ImpLang
