import ImpLang.Token.Lexer

/-!
What holds of the tokens of every source: the last one and no other is the end of the file, the
others are not empty, they stand in order, and what they carry fits their kind.
-/

namespace ImpLang

/-- Whether a token carries what its kind asks for. -/
def Token.Fits (token : Token) : Prop :=
  (token.kind = .identifier → ∃ text, token.payload = .name text) ∧
    (token.kind = .literal → ∃ value, token.payload = .literal value)

/-- Tokens from an offset on up to the end of a file. -/
inductive Stream : Nat → List Token → Prop
  | eof {n : Nat} {token : Token} (kind : token.kind = .eof) (start : n ≤ token.span.start.offset) :
      Stream n [token]
  | token {n : Nat} {token : Token} {tokens : List Token} (kind : token.kind ≠ .eof)
      (fits : token.Fits) (start : n ≤ token.span.start.offset)
      (stop : token.span.start.offset < token.span.stop.offset)
      (rest : Stream token.span.stop.offset tokens) : Stream n (token :: tokens)

namespace Stream

theorem mono {m n : Nat} {tokens : List Token} (h : Stream n tokens) (hmn : m ≤ n) :
    Stream m tokens := by
  cases h with
  | eof kind start => exact .eof kind (Nat.le_trans hmn start)
  | token kind fits start stop rest => exact .token kind fits (Nat.le_trans hmn start) stop rest

theorem ne_nil {n : Nat} {tokens : List Token} (h : Stream n tokens) : tokens ≠ [] := by
  cases h <;> simp

/-- The end of the file is the last token. -/
theorem eq_of_eof {n : Nat} {token : Token} {tokens : List Token} (h : Stream n (token :: tokens))
    (hk : token.kind = .eof) : tokens = [] := by
  cases h with
  | eof => rfl
  | token kind => exact absurd hk kind

theorem start {n : Nat} {token : Token} {tokens : List Token} (h : Stream n (token :: tokens)) :
    n ≤ token.span.start.offset := by
  cases h with
  | eof _ start => exact start
  | token _ _ start => exact start

/-- No token of a stream begins in front of it. -/
theorem le_start {n : Nat} {tokens : List Token} (h : Stream n tokens) :
    ∀ token ∈ tokens, n ≤ token.span.start.offset := by
  induction h with
  | eof _ start => exact List.forall_mem_singleton.2 start
  | token _ _ start stop _ ih =>
    refine List.forall_mem_cons.2 ⟨start, fun other hother => ?_⟩
    have hrest := ih other hother
    omega

/-- Behind every token but the last the stream goes on. -/
theorem tail {n : Nat} {token : Token} {tokens : List Token} (h : Stream n (token :: tokens))
    (hk : token.kind ≠ .eof) : Stream token.span.stop.offset tokens := by
  cases h with
  | eof kind => exact absurd kind hk
  | token _ _ _ _ rest => exact rest

/-- A token in front of others is not the last. -/
theorem uncons {n : Nat} {token : Token} {tokens : List Token} (h : Stream n (token :: tokens))
    (hne : tokens ≠ []) :
    token.kind ≠ .eof ∧ token.Fits ∧ n ≤ token.span.start.offset ∧
      token.span.start.offset < token.span.stop.offset ∧
      Stream token.span.stop.offset tokens := by
  cases h with
  | eof => exact absurd rfl hne
  | token kind fits start stop rest => exact ⟨kind, fits, start, stop, rest⟩

/-- Among the first tokens, the first begins before the last ends. -/
theorem start_lt_stop {n : Nat} {first last : Token} {ts us : List Token}
    (h : Stream n (first :: (ts ++ us))) (hus : us ≠ [])
    (hlast : (first :: ts).getLast? = some last) :
    first.span.start.offset < last.span.stop.offset := by
  induction ts generalizing n first with
  | nil =>
    cases hlast
    obtain ⟨-, -, -, hstop, -⟩ := h.uncons hus
    exact hstop
  | cons second ts ih =>
    rw [List.getLast?_cons_cons] at hlast
    obtain ⟨-, -, -, hstop, hrest⟩ := h.uncons (List.cons_ne_nil _ _)
    have hnext := hrest.start
    have hlast := ih hrest hlast
    omega

/-- Only the last token is the end of the file. -/
theorem ne_eof {n : Nat} {ts us : List Token} (h : Stream n (ts ++ us)) (hus : us ≠ []) :
    ∀ token ∈ ts, token.kind ≠ .eof := by
  induction ts generalizing n with
  | nil => simp
  | cons first ts ih =>
    obtain ⟨hfirst, -, -, -, hrest⟩ := h.uncons (by simp [hus])
    intro token htoken
    rcases List.mem_cons.1 htoken with rfl | htoken
    · exact hfirst
    · exact ih hrest token htoken

/-- Without its invalid tokens a stream is one still. -/
theorem filter_valid {n : Nat} {tokens : List Token} (h : Stream n tokens) :
    Stream n (tokens.filter fun token => token.kind ≠ .invalid) := by
  induction h with
  | @eof n token kind start =>
    rw [List.filter_cons_of_pos (by simp [kind]), List.filter_nil]
    exact .eof kind start
  | @token n token tokens kind fits start stop rest ih =>
    by_cases hinvalid : token.kind = .invalid
    · rw [List.filter_cons_of_neg (by simp [hinvalid])]
      exact ih.mono (by omega)
    · rw [List.filter_cons_of_pos (by simpa using hinvalid)]
      exact .token kind fits start stop ih

end Stream

end ImpLang
