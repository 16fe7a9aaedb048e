import ImpLang.Proofs.Token.Stream

/-!
Every text is lexed into a stream of tokens, and what is wrong with a text is reported with one of
its tokens.
-/

namespace ImpLang

/-- What holds of every lexeme: it is not empty, it carries what its kind asks for, and it is
reported if it is invalid. -/
structure Lexeme.Sound (lexeme : Lexeme) : Prop where
  size : 0 < lexeme.size
  kind : lexeme.kind ≠ .eof
  name : lexeme.kind = .identifier → ∃ text, lexeme.payload = .name text
  literal : lexeme.kind = .literal → ∃ value, lexeme.payload = .literal value
  reported : lexeme.kind = .invalid → lexeme.faults ≠ []

/-- Kinds of tokens that carry nothing and are neither the last nor invalid. -/
def TokenKind.isPlain (kind : TokenKind) : Bool :=
  kind ≠ .eof ∧ kind ≠ .invalid ∧ kind ≠ .identifier ∧ kind ≠ .literal

theorem isIdentContinue_of_isIdentStart {c : Char} (h : isIdentStart c = true) :
    isIdentContinue c = true := by
  simp only [isIdentStart, isIdentContinue, Bool.and_eq_true, Bool.or_eq_true] at *
  exact ⟨h.1.imp_left .inl, h.2⟩

/-- Reading on in a string adds to what has been read. -/
theorem Quote.le_size_body (skip n : Nat) (text : List Char) : n ≤ (body skip n text).size := by
  induction text generalizing skip n with
  | nil => exact Nat.le_refl n
  | cons c text ih =>
    cases skip with
    | succ skip => exact Nat.le_of_succ_le (ih skip (n + 1))
    | zero =>
      simp only [body]
      split
      · exact Nat.le_succ n
      · split
        · exact Nat.le_refl n
        · split
          · exact Nat.le_of_succ_le (ih _ (n + 1))
          · exact Nat.le_of_succ_le (ih 0 (n + 1))

theorem Number.isNumeral_of_isDigit {c : Char} (h : c.isDigit = true) :
    isNumeral 10 c = true := by
  have hdigit : c.toNat < 58 := by
    simp only [Char.isDigit, Bool.and_eq_true, decide_eq_true_eq] at h
    have hle := UInt32.le_iff_toNat_le.1 h.2
    exact Nat.lt_succ_of_le hle
  have hvalue : digitValue c < 10 := by
    simp only [digitValue, h, if_true]
    omega
  simp [isNumeral, isDigitOf, hvalue]

/-- A number has a base prefix or is decimal. -/
@[elab_as_elim]
theorem Number.lexeme_cases {motive : Lexeme → Prop} (text : List Char)
    (based : ∀ radix, motive (basedLexeme radix text)) (decimal : motive (decimalLexeme text)) :
    motive (lexeme text) := by
  simp only [lexeme]
  split
  · split
    · exact based _
    · exact decimal
  · exact decimal

namespace Lexeme

/-- What the lexeme at the front of a text can be, by the first character. -/
@[elab_as_elim]
theorem scan_cases {motive : Lexeme → Prop} (c : Char) (text : List Char)
    (fixed : ∀ lexeme, fixedLexeme? text = some lexeme → motive lexeme)
    (command : c = '\\' → motive (command text))
    (string : c = '"' → motive (Quote.stringLexeme text))
    (char : c = '\'' → motive (Quote.charLexeme text))
    (number : c.isDigit = true → motive (Number.lexeme text))
    (identifier : isIdentStart c = true → motive (identifier text))
    (invalid : motive ⟨.invalid, 1, .none, [⟨.unexpectedCharacter c, 0, 1⟩]⟩) :
    motive (scan c text) := by
  simp only [scan]
  split
  · next lexeme hfixed => exact fixed lexeme hfixed
  · split
    · next h => exact command h
    · split
      · next h => exact string h
      · split
        · next h => exact char h
        · split
          · next h => exact number h
          · split
            · next h => exact identifier h
            · exact invalid

theorem sound_plain {kind : TokenKind} {size : Nat} {payload : Payload} {faults : List Fault}
    (hkind : kind.isPlain = true) (hsize : 0 < size) :
    Lexeme.Sound ⟨kind, size, payload, faults⟩ := by
  simp only [TokenKind.isPlain, decide_eq_true_eq] at hkind
  obtain ⟨heof, hinvalid, hidentifier, hliteral⟩ := hkind
  exact ⟨hsize, heof, fun h => absurd h hidentifier, fun h => absurd h hliteral,
    fun h => absurd h hinvalid⟩

theorem sound_literal {size : Nat} {value : Literal String} {faults : List Fault}
    (hsize : 0 < size) : Lexeme.Sound ⟨.literal, size, .literal value, faults⟩ :=
  ⟨hsize, by simp, by simp, fun _ => ⟨value, rfl⟩, by simp⟩

theorem isPlain_of_keyword? {text : String} {kind : TokenKind}
    (h : TokenKind.keyword? text = some kind) : kind.isPlain = true := by
  have hall : ∀ kind ∈ TokenKind.keywords, kind.isPlain = true := by decide
  rw [TokenKind.keyword?_eq_find?] at h
  exact hall kind (List.mem_of_find?_eq_some h)

theorem sound_fixed {text : List Char} {lexeme : Lexeme} (h : fixedLexeme? text = some lexeme) :
    lexeme.Sound := by
  have hall : ∀ entry ∈ fixedLexemes, entry.2.isPlain = true ∧ 0 < entry.1.length := by decide
  obtain ⟨entry, hfind, rfl⟩ := Option.map_eq_some_iff.1 h
  obtain ⟨hkind, hsize⟩ := hall entry (List.mem_of_find?_eq_some hfind)
  exact sound_plain hkind hsize

theorem sound_command (text : List Char) : (Lexeme.command text).Sound := by
  simp only [command]
  split
  · split
    · next kind hkind => exact sound_plain (isPlain_of_keyword? hkind) (Nat.succ_pos _)
    · exact ⟨Nat.succ_pos _, by simp, by simp, by simp, by simp⟩
  · exact sound_plain rfl Nat.one_pos

theorem sound_identifier {c : Char} {rest : List Char} (h : isIdentStart c = true) :
    (Lexeme.identifier (c :: rest)).Sound := by
  have hsize : 0 < ((c :: rest).takeWhile isIdentContinue).length := by
    rw [List.takeWhile_cons_of_pos (isIdentContinue_of_isIdentStart h)]
    exact Nat.succ_pos _
  simp only [identifier]
  split
  · exact sound_literal hsize
  · split
    · exact sound_literal hsize
    · split
      · next kind hkind => exact sound_plain (isPlain_of_keyword? hkind) hsize
      · exact ⟨hsize, by simp, fun _ => ⟨_, rfl⟩, by simp, by simp⟩

theorem sound_string {c : Char} {rest : List Char} : (Quote.stringLexeme (c :: rest)).Sound :=
  sound_literal (Nat.lt_of_lt_of_le Nat.one_pos (Quote.le_size_body 0 1 rest))

theorem sound_char (text : List Char) : (Quote.charLexeme text).Sound := by
  simp only [Quote.charLexeme]
  split
  · exact sound_literal Nat.two_pos
  · split
    · exact sound_literal (Nat.succ_pos _)
    · split
      · exact sound_literal (Nat.succ_pos _)
      · exact sound_literal (Nat.succ_pos _)

theorem sound_based (radix : Nat) (text : List Char) : (Number.basedLexeme radix text).Sound := by
  refine sound_literal ?_
  omega

theorem sound_decimal {c : Char} {rest : List Char} (h : c.isDigit = true) :
    (Number.decimalLexeme (c :: rest)).Sound := by
  have hsize : 0 < ((c :: rest).takeWhile (Number.isNumeral 10)).length := by
    rw [List.takeWhile_cons_of_pos (Number.isNumeral_of_isDigit h)]
    exact Nat.succ_pos _
  simp only [Number.decimalLexeme]
  split
  · exact sound_literal (by omega)
  · exact sound_literal (by omega)

theorem sound_number {c : Char} {rest : List Char} (h : c.isDigit = true) :
    (Number.lexeme (c :: rest)).Sound :=
  Number.lexeme_cases _ (fun radix => sound_based radix _) (sound_decimal h)

theorem sound_scan (c : Char) (rest : List Char) : (Lexeme.scan c (c :: rest)).Sound := by
  refine scan_cases c _ ?fixed ?command ?string ?char ?number ?identifier ?invalid
  case fixed => exact fun _ h => sound_fixed h
  case command => exact fun _ => sound_command _
  case string => exact fun _ => sound_string
  case char => exact fun _ => sound_char _
  case number => exact sound_number
  case identifier => exact sound_identifier
  case invalid => exact ⟨Nat.one_pos, by simp, by simp, by simp, by simp⟩

end Lexeme

namespace Token

/-- Characters that are read move the place on. -/
theorem offset_lt_past (place : Place) {text : List Char} (h : text ≠ []) :
    place.offset < (place.past text).offset := by
  rw [Place.offset_past]
  cases text with
  | nil => exact absurd rfl h
  | cons c text =>
    have hsize := c.utf8Size_pos
    rw [byteSize]
    omega

theorem offset_le_past (place : Place) (text : List Char) :
    place.offset ≤ (place.past text).offset := by
  rw [Place.offset_past]
  exact Nat.le_add_right ..

/-- Enough rounds reach the end of a text. -/
theorem stream_lexFrom (file : FileId) (rounds : Nat) (place : Place) (text : List Char)
    (h : text.length < rounds) :
    Stream place.offset ((lexFrom file rounds place text).map Lexed.token) := by
  induction rounds generalizing place text with
  | zero => omega
  | succ rounds ih =>
    simp only [lexFrom]
    have hgap := offset_le_past place (text.take (Gap.scan text).size)
    split
    · exact .eof rfl hgap
    · next c rest htext =>
      have hlexeme := Lexeme.sound_scan c rest
      have hlength : rest.length < text.length := by
        have hdrop := congrArg List.length htext
        rw [List.length_drop, List.length_cons] at hdrop
        omega
      refine .token hlexeme.kind ⟨hlexeme.name, hlexeme.literal⟩ hgap ?_ (ih _ _ ?_)
      · refine offset_lt_past _ fun hnil => ?_
        rw [List.take_eq_nil_iff] at hnil
        have hsize := hlexeme.size
        rcases hnil with hnil | hnil
        · omega
        · cases hnil
      · have hsize := hlexeme.size
        rw [List.length_drop, List.length_cons]
        omega

/-- What can be lexed from a text: its end, or the lexeme at the front of a rest of it. In front of
the reports on a lexeme stand those on the gap behind which it was found. -/
inductive LexedFrom (file : FileId) (text : List Char) : Lexed → Prop
  | eof (span : Span) (gap : Gap) (place : Place) (ahead : List Char) :
      LexedFrom file text ⟨⟨.eof, span, "", .none⟩, gap.faults.map (·.report file place ahead)⟩
  | lexeme {c : Char} {rest : List Char} (suffix : c :: rest <:+ text) (span : Span) (gap : Gap)
      (place start : Place) (ahead : List Char) :
      LexedFrom file text
        (let lexeme := Lexeme.scan c (c :: rest)
        ⟨⟨lexeme.kind, span, String.ofList ((c :: rest).take lexeme.size), lexeme.payload⟩,
          gap.faults.map (·.report file place ahead) ++
            lexeme.faults.map (·.report file start (c :: rest))⟩)

theorem LexedFrom.mono {file : FileId} {text all : List Char} {lexed : Lexed}
    (h : LexedFrom file text lexed) (hsuffix : text <:+ all) : LexedFrom file all lexed := by
  cases h with
  | eof span gap place ahead => exact .eof span gap place ahead
  | lexeme suffix span gap place start ahead =>
    exact .lexeme (suffix.trans hsuffix) span gap place start ahead

theorem lexedFrom_lexFrom (file : FileId) (rounds : Nat) (place : Place) (text : List Char) :
    ∀ lexed ∈ lexFrom file rounds place text, LexedFrom file text lexed := by
  induction rounds generalizing place text with
  | zero => simp [lexFrom]
  | succ rounds ih =>
    intro lexed hlexed
    simp only [lexFrom] at hlexed
    split at hlexed
    · obtain rfl := List.mem_singleton.1 hlexed
      exact .eof ..
    · next c rest htext =>
      have hsuffix : c :: rest <:+ text := htext ▸ List.drop_suffix _ _
      rcases List.mem_cons.1 hlexed with rfl | hlexed
      · exact .lexeme hsuffix ..
      · exact (ih _ _ lexed hlexed).mono ((List.drop_suffix _ _).trans hsuffix)

/-- An invalid token is reported. -/
theorem reported_lexFrom (file : FileId) (rounds : Nat) (place : Place) (text : List Char) :
    ∀ lexed ∈ lexFrom file rounds place text,
      lexed.token.kind = .invalid → lexed.reports ≠ [] := by
  intro lexed hlexed hkind
  cases lexedFrom_lexFrom file rounds place text lexed hlexed with
  | eof => cases hkind
  | @lexeme c rest _ _ _ _ _ _ =>
    have hfaults := (Lexeme.sound_scan c rest).reported hkind
    simp [hfaults]

/-- Reports on tokens are reports of errors of the lexer. -/
theorem forall_reports_lexFrom {p : Diagnostic → Prop}
    (h : ∀ (e : LexError) (span : Span), p (e.report span)) (file : FileId) (rounds : Nat)
    (place : Place) (text : List Char) :
    ∀ lexed ∈ lexFrom file rounds place text, ∀ d ∈ lexed.reports, p d := by
  have hfaults : ∀ (faults : List Fault) (place : Place) (text : List Char),
      ∀ d ∈ faults.map (·.report file place text), p d := by
    intro faults place text d hd
    obtain ⟨fault, -, rfl⟩ := List.mem_map.1 hd
    exact h _ _
  intro lexed hlexed d hd
  cases lexedFrom_lexFrom file rounds place text lexed hlexed with
  | eof => exact hfaults _ _ _ d hd
  | lexeme =>
    rcases List.mem_append.1 hd with hd | hd
    · exact hfaults _ _ _ d hd
    · exact hfaults _ _ _ d hd

theorem isError_lexFrom (file : FileId) (rounds : Nat) (place : Place) (text : List Char) :
    ∀ lexed ∈ lexFrom file rounds place text, ∀ d ∈ lexed.reports, d.isError = true :=
  forall_reports_lexFrom (fun _ _ => rfl) file rounds place text

end Token

end ImpLang
