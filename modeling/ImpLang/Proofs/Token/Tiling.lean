import ImpLang.Proofs.Parser.Source
import ImpLang.Proofs.Span
import ImpLang.Proofs.Token.Spacing

/-!
The tokens of a source tile it. Every character belongs to one token or to one of the gaps around
the tokens, and a gap is what the grammar says, but for a comment that the source leaves open.
-/

namespace ImpLang

/-- A fault of a lexeme runs forward and is not about the gap in front of it. -/
def Fault.OfLexeme (fault : Fault) : Prop :=
  fault.error ≠ .unterminatedComment ∧ fault.first ≤ fault.last

namespace Number

theorem ofLexeme_faultOf (size : Nat) {error : Option LexError}
    (h : error ≠ some .unterminatedComment) : ∀ fault ∈ faultOf size error, fault.OfLexeme := by
  cases error with
  | none => simp [faultOf]
  | some error =>
    intro fault hfault
    obtain rfl := List.mem_singleton.1 hfault
    exact ⟨fun he => h (congrArg some he), Nat.zero_le size⟩

theorem kindOf_ne (isFloat : Bool) (suffix : List Char) :
    (kindOf isFloat suffix).2 ≠ some .unterminatedComment := by
  simp only [kindOf]
  split
  · simp
  · split
    · split <;> simp
    · simp

theorem ofLexeme_based (radix : Nat) (text : List Char) :
    ∀ fault ∈ (basedLexeme radix text).faults, fault.OfLexeme := by
  intro fault hfault
  rcases List.mem_append.1 hfault with hdigits | hsuffix
  · refine ofLexeme_faultOf _ ?_ fault hdigits
    split
    · simp
    · split <;> simp
  · exact ofLexeme_faultOf _ (kindOf_ne _ _) fault hsuffix

theorem ofLexeme_decimal (text : List Char) :
    ∀ fault ∈ (decimalLexeme text).faults, fault.OfLexeme := by
  intro fault hfault
  simp only [decimalLexeme] at hfault
  split at hfault
  · exact ofLexeme_faultOf _ (kindOf_ne _ _) fault hfault
  · rcases List.mem_append.1 hfault with hsuffix | hdigits
    · exact ofLexeme_faultOf _ (kindOf_ne _ _) fault hsuffix
    · refine ofLexeme_faultOf _ ?_ fault hdigits
      split <;> simp

theorem ofLexeme_lexeme (text : List Char) : ∀ fault ∈ (lexeme text).faults, fault.OfLexeme :=
  lexeme_cases text (fun radix => ofLexeme_based radix text) (ofLexeme_decimal text)

end Number

namespace Quote

theorem ofLexeme_escapeFaults (n : Nat) (decoded : Option Char × Nat) :
    ∀ fault ∈ escapeFaults n decoded, fault.OfLexeme := by
  simp only [escapeFaults]
  split
  · intro fault hfault
    obtain rfl := List.mem_singleton.1 hfault
    have hforward : n ≤ n + 1 + decoded.2 := by omega
    exact ⟨by simp, hforward⟩
  · simp

theorem ofLexeme_body (skip n : Nat) (text : List Char) :
    ∀ fault ∈ (body skip n text).faults, fault.OfLexeme := by
  have hquote : Fault.OfLexeme ⟨.unterminatedString, 0, 1⟩ := ⟨by simp, Nat.zero_le 1⟩
  induction text generalizing skip n with
  | nil => simp [body, hquote]
  | cons c rest ih =>
    cases skip with
    | succ skip => exact ih skip (n + 1)
    | zero =>
      simp only [body]
      split
      · simp
      · split
        · simp [hquote]
        · split
          · intro fault hfault
            rcases List.mem_append.1 hfault with hescape | hrest
            · exact ofLexeme_escapeFaults _ _ fault hescape
            · exact ih _ _ fault hrest
          · exact ih 0 (n + 1)

theorem ofLexeme_content (text : List Char) :
    ∀ fault ∈ (content text).2.2, fault.OfLexeme := by
  simp only [content]
  split
  · exact ofLexeme_escapeFaults _ _
  · split <;> simp
  · simp

theorem ofLexeme_char (text : List Char) : ∀ fault ∈ (charLexeme text).faults, fault.OfLexeme := by
  have hcontent := ofLexeme_content text.tail
  simp only [charLexeme]
  split
  · simp [Fault.OfLexeme]
  · split
    · exact hcontent
    · split
      · intro fault hfault
        rcases List.mem_append.1 hfault with hfault | hfault
        · exact hcontent fault hfault
        · obtain rfl := List.mem_singleton.1 hfault
          exact ⟨by simp, Nat.zero_le _⟩
      · intro fault hfault
        rcases List.mem_append.1 hfault with hfault | hfault
        · exact hcontent fault hfault
        · obtain rfl := List.mem_singleton.1 hfault
          exact ⟨by simp, Nat.zero_le _⟩

end Quote

namespace Lexeme

theorem ofLexeme_command (text : List Char) : ∀ fault ∈ (command text).faults, fault.OfLexeme := by
  simp only [command]
  split
  · split
    · simp
    · simp [Fault.OfLexeme]
  · simp

theorem ofLexeme_identifier (text : List Char) :
    ∀ fault ∈ (identifier text).faults, fault.OfLexeme := by
  simp only [identifier]
  split
  · simp
  · split
    · simp
    · split <;> simp

theorem ofLexeme_scan (c : Char) (text : List Char) :
    ∀ fault ∈ (scan c text).faults, fault.OfLexeme := by
  refine scan_cases c text ?fixed ?command ?string ?char ?number ?identifier ?invalid
  case fixed =>
    intro lexeme hfixed
    obtain ⟨entry, -, rfl⟩ := Option.map_eq_some_iff.1 hfixed
    simp
  case command => exact fun _ => ofLexeme_command _
  case string => exact fun _ => Quote.ofLexeme_body _ _ _
  case char => exact fun _ => Quote.ofLexeme_char _
  case number => exact fun _ => Number.ofLexeme_lexeme _
  case identifier => exact fun _ => ofLexeme_identifier _
  case invalid => simp [Fault.OfLexeme]

end Lexeme

theorem Gap.forward_faults (gap : Gap) : ∀ fault ∈ gap.faults, fault.first ≤ fault.last := by
  rw [faults]
  split
  · exact List.forall_mem_singleton.2 (Nat.le_add_right ..)
  · exact List.forall_mem_nil _

/-- The tokens of a text that begins at a place. Each stands behind a gap and takes some characters
of the text, and the last marks the end. Only the gap in front of that one may run into a comment
that stays open. -/
inductive Tiles (file : FileId) : (opening : Option Place) → Place → List Char → List Token → Prop
  | eof {place : Place} {gap : List Char} {token : Token} (spacing : Spacing [] gap)
      (kind : token.kind = .eof) (span : token.span = ⟨file, place.past gap, place.past gap⟩) :
      Tiles file none place gap [token]
  | unclosed {place : Place} {gap comment : List Char} {token : Token}
      (spacing : Spacing comment gap) (opens : OpenComment comment) (kind : token.kind = .eof)
      (span : token.span = ⟨file, place.past (gap ++ comment), place.past (gap ++ comment)⟩) :
      Tiles file (some (place.past gap)) place (gap ++ comment) [token]
  | token {opening : Option Place} {place : Place} {gap chars rest : List Char} {token : Token}
      {tokens : List Token} (spacing : Spacing (chars ++ rest) gap) (ne_nil : chars ≠ [])
      (kind : token.kind ≠ .eof) (text : token.text = String.ofList chars)
      (span : token.span = ⟨file, place.past gap, (place.past gap).past chars⟩)
      (tiles : Tiles file opening ((place.past gap).past chars) rest tokens) :
      Tiles file opening place (gap ++ (chars ++ rest)) (token :: tokens)

namespace Tiles

variable {file : FileId} {opening : Option Place} {place : Place} {text : List Char}
  {tokens : List Token}

/-- Tokens that follow a place begin behind it. -/
theorem le_start (h : Tiles file opening place text tokens) :
    ∀ token ∈ tokens, place.offset ≤ token.span.start.offset := by
  induction h with
  | @eof place gap token _ _ span =>
    intro other hother
    obtain rfl := List.mem_singleton.1 hother
    rw [span]
    exact Token.offset_le_past ..
  | @unclosed place gap comment token _ _ _ span =>
    intro other hother
    obtain rfl := List.mem_singleton.1 hother
    rw [span]
    exact Token.offset_le_past ..
  | @token _ place gap chars rest token tokens _ _ _ _ span _ ih =>
    have hgap := Token.offset_le_past place gap
    have hchars := Token.offset_le_past (place.past gap) chars
    intro other hother
    rcases List.mem_cons.1 hother with rfl | hother
    · rw [span]
      exact hgap
    · have hrest := ih other hother
      omega

/-- The tokens stand in order and apart. -/
theorem ordered (h : Tiles file opening place text tokens) :
    tokens.Pairwise fun a b => a.span.stop.offset ≤ b.span.start.offset := by
  induction h with
  | eof => exact List.pairwise_singleton ..
  | unclosed => exact List.pairwise_singleton ..
  | token _ _ _ _ span tiles ih =>
    refine .cons (fun other hother => ?_) ih
    rw [span]
    exact tiles.le_start other hother

/-- No token but the last is empty. -/
theorem nonempty (h : Tiles file opening place text tokens) :
    ∀ token ∈ tokens, token.kind ≠ .eof → token.span.start.offset < token.span.stop.offset := by
  induction h with
  | eof _ kind => simp [kind]
  | unclosed _ _ kind => simp [kind]
  | token _ ne_nil _ _ span _ ih =>
    intro other hother hkind
    rcases List.mem_cons.1 hother with rfl | hother
    · rw [span]
      exact Token.offset_lt_past _ ne_nil
    · exact ih other hother hkind

/-- The last token is empty and stands at the end. -/
theorem last (h : Tiles file opening place text tokens) :
    ∃ before eof, tokens = before ++ [eof] ∧ (∀ token ∈ before, token.kind ≠ .eof) ∧
      eof.kind = .eof ∧ eof.span = ⟨file, place.past text, place.past text⟩ := by
  induction h with
  | eof _ kind span => exact ⟨[], _, rfl, by simp, kind, span⟩
  | unclosed _ _ kind span => exact ⟨[], _, rfl, by simp, kind, span⟩
  | @token _ place gap chars rest token tokens _ _ kind _ span _ ih =>
    obtain ⟨before, eof, rfl, hbefore, heof, hspan⟩ := ih
    refine ⟨token :: before, eof, rfl, ?_, heof, ?_⟩
    · simpa [kind] using hbefore
    · rw [hspan, Place.past_append, Place.past_append]

/-- Every token is a range of the source whose rest is tiled. -/
theorem in_source (before : List Char)
    (h : Tiles file opening (Place.counted before) text tokens) :
    ∀ token ∈ tokens, token.span.In file (before ++ text) := by
  -- With every token more of the source stands in front of what is left.
  generalize hplace : Place.counted before = place at h
  induction h generalizing before with
  | @eof place gap token _ _ span =>
    intro other hother
    obtain rfl := List.mem_singleton.1 hother
    subst hplace
    rw [Place.past_counted] at span
    have hend := Place.in_counted (before ++ gap) []
    rw [List.append_nil] at hend
    exact span ▸ ⟨rfl, hend, hend, Nat.le_refl _⟩
  | @unclosed place gap comment token _ _ _ span =>
    intro other hother
    obtain rfl := List.mem_singleton.1 hother
    subst hplace
    rw [Place.past_counted] at span
    have hend := Place.in_counted (before ++ (gap ++ comment)) []
    rw [List.append_nil] at hend
    exact span ▸ ⟨rfl, hend, hend, Nat.le_refl _⟩
  | @token _ place gap chars rest token tokens _ _ _ _ span tiles ih =>
    subst hplace
    have hstop := Place.past_counted (before ++ gap) chars
    rw [Place.past_counted] at span ih
    rw [hstop] at span ih
    have hsource : before ++ (gap ++ (chars ++ rest)) = before ++ gap ++ chars ++ rest := by simp
    have hrest := ih _ rfl
    rw [hsource]
    intro other hother
    rcases List.mem_cons.1 hother with rfl | hother
    · rw [span]
      refine ⟨rfl, ?_, Place.in_counted .., ?_⟩
      · rw [List.append_assoc (before ++ gap)]
        exact Place.in_counted ..
      · rw [← hstop]
        exact Token.offset_le_past ..
    · exact hrest other hother

end Tiles

/-- The report of a comment that opens at a place and stays open. -/
def Diagnostic.openComment (file : FileId) (opening : Place) : Diagnostic :=
  LexError.unterminatedComment.report ⟨file, opening, opening.past ['/', '*']⟩

/-- Whether a report is about a comment that stays open. -/
def Diagnostic.isOpenComment (d : Diagnostic) : Bool := d.code == some "E0002"

theorem LexError.isOpenComment_report (error : LexError) (span : Span) :
    (error.report span).isOpenComment = true ↔ error = .unterminatedComment := by
  cases error <;> simp [report, Diagnostic.isOpenComment, code]

theorem Fault.filter_report {faults : List Fault} (h : ∀ fault ∈ faults, fault.OfLexeme)
    (file : FileId) (place : Place) (text : List Char) :
    (faults.map (·.report file place text)).filter Diagnostic.isOpenComment = [] := by
  rw [List.filter_eq_nil_iff]
  intro d hd
  obtain ⟨fault, hfault, rfl⟩ := List.mem_map.1 hd
  rw [Fault.report, LexError.isOpenComment_report]
  exact (h fault hfault).1

namespace Token

variable {file : FileId} {rounds : Nat} {place : Place}

theorem lexFrom_end {gap : List Char} (h : Gap.scan gap = ⟨gap.length, none⟩) :
    lexFrom file (rounds + 1) place gap =
      [⟨⟨.eof, ⟨file, place.past gap, place.past gap⟩, "", .none⟩, []⟩] := by
  simp only [lexFrom, h, List.take_length, List.drop_length, Gap.faults, List.map_nil]

/-- A lexeme at the front of a text that begins at a place, as a token. -/
def ofLexeme (file : FileId) (start : Place) (text : List Char) (lexeme : Lexeme) : Lexed :=
  let chars := text.take lexeme.size
  ⟨⟨lexeme.kind, ⟨file, start, start.past chars⟩, String.ofList chars, lexeme.payload⟩,
    lexeme.faults.map (·.report file start text)⟩

theorem lexFrom_lexeme {gap rest : List Char} {c : Char}
    (h : Gap.scan (gap ++ c :: rest) = ⟨gap.length, none⟩) :
    lexFrom file (rounds + 1) place (gap ++ c :: rest) =
      let lexeme := Lexeme.scan c (c :: rest)
      let lexed := ofLexeme file (place.past gap) (c :: rest) lexeme
      lexed :: lexFrom file rounds lexed.token.span.stop ((c :: rest).drop lexeme.size) := by
  simp only [lexFrom, h, List.take_left, List.drop_left, Gap.faults, List.map_nil, List.nil_append,
    ofLexeme]

theorem lexFrom_open {gap comment : List Char} (hopen : OpenComment comment)
    (h : Gap.scan (gap ++ comment) = ⟨(gap ++ comment).length, some gap.length⟩) :
    lexFrom file (rounds + 1) place (gap ++ comment) =
      [⟨⟨.eof, ⟨file, place.past (gap ++ comment), place.past (gap ++ comment)⟩, "", .none⟩,
        [.openComment file (place.past gap)]⟩] := by
  obtain ⟨⟨behind, rfl⟩, -⟩ := hopen
  have hmark : (gap ++ (['/', '*'] ++ behind)).take (gap.length + 2) = gap ++ ['/', '*'] :=
    List.take_length_add_append 2
  simp only [lexFrom, h, List.take_length, List.drop_length, Gap.faults, List.map_cons,
    List.map_nil, Fault.report, List.take_left, hmark, Place.past_append, Diagnostic.openComment]

/-- The tokens of a text tile it, and a comment that stays open is reported once. -/
theorem tiles_lexFrom (file : FileId) (rounds : Nat) (place : Place) (text : List Char)
    (h : text.length < rounds) :
    ∃ opening, Tiles file opening place text ((lexFrom file rounds place text).map Lexed.token) ∧
      ((lexFrom file rounds place text).flatMap Lexed.reports).filter Diagnostic.isOpenComment =
        opening.toList.map (Diagnostic.openComment file) := by
  -- A round takes a gap and one lexeme, unless the gap is the last.
  induction rounds generalizing place text with
  | zero => omega
  | succ rounds ih =>
    obtain ⟨between, rest, rfl, hspacing, hscan | ⟨hscan, hopen⟩⟩ := Gap.scan_eq text
    · cases rest with
      | nil =>
        rw [List.append_nil] at hscan ⊢
        rw [lexFrom_end hscan]
        exact ⟨none, .eof hspacing rfl rfl, rfl⟩
      | cons c rest =>
        have hsound := Lexeme.sound_scan c rest
        have hfaults := Lexeme.ofLexeme_scan c (c :: rest)
        rw [lexFrom_lexeme hscan]
        generalize Lexeme.scan c (c :: rest) = lexeme at hsound hfaults ⊢
        have hsize := hsound.size
        have hchars : (c :: rest).take lexeme.size ≠ [] := by
          rw [Ne, List.take_eq_nil_iff, not_or]
          exact ⟨Nat.ne_of_gt hsize, List.cons_ne_nil _ _⟩
        have hlength : ((c :: rest).drop lexeme.size).length < rounds := by
          rw [List.length_append, List.length_cons] at h
          rw [List.length_drop, List.length_cons]
          omega
        obtain ⟨opening, htiles, hreports⟩ := ih
          ((place.past between).past ((c :: rest).take lexeme.size)) _ hlength
        refine ⟨opening, ?_, ?_⟩
        · have hall := List.take_append_drop lexeme.size (c :: rest)
          rw [← hall] at hspacing
          have htoken : Tiles file opening place _ ((ofLexeme file (place.past between) (c :: rest)
              lexeme).token :: _) := .token hspacing hchars hsound.kind rfl rfl htiles
          rwa [hall] at htoken
        · rw [List.flatMap_cons, List.filter_append, ofLexeme, Fault.filter_report hfaults,
            List.nil_append]
          exact hreports
    · rw [lexFrom_open hopen hscan]
      exact ⟨_, .unclosed hspacing hopen rfl rfl, rfl⟩

/-- A fault that runs forward is reported at a range of the source. -/
theorem in_report {fault : Fault} (h : fault.first ≤ fault.last) (file : FileId)
    (before text : List Char) :
    (fault.report file (Place.counted before) text).span.In file (before ++ text) := by
  have hplace : ∀ n, ((Place.counted before).past (text.take n)).In (before ++ text) := by
    intro n
    refine ⟨before ++ text.take n, text.drop n, ?_, Place.past_counted ..⟩
    rw [List.append_assoc, List.take_append_drop]
  refine ⟨rfl, hplace _, hplace _, ?_⟩
  obtain ⟨between, hbetween⟩ := (List.take_prefix_take_left h : text.take _ <+: text.take _)
  show ((Place.counted before).past (text.take fault.first)).offset ≤
    ((Place.counted before).past (text.take fault.last)).offset
  rw [← hbetween, Place.past_append]
  exact offset_le_past ..

/-- What is wrong with the lexemes of a source and with the gaps between them is reported in it. -/
theorem in_reports_lexFrom (file : FileId) (rounds : Nat) (before text : List Char) :
    ∀ lexed ∈ lexFrom file rounds (Place.counted before) text, ∀ d ∈ lexed.reports,
      d.span.In file (before ++ text) := by
  induction rounds generalizing before text with
  | zero => simp [lexFrom]
  | succ rounds ih =>
    have hgap : ∀ d ∈ (Gap.scan text).faults.map (·.report file (Place.counted before) text),
        d.span.In file (before ++ text) := by
      intro d hd
      obtain ⟨fault, hfault, rfl⟩ := List.mem_map.1 hd
      exact in_report (Gap.forward_faults _ fault hfault) file before text
    have hsplit := List.take_append_drop (Gap.scan text).size text
    simp only [lexFrom, Place.past_counted]
    split
    · exact List.forall_mem_singleton.2 hgap
    · next c rest hrest =>
      rw [hrest] at hsplit
      generalize hbetween : text.take (Gap.scan text).size = between at hsplit ⊢
      have hlexeme : ∀ fault ∈ (Lexeme.scan c (c :: rest)).faults,
          (fault.report file (Place.counted (before ++ between)) (c :: rest)).span.In file
            (before ++ text) := by
        intro fault hfault
        have hin := in_report (Lexeme.ofLexeme_scan c (c :: rest) fault hfault).2 file
          (before ++ between) (c :: rest)
        rwa [List.append_assoc, hsplit] at hin
      have hbehind := ih (before ++ between ++ (c :: rest).take (Lexeme.scan c (c :: rest)).size)
        ((c :: rest).drop (Lexeme.scan c (c :: rest)).size)
      have hall : before ++ between ++ (c :: rest).take (Lexeme.scan c (c :: rest)).size ++
          (c :: rest).drop (Lexeme.scan c (c :: rest)).size = before ++ text := by
        rw [List.append_assoc (before ++ between), List.take_append_drop, List.append_assoc, hsplit]
      rw [hall] at hbehind
      refine List.forall_mem_cons.2 ⟨fun d hd => ?_, hbehind⟩
      rcases List.mem_append.1 hd with hd | hd
      · exact hgap d hd
      · obtain ⟨fault, hfault, rfl⟩ := List.mem_map.1 hd
        exact hlexeme fault hfault

end Token

namespace Compiler

/-- The tokens of every source tile it: they stand in order and apart, on places of the source, none
but the last is empty, and the last stands at the end. The text around them follows the grammar of
gaps; if it ends in a comment that stays open, that one is reported once, where it opens, and no
other such comment is. -/
theorem lex_tiles (c : Compiler) (file : FileId) (source : String) :
    ∃ (opening : Option Place) (reports : List Diagnostic),
      Tiles file opening Place.first source.toList (c.lex file source).1 ∧
      (c.lex file source).2.diagnostics = c.diagnostics ++ reports.toArray ∧
      reports.filter Diagnostic.isOpenComment =
        opening.toList.map (Diagnostic.openComment file) ∧
      (c.lex file source).1.Pairwise (fun a b => a.span.stop.offset ≤ b.span.start.offset) ∧
      (∀ token ∈ (c.lex file source).1, token.span.In file source.toList) ∧
      (∀ token ∈ (c.lex file source).1, token.kind ≠ .eof →
        token.span.start.offset < token.span.stop.offset) ∧
      ∃ before eof, (c.lex file source).1 = before ++ [eof] ∧
        (∀ token ∈ before, token.kind ≠ .eof) ∧ eof.kind = .eof ∧
        eof.span = ⟨file, Place.counted source.toList, Place.counted source.toList⟩ := by
  obtain ⟨opening, htiles, hreports⟩ := Token.tiles_lexFrom file _ Place.first source.toList
    (Nat.lt_succ_self _)
  have hlast := htiles.last
  rw [Place.past_first] at hlast
  rw [tokens_lex]
  exact ⟨opening, _, htiles, diagnostics_lex c source file, hreports, htiles.ordered,
    htiles.in_source [], htiles.nonempty, hlast⟩

end Compiler

end ImpLang
