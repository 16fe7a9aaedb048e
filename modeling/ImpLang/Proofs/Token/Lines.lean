import ImpLang.Proofs.Token.Tiling

/-!
Lines do not run into each other. What is read from a text without a fault stays the same when a
new line follows the text, whatever stands on it, and behind it the lines that follow have the tokens
that they have alone.
-/

namespace ImpLang

variable {text : List Char}

theorem takeWhile_line {p : Char → Bool} (hp : p '\n' = false) (text behind : List Char) :
    (text ++ '\n' :: behind).takeWhile p = text.takeWhile p := by
  induction text with
  | nil => simp [hp]
  | cons c text ih => simp only [List.cons_append, List.takeWhile_cons, ih]

theorem length_takeWhile_le (p : Char → Bool) (text : List Char) :
    (text.takeWhile p).length ≤ text.length := (List.takeWhile_prefix p).length_le

theorem drop_line {n : Nat} (h : n ≤ text.length) (behind : List Char) :
    (text ++ '\n' :: behind).drop n = text.drop n ++ '\n' :: behind :=
  List.drop_append_of_le_length h

theorem head?_drop_line {n : Nat} {c : Char} (h : (text.drop n).head? = some c)
    (behind : List Char) : ((text ++ '\n' :: behind).drop n).head? = some c ∧ n < text.length := by
  have hlt : n < text.length := by
    have hne : text.drop n ≠ [] := by
      intro hnil
      rw [hnil] at h
      cases h
    rwa [Ne, List.drop_eq_nil_iff, Nat.not_le] at hne
  rw [drop_line (Nat.le_of_lt hlt), List.head?_append, h]
  exact ⟨rfl, hlt⟩

/-- A reader takes from a text no more than there is, and the same whatever stands on the next
line. -/
structure OnLine {α : Type} (read : List Char → α) (size : α → Nat) (text : List Char) : Prop where
  size : size (read text) ≤ text.length
  same : ∀ behind, read (text ++ '\n' :: behind) = read text

namespace Number

theorem onLine_suffix (text : List Char) : OnLine suffix List.length text where
  size := by
    rw [suffix.eq_def]
    split
    · split
      · exact length_takeWhile_le _ _
      · exact Nat.zero_le _
    · exact Nat.zero_le _
  same behind := by
    cases text with
    | nil => rfl
    | cons c rest =>
      have hrun := takeWhile_line (p := isIdentContinue) (by decide) (c :: rest) behind
      rw [List.cons_append] at hrun ⊢
      simp only [suffix, hrun]

theorem onLine_fraction (text : List Char) : OnLine fraction List.length text where
  size := by
    rw [fraction.eq_def]
    split
    · next d rest =>
      split
      · exact Nat.succ_le_succ (length_takeWhile_le _ _)
      · exact Nat.zero_le _
    · exact Nat.zero_le _
  same behind := by
    have hrun := fun text => takeWhile_line (p := isNumeral 10) (by decide) text behind
    match text with
    | [] => rfl
    | [c] =>
      by_cases hc : c = '.'
      · subst hc; rfl
      · simp [fraction, hc]
    | c :: d :: rest =>
      have hrest := hrun (d :: rest)
      rw [List.cons_append] at hrest
      by_cases hc : c = '.'
      · subst hc
        simp only [List.cons_append, fraction, hrest]
      · simp [fraction, hc]

theorem onLine_exponent (text : List Char) : OnLine exponent List.length text where
  size := by
    rw [exponent.eq_def]
    have hrun := length_takeWhile_le (isNumeral 10)
    split
    · next e d rest =>
      split
      · split
        · exact Nat.succ_le_succ (hrun _)
        · split
          · split
            · split
              · exact Nat.succ_le_succ (Nat.succ_le_succ (hrun _))
              · exact Nat.zero_le _
            · exact Nat.zero_le _
          · exact Nat.zero_le _
      · exact Nat.zero_le _
    · exact Nat.zero_le _
  same behind := by
    have hrun := fun text => takeWhile_line (p := isNumeral 10) (by decide) text behind
    match text with
    | [] =>
      cases behind <;> rfl
    | [e] =>
      simp [exponent, Char.isDigit]
    | [e, d] =>
      have hrest := hrun [d]
      have hline : ('\n').isDigit = false := rfl
      simp only [List.cons_append, List.nil_append] at hrest
      simp only [List.cons_append, List.nil_append, exponent, hrest, hline, Bool.false_eq_true,
        if_false]
    | e :: d :: x :: rest =>
      have hrest := hrun (d :: x :: rest)
      have hrest' := hrun (x :: rest)
      simp only [List.cons_append] at hrest hrest'
      simp only [List.cons_append, exponent, hrest, hrest']

theorem onLine_based {radix : Nat} (hradix : radix ≤ 36) (h : 2 ≤ text.length) :
    OnLine (basedLexeme radix) Lexeme.size text := by
  have hline : isNumeral radix '\n' = false := by
    have hvalue : digitValue '\n' = 36 := by decide
    simpa [isNumeral, isDigitOf, hvalue] using hradix
  have hrun := length_takeWhile_le (isNumeral radix) (text.drop 2)
  rw [List.length_drop] at hrun
  constructor
  · have hsuffix := (onLine_suffix
      (text.drop (((text.drop 2).takeWhile (isNumeral radix)).length + 2))).size
    rw [List.length_drop] at hsuffix
    show _ + (suffix _).length ≤ _
    omega
  · intro behind
    have hsuffix := (onLine_suffix
      (text.drop (((text.drop 2).takeWhile (isNumeral radix)).length + 2))).same behind
    simp only [basedLexeme, drop_line h, takeWhile_line hline]
    rw [drop_line (by omega)]
    simp only [hsuffix]

theorem onLine_decimal (text : List Char) : OnLine decimalLexeme Lexeme.size text := by
  have hline : isNumeral 10 '\n' = false := by decide
  have hwhole := length_takeWhile_le (isNumeral 10) text
  have hfraction := onLine_fraction (text.drop (text.takeWhile (isNumeral 10)).length)
  generalize hn : (text.takeWhile (isNumeral 10)).length = n at hwhole hfraction
  have hexponent := onLine_exponent (text.drop (n + (fraction (text.drop n)).length))
  generalize hm : (fraction (text.drop n)).length = m at hexponent
  have hsuffix := onLine_suffix (text.drop (n + m + (exponent (text.drop (n + m))).length))
  generalize hk : (exponent (text.drop (n + m))).length = k at hsuffix
  have hm' := hfraction.size
  have hk' := hexponent.size
  have hsuffix' := hsuffix.size
  rw [List.length_drop] at hm' hk' hsuffix'
  constructor
  · simp only [decimalLexeme, hn, hm, hk]
    split
    · show n + m + k + _ ≤ _
      omega
    · show n + m + k + _ ≤ _
      omega
  · intro behind
    have hlast : n + m + k ≤ text.length := by omega
    have hmiddle : n + m ≤ text.length := by omega
    simp only [decimalLexeme, takeWhile_line hline, hn, drop_line hwhole, hfraction.same, hm,
      drop_line hmiddle, hexponent.same, hk, drop_line hlast, hsuffix.same]

theorem lexeme_decimal (h : ∀ x rest, text = '0' :: x :: rest → radix? x = none) :
    lexeme text = decimalLexeme text := by
  rw [lexeme.eq_def]
  split
  · next x rest => simp only [h x rest rfl]
  · rfl

theorem radix?_le {x : Char} {radix : Nat} (h : radix? x = some radix) : radix ≤ 36 := by
  rw [radix?.eq_def] at h
  split at h <;> cases h <;> decide

theorem onLine_lexeme (text : List Char) : OnLine lexeme Lexeme.size text := by
  by_cases hbased : ∃ x rest radix, text = '0' :: x :: rest ∧ radix? x = some radix
  · obtain ⟨x, rest, radix, rfl, hradix⟩ := hbased
    have hread : ∀ behind, lexeme ('0' :: x :: behind) = basedLexeme radix ('0' :: x :: behind) :=
      fun behind => by simp only [lexeme, hradix]
    have honline : OnLine (basedLexeme radix) Lexeme.size ('0' :: x :: rest) :=
      onLine_based (radix?_le hradix) (by simp)
    refine ⟨?_, fun behind => ?_⟩
    · rw [hread]
      exact honline.size
    · rw [List.cons_append, List.cons_append, hread, hread]
      exact honline.same behind
  · have honline := onLine_decimal text
    have hnone : ∀ x rest, text = '0' :: x :: rest → radix? x = none := by
      intro x rest htext
      cases hx : radix? x with
      | none => rfl
      | some radix => exact absurd ⟨x, rest, radix, htext, hx⟩ hbased
    refine ⟨?_, fun behind => ?_⟩
    · rw [lexeme_decimal hnone]
      exact honline.size
    · rw [lexeme_decimal hnone, lexeme_decimal, honline.same]
      intro x rest htext
      rcases text with _ | ⟨c, _ | ⟨d, text⟩⟩
      · cases htext
      · cases htext
        rfl
      · cases htext
        exact hnone _ _ rfl

end Number

namespace Quote

/-- A valid escape ends in front of the end of its line. -/
theorem onLine_escape {value : Char} (h : (escape text).1 = some value) :
    OnLine escape Prod.snd text := by
  rw [escape.eq_def] at h
  split at h
  case h_1 => cases h
  case h_9 rest =>
    have hrun := takeWhile_line (p := Number.isDigitOf 16) (by decide) rest
    generalize hdigits : rest.takeWhile (Number.isDigitOf 16) = digits at h hrun
    by_cases hclosed : (rest.drop digits.length).head? = some '\x7d'
    · refine ⟨?_, fun behind => ?_⟩
      · have hlt := (head?_drop_line hclosed []).2
        simp only [escape, hdigits, if_pos hclosed, List.length_cons]
        omega
      · simp only [List.cons_append, escape, hrun, hdigits, if_pos hclosed,
          if_pos (head?_drop_line hclosed behind).1]
    · simp only [if_neg hclosed, reduceCtorEq] at h
  case h_10 => cases h
  all_goals exact ⟨Nat.succ_le_succ (Nat.zero_le _), fun _ => rfl⟩

theorem decoded_of_escapeFaults {n : Nat} {decoded : Option Char × Nat}
    (h : escapeFaults n decoded = []) : ∃ value, decoded.1 = some value := by
  rw [escapeFaults] at h
  split at h
  · cases h
  · next hne => exact Option.ne_none_iff_exists'.1 hne

theorem size_body_le (skip n : Nat) (text : List Char) :
    (body skip n text).size ≤ n + text.length := by
  induction text generalizing skip n with
  | nil => exact Nat.le_refl n
  | cons c rest ih =>
    have hrest : ∀ skip, (body skip (n + 1) rest).size ≤ n + (rest.length + 1) := fun skip =>
      (ih skip (n + 1)).trans_eq (by omega)
    cases skip with
    | succ skip => exact hrest skip
    | zero =>
      simp only [body, List.length_cons]
      split
      · show n + 1 ≤ _
        omega
      · split
        · show n ≤ _
          omega
        · split
          · exact hrest _
          · exact hrest 0

/-- The end of a string stands on its line. -/
theorem body_line {skip n : Nat} (h : (body skip n text).faults = []) (behind : List Char) :
    body skip n (text ++ '\n' :: behind) = body skip n text := by
  induction text generalizing skip n with
  | nil => simp [body] at h
  | cons c rest ih =>
    cases skip with
    | succ skip => exact ih h
    | zero =>
      simp only [body] at h
      simp only [List.cons_append, body]
      by_cases hquote : c = '"'
      · simp only [if_pos hquote]
      · by_cases hend : c = '\n'
        · simp [hend] at h
        · simp only [if_neg hquote, if_neg hend] at h ⊢
          by_cases hescape : c = '\\'
          · simp only [if_pos hescape, List.append_eq_nil_iff] at h ⊢
            obtain ⟨value, hvalue⟩ := decoded_of_escapeFaults h.1
            simp only [(onLine_escape hvalue).same behind, ih h.2]
          · simp only [if_neg hescape] at h ⊢
            simp only [ih h]

theorem onLine_string {c : Char} {rest : List Char} (h : (stringLexeme (c :: rest)).faults = []) :
    OnLine stringLexeme Lexeme.size (c :: rest) where
  size := (size_body_le 0 1 rest).trans_eq (Nat.add_comm ..)
  same behind := by
    have hbody : body 0 1 (rest ++ '\n' :: behind) = body 0 1 rest := body_line h behind
    simp only [stringLexeme, List.cons_append, List.tail_cons, hbody]

theorem onLine_content (hne : text ≠ []) (h : (content text).2.2 = []) :
    OnLine content (fun content => content.2.1) text := by
  cases text with
  | nil => exact absurd rfl hne
  | cons c rest =>
    by_cases hescape : c = '\\'
    · subst hescape
      obtain ⟨value, hvalue⟩ := decoded_of_escapeFaults h
      have honline := onLine_escape hvalue
      refine ⟨Nat.succ_le_succ honline.size, fun behind => ?_⟩
      simp only [List.cons_append, content, honline.same behind]
    · have hread : ∀ behind, content (c :: behind) =
          if c = '\n' then (none, 0, []) else (some c, 1, []) := fun behind => by
        simp [content]
      refine ⟨?_, fun behind => by rw [List.cons_append, hread, hread]⟩
      rw [hread]
      split
      · exact Nat.zero_le _
      · exact Nat.succ_le_succ (Nat.zero_le _)

/-- Both quotes of a character stand on one line. -/
theorem onLine_char (c : Char) {rest : List Char} (h : (charLexeme (c :: rest)).faults = []) :
    OnLine charLexeme Lexeme.size (c :: rest) := by
  simp only [charLexeme] at h
  rw [List.tail_cons] at h
  by_cases hempty : rest.head? = some '\''
  · simp [hempty] at h
  · rw [if_neg hempty] at h
    by_cases hclosed : (rest.drop (content rest).2.1).head? = some '\''
    · rw [if_pos hclosed] at h
      have hne : rest ≠ [] := by
        rintro rfl
        rw [List.drop_nil] at hclosed
        cases hclosed
      have hcontent := onLine_content hne h
      have hlt := (head?_drop_line hclosed []).2
      refine ⟨?_, fun behind => ?_⟩
      · simp only [charLexeme, List.length_cons]
        rw [List.tail_cons, if_neg hempty, if_pos hclosed]
        exact Nat.succ_le_succ hlt
      · have hempty' : (rest ++ '\n' :: behind).head? ≠ some '\'' := by
          rwa [List.head?_append_of_ne_nil _ hne]
        have hclosed' := (head?_drop_line hclosed behind).1
        simp only [charLexeme, List.cons_append]
        rw [List.tail_cons, List.tail_cons, if_neg hempty, if_neg hempty', hcontent.same behind,
          if_pos hclosed, if_pos hclosed']
    · rw [if_neg hclosed] at h
      split at h <;> simp at h

end Quote

namespace Lexeme

theorem isPrefixOf_apart {spelling : List Char} {sep : Char} (h : sep ∉ spelling)
    (text behind : List Char) :
    spelling.isPrefixOf (text ++ sep :: behind) = spelling.isPrefixOf text := by
  induction spelling generalizing text with
  | nil => rfl
  | cons c spelling ih =>
    rw [List.mem_cons, not_or] at h
    cases text with
    | nil => simp [List.isPrefixOf, Ne.symm h.1]
    | cons d text => simp only [List.cons_append, List.isPrefixOf, ih h.2]

/-- A character that no fixed lexeme holds ends one. -/
theorem fixedLexeme?_apart {sep : Char} (h : ∀ entry ∈ fixedLexemes, sep ∉ entry.1)
    (text behind : List Char) : fixedLexeme? (text ++ sep :: behind) = fixedLexeme? text := by
  have hfind : ∀ entries : List (List Char × TokenKind), (∀ entry ∈ entries, sep ∉ entry.1) →
      entries.find? (fun entry => entry.1.isPrefixOf (text ++ sep :: behind)) =
        entries.find? fun entry => entry.1.isPrefixOf text := by
    intro entries hentries
    induction entries with
    | nil => rfl
    | cons entry entries ih =>
      obtain ⟨hentry, hentries⟩ := List.forall_mem_cons.1 hentries
      rw [List.find?_cons, List.find?_cons, isPrefixOf_apart hentry, ih hentries]
  rw [fixedLexeme?, fixedLexeme?, hfind _ h]

theorem size_fixed_le {lexeme : Lexeme} (h : fixedLexeme? text = some lexeme) :
    lexeme.size ≤ text.length := by
  obtain ⟨entry, hfind, rfl⟩ := Option.map_eq_some_iff.1 h
  have hprefix := List.find?_some hfind
  exact (List.isPrefixOf_iff_prefix.1 hprefix).length_le

theorem onLine_command (c : Char) (rest : List Char) : OnLine command size (c :: rest) := by
  have hword := takeWhile_line (p := Char.isAlphanum) (by decide) rest
  have hhead : ∀ behind, ((rest ++ '\n' :: behind).head?.map Char.isAlpha).getD false =
      (rest.head?.map Char.isAlpha).getD false := by
    intro behind
    cases rest <;> rfl
  have hlength := length_takeWhile_le Char.isAlphanum rest
  constructor
  · simp only [command]
    split
    · split <;> exact Nat.succ_le_succ hlength
    · exact Nat.succ_le_succ (Nat.zero_le _)
  · intro behind
    simp only [command, List.cons_append]
    rw [List.tail_cons, List.tail_cons, hword, hhead]

theorem onLine_identifier (text : List Char) : OnLine identifier size text := by
  have hrun := takeWhile_line (p := isIdentContinue) (by decide) text
  have hlength := length_takeWhile_le isIdentContinue text
  constructor
  · simp only [identifier]
    split
    · exact hlength
    · split
      · exact hlength
      · split <;> exact hlength
  · intro behind
    simp only [identifier, hrun]

/-- Whatever stands on the next line, a lexeme without a fault is the same. -/
theorem onLine_scan (c : Char) (rest : List Char) (h : (scan c (c :: rest)).faults = []) :
    OnLine (scan c) size (c :: rest) := by
  have hfixed := fixedLexeme?_apart (by decide : ∀ entry ∈ fixedLexemes, '\n' ∉ entry.1) (c :: rest)
  cases hlexeme : fixedLexeme? (c :: rest) with
  | some lexeme =>
    rw [hlexeme] at hfixed
    refine ⟨?_, fun behind => ?_⟩
    · simp only [scan, hlexeme]
      exact size_fixed_le hlexeme
    · simp only [scan, hlexeme, hfixed behind]
  | none =>
    rw [hlexeme] at hfixed
    have hread : ∀ {read : List Char → Lexeme}, OnLine read size (c :: rest) →
        (∀ text, fixedLexeme? text = none → scan c text = read text) →
        OnLine (scan c) size (c :: rest) := by
      intro read honline hscan
      refine ⟨?_, fun behind => ?_⟩
      · rw [hscan _ hlexeme]
        exact honline.size
      · rw [hscan _ hlexeme, hscan _ (hfixed behind), honline.same behind]
    by_cases hcommand : c = '\\'
    · exact hread (onLine_command c rest) fun text hnone => by
        simp only [scan, hnone, if_pos hcommand]
    · by_cases hstring : c = '"'
      · have hscan : ∀ text, fixedLexeme? text = none → scan c text = Quote.stringLexeme text :=
          fun text hnone => by simp only [scan, hnone, if_neg hcommand, if_pos hstring]
        rw [hscan _ hlexeme] at h
        exact hread (Quote.onLine_string h) hscan
      · by_cases hchar : c = '\''
        · have hscan : ∀ text, fixedLexeme? text = none → scan c text = Quote.charLexeme text :=
            fun text hnone => by
              simp only [scan, hnone, if_neg hcommand, if_neg hstring, if_pos hchar]
          rw [hscan _ hlexeme] at h
          exact hread (Quote.onLine_char c h) hscan
        · by_cases hdigit : c.isDigit = true
          · exact hread (Number.onLine_lexeme _) fun text hnone => by
              simp only [scan, hnone, if_neg hcommand, if_neg hstring, if_neg hchar, if_pos hdigit]
          · by_cases hident : isIdentStart c = true
            · exact hread (onLine_identifier _) fun text hnone => by
                simp only [scan, hnone, if_neg hcommand, if_neg hstring, if_neg hchar,
                  if_neg hdigit, if_pos hident]
            · simp only [scan, hlexeme, if_neg hcommand, if_neg hstring, if_neg hchar,
                if_neg hdigit, if_neg hident, List.cons_ne_nil] at h

end Lexeme

namespace Gap

variable {between behind : List Char}

/-- No gap begins in front of a text. -/
def Stops (text : List Char) : Prop := ∀ n, scanFrom .blank n text = ⟨n, none⟩

theorem stops_of_scan (h : Spacing behind between)
    (hscan : scan (between ++ behind) = ⟨between.length, none⟩) : Stops behind := by
  rw [scan, scanFrom_spacing h, Nat.zero_add] at hscan
  cases behind with
  | nil => exact fun _ => rfl
  | cons c rest => exact fun _ => scanFrom_stops_iff.2 (scanFrom_stops_iff.1 hscan)

theorem scan_of_stops (h : Spacing behind between) (hstops : Stops behind) :
    scan (between ++ behind) = ⟨between.length, none⟩ := by
  rw [scan, scanFrom_spacing h, Nat.zero_add, hstops]

theorem scan_of_open (h : Spacing behind between) (hopen : OpenComment behind) :
    scan (between ++ behind) = ⟨(between ++ behind).length, some between.length⟩ := by
  rw [scan, scanFrom_spacing h, Nat.zero_add, scanFrom_open hopen, List.length_append]

/-- What comes behind a text in front of which no gap begins makes no mark of a comment with it. -/
theorem Stops.append {c : Char} {rest more : List Char} (h : Stops (c :: rest))
    (hmore : ∀ d ∈ more.head?, d ≠ '/' ∧ d ≠ '*') : Stops (c :: rest ++ more) := by
  obtain ⟨hwhite, hline, hblock⟩ := scanFrom_stops_iff.1 (h 0)
  have hmark : ∀ b, (∀ d ∈ more.head?, d ≠ b) → ¬['/', b] <+: c :: rest →
      ¬['/', b] <+: c :: (rest ++ more) := by
    intro b hb hrest
    cases rest with
    | nil =>
      cases more with
      | nil => simp [List.cons_prefix_cons]
      | cons d more => simp [List.cons_prefix_cons, (hb d rfl).symm]
    | cons d rest => rwa [mark_append (List.cons_ne_nil d rest)]
  exact fun _ => scanFrom_stops_iff.2
    ⟨hwhite, hmark '/' (fun d hd => (hmore d hd).1) hline,
      hmark '*' (fun d hd => (hmore d hd).2) hblock⟩

theorem Stops.newline {c : Char} {rest : List Char} (h : Stops (c :: rest)) (more : List Char) :
    Stops (c :: rest ++ '\n' :: more) :=
  h.append fun _ hd => Option.some.inj hd ▸ (by decide : '\n' ≠ '/' ∧ '\n' ≠ '*')

end Gap

namespace Token

variable {file : FileId} {between behind : List Char}

/-- With enough rounds their number does not matter. -/
theorem lexFrom_rounds {rounds rounds' : Nat} (place : Place) (h : text.length < rounds)
    (h' : text.length < rounds') :
    lexFrom file rounds place text = lexFrom file rounds' place text := by
  induction rounds generalizing rounds' place text with
  | zero => omega
  | succ rounds ih =>
    obtain ⟨rounds', rfl⟩ := Nat.exists_eq_succ_of_ne_zero (Nat.ne_zero_of_lt h')
    simp only [lexFrom]
    split
    · rfl
    · next c rest hrest =>
      have hdrop := congrArg List.length hrest
      have hsize := (Lexeme.sound_scan c rest).size
      rw [List.length_drop, List.length_cons] at hdrop
      rw [ih]
      · rw [List.length_drop, List.length_cons]
        omega
      · rw [List.length_drop, List.length_cons]
        omega

/-- A gap in front of a text moves its tokens. -/
theorem lexFrom_spacing (h : Spacing text between) (rounds : Nat) (place : Place) :
    lexFrom file rounds place (between ++ text) =
      lexFrom file rounds (place.past between) text := by
  cases rounds with
  | zero => rfl
  | succ rounds =>
    obtain ⟨gap, rest, rfl, hspacing, hscan | ⟨hscan, hopen⟩⟩ := Gap.scan_eq text
    · have hall := h.append hspacing
      have hwhole := Gap.scan_of_stops hall (Gap.stops_of_scan hspacing hscan)
      rw [← List.append_assoc]
      cases rest with
      | nil =>
        rw [List.append_nil] at hscan hwhole ⊢
        rw [List.append_nil, lexFrom_end hscan, lexFrom_end hwhole, Place.past_append]
      | cons c rest => rw [lexFrom_lexeme hscan, lexFrom_lexeme hwhole, Place.past_append]
    · have hwhole := Gap.scan_of_open (h.append hspacing) hopen
      rw [← List.append_assoc, lexFrom_open hopen hscan, lexFrom_open hopen hwhole]
      simp only [Place.past_append]

/-- A lexeme without a fault is the first of a text, with or without a line behind it. -/
theorem lexFrom_lexeme_line {gap rest : List Char} {c : Char} (hspacing : Spacing (c :: rest) gap)
    (hscan : Gap.scan (gap ++ c :: rest) = ⟨gap.length, none⟩)
    (hfaults : (Lexeme.scan c (c :: rest)).faults = []) (file : FileId) (behind : List Char)
    (rounds : Nat) (place : Place) :
    let lexeme := Lexeme.scan c (c :: rest)
    let lexed := ofLexeme file (place.past gap) (c :: rest) lexeme
    lexFrom file (rounds + 1) place (gap ++ c :: rest ++ '\n' :: behind) =
      lexed :: lexFrom file rounds lexed.token.span.stop
        ((c :: rest).drop lexeme.size ++ '\n' :: behind) := by
  have hwhole : Gap.scan (gap ++ c :: (rest ++ '\n' :: behind)) = ⟨gap.length, none⟩ :=
    Gap.scan_of_stops (hspacing.newline behind)
      ((Gap.stops_of_scan hspacing hscan).newline behind)
  obtain ⟨hsize, hsame⟩ := Lexeme.onLine_scan c rest hfaults
  have hsame := hsame behind
  have hdrop := drop_line hsize behind
  have htake : (c :: rest ++ '\n' :: behind).take (Lexeme.scan c (c :: rest)).size =
      (c :: rest).take (Lexeme.scan c (c :: rest)).size := List.take_append_of_le_length hsize
  rw [List.cons_append] at hsame hdrop htake
  rw [List.append_assoc, List.cons_append, lexFrom_lexeme hwhole]
  simp only [hsame, hdrop, ofLexeme, htake, hfaults, List.map_nil]

/-- The tokens of a text without a fault stand in front of those on the lines behind it. -/
theorem lexFrom_line {rounds : Nat} (place : Place)
    (h : ∀ lexed ∈ lexFrom file rounds place text, lexed.reports = [])
    (hrounds : text.length < rounds) (behind : List Char) :
    ∃ front span, lexFrom file rounds place text = front ++ [⟨⟨.eof, span, "", .none⟩, []⟩] ∧
      ∀ more, (text ++ '\n' :: behind).length < more →
        lexFrom file more place (text ++ '\n' :: behind) =
          front ++ lexFrom file (behind.length + 1) (place.past (text ++ ['\n'])) behind := by
  -- Every round takes a gap and a lexeme, neither of which reaches over the end of the text.
  induction rounds generalizing place text with
  | zero => omega
  | succ rounds ih =>
    obtain ⟨gap, rest, rfl, hspacing, hscan | ⟨hscan, hopen⟩⟩ := Gap.scan_eq text
    · cases rest with
      | nil =>
        -- The last gap goes on over the new line into the first one of the lines behind.
        rw [List.append_nil] at hscan hrounds h ⊢
        refine ⟨[], _, lexFrom_end hscan, fun more hmore => ?_⟩
        have hgap : Spacing (['\n'] ++ behind) gap := hspacing.newline behind
        have hnewline : Spacing behind (gap ++ ['\n']) := hgap.append (.white rfl .nil)
        rw [List.length_append, List.length_cons] at hmore
        rw [List.nil_append, ← List.singleton_append, ← List.append_assoc,
          lexFrom_spacing hnewline]
        exact lexFrom_rounds _ (by omega) (Nat.lt_succ_self _)
      | cons c rest =>
        rw [lexFrom_lexeme hscan] at h ⊢
        obtain ⟨hfirst, hrest⟩ := List.forall_mem_cons.1 h
        have hread := lexFrom_lexeme_line hspacing hscan (List.map_eq_nil_iff.1 hfirst) file behind
        have hpos := (Lexeme.sound_scan c rest).size
        generalize Lexeme.scan c (c :: rest) = lexeme at h hfirst hrest hpos hread ⊢
        have hlength : ((c :: rest).drop lexeme.size).length < rounds := by
          simp only [List.length_append, List.length_cons, List.length_drop] at hrounds ⊢
          omega
        obtain ⟨front, span, heq, hmore⟩ := ih _ hrest hlength
        refine ⟨_ :: front, span, congrArg _ heq, fun more hlt => ?_⟩
        obtain ⟨more, rfl⟩ := Nat.exists_eq_succ_of_ne_zero (Nat.ne_zero_of_lt hlt)
        have hplace : (((place.past gap).past ((c :: rest).take lexeme.size)).past
            ((c :: rest).drop lexeme.size ++ ['\n'])) = place.past (gap ++ c :: rest ++ ['\n']) := by
          rw [← Place.past_append, ← Place.past_append, ← List.append_assoc (List.take _ _),
            List.take_append_drop, List.append_assoc gap]
        rw [← hplace, hread more place, hmore more ?_]
        · rfl
        · simp only [List.length_append, List.length_cons, List.length_drop] at hlt ⊢
          omega
    · rw [lexFrom_open hopen hscan] at h
      exact absurd (h _ (List.mem_singleton_self _)) (List.cons_ne_nil _ _)

end Token

/-! ## Below other lines -/

/-- A place in a text that other lines come to stand in front of. -/
def Place.below (lines : List Char) (p : Place) : Place :=
  ⟨byteSize lines + p.offset, lines.count '\n' + p.pos.line, p.pos.col⟩

def Span.below (lines : List Char) (s : Span) : Span :=
  ⟨s.file, s.start.below lines, s.stop.below lines⟩

theorem Place.advance_below (lines : List Char) (p : Place) (c : Char) :
    (p.below lines).advance c = (p.advance c).below lines := by
  rw [below, below, advance, advance, Pos.advance, Pos.advance]
  split
  · simp only [Nat.add_assoc, UInt32.add_assoc]
  · simp only [Nat.add_assoc]

theorem Place.past_below (lines : List Char) (p : Place) (text : List Char) :
    (p.below lines).past text = (p.past text).below lines := by
  induction text generalizing p with
  | nil => rfl
  | cons c text ih => rw [past_cons, past_cons, advance_below, ih]

/-- Behind a new line the columns begin anew. -/
theorem Place.past_newline (text : List Char) :
    Place.first.past (text ++ ['\n']) = Place.first.below (text ++ ['\n']) := by
  rw [past_first, counted, Pos.counted]
  simp [below, first, Pos.first, UInt32.add_comm]

def Token.below (lines : List Char) (t : Token) : Token := { t with span := t.span.below lines }

def Lexed.below (lines : List Char) (l : Lexed) : Lexed :=
  ⟨l.token.below lines, l.reports.map fun d => { d with span := d.span.below lines }⟩

theorem Fault.report_below (fault : Fault) (file : FileId) (lines : List Char) (p : Place)
    (text : List Char) :
    fault.report file (p.below lines) text =
      { fault.report file p text with span := (fault.report file p text).span.below lines } := by
  simp only [report, LexError.report, Span.below, Place.past_below]

theorem Lexed.eq_of_silent {as bs : List Lexed} (htokens : as.map Lexed.token = bs.map Lexed.token)
    (has : ∀ lexed ∈ as, lexed.reports = []) (hbs : ∀ lexed ∈ bs, lexed.reports = []) : as = bs := by
  have hself : ∀ {all : List Lexed}, (∀ lexed ∈ all, lexed.reports = []) →
      all = (all.map Lexed.token).map (⟨·, []⟩) := by
    intro all hall
    rw [List.map_map]
    refine (List.map_id all).symm.trans (List.map_congr_left fun lexed hlexed => ?_)
    obtain ⟨token, reports⟩ := lexed
    obtain rfl : reports = [] := hall _ hlexed
    rfl
  rw [hself has, hself hbs, htokens]

/-- Tokens move with the place where their text begins. -/
theorem Token.lexFrom_below (file : FileId) (lines : List Char) (rounds : Nat) (p : Place)
    (text : List Char) :
    lexFrom file rounds (p.below lines) text =
      (lexFrom file rounds p text).map (Lexed.below lines) := by
  induction rounds generalizing p text with
  | zero => rfl
  | succ rounds ih =>
    have hreports : ∀ (faults : List Fault) (p : Place) (text : List Char),
        faults.map (·.report file (p.below lines) text) =
          (faults.map (·.report file p text)).map fun d => { d with span := d.span.below lines } := by
      intro faults p text
      rw [List.map_map]
      exact List.map_congr_left fun fault _ => fault.report_below file lines p text
    simp only [lexFrom, Place.past_below]
    split
    · simp only [hreports, List.map_cons, List.map_nil, Lexed.below, Token.below, Span.below]
    · simp only [hreports, List.map_cons, Lexed.below, Token.below, Span.below, ih,
        List.map_append]

/-- A text on which nothing is reported, and any lines behind it: the tokens of the lines stand behind
those of the text. -/
theorem Token.lex_lines {file : FileId} {text : String}
    (htext : ∀ lexed ∈ lex file text, lexed.reports = []) (behind : String) :
    ∃ front span, lex file text = front ++ [⟨⟨.eof, span, "", .none⟩, []⟩] ∧
      lex file (text ++ "\n" ++ behind) =
        front ++ (lex file behind).map (Lexed.below (text.toList ++ ['\n'])) := by
  obtain ⟨front, span, heq, hmore⟩ :=
    lexFrom_line Place.first htext (Nat.lt_succ_self _) behind.toList
  refine ⟨front, span, heq, ?_⟩
  have hall : (text ++ "\n" ++ behind).toList = text.toList ++ '\n' :: behind.toList := by simp
  rw [lex, hall, hmore _ (Nat.lt_succ_self _), Place.past_newline, lexFrom_below]
  rfl

def Diagnostic.below (lines : List Char) (d : Diagnostic) : Diagnostic :=
  { d with span := d.span.below lines }

/-- Below a text and the end of its line. -/
theorem Place.below_line (text : List Char) (p : Place) :
    p.below (text ++ ['\n']) =
      ⟨byteSize text + 1 + p.offset, text.count '\n' + 1 + p.pos.line, p.pos.col⟩ := by
  rw [below, byteSize_append, List.count_append, UInt32.ofNat_add]
  rfl

theorem Token.internedTexts_below (lines : List Char) (lexed : List Lexed) :
    (lexed.map (Lexed.below lines)).filterMap (·.token.internedText?) =
      lexed.filterMap (·.token.internedText?) := by
  rw [List.filterMap_map]
  rfl

theorem Token.reports_below (lines : List Char) (lexed : List Lexed) :
    (lexed.map (Lexed.below lines)).flatMap Lexed.reports =
      (lexed.flatMap Lexed.reports).map (Diagnostic.below lines) := by
  rw [List.flatMap_map, List.map_flatMap]
  rfl

namespace Compiler

variable {c : Compiler} {file : FileId} {text : String}

theorem silent_of_lex (h : (c.lex file text).2.diagnostics = c.diagnostics) :
    ∀ lexed ∈ Token.lex file text, lexed.reports = [] := by
  rw [diagnostics_lex, Array.append_right_eq_self, List.toArray_eq_iff] at h
  exact List.flatMap_eq_nil_iff.1 h

/-- Lexing goes line by line. Behind a text on which nothing is reported and a new line, whatever
follows has the tokens and the reports that it has alone in any compiler, moved below the lines in
front of it, and the name table is left as by the two texts one behind the other. -/
theorem lex_line_by_line (c c' : Compiler) (file : FileId) (text behind : String)
    (h : (c.lex file text).2.diagnostics = c.diagnostics) :
    let first := c.lex file text
    let second := c'.lex file behind
    let whole := c.lex file (text ++ "\n" ++ behind)
    let lines := text.toList ++ ['\n']
    whole.1 = first.1.dropLast ++ second.1.map (Token.below lines) ∧
      (∃ eof, first.1.getLast? = some eof ∧ eof.kind = .eof) ∧
      (∃ reports, second.2.diagnostics = c'.diagnostics ++ reports ∧
        whole.2.diagnostics = c.diagnostics ++ reports.map (Diagnostic.below lines)) ∧
      whole.2.names = (first.2.lex file behind).2.names ∧
      ∀ p : Place, p.below lines =
        ⟨byteSize text.toList + 1 + p.offset, text.toList.count '\n' + 1 + p.pos.line, p.pos.col⟩ := by
  intro first second whole lines
  have hsilent := silent_of_lex h
  obtain ⟨front, span, hfirst, hwhole⟩ := Token.lex_lines hsilent behind
  have hfront : ∀ lexed ∈ front, lexed.reports = [] := fun lexed hlexed =>
    hsilent lexed (hfirst ▸ List.mem_append_left _ hlexed)
  let reports := ((Token.lex file behind).flatMap Lexed.reports).toArray
  refine ⟨?tokens, ?last, ⟨reports, diagnostics_lex c' behind file, ?below⟩, ?names,
    Place.below_line text.toList⟩
  case tokens =>
    simp only [whole, first, second, tokens_lex, hwhole, hfirst, List.map_append, List.map_cons,
      List.map_nil, List.dropLast_concat, List.map_map]
    rfl
  case last =>
    refine ⟨⟨.eof, span, "", .none⟩, ?_, rfl⟩
    simp only [first, tokens_lex, hfirst, List.map_append, List.map_cons, List.map_nil,
      List.getLast?_concat]
  case below =>
    simp only [whole, diagnostics_lex, hwhole, List.flatMap_append,
      List.flatMap_eq_nil_iff.2 hfront, List.nil_append, Token.reports_below, reports,
      List.map_toArray, lines]
  case names =>
    simp only [whole, first, names_lex, hwhole, hfirst, List.filterMap_append,
      Interner.internAll_append, Token.internedTexts_below]
    rfl

/-- A comment up to the end of a line, and below it one that stays open. -/
theorem lex_line_by_line_comments :
    let first := new.lex ⟨0⟩ "x // a"
    let second := new.lex ⟨0⟩ "y /* b"
    let whole := new.lex ⟨0⟩ ("x // a" ++ "\n" ++ "y /* b")
    let lines := "x // a".toList ++ ['\n']
    first.2.diagnostics = new.diagnostics ∧
      whole.1 = first.1.dropLast ++ second.1.map (Token.below lines) ∧
      ∃ reports, second.2.diagnostics = new.diagnostics ++ reports ∧
        whole.2.diagnostics = new.diagnostics ++ reports.map (Diagnostic.below lines) :=
  have h : (new.lex ⟨0⟩ "x // a").2.diagnostics = new.diagnostics := by decide +kernel
  have hlines := lex_line_by_line new new ⟨0⟩ "x // a" "y /* b" h
  ⟨h, hlines.1, hlines.2.2.1⟩

end Compiler

end ImpLang
