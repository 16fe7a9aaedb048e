import ImpLang.Proofs.Token.Lexing
import Mathlib.Data.List.Chain

/-!
How far string and character literals go. They end at a closing quote or at the end of a line, but
the character behind a backslash belongs to them whatever it is. So a literal goes on behind a
newline if that stands directly behind a backslash, and only then.
-/

namespace ImpLang

/-- Whether a lexeme carries the value of a string or character literal. -/
def Payload.isQuoted : Payload → Bool
  | literal (.char _) | literal (.str _) => true
  | literal _ | name _ | none => false

namespace Quote

variable {text : List Char}

/-- Of two characters in a row the second is a newline only behind a backslash. -/
def Escapes (c d : Char) : Prop := d = '\n' → c = '\\'

theorem escapes_of_ne {c d : Char} (h : d ≠ '\n') : Escapes c d := fun hline => absurd hline h

theorem chain_of_not_mem {chars : List Char} (h : '\n' ∉ chars) : chars.IsChain Escapes :=
  List.Pairwise.isChain <| List.pairwise_of_forall_mem_list fun _ _ _ hd hline =>
    absurd (hline ▸ hd) h

theorem chain_append {c : Char} {chars more : List Char} (h : (c :: chars).IsChain Escapes)
    (hmore : '\n' ∉ more) : (c :: (chars ++ more)).IsChain Escapes := by
  rw [← List.cons_append, List.isChain_append]
  exact ⟨h, chain_of_not_mem hmore, fun _ _ d hd hline =>
    absurd (hline ▸ List.mem_of_mem_head? hd) hmore⟩

theorem drop_length_takeWhile (p : Char → Bool) (text : List Char) :
    text.drop (text.takeWhile p).length = text.dropWhile p :=
  List.append_cancel_left <| (List.prefix_iff_eq_append.1 (List.takeWhile_prefix p)).trans
    List.takeWhile_append_dropWhile.symm

/-- One more character is taken, which is no newline. -/
theorem chain_next {c d : Char} (size : Nat) (h : (c :: text.take size).IsChain Escapes)
    (hnext : (text.drop size).head? = some d) (hd : d ≠ '\n') :
    (c :: text.take (size + 1)).IsChain Escapes := by
  rw [List.head?_drop] at hnext
  rw [List.take_add_one, hnext]
  exact chain_append h (by simpa using hd.symm)

/-- A run of characters is taken, none of which is a newline. -/
theorem chain_run {c : Char} (size : Nat) {p : Char → Bool} (hp : p '\n' = false)
    (h : (c :: text.take size).IsChain Escapes) :
    (c :: text.take (size + ((text.drop size).takeWhile p).length)).IsChain Escapes := by
  have hrun := (List.prefix_iff_eq_take.1 (List.takeWhile_prefix p (l := text.drop size))).symm
  rw [List.take_add, hrun]
  refine chain_append h fun hmem => ?_
  have hline := List.all_eq_true.1 List.all_takeWhile _ hmem
  rw [hp] at hline
  cases hline

/-- An escape holds no newline but the character behind its backslash. -/
theorem chain_escape (text : List Char) : ('\\' :: text.take (escape text).2).IsChain Escapes := by
  have hone : ∀ text : List Char, ('\\' :: text.take 1).IsChain Escapes := by
    intro text
    cases text with
    | nil => exact .singleton _
    | cons c text => exact .cons_cons (fun _ => rfl : Escapes _ _) (.singleton _)
  rw [escape.eq_def]
  split
  case h_1 => exact .singleton _
  case h_9 rest =>
    have hopening : ∀ {behind : List Char}, ('\x7b' :: behind).IsChain Escapes →
        ('\\' :: 'u' :: '\x7b' :: behind).IsChain Escapes := fun h =>
      .cons_cons (escapes_of_ne (by decide)) (.cons_cons (escapes_of_ne (by decide)) h)
    have hdigits : ('\x7b' :: rest.take (rest.takeWhile (Number.isDigitOf 16)).length).IsChain
        Escapes := by
      simpa only [List.drop_zero, Nat.zero_add] using
        chain_run 0 (p := Number.isDigitOf 16) (by decide) (.singleton _)
    dsimp only
    split
    · next hclosed =>
      exact hopening (chain_next _ hdigits hclosed (by decide))
    · exact hopening hdigits
  all_goals exact hone _

/-- A character that is read is the first of those that are left to read. -/
theorem left_eq_succ {n size : Nat} (h : n + 1 ≤ size) : size - n = size - (n + 1) + 1 := by
  omega

/-- The characters of a string that are read next, behind one that has been read. -/
theorem chain_body {c : Char} {skip : Nat} (n : Nat) (h : (c :: text.take skip).IsChain Escapes) :
    (c :: text.take ((body skip n text).size - n)).IsChain Escapes := by
  induction text generalizing c skip n with
  | nil =>
    rw [List.take_nil]
    exact .singleton c
  | cons d rest ih =>
    cases skip with
    | succ skip =>
      rw [List.take_succ_cons, List.isChain_cons_cons] at h
      rw [body, left_eq_succ (le_size_body ..), List.take_succ_cons]
      exact .cons_cons h.1 (ih _ h.2)
    | zero =>
      simp only [body]
      split
      · next hquote =>
        rw [left_eq_succ (Nat.le_refl _), List.take_succ_cons, Nat.sub_self, List.take_zero]
        exact .cons_cons (escapes_of_ne (hquote ▸ by decide)) (.singleton d)
      · split
        · rw [Nat.sub_self, List.take_zero]
          exact .singleton c
        · next hline =>
          split
          · next hback =>
            rw [left_eq_succ (le_size_body ..), List.take_succ_cons, hback]
            exact .cons_cons (escapes_of_ne (by decide)) (ih _ (chain_escape rest))
          · rw [left_eq_succ (le_size_body ..), List.take_succ_cons]
            exact .cons_cons (escapes_of_ne hline) (ih _ (.singleton d))

theorem code_escapeFaults {n : Nat} {decoded : Option Char × Nat} :
    ∀ fault ∈ escapeFaults n decoded, fault.error.code ≠ "E0007" := by
  intro fault hfault
  rw [escapeFaults] at hfault
  split at hfault
  · obtain rfl := List.mem_singleton.1 hfault
    exact (by decide : LexError.invalidEscape.code ≠ "E0007")
  · cases hfault

/-- A string that is not closed goes on to the end of a line. -/
theorem end_body {skip n : Nat} {fault : Fault} (h : fault ∈ (body skip n text).faults)
    (hcode : fault.error.code = "E0007") :
    ∀ c ∈ (text.drop ((body skip n text).size - n)).head?, c = '\n' := by
  induction text generalizing skip n with
  | nil => simp
  | cons d rest ih =>
    cases skip with
    | succ skip =>
      rw [body] at h ⊢
      rw [left_eq_succ (le_size_body ..), List.drop_succ_cons]
      exact ih h
    | zero =>
      simp only [body] at h ⊢
      split at h
      · cases h
      · next hquote =>
        rw [if_neg hquote]
        split at h
        · next hline =>
          rw [if_pos hline, Nat.sub_self, List.drop_zero]
          rintro c ⟨⟩
          exact hline
        · next hline =>
          rw [if_neg hline]
          split at h
          · next hback =>
            rw [if_pos hback, left_eq_succ (le_size_body ..), List.drop_succ_cons]
            exact ih ((List.mem_append.1 h).resolve_left fun h => code_escapeFaults _ h hcode)
          · next hback =>
            rw [if_neg hback, left_eq_succ (le_size_body ..), List.drop_succ_cons]
            exact ih h

/-- How far a literal goes: a newline in it stands behind a backslash, and if it is not closed a
line ends where it ends. -/
structure Confined (text : List Char) (lexeme : Lexeme) : Prop where
  newlines : (text.take lexeme.size).IsChain Escapes
  unclosed : ∀ fault ∈ lexeme.faults, fault.error.code = "E0007" →
    ∀ c ∈ (text.drop lexeme.size).head?, c = '\n'

theorem confined_string (rest : List Char) : Confined ('"' :: rest) (stringLexeme ('"' :: rest)) := by
  have hsize : (stringLexeme ('"' :: rest)).size = (body 0 1 rest).size - 1 + 1 :=
    (Nat.sub_add_cancel (le_size_body 0 1 rest)).symm
  refine ⟨?_, fun fault hfault hcode => ?_⟩
  · rw [hsize, List.take_succ_cons]
    exact chain_body 1 (.singleton _)
  · rw [hsize, List.drop_succ_cons]
    exact end_body hfault hcode

theorem chain_content (text : List Char) :
    ('\'' :: text.take (content text).2.1).IsChain Escapes := by
  rw [content.eq_def]
  split
  · exact .cons_cons (escapes_of_ne (by decide)) (chain_escape _)
  · split
    · exact .singleton _
    · next hline => exact .cons_cons (escapes_of_ne hline) (.singleton _)
  · exact .singleton _

theorem code_content (text : List Char) :
    ∀ fault ∈ (content text).2.2, fault.error.code ≠ "E0007" := by
  rw [content.eq_def]
  split
  · exact code_escapeFaults
  · split <;> exact List.forall_mem_nil _
  · exact List.forall_mem_nil _

theorem confined_char (rest : List Char) : Confined ('\'' :: rest) (charLexeme ('\'' :: rest)) := by
  have hcontent := chain_content rest
  have hcode := code_content rest
  simp only [charLexeme]
  rw [List.tail_cons]
  generalize content rest = read at hcontent hcode
  obtain ⟨value, size, faults⟩ := read
  dsimp only at hcontent hcode ⊢
  split
  · next hempty =>
    refine ⟨chain_next 0 (.singleton _) (by rwa [List.drop_zero]) (by decide), ?_⟩
    exact List.forall_mem_singleton.2 fun h => absurd h (by decide)
  · split
    · next hclosed =>
      exact ⟨chain_next size hcontent hclosed (by decide), fun fault h hc => absurd hc (hcode fault h)⟩
    · have hchain := chain_run size (p := fun c => c != '\'' && c != '\n') (by decide) hcontent
      split
      · next hclosed =>
        refine ⟨chain_next _ hchain hclosed (by decide), fun fault h hc => ?_⟩
        rcases List.mem_append.1 h with h | h
        · exact absurd hc (hcode fault h)
        · obtain rfl := List.mem_singleton.1 h
          exact absurd hc (by decide : LexError.longChar.code ≠ "E0007")
      · next hopen =>
        -- The run of other characters ends in front of a newline if it does not end at a quote.
        refine ⟨hchain, fun _ _ _ c hc => ?_⟩
        have hstop := List.head?_dropWhile_not (fun c => c != '\'' && c != '\n') (rest.drop size)
        rw [List.drop_succ_cons] at hc
        rw [← List.drop_drop, drop_length_takeWhile] at hc hopen
        rw [hc] at hstop hopen
        simp only [Bool.and_eq_false_iff, bne_eq_false_iff_eq, Option.some.injEq] at hstop hopen
        exact hstop.resolve_left hopen

end Quote

theorem Number.isQuoted_lexeme (text : List Char) : (lexeme text).payload.isQuoted = false := by
  refine lexeme_cases text (fun radix => ?_) ?_
  · simp only [basedLexeme]
    split <;> rfl
  · simp only [decimalLexeme]
    split <;> rfl

namespace Lexeme

theorem isQuoted_command (text : List Char) : (command text).payload.isQuoted = false := by
  simp only [command]
  split
  · split <;> rfl
  · rfl

theorem isQuoted_identifier (text : List Char) : (identifier text).payload.isQuoted = false := by
  simp only [identifier]
  split
  · rfl
  · split
    · rfl
    · split <;> rfl

/-- The lexeme of a string or character literal begins with its quote and goes no further than it
may. -/
theorem confined_scan {c : Char} {rest : List Char}
    (h : (scan c (c :: rest)).payload.isQuoted = true) :
    c ≠ '\n' ∧ Quote.Confined (c :: rest) (scan c (c :: rest)) := by
  have hother : ∀ {lexeme : Lexeme}, lexeme.payload.isQuoted = false →
      lexeme.payload.isQuoted = true → c ≠ '\n' ∧ Quote.Confined (c :: rest) lexeme :=
    fun hplain h => absurd (hplain.symm.trans h) Bool.false_ne_true
  revert h
  refine scan_cases c (c :: rest) ?fixed ?command ?string ?char ?number ?identifier ?invalid
  case fixed =>
    intro lexeme hfixed
    obtain ⟨entry, -, rfl⟩ := Option.map_eq_some_iff.1 hfixed
    exact hother rfl
  case command => exact fun _ => hother (isQuoted_command _)
  case string =>
    rintro rfl -
    exact ⟨by decide, Quote.confined_string rest⟩
  case char =>
    rintro rfl -
    exact ⟨by decide, Quote.confined_char rest⟩
  case number => exact fun _ => hother (Number.isQuoted_lexeme _)
  case identifier => exact fun _ => hother (isQuoted_identifier _)
  case invalid => exact hother rfl

end Lexeme

theorem Gap.code_faults (gap : Gap) : ∀ fault ∈ gap.faults, fault.error.code ≠ "E0007" := by
  rw [faults]
  split
  · exact List.forall_mem_singleton.2 (by decide : LexError.unterminatedComment.code ≠ "E0007")
  · exact List.forall_mem_nil _

/-- A newline in a string or character literal stands directly behind a backslash, and behind a
literal that is reported as not closed a line ends. -/
theorem Token.lex_quoted (file : FileId) (source : String) :
    ∀ lexed ∈ lex file source, lexed.token.payload.isQuoted = true →
      ∃ ahead behind, source.toList = ahead ++ (lexed.token.text.toList ++ behind) ∧
        (∀ before after, lexed.token.text.toList = before ++ '\n' :: after →
          before.getLast? = some '\\') ∧
        ((∃ d ∈ lexed.reports, d.code = some "E0007") → ∀ c ∈ behind.head?, c = '\n') := by
  intro lexed hlexed hquoted
  cases lexedFrom_lexFrom file _ _ _ lexed hlexed with
  | eof => cases hquoted
  | @lexeme c rest suffix span gap place start ahead =>
    obtain ⟨hc, hnewlines, hunclosed⟩ := Lexeme.confined_scan hquoted
    have hsize := (Lexeme.sound_scan c rest).size
    generalize Lexeme.scan c (c :: rest) = lexeme at *
    obtain ⟨before, hbefore⟩ := suffix
    refine ⟨before, (c :: rest).drop lexeme.size, ?_, fun first after htext => ?_, ?_⟩
    · rw [String.toList_ofList, List.take_append_drop, hbefore]
    · rw [String.toList_ofList] at htext
      rw [htext, List.isChain_append] at hnewlines
      cases hlast : first.getLast? with
      | none =>
        obtain rfl := List.getLast?_eq_none_iff.1 hlast
        obtain ⟨size, hsize⟩ := Nat.exists_eq_succ_of_ne_zero (Nat.ne_of_gt hsize)
        rw [hsize, List.take_succ_cons] at htext
        exact absurd (List.cons.inj htext).1 hc
      | some d => rw [hnewlines.2.2 d hlast _ rfl rfl]
    · rintro ⟨d, hd, hcode⟩
      rcases List.mem_append.1 hd with hd | hd
      all_goals obtain ⟨fault, hfault, rfl⟩ := List.mem_map.1 hd
      · exact absurd (Option.some.inj hcode) (gap.code_faults fault hfault)
      · exact hunclosed fault hfault (Option.some.inj hcode)

example : (Token.lex ⟨0⟩ "\"a\\\nb\nc").map (·.token.text) = ["\"a\\\nb", "c", ""] := by decide

end ImpLang
