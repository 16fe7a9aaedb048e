import ImpLang.Proofs.Token.Spelling
import Mathlib.Data.List.Find

/-!
Texts side by side. A text is read as certain tokens in front of every text that does not carry on its
last lexeme; so two texts are read one behind the other if the second one does not carry on the
first. Closing punctuation is carried on by nothing, names and numbers not by punctuation, and
operators not by what begins an operand.
-/

namespace ImpLang

namespace Lexeme

/-- A fixed lexeme is read whatever stands behind it, unless that makes it the begin of another. -/
theorem fixedLexeme?_append {chars behind : List Char} {kind : TokenKind}
    (h : (chars, kind) ∈ fixedLexemes)
    (hlast : ∀ entry ∈ fixedLexemes, ∀ c ∈ behind.head?, ¬chars ++ [c] <+: entry.1) :
    fixedLexeme? (chars ++ behind) = some ⟨kind, chars.length, .none, []⟩ := by
  have hall : ∀ entry ∈ fixedLexemes,
      fixedLexemes.find? (fun other => other.1.isPrefixOf entry.1) = some entry := by decide
  -- The same entries fit the longer text: one that reaches beyond the lexeme would carry it on.
  have hsame : ∀ entry ∈ fixedLexemes,
      entry.1.isPrefixOf (chars ++ behind) = entry.1.isPrefixOf chars := by
    intro entry hentry
    rw [Bool.eq_iff_iff, List.isPrefixOf_iff_prefix, List.isPrefixOf_iff_prefix]
    refine ⟨fun hprefix => ?_, fun hprefix => hprefix.trans (List.prefix_append _ _)⟩
    rcases List.prefix_or_prefix_of_prefix hprefix (List.prefix_append chars behind) with hle | hle
    · exact hle
    · obtain ⟨more, hmore⟩ := hle
      cases more with
      | nil => rw [← hmore, List.append_nil]
      | cons c more =>
        rw [← hmore, List.prefix_append_right_inj] at hprefix
        obtain ⟨rest, rfl⟩ := hprefix
        exact absurd ⟨more, by rw [← hmore, List.append_assoc]; rfl⟩ (hlast entry hentry c rfl)
  have hfind : fixedLexemes.find? (fun entry => entry.1.isPrefixOf (chars ++ behind)) =
      some (chars, kind) := by
    rw [List.find?_congr hsame]
    exact hall _ h
  rw [fixedLexeme?, hfind]
  rfl

/-- A fixed lexeme that begins neither another one nor a comment. -/
def isComplete (text : String) (kind : TokenKind) : Bool :=
  fixedLexemes.contains (text.toList, kind) && text.toList.head? != some '/' &&
    fixedLexemes.all fun entry => !text.toList.isPrefixOf entry.1 || entry.1 == text.toList

end Lexeme

/-- A text that carries on no fixed lexeme in front of it. -/
def Inert (behind : List Char) : Prop :=
  ∀ c ∈ behind.head?, ∀ entry ∈ fixedLexemes, c ∉ entry.1.tail

namespace Token

/-! ## Tokens without a place -/

/-- A token that stands for its text alone. -/
def sign (kind : TokenKind) : Token := ⟨kind, default, kind.text, .none⟩

def named (text : String) : Token := ⟨.identifier, default, text, .name text⟩

def valued (value : Literal String) : Token := ⟨.literal, default, value.print, .literal value⟩

/-! ## Texts in front of others -/

/-- In front of any text of a kind, a text is read as the given tokens, wherever they stand, and
nothing is reported. -/
def Lexes (P : List Char → Prop) (text : String) (ts : List Token) : Prop :=
  ∀ file rounds place behind, P behind → (text.toList ++ behind).length < rounds →
    ∃ lexed left, lexFrom file rounds place (text.toList ++ behind) =
        lexed ++ lexFrom file left (place.past text.toList) behind ∧
      behind.length < left ∧ words (lexed.map Lexed.token) = words ts ∧
      ∀ l ∈ lexed, l.reports = []

/-- Any text at all. -/
def Anything (_ : List Char) : Prop := True

namespace Lexes

variable {P Q : List Char → Prop} {a b : String} {ts us : List Token}

theorem empty : Lexes P "" [] :=
  fun _ rounds _ _ _ hrounds => ⟨[], rounds, rfl, hrounds, rfl, fun _ hl => nomatch hl⟩

/-- Two texts of which the second does not carry on the first. -/
theorem append (ha : Lexes Q a ts) (hb : Lexes P b us)
    (h : ∀ behind, P behind → Q (b.toList ++ behind)) : Lexes P (a ++ b) (ts ++ us) := by
  intro file rounds place behind hbehind hrounds
  rw [String.toList_append, List.append_assoc] at hrounds ⊢
  obtain ⟨lexed, left, hread, hleft, hwords, hsilent⟩ :=
    ha file rounds place _ (h behind hbehind) hrounds
  obtain ⟨lexed', left', hread', hleft', hwords', hsilent'⟩ :=
    hb file left (place.past a.toList) behind hbehind hleft
  refine ⟨lexed ++ lexed', left', ?_, hleft', ?_, List.forall_mem_append.2 ⟨hsilent, hsilent'⟩⟩
  · rw [hread, hread', Place.past_append, List.append_assoc]
  · rw [List.map_append, words_append, words_append, hwords, hwords']

/-- Behind punctuation. -/
theorem snug (ha : Lexes Anything a ts) (hb : Lexes P b us) : Lexes P (a ++ b) (ts ++ us) :=
  ha.append hb fun _ _ => trivial

end Lexes

/-- A text that begins with a character that ends names and numbers. -/
def closes (text : String) : Bool :=
  text.toList.head?.any fun c => !isIdentContinue c && c != '.'

theorem closing_of_closes {text : String} (h : closes text = true) (behind : List Char) :
    Closing (text.toList ++ behind) := by
  obtain ⟨c, hc, hends⟩ := (Option.any_eq_true ..).1 h
  obtain ⟨rest, hrest⟩ := List.head?_eq_some_iff.1 hc
  rw [Bool.and_eq_true, Bool.not_eq_true', bne_iff_ne] at hends
  rw [hrest, List.cons_append]
  exact Closing.cons hends.1 hends.2 _

theorem closes_append {text : String} (h : closes text = true) (more : String) :
    closes (text ++ more) = true := by
  obtain ⟨c, hc, hends⟩ := (Option.any_eq_true ..).1 h
  rw [closes, String.toList_append, List.head?_append, hc]
  exact hends

theorem Lexes.closed {P : List Char → Prop} {a b : String} {ts us : List Token}
    (ha : Lexes Closing a ts) (hb : Lexes P b us) (h : closes b = true) :
    Lexes P (a ++ b) (ts ++ us) :=
  ha.append hb fun behind _ => closing_of_closes h behind

/-- Behind a name or a number something stands that ends it, or nothing. -/
theorem Lexes.maybe {a b : String} {ts us : List Token} (ha : Lexes Closing a ts)
    (hb : Lexes Closing b us) (h : b = "" ∨ closes b = true) : Lexes Closing (a ++ b) (ts ++ us) :=
  ha.append hb fun behind hbehind => h.elim (fun hempty => hempty ▸ hbehind)
    fun hcloses => closing_of_closes hcloses behind

/-! ## Single lexemes -/

section Single

variable {P : List Char → Prop} {text : String} {t : Token}

theorem lexes_of_scan {c : Char} {rest : List Char} (htext : text.toList = c :: rest)
    (hstops : ∀ behind, P behind → Gap.Stops (c :: rest ++ behind))
    (hscan : ∀ behind, P behind →
      Lexeme.scan c (c :: rest ++ behind) = ⟨t.kind, rest.length + 1, t.payload, []⟩) :
    Lexes P text [t] := by
  intro file rounds place behind hbehind hrounds
  rw [htext] at hrounds ⊢
  obtain ⟨rounds, rfl⟩ := Nat.exists_eq_succ_of_ne_zero (Nat.ne_zero_of_lt hrounds)
  have hstop : Gap.scan ([] ++ c :: (rest ++ behind)) = ⟨0, none⟩ := hstops behind hbehind 0
  have hread : lexFrom file (rounds + 1) place _ = _ := lexFrom_lexeme hstop
  have htake : (c :: rest ++ behind).take (rest.length + 1) = c :: rest := List.take_left' rfl
  have hdrop : (c :: rest ++ behind).drop (rest.length + 1) = behind := List.drop_left' rfl
  have hfound := hscan behind hbehind
  rw [List.cons_append] at hrounds hfound htake hdrop ⊢
  simp only [List.nil_append, hfound, ofLexeme, htake, hdrop, List.map_nil, Place.past_nil] at hread
  simp only [List.length_cons, List.length_append] at hrounds
  exact ⟨_, rounds, hread, by omega, rfl, List.forall_mem_singleton.2 rfl⟩

theorem lexes_of_spells {c : Char} {rest : List Char} (htext : text.toList = c :: rest)
    (h : Lexeme.Spells c rest t.word) : Lexes Detached text [t] :=
  lexes_of_scan htext
    (fun _ hbehind => h.stops.append fun d hd => hbehind d hd ▸ (by decide : ' ' ≠ '/' ∧ ' ' ≠ '*'))
    h.scan

theorem lexes_of_stands (h : ∃ c rest, text.toList = c :: rest ∧ Lexeme.Stands c rest t.word) :
    Lexes Closing text [t] := by
  obtain ⟨c, rest, htext, hstands⟩ := h
  exact lexes_of_scan htext (fun behind _ => hstands.stops behind) hstands.scan

theorem lexes_named (h : IsName text) : Lexes Closing text [named text] :=
  lexes_of_stands (Spelled.stands_name h)

theorem lexes_valued {value : Literal String} (h : value.isWhole = true) :
    Lexes Closing value.print [valued value] :=
  lexes_of_stands (Spelled.stands_literal h)

variable {kind : TokenKind}

/-- The slash aside, which may begin a comment, a fixed lexeme is read in front of all that does not
carry it on. -/
theorem lexes_fixed (h : (text.toList, kind) ∈ fixedLexemes) (hslash : text.toList.head? ≠ some '/')
    (hlast : ∀ behind, P behind →
      ∀ entry ∈ fixedLexemes, ∀ c ∈ behind.head?, ¬text.toList ++ [c] <+: entry.1) :
    Lexes P text [sign kind] := by
  have hall : ∀ entry ∈ fixedLexemes,
      entry.1.head?.any (fun c => !Text.isWhiteSpace c) = true := by decide
  obtain ⟨c, hc, hwhite⟩ := (Option.any_eq_true ..).1 (hall _ h)
  obtain ⟨rest, htext⟩ := List.head?_eq_some_iff.1 hc
  dsimp only at htext hwhite
  refine lexes_of_scan htext (fun behind _ => ?_) fun behind hbehind => ?_
  · refine Gap.stops_of_ne (by simpa using hwhite) ?_
    rintro rfl
    exact hslash (by rw [htext]; rfl)
  · have hfixed := Lexeme.fixedLexeme?_append h (hlast behind hbehind)
    rw [htext] at hfixed
    simp only [Lexeme.scan, hfixed]
    rfl

/-- Punctuation is carried on by nothing. -/
theorem lexes_complete (h : Lexeme.isComplete text kind = true) : Lexes P text [sign kind] := by
  simp only [Lexeme.isComplete, Bool.and_eq_true, List.contains_iff_mem, List.all_eq_true,
    bne_iff_ne] at h
  refine lexes_fixed h.1.1 h.1.2 fun behind _ entry hentry c _ hprefix => ?_
  have hsame := h.2 entry hentry
  rw [Bool.or_eq_true, Bool.not_eq_true', beq_iff_eq] at hsame
  rcases hsame with hother | hsame
  · have hfront : text.toList.isPrefixOf entry.1 = true :=
      List.isPrefixOf_iff_prefix.2 ((List.prefix_append _ _).trans hprefix)
    rw [hfront] at hother
    cases hother
  · have hlength := hprefix.length_le
    rw [hsame, List.length_append] at hlength
    exact absurd hlength (by simp)

/-- Operators are not carried on by what begins an operand. -/
theorem lexes_operator (h : (text.toList, kind) ∈ fixedLexemes)
    (hslash : text.toList.head? ≠ some '/') : Lexes Inert text [sign kind] := by
  refine lexes_fixed h hslash fun behind hbehind entry hentry c hc hprefix => hbehind c hc entry hentry ?_
  have hne : ∀ entry ∈ fixedLexemes, entry.1 ≠ [] := by decide
  obtain ⟨more, hmore⟩ := hprefix
  obtain ⟨d, rest, htext⟩ := List.exists_cons_of_ne_nil (hne _ h)
  dsimp only at htext
  rw [← hmore, htext]
  simp

/-- In front of a space every kind is spelled by its text. -/
theorem lexes_detached (h : kind.isPlain = true) : Lexes Detached kind.text [sign kind] := by
  obtain ⟨c, rest, htext, hspells⟩ := Spelled.spells_kind h
  exact lexes_of_spells htext hspells

end Single

/-! ## Gaps -/

theorem lexes_gap {P : List Char → Prop} {text : String}
    (h : text.toList.all Text.isWhiteSpace = true) : Lexes P text [] := by
  intro file rounds place behind _ hrounds
  have hspacing : ∀ gap : List Char, (∀ c ∈ gap, Text.isWhiteSpace c = true) →
      Spacing behind gap := by
    intro gap hgap
    induction gap with
    | nil => exact .nil
    | cons c gap ih =>
      obtain ⟨hc, hgap⟩ := List.forall_mem_cons.1 hgap
      exact .white hc (ih hgap)
  rw [List.length_append] at hrounds
  exact ⟨[], rounds, lexFrom_spacing (hspacing _ (List.all_eq_true.1 h)) rounds place, by omega, rfl,
    fun _ hl => nomatch hl⟩

theorem lexes_space {P : List Char → Prop} : Lexes P " " [] := lexes_gap (by decide)

/-- A space sets a word apart from what follows. -/
theorem lexes_spaced {P : List Char → Prop} {text : String} {kind : TokenKind}
    (h : kind.isPlain = true) (htext : text = kind.text ++ " ") : Lexes P text [sign kind] :=
  htext ▸ (lexes_detached h).append lexes_space fun behind _ => Detached.space behind

/-- Spaces set a word apart on both sides. -/
theorem lexes_between {P : List Char → Prop} {text : String} {kind : TokenKind}
    (h : kind.isPlain = true) (htext : text = " " ++ (kind.text ++ " ")) : Lexes P text [sign kind] :=
  htext ▸ lexes_space.snug (lexes_spaced h rfl)

/-! ## Whole texts -/

theorem lex_of_lexes {source : String} {ts : List Token} (h : Lexes Anything source ts)
    (file : FileId) :
    words ((lex file source).map Lexed.token) = words ts ++ [⟨.eof, .none⟩] ∧
      ∀ lexed ∈ lex file source, lexed.reports = [] := by
  obtain ⟨lexed, left, hread, hleft, hwords, hsilent⟩ :=
    h file (source.toList.length + 1) Place.first [] trivial (by simp)
  obtain ⟨left, rfl⟩ := Nat.exists_eq_succ_of_ne_zero (Nat.ne_zero_of_lt hleft)
  rw [List.append_nil] at hread
  rw [lex, hread]
  refine ⟨?_, List.forall_mem_append.2 ⟨hsilent, List.forall_mem_singleton.2 rfl⟩⟩
  rw [List.map_append, words_append, hwords]
  rfl

end Token

end ImpLang
