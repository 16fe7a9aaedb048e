import ImpLang.Proofs.Parser.Takes
import ImpLang.Proofs.Symbol
import ImpLang.Proofs.Token.Numerals
import Mathlib.Data.List.TakeWhile

/-!
The canonical texts of tokens are read back. A kind with a spelling of its own is written by it, an
identifier by its name and a literal as the printer writes it, and each of these texts is one lexeme
for the lexer: alone, and in front of a space.
-/

namespace ImpLang

/-- What stands behind a text that is set apart: nothing, or a space first. -/
def Detached (behind : List Char) : Prop := ∀ c ∈ behind.head?, c = ' '

theorem Detached.nil : Detached [] := fun _ hc => nomatch hc

theorem Detached.space (behind : List Char) : Detached (' ' :: behind) :=
  fun _ hc => (Option.some.inj hc).symm

theorem Detached.head {behind : List Char} (h : Detached behind) {p : Char → Bool}
    (hp : p ' ' = false) : ∀ c ∈ behind.head?, p c = false :=
  fun c hc => h c hc ▸ hp

/-- A text at which names and numbers in front of it end. A point ends a number unless a digit
follows. -/
structure Closing (behind : List Char) : Prop where
  word : ∀ c ∈ behind.head?, isIdentContinue c = false
  fraction : Number.fraction behind = []

theorem Closing.cons {c : Char} (hc : isIdentContinue c = false) (hpoint : c ≠ '.')
    (rest : List Char) : Closing (c :: rest) :=
  ⟨fun _ hd => Option.some.inj hd ▸ hc, Number.fraction_nil fun _ hd => Option.some.inj hd ▸ hpoint⟩

theorem Detached.closing {behind : List Char} (h : Detached behind) : Closing behind :=
  ⟨h.head (by decide), Number.fraction_nil fun c hc => h c hc ▸ (by decide)⟩

/-- A text that is one lexeme without a fault, alone and in front of a space. -/
structure Lexeme.Spells (c : Char) (rest : List Char) (w : Word) : Prop where
  stops : Gap.Stops (c :: rest)
  scan : ∀ behind, Detached behind →
    Lexeme.scan c (c :: rest ++ behind) = ⟨w.kind, rest.length + 1, w.payload, []⟩

/-- A text that is one lexeme without a fault, whatever closes it. -/
structure Lexeme.Stands (c : Char) (rest : List Char) (w : Word) : Prop where
  stops : ∀ behind, Gap.Stops (c :: rest ++ behind)
  scan : ∀ behind, Closing behind →
    Lexeme.scan c (c :: rest ++ behind) = ⟨w.kind, rest.length + 1, w.payload, []⟩

theorem Lexeme.Stands.spells {c : Char} {rest : List Char} {w : Word} (h : Stands c rest w) :
    Spells c rest w :=
  ⟨List.append_nil (c :: rest) ▸ h.stops [], fun _ hbehind => h.scan _ hbehind.closing⟩

/-! ## Digits and escapes -/

namespace Number

theorem digitValue_digitChar {n : Nat} (h : n < 16) : digitValue n.digitChar = n := by
  have hall : ∀ n < 16, digitValue n.digitChar = n := by decide
  exact hall n h

/-- The digits of a number, up to base sixteen, are digits of the base, and their value is the
number. -/
theorem value_toDigits {base : Nat} (h : 1 < base) (h' : base ≤ 16) (n : Nat) :
    value base (Nat.toDigits base n) = n ∧
      ∀ c ∈ Nat.toDigits base n, isDigitOf base c = true := by
  -- The last digit is the remainder, the others are those of the quotient.
  induction n using Nat.strong_induction_on with
  | _ n ih =>
    have hlast : ∀ m < base, isDigitOf base m.digitChar = true := fun m hm => by
      simp only [isDigitOf, digitValue_digitChar (Nat.lt_of_lt_of_le hm h'), hm, decide_true]
    rw [Nat.toDigits_eq_if h]
    split
    · next hlt =>
      refine ⟨?_, List.forall_mem_singleton.2 (hlast n hlt)⟩
      simp [value, digitValue_digitChar (Nat.lt_of_lt_of_le hlt h')]
    · next hge =>
      have hmod : n % base < base := Nat.mod_lt _ (by omega)
      obtain ⟨hvalue, hdigits⟩ := ih (n / base) (Nat.div_lt_self (by omega) h)
      refine ⟨?_, ?_⟩
      · rw [value] at hvalue
        rw [value, List.foldl_append, hvalue, List.foldl_cons, List.foldl_nil,
          digitValue_digitChar (Nat.lt_of_lt_of_le hmod h'), Nat.div_add_mod']
      · simpa [or_imp, forall_and] using ⟨hdigits, hlast _ hmod⟩

end Number

namespace Quote

theorem codePoint?_toDigits (c : Char) : codePoint? (Nat.toDigits 16 c.toNat) = some c := by
  have hvalue := (Number.value_toDigits (by decide : 1 < 16) (Nat.le_refl _) c.toNat).1
  have hvalid : c.toNat.isValidChar := c.valid
  simp only [codePoint?, hvalue, Nat.toDigits_ne_nil, ne_eq, not_false_eq_true, hvalid, and_self,
    if_true, Char.ofNat_toNat]

/-- What stands for a character in a literal is that character or an escape that denotes it. -/
theorem escape_escape (c : Char) :
    (Text.escape c = [c] ∧ c ∉ ['"', '\'', '\\', '\n']) ∨
      ∃ code, Text.escape c = '\\' :: code ∧
        ∀ behind, escape (code ++ behind) = (some c, code.length) := by
  rw [Text.escape.eq_def]
  split
  case h_7 _ _ _ hline hsingle hdouble hback =>
    split
    · refine .inl ⟨rfl, ?_⟩
      simp only [List.mem_cons, List.not_mem_nil, or_false, not_or]
      exact ⟨hdouble, hsingle, hback, hline⟩
    · refine .inr ⟨_, rfl, fun behind => ?_⟩
      have hdigits := (Number.value_toDigits (by decide : 1 < 16) (Nat.le_refl _) c.toNat).2
      have hrun : (Nat.toDigits 16 c.toNat ++ '\x7d' :: behind).takeWhile (Number.isDigitOf 16) =
          Nat.toDigits 16 c.toNat := by
        rw [List.takeWhile_append_of_pos hdigits, List.takeWhile_cons_of_neg (by decide),
          List.append_nil]
      simp only [List.cons_append, List.append_assoc, List.nil_append, escape, hrun,
        List.drop_left, List.head?_cons, if_true, codePoint?_toDigits, List.length_cons,
        List.length_append, List.length_nil]
  all_goals exact .inr ⟨_, rfl, fun _ => rfl⟩

theorem body_skip (skipped : List Char) (n : Nat) (behind : List Char) :
    body skipped.length n (skipped ++ behind) = body 0 (n + skipped.length) behind := by
  induction skipped generalizing n with
  | nil => rfl
  | cons c skipped ih =>
    rw [List.length_cons, List.cons_append, body, ih, Nat.add_right_comm, Nat.add_assoc]

/-- The character between single quotes is the one that is written there. -/
theorem content_escape (c : Char) (behind : List Char) :
    (Text.escape c ++ behind).head? ≠ some '\'' ∧
      content (Text.escape c ++ behind) = (some c, (Text.escape c).length, []) := by
  obtain ⟨hplain, hspecial⟩ | ⟨code, hcode, hescape⟩ := escape_escape c
  · simp only [List.mem_cons, List.not_mem_nil, or_false, not_or] at hspecial
    obtain ⟨-, hquote, hback, hline⟩ := hspecial
    rw [hplain, List.singleton_append]
    refine ⟨fun h => hquote (Option.some.inj h), ?_⟩
    rw [content.eq_def]
    split
    · next heq => exact absurd (List.cons.inj heq).1 hback
    · next heq =>
      obtain ⟨rfl, rfl⟩ := List.cons.inj heq
      rw [if_neg hline]
      rfl
    · next heq => cases heq
  · rw [hcode, List.cons_append]
    refine ⟨by simp, ?_⟩
    rw [content, hescape]
    rfl

/-- A text whose characters are escaped is read up to the closing quote. -/
theorem body_escape (text : List Char) (n : Nat) (behind : List Char) :
    body 0 n (text.flatMap Text.escape ++ '"' :: behind) =
      ⟨text, n + (text.flatMap Text.escape).length + 1, []⟩ := by
  induction text generalizing n with
  | nil => rfl
  | cons c text ih =>
    rw [List.flatMap_cons, List.append_assoc]
    obtain ⟨hplain, hspecial⟩ | ⟨code, hcode, hescape⟩ := escape_escape c
    · simp only [List.mem_cons, List.not_mem_nil, or_false, not_or] at hspecial
      obtain ⟨hquote, -, hback, hline⟩ := hspecial
      rw [hplain, List.singleton_append, body, if_neg hquote, if_neg hline, if_neg hback, ih]
      simp only [List.singleton_append, List.length_cons, Nat.add_assoc, Nat.add_comm 1]
    · rw [hcode, List.cons_append, body, if_neg (by decide), if_neg (by decide), if_pos rfl,
        hescape]
      simp only [body_skip, ih, escapeFaults, reduceCtorEq, if_false, Option.toList_some,
        List.nil_append, List.length_append, List.length_cons, Nat.add_assoc, Nat.add_comm 1,
        List.cons_append]

end Quote

/-! ## Lexemes -/

namespace Lexeme

theorem spells_fixed {c : Char} {rest : List Char} {kind : TokenKind}
    (h : (c :: rest, kind) ∈ fixedLexemes) : Spells c rest ⟨kind, .none⟩ := by
  have hall : ∀ entry ∈ fixedLexemes, Gap.scan entry.1 = ⟨0, none⟩ ∧
      fixedLexemes.find? (fun other => other.1.isPrefixOf entry.1) = some entry := by decide
  obtain ⟨hscan, hfind⟩ := hall _ h
  refine ⟨fun n => Gap.scanFrom_stops_iff.2 (Gap.scanFrom_stops_iff.1 hscan),
    fun behind hbehind => ?_⟩
  have hfixed : fixedLexeme? (c :: rest) = some ⟨kind, rest.length + 1, .none, []⟩ := by
    rw [fixedLexeme?, hfind]
    rfl
  have hwhole : fixedLexeme? (c :: rest ++ behind) = some ⟨kind, rest.length + 1, .none, []⟩ := by
    cases behind with
    | nil => rwa [List.append_nil]
    | cons d behind =>
      obtain rfl := hbehind d rfl
      rwa [fixedLexeme?_apart (by decide)]
  simp only [scan, hwhole]

theorem stands_identifier {c : Char} {rest : List Char} (hstart : isIdentStart c = true)
    (hrest : ∀ d ∈ rest, isIdentContinue d = true) :
    let lexeme := identifier (c :: rest)
    Stands c rest ⟨lexeme.kind, lexeme.payload⟩ := by
  have hall : ∀ d ∈ c :: rest, isIdentContinue d = true :=
    List.forall_mem_cons.2 ⟨isIdentContinue_of_isIdentStart hstart, hrest⟩
  have hother : ∀ {d : Char}, isIdentStart d = false → c ≠ d := ne_of_test hstart
  refine ⟨fun behind => Gap.stops_of_ne (isWhiteSpace_of hstart (by decide +kernel))
    (hother (by decide)), fun behind hbehind => ?_⟩
  have hfixed := fixedLexeme?_none hstart (by decide +kernel) (rest ++ behind)
  have hrun := Number.takeWhile_run hbehind.word hall
  have hself := List.takeWhile_eq_self_iff.2 hall
  rw [List.cons_append] at hrun ⊢
  simp only [scan, hfixed, if_neg (hother (d := '\\') (by decide)),
    if_neg (hother (d := '"') (by decide)), if_neg (hother (d := '\'') (by decide)),
    isDigit_of_isIdentStart hstart, Bool.false_eq_true, if_false, hstart, if_true, identifier,
    hrun, hself]
  split
  · rfl
  · split
    · rfl
    · split <;> rfl

theorem spells_command {c : Char} {word : List Char} {kind : TokenKind}
    (hkind : TokenKind.keyword? (String.ofList ('\\' :: c :: word)) = some kind)
    (hfirst : c.isAlpha = true) (hword : (c :: word).all Char.isAlphanum = true) :
    Spells '\\' (c :: word) ⟨kind, .none⟩ := by
  refine ⟨Gap.stops_of_ne (by decide) (by decide), fun behind hbehind => ?_⟩
  have hfixed := fixedLexeme?_none_of_ne (c := '\\') (by decide) (c :: word ++ behind)
  have hrun := Number.takeWhile_run (hbehind.head (p := Char.isAlphanum) (by decide))
    (List.all_eq_true.1 hword)
  rw [List.cons_append, scan, hfixed, command, List.tail_cons, hrun]
  simp only [List.cons_append, List.head?_cons, Option.map_some, Option.getD_some, hfirst, if_true,
    hkind, List.length_cons]

end Lexeme

namespace Number

theorem word?_toDigits (value : UInt64) :
    word? 10 (digitsOf (Nat.toDigits 10 value.toNat)) = some value := by
  obtain ⟨hvalue, hdigits⟩ := value_toDigits (by decide : 1 < 10) (by decide) value.toNat
  have hkept : digitsOf (Nat.toDigits 10 value.toNat) = Nat.toDigits 10 value.toNat := by
    refine List.filter_eq_self.2 fun c hc => bne_iff_ne.2 ?_
    rintro rfl
    exact absurd (hdigits _ hc) (by decide)
  simp only [word?, hkept, hvalue, dif_pos value.toNat_lt, UInt64.ofNatLT_toNat]

theorem exponent_point (rest : List Char) : exponent ('.' :: rest) = [] := by cases rest <;> rfl

/-- The digits of an integer end at its suffix, or without one at what closes them. -/
theorem closes_digits {kind : NumKind} (hkind : kind.isFloat = false) {behind : List Char}
    (h : Closing behind) :
    let tail := kind.suffix.toList ++ behind
    (∀ c ∈ tail.head?, isNumeral 10 c = false) ∧ (∀ c ∈ tail.head?, radix? c = none) ∧
      fraction tail = [] ∧ exponent tail = [] := by
  have hends : ∀ {tail}, Ends 10 tail → (∀ c ∈ tail.head?, isNumeral 10 c = false) ∧
      (∀ c ∈ tail.head?, radix? c = none) ∧ fraction tail = [] ∧ exponent tail = [] :=
    fun h => ⟨h.numeral, h.letter, fraction_nil h.point, h.exponent⟩
  cases kind
  case untyped =>
    -- Only behind a number without suffix a point may stand.
    by_cases hpoint : behind.head? = some '.'
    · obtain ⟨rest, rfl⟩ := List.head?_eq_some_iff.1 hpoint
      exact ⟨fun c hc => Option.some.inj hc ▸ (by decide), fun c hc => Option.some.inj hc ▸ rfl,
        h.fraction, exponent_point rest⟩
    · exact hends fun c hc =>
        goesOn_of_not (by decide) (fun hc' => hpoint (hc' ▸ hc)) (h.word c hc)
  case f32 | f64 => cases hkind
  all_goals exact hends fun c hc => Option.some.inj hc ▸ (by decide)

/-- The canonical text of an integer is one number. -/
theorem lexeme_int (value : UInt64) {kind : NumKind} (hkind : kind.isFloat = false)
    {behind : List Char} (h : Closing behind) :
    lexeme (Nat.toDigits 10 value.toNat ++ (kind.suffix.toList ++ behind)) =
      ⟨.literal, (Nat.toDigits 10 value.toNat).length + kind.suffix.toList.length,
        .literal (.int value kind), []⟩ := by
  obtain ⟨hnumeral, hletter, hfraction, hexponent⟩ := closes_digits hkind h
  have hdigits := IsDecimal.toDigits value.toNat
  have hread := decimalLexeme_append (Nat.toDigits 10 value.toNat) [] [] h.word
    (takeWhile_run hnumeral hdigits.isNumeral) hfraction hexponent (kindOf_suffix kind)
  rw [lexeme_decimal (radix?_append hdigits.ne_nil hdigits.isNumeral hletter)]
  simpa [hkind, word?_toDigits, faultOf] using hread

end Number

namespace Lexeme

theorem stands_int (value : UInt64) {kind : NumKind} (hkind : kind.isFloat = false) :
    ∃ c rest, (Literal.int value kind).print.toList = c :: rest ∧
      Stands c rest ⟨.literal, .literal (.int value kind)⟩ := by
  have hprint : (Literal.int value kind).print.toList =
      Nat.toDigits 10 value.toNat ++ kind.suffix.toList := by
    rw [Literal.print, String.toList_append, Nat.toString_eq_ofList_toDigits, String.toList_ofList]
  have hlexeme := fun behind (h : Closing behind) => Number.lexeme_int value hkind h
  have hdigits : ∀ c ∈ Nat.toDigits 10 value.toNat, c.isDigit = true := fun c hc =>
    Nat.isDigit_of_mem_toDigits (by decide) (by decide) hc
  have hne : Nat.toDigits 10 value.toNat ≠ [] := Nat.toDigits_ne_nil
  obtain ⟨c, rest, hcons⟩ := List.exists_cons_of_ne_nil hne
  rw [hcons] at hprint hlexeme hdigits
  have hdigit := hdigits c List.mem_cons_self
  refine ⟨c, rest ++ kind.suffix.toList, hprint, fun _ => Gap.stops_number hdigit _,
    fun behind hbehind => ?_⟩
  have hread := hlexeme behind hbehind
  rw [← List.append_assoc, List.cons_append] at hread
  rw [List.cons_append, scan_number hdigit, ← List.cons_append, hread]
  simp only [List.length_cons, List.length_append, Nat.add_right_comm]

theorem stands_char (value : Char) :
    Stands '\'' (Text.escape value ++ ['\'']) ⟨.literal, .literal (.char value)⟩ := by
  refine ⟨fun _ => Gap.stops_of_ne (by decide) (by decide), fun behind _ => ?_⟩
  have hfixed := fixedLexeme?_none_of_ne (c := '\'') (by decide)
    (Text.escape value ++ '\'' :: behind)
  obtain ⟨hempty, hcontent⟩ := Quote.content_escape value ('\'' :: behind)
  rw [List.cons_append, List.append_assoc, List.singleton_append, scan, hfixed]
  simp only [Char.reduceEq, if_false, if_true, Quote.charLexeme, List.tail_cons, hempty, hcontent,
    List.drop_left, List.head?_cons, Option.getD_some, List.length_append, List.length_singleton]

theorem stands_string (text : String) :
    Stands '"' (text.toList.flatMap Text.escape ++ ['"']) ⟨.literal, .literal (.str text)⟩ := by
  refine ⟨fun _ => Gap.stops_of_ne (by decide) (by decide), fun behind _ => ?_⟩
  have hfixed := fixedLexeme?_none_of_ne (c := '"') (by decide)
    (text.toList.flatMap Text.escape ++ '"' :: behind)
  have hbody := Quote.body_escape text.toList 1 behind
  rw [List.cons_append, List.append_assoc, List.singleton_append, scan, hfixed]
  simp only [Char.reduceEq, if_false, if_true, Quote.stringLexeme, List.tail_cons, hbody,
    String.ofList_toList, List.length_append, List.length_singleton, Nat.add_comm 1]

end Lexeme

/-! ## Tokens with a canonical text -/

/-- Literals that their canonical text gives back whole: all but floats. -/
def Literal.isWhole {α : Type} : Literal α → Bool
  | int _ kind => !kind.isFloat
  | float _ _ => false
  | bool _ | char _ | str _ => true

/-- The texts of identifiers: those of their grammar that spell neither a reserved word nor a truth
value. -/
structure IsName (text : String) : Prop where
  start : text.toList.head?.any isIdentStart = true
  rest : text.toList.tail.all isIdentContinue = true
  free : ∀ kind ∈ TokenKind.keywords, text ≠ kind.text
  truth : text ≠ "true" ∧ text ≠ "false"

def Literal.isFloat {α : Type} : Literal α → Bool
  | float .. => true
  | _ => false

/-- What is carried, floats aside, has a canonical text. -/
def Payload.IsWritable : Payload → Prop
  | .none => True
  | .name text => IsName text
  | .literal value => value.isFloat = false → value.isWhole = true

namespace Lexeme

theorem isWritable_number (text : List Char) : (Number.lexeme text).payload.IsWritable := by
  refine Number.lexeme_cases text (fun radix => ?based) ?decimal
  case based =>
    simp only [Number.basedLexeme]
    split
    · intro h
      cases h
    · next hkind => exact fun _ => Bool.not_eq_true' _ ▸ Bool.eq_false_iff.2 hkind
  case decimal =>
    simp only [Number.decimalLexeme]
    split
    · intro h
      cases h
    · next hkind =>
      rw [Bool.or_eq_true, not_or] at hkind
      exact fun _ => Bool.not_eq_true' _ ▸ Bool.eq_false_iff.2 hkind.2

theorem isWritable_identifier {c : Char} {rest : List Char} (h : isIdentStart c = true) :
    (Lexeme.identifier (c :: rest)).payload.IsWritable := by
  have hrun : (c :: rest).takeWhile isIdentContinue = c :: rest.takeWhile isIdentContinue :=
    List.takeWhile_cons_of_pos (isIdentContinue_of_isIdentStart h)
  simp only [identifier, hrun]
  split
  · exact fun _ => rfl
  · next htrue =>
    split
    · exact fun _ => rfl
    · next hfalse =>
      split
      · trivial
      · next hkeyword =>
        refine ⟨?_, ?_, fun kind hkind heq => ?_, htrue, hfalse⟩
        · rw [String.toList_ofList]
          exact h
        · rw [String.toList_ofList, List.tail_cons]
          exact List.all_takeWhile
        · exact TokenKind.keyword?_eq_none_iff.1 hkeyword kind hkind heq

theorem isWritable_scan (c : Char) (rest : List Char) :
    (Lexeme.scan c (c :: rest)).payload.IsWritable := by
  refine scan_cases c _ ?fixed ?command ?string ?char ?number ?identifier ?invalid
  case fixed =>
    intro lexeme hfixed
    obtain ⟨entry, -, rfl⟩ := Option.map_eq_some_iff.1 hfixed
    trivial
  case command =>
    intro _
    simp only [command]
    split
    · split <;> trivial
    · trivial
  case string => exact fun _ _ => rfl
  case char =>
    intro _
    simp only [Quote.charLexeme]
    split
    · exact fun _ => rfl
    · split
      · exact fun _ => rfl
      · split <;> exact fun _ => rfl
  case number => exact fun _ => isWritable_number _
  case identifier => exact isWritable_identifier
  case invalid => trivial

end Lexeme

/-- The names and literals of a text can be written again. -/
theorem Token.isWritable_lexFrom (file : FileId) (rounds : Nat) (place : Place) (text : List Char) :
    ∀ lexed ∈ lexFrom file rounds place text, lexed.token.payload.IsWritable := by
  intro lexed hlexed
  cases lexedFrom_lexFrom file rounds place text lexed hlexed with
  | eof => trivial
  | lexeme => exact Lexeme.isWritable_scan ..

/-- A token with a canonical text. -/
inductive Spelled where
  | fixed (kind : TokenKind) (h : kind.isPlain = true)
  | name (text : String) (h : IsName text)
  | literal (value : Literal String) (h : value.isWhole = true)

namespace Spelled

def text : Spelled → String
  | fixed kind _ => kind.text
  | name text _ => text
  | literal value _ => value.print

def word : Spelled → Word
  | fixed kind _ => ⟨kind, .none⟩
  | name text _ => ⟨.identifier, .name text⟩
  | literal value _ => ⟨.literal, .literal value⟩

open Lexeme (Spells Stands)

theorem exists_first {chars : List Char} (hstart : chars.head?.any isIdentStart = true)
    (hrest : chars.tail.all isIdentContinue = true) :
    ∃ c rest, chars = c :: rest ∧ isIdentStart c = true ∧
      ∀ d ∈ rest, isIdentContinue d = true := by
  cases chars with
  | nil => cases hstart
  | cons c rest => exact ⟨c, rest, rfl, hstart, List.all_eq_true.1 hrest⟩

theorem stands_word {text : String} (hstart : text.toList.head?.any isIdentStart = true)
    (hrest : text.toList.tail.all isIdentContinue = true) :
    let lexeme := Lexeme.identifier text.toList
    ∃ c rest, text.toList = c :: rest ∧ Stands c rest ⟨lexeme.kind, lexeme.payload⟩ := by
  obtain ⟨c, rest, htext, hstart, hrest⟩ := exists_first hstart hrest
  rw [htext]
  exact ⟨c, rest, rfl, Lexeme.stands_identifier hstart hrest⟩

theorem exists_spells {chars : List Char} {w : Word}
    (h : ∃ c rest, chars = c :: rest ∧ Stands c rest w) :
    ∃ c rest, chars = c :: rest ∧ Spells c rest w := by
  obtain ⟨c, rest, htext, hstands⟩ := h
  exact ⟨c, rest, htext, hstands.spells⟩

theorem stands_name {text : String} (h : IsName text) :
    ∃ c rest, text.toList = c :: rest ∧ Stands c rest ⟨.identifier, .name text⟩ := by
  have hword := stands_word h.start h.rest
  have hwhole : text.toList.takeWhile isIdentContinue = text.toList := by
    obtain ⟨c, rest, htext, hstart, hrest⟩ := exists_first h.start h.rest
    rw [htext]
    exact List.takeWhile_eq_self_iff.2
      (List.forall_mem_cons.2 ⟨isIdentContinue_of_isIdentStart hstart, hrest⟩)
  have hfree : TokenKind.keyword? text = none := TokenKind.keyword?_eq_none_iff.2 h.free
  simpa only [Lexeme.identifier, hwhole, String.ofList_toList, if_neg h.truth.1, if_neg h.truth.2,
    hfree] using hword

theorem stands_bool (value : Bool) :
    ∃ c rest, (Literal.bool value).print.toList = c :: rest ∧
      Stands c rest ⟨.literal, .literal (.bool value)⟩ := by
  cases value with
  | false =>
    have hstart : "false".toList.head?.any isIdentStart = true := by decide
    exact stands_word hstart (by decide)
  | true =>
    have hstart : "true".toList.head?.any isIdentStart = true := by decide
    exact stands_word hstart (by decide)

theorem stands_literal {value : Literal String} (h : value.isWhole = true) :
    ∃ c rest, value.print.toList = c :: rest ∧ Stands c rest ⟨.literal, .literal value⟩ := by
  cases value with
  | int value kind => exact Lexeme.stands_int value (by simpa [Literal.isWhole] using h)
  | float value kind => cases h
  | bool value => exact stands_bool value
  | char value => exact ⟨_, _, String.toList_ofList, Lexeme.stands_char value⟩
  | str text => exact ⟨_, _, String.toList_ofList, Lexeme.stands_string text⟩

/-- Every plain kind is spelled by one of the fixed lexemes, a command or a reserved word. -/
theorem plain_cases {kind : TokenKind} (h : kind.isPlain = true) :
    (kind.text.toList, kind) ∈ fixedLexemes ∨ kind ∈ [.pi, .lambda, .bottom] ∨
      kind ∈ TokenKind.keywords.take 10 := by
  cases kind <;> first | exact .inl (by decide) | exact .inr (by decide) | cases h

theorem spells_kind {kind : TokenKind} (h : kind.isPlain = true) :
    ∃ c rest, kind.text.toList = c :: rest ∧ Spells c rest ⟨kind, .none⟩ := by
  obtain hfixed | hcommand | hkeyword := plain_cases h
  · have hne : ∀ entry ∈ fixedLexemes, entry.1 ≠ [] := by decide
    obtain ⟨c, rest, htext⟩ := List.exists_cons_of_ne_nil (hne _ hfixed)
    dsimp only at htext
    rw [htext] at hfixed
    exact ⟨c, rest, htext, Lexeme.spells_fixed hfixed⟩
  · simp only [List.mem_cons, List.not_mem_nil, or_false] at hcommand
    rcases hcommand with rfl | rfl | rfl
    all_goals exact ⟨_, _, rfl, Lexeme.spells_command rfl rfl (by decide)⟩
  · simp only [TokenKind.keywords, List.take, List.mem_cons, List.not_mem_nil, or_false] at hkeyword
    rcases hkeyword with rfl | rfl | rfl | rfl | rfl | rfl | rfl | rfl | rfl | rfl
    all_goals exact exists_spells (stands_word (by decide) (by decide))

theorem spells : (s : Spelled) → ∃ c rest, s.text.toList = c :: rest ∧ Spells c rest s.word
  | fixed _ h => spells_kind h
  | name _ h => exists_spells (stands_name h)
  | literal _ h => exists_spells (stands_literal h)

end Spelled

/-! ## Sequences -/

namespace Spelled

/-- The texts of a sequence, joined by single spaces. -/
def joined (ss : List Spelled) : String := String.intercalate " " (ss.map text)

theorem joined_cons (s : Spelled) (ss : List Spelled) :
    ∃ gap, (joined (s :: ss)).toList = s.text.toList ++ (gap ++ (joined ss).toList) ∧
      Spacing (joined ss).toList gap ∧ Detached (gap ++ (joined ss).toList) := by
  cases ss with
  | nil => exact ⟨[], by simp [joined], .nil, Detached.nil⟩
  | cons next ss =>
    refine ⟨[' '], ?_, .white rfl .nil, Detached.space _⟩
    simp [joined, String.toList_intercalate]

end Spelled

namespace Token

variable {file : FileId} {rounds : Nat} {place : Place}

/-- A text that is one lexeme is read as one token, and what is set apart behind it alone. -/
theorem lexFrom_spells {c : Char} {rest : List Char} {w : Word} (h : Lexeme.Spells c rest w)
    {gap behind : List Char} (hgap : Spacing behind gap) (hdetached : Detached (gap ++ behind)) :
    lexFrom file (rounds + 1) place (c :: rest ++ (gap ++ behind)) =
      let stop := place.past (c :: rest)
      ⟨⟨w.kind, ⟨file, place, stop⟩, String.ofList (c :: rest), w.payload⟩, []⟩ ::
        lexFrom file rounds (stop.past gap) behind := by
  have hstops : Gap.scan ([] ++ c :: (rest ++ (gap ++ behind))) = ⟨0, none⟩ :=
    h.stops.append (fun d hd => hdetached d hd ▸ (by decide : ' ' ≠ '/' ∧ ' ' ≠ '*')) 0
  have hscan := h.scan _ hdetached
  have htake : (c :: rest ++ (gap ++ behind)).take (rest.length + 1) = c :: rest :=
    List.take_left' rfl
  have hdrop : (c :: rest ++ (gap ++ behind)).drop (rest.length + 1) = gap ++ behind :=
    List.drop_left' rfl
  rw [List.cons_append] at hscan htake hdrop ⊢
  have hread : lexFrom file (rounds + 1) place _ = _ := lexFrom_lexeme hstops
  simp only [List.nil_append, hscan, ofLexeme, htake, hdrop, List.map_nil, Place.past_nil] at hread
  rw [hread, lexFrom_spacing hgap]

open Spelled in
/-- Tokens whose texts are joined by single spaces are read back one by one. -/
theorem lexFrom_joined (file : FileId) (ss : List Spelled) {rounds : Nat} (place : Place)
    (h : (joined ss).toList.length < rounds) :
    let lexed := lexFrom file rounds place (joined ss).toList
    words (lexed.map Lexed.token) = ss.map Spelled.word ++ [⟨.eof, .none⟩] ∧
      lexed.map (·.token.text) = ss.map Spelled.text ++ [""] ∧
      ∀ l ∈ lexed, l.reports = [] := by
  induction ss generalizing rounds place with
  | nil =>
    obtain ⟨rounds, rfl⟩ := Nat.exists_eq_succ_of_ne_zero (Nat.ne_zero_of_lt h)
    exact ⟨rfl, rfl, List.forall_mem_singleton.2 rfl⟩
  | cons s ss ih =>
    obtain ⟨rounds, rfl⟩ := Nat.exists_eq_succ_of_ne_zero (Nat.ne_zero_of_lt h)
    obtain ⟨gap, hjoined, hspacing, hdetached⟩ := joined_cons s ss
    obtain ⟨c, rest, htext, hspells⟩ := s.spells
    have hlength := congrArg List.length hjoined
    rw [htext, List.length_append, List.length_append, List.length_cons] at hlength
    obtain ⟨hwords, htexts, hsilent⟩ :=
      ih ((place.past (c :: rest)).past gap) (by omega : _ < rounds)
    have hself : String.ofList (c :: rest) = s.text := by rw [← htext, String.ofList_toList]
    rw [hjoined, htext, lexFrom_spells hspells hspacing hdetached]
    refine ⟨?_, ?_, List.forall_mem_cons.2 ⟨rfl, hsilent⟩⟩
    · rw [List.map_cons, words_cons, hwords]
      rfl
    · rw [List.map_cons, htexts, hself]
      rfl

end Token

namespace Compiler

/-- What the tokens of a source name has a number in the name table, and the number leads back to
it. -/
theorem resolve?_lex (c : Compiler) (file : FileId) (source : String) :
    ∀ token ∈ (c.lex file source).1, ∀ text ∈ token.internedText?, ∃ symbol,
      (c.lex file source).2.names.get? text = some symbol ∧
        (c.lex file source).2.names.resolve? symbol = some text := by
  intro token htoken text htext
  rw [tokens_lex] at htoken
  obtain ⟨l, hl, rfl⟩ := List.mem_map.1 htoken
  have hmem : text ∈ (c.lex file source).2.names.texts := by
    rw [names_lex, Interner.mem_texts_internAll]
    exact .inr (List.mem_filterMap.2 ⟨l, hl, htext⟩)
  obtain ⟨symbol, hsymbol⟩ := Interner.mem_texts_iff.1 hmem
  exact ⟨symbol, hsymbol, Interner.resolve?_of_get? hsymbol⟩

/-- Lexing undoes canonical spelling: the texts of any tokens, joined by single spaces, have those
tokens and nothing else, and nothing is reported. Every name and every string has a number in the
name table, which leads back to its text. -/
theorem lex_joined (c : Compiler) (file : FileId) (ss : List Spelled) :
    let lexed := c.lex file (Spelled.joined ss)
    Token.words lexed.1 = ss.map Spelled.word ++ [⟨.eof, .none⟩] ∧
      lexed.1.map Token.text = ss.map Spelled.text ++ [""] ∧
      lexed.2.diagnostics = c.diagnostics ∧
      ∀ token ∈ lexed.1, ∀ text ∈ token.internedText?, ∃ symbol,
        lexed.2.names.get? text = some symbol ∧ lexed.2.names.resolve? symbol = some text := by
  obtain ⟨hwords, htexts, hsilent⟩ :=
    Token.lexFrom_joined file ss Place.first (Nat.lt_succ_self _)
  refine ⟨?_, ?_, ?_, resolve?_lex c file _⟩
  · rw [tokens_lex]
    exact hwords
  · rw [tokens_lex, ← htexts]
    exact List.map_map
  · have hnone : (Token.lex file (Spelled.joined ss)).flatMap Lexed.reports = [] :=
      List.flatMap_eq_nil_iff.2 hsilent
    rw [diagnostics_lex, hnone, Array.append_empty]

end Compiler

example : Spelled.joined [.fixed .kwLet rfl, .literal (.int 7 .u8) rfl, .literal (.char '\n') rfl] =
    "let 7u8 '\\n'" := by decide

end ImpLang
