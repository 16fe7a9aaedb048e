import ImpLang.Proofs.Token.Lines
import Mathlib.Data.Nat.Digits.Defs

/-!
Numbers at the front of a text. What stands behind a number neither goes on with its digits nor makes
a fraction, an exponent or a base of what it begins with, so the lexer takes the digits and the suffix
and nothing else. The value of an integer is what its digits denote, in any base.
-/

namespace ImpLang

/-! ## First characters -/

/-- What holds of the characters in a table of ranges is tested one by one. -/
theorem Text.forall_inRanges {table : List (Nat × Nat)} {p : Char → Bool}
    (hall : ∀ range ∈ table, ∀ n ∈ List.range' range.1 (range.2 + 1 - range.1),
      p (Char.ofNat n) = true) {c : Char} (h : inRanges table c.toNat = true) : p c = true := by
  obtain ⟨range, hrange, hfirst, hlast⟩ := inRanges_iff.1 h
  have hc := hall range hrange c.toNat (by rw [List.mem_range'_1]; omega)
  rwa [Char.ofNat_toNat] at hc

theorem ne_of_test {p : Char → Bool} {c d : Char} (hc : p c = true) (hd : p d = false) : c ≠ d := by
  rintro rfl
  rw [hc] at hd
  cases hd

/-- A character that passes a test which no white space passes is none. -/
theorem isWhiteSpace_of {p : Char → Bool} {c : Char} (hc : p c = true)
    (h : ∀ range ∈ Text.whiteSpaceRanges, ∀ n ∈ List.range' range.1 (range.2 + 1 - range.1),
      (!p (Char.ofNat n)) = true) : Text.isWhiteSpace c = false := by
  rw [Bool.eq_false_iff]
  intro hwhite
  have hnone := Text.forall_inRanges (p := (!p ·)) h hwhite
  simp [hc] at hnone

theorem inRanges_of_isDigit {c : Char} (h : c.isDigit = true) :
    Text.inRanges [(48, 57)] c.toNat = true := by
  simp only [Char.isDigit, Bool.and_eq_true, decide_eq_true_eq] at h
  have hfirst := UInt32.le_iff_toNat_le.1 h.1
  have hlast := UInt32.le_iff_toNat_le.1 h.2
  exact Text.inRanges_iff.2 ⟨_, List.mem_singleton_self _, hfirst, hlast⟩

theorem isDigit_of_isIdentStart {c : Char} (h : isIdentStart c = true) : c.isDigit = false := by
  rw [Bool.eq_false_iff]
  intro hdigit
  have hstart := Text.forall_inRanges (p := fun c => !isIdentStart c) (by decide)
    (inRanges_of_isDigit hdigit)
  simp [h] at hstart

namespace Gap

theorem stops_of_ne {c : Char} {rest : List Char} (hwhite : Text.isWhiteSpace c = false)
    (hslash : c ≠ '/') : Stops (c :: rest) := by
  refine fun _ => scanFrom_stops_iff.2 ⟨hwhite, ?_, ?_⟩
  · rw [List.cons_prefix_cons]
    exact fun h => hslash h.1.symm
  · rw [List.cons_prefix_cons]
    exact fun h => hslash h.1.symm

end Gap

namespace Lexeme

/-- A text whose first character passes a test begins with no fixed lexeme if none of their first
characters passes it. -/
theorem fixedLexeme?_none {c : Char} {p : Char → Bool} (hc : p c = true)
    (h : ∀ entry ∈ fixedLexemes, entry.1.head?.any (!p ·) = true) (rest : List Char) :
    fixedLexeme? (c :: rest) = none := by
  rw [fixedLexeme?, Option.map_eq_none_iff, List.find?_eq_none]
  intro entry hentry hprefix
  have hhead := h entry hentry
  obtain ⟨behind, hbehind⟩ := List.isPrefixOf_iff_prefix.1 hprefix
  cases hchars : entry.1 with
  | nil => simp [hchars] at hhead
  | cons d chars =>
    rw [hchars, List.cons_append, List.cons.injEq] at hbehind
    simp [hchars, hbehind.1, hc] at hhead

theorem fixedLexeme?_none_of_ne {c : Char}
    (h : ∀ entry ∈ fixedLexemes, entry.1.head?.any (· != c) = true) (rest : List Char) :
    fixedLexeme? (c :: rest) = none :=
  fixedLexeme?_none (p := (· == c)) (beq_self_eq_true c) h rest

end Lexeme

/-! ## What stands behind a number -/

namespace Number

/-- A text that does not go on with a number or its suffix. -/
def Delimits (behind : List Char) : Prop := ∀ c ∈ behind.head?, c ≠ '.' ∧ isIdentContinue c = false

/-- Whether a character can go on with a number in front of its suffix. -/
def goesOn (radix : Nat) (c : Char) : Bool :=
  isNumeral radix c || c == '.' || c == 'e' || c == 'E' || (radix? c).isSome

/-- A text at which the digits in front of it end. -/
def Ends (radix : Nat) (tail : List Char) : Prop := ∀ c ∈ tail.head?, goesOn radix c = false

theorem isIdentContinue_of_isNumeral {radix : Nat} (h : radix ≤ 36) {c : Char}
    (hc : isNumeral radix c = true) : isIdentContinue c = true := by
  have hrange : Text.inRanges [(48, 57), (65, 90), (95, 95), (97, 122)] c.toNat = true := by
    have hletter : ∀ {a b : Char}, a ≤ c ∧ c ≤ b → (a.toNat, b.toNat) ∈
        [(48, 57), (65, 90), (95, 95), (97, 122)] →
        Text.inRanges [(48, 57), (65, 90), (95, 95), (97, 122)] c.toNat = true :=
      fun hab hmem => Text.inRanges_iff.2 ⟨_, hmem, UInt32.le_iff_toNat_le.1 hab.1,
        UInt32.le_iff_toNat_le.1 hab.2⟩
    rcases Bool.or_eq_true_iff.1 hc with hdigit | hunderscore
    · have hvalue : digitValue c < radix := of_decide_eq_true hdigit
      rw [digitValue] at hvalue
      split at hvalue
      · next hdigit =>
        rw [Char.isDigit, Bool.and_eq_true, decide_eq_true_eq, decide_eq_true_eq] at hdigit
        exact hletter (a := '0') (b := '9') hdigit (by decide)
      · split at hvalue
        · next hlower => exact hletter hlower (by decide)
        · split at hvalue
          · next hupper => exact hletter hupper (by decide)
          · omega
    · obtain rfl := beq_iff_eq.1 hunderscore
      decide
  exact Text.forall_inRanges (by decide) hrange

theorem goesOn_of_not {radix : Nat} (h : radix ≤ 36) {c : Char} (hpoint : c ≠ '.')
    (hc : isIdentContinue c = false) : goesOn radix c = false := by
  have hnumeral : isNumeral radix c = false := by
    rw [Bool.eq_false_iff]
    intro hnumeral
    rw [isIdentContinue_of_isNumeral h hnumeral] at hc
    cases hc
  have hletter : ∀ d, isIdentContinue d = true → c ≠ d := by
    rintro d hd rfl
    rw [hd] at hc
    cases hc
  have hradix : radix? c = none := by
    rw [radix?.eq_def]
    split <;> first | rfl | exact absurd rfl (hletter _ (by decide))
  simp [goesOn, hnumeral, hpoint, hletter 'e' (by decide), hletter 'E' (by decide), hradix]

variable {radix : Nat} {kind : NumKind} {behind tail digits : List Char}

/-- No suffix of an integer begins with a digit, not even with one of base sixteen. -/
theorem ends_suffix_int (hradix : radix ≤ 16) (hkind : kind.isFloat = false) (h : Delimits behind) :
    Ends radix (kind.suffix.toList ++ behind) := by
  have hall : ∀ radix ≤ 16, goesOn radix 'i' = false ∧ goesOn radix 'u' = false := by decide
  cases kind
  case untyped => exact fun c hc => goesOn_of_not (by omega) (h c hc).1 (h c hc).2
  case f32 => cases hkind
  case f64 => cases hkind
  case i8 | i16 | i32 | i64 => exact fun c hc => Option.some.inj hc ▸ (hall radix hradix).1
  case u8 | u16 | u32 | u64 => exact fun c hc => Option.some.inj hc ▸ (hall radix hradix).2

theorem ends_suffix (h : Delimits behind) : Ends 10 (kind.suffix.toList ++ behind) := by
  cases kind
  case f32 | f64 => exact fun c hc => Option.some.inj hc ▸ (by decide)
  all_goals exact ends_suffix_int (by decide) rfl h

theorem Delimits.word (h : Delimits behind) : ∀ c ∈ behind.head?, isIdentContinue c = false :=
  fun c hc => (h c hc).2

/-- A run of characters ends where one follows that does not belong to it. -/
theorem takeWhile_run {p : Char → Bool} {chars tail : List Char} (h : ∀ c ∈ tail.head?, p c = false)
    (hall : ∀ c ∈ chars, p c = true) : (chars ++ tail).takeWhile p = chars := by
  rw [List.takeWhile_append_of_pos hall]
  cases tail with
  | nil => rw [List.takeWhile_nil, List.append_nil]
  | cons c tail => rw [List.takeWhile_cons_of_neg (by simp [h c rfl]), List.append_nil]

theorem suffix_suffix (kind : NumKind) (h : ∀ c ∈ behind.head?, isIdentContinue c = false) :
    suffix (kind.suffix.toList ++ behind) = kind.suffix.toList := by
  have hall : kind.suffix.toList.all isIdentContinue = true := by cases kind <;> decide
  have hstart : kind.suffix.toList.head?.all isIdentStart = true := by cases kind <;> decide
  rw [suffix.eq_def, takeWhile_run h (List.all_eq_true.1 hall)]
  split
  · next c rest heq =>
    split
    · rfl
    · next hc =>
      -- A character that begins no identifier begins no suffix.
      cases hsuffix : kind.suffix.toList with
      | nil => rfl
      | cons d chars =>
        rw [hsuffix, List.cons_append, List.cons.injEq] at heq
        rw [hsuffix, heq.1] at hstart
        exact absurd hstart hc
  · next heq => exact (List.append_eq_nil_iff.1 heq).1.symm

theorem kindOf_suffix (kind : NumKind) : kindOf false kind.suffix.toList = (kind, none) := by
  cases kind <;> rfl

/-- No letter behind a zero makes it the prefix of a base. -/
theorem radix?_append (hne : digits ≠ []) (hdigits : ∀ c ∈ digits, isNumeral 10 c = true)
    (h : ∀ c ∈ tail.head?, radix? c = none) :
    ∀ x rest, digits ++ tail = '0' :: x :: rest → radix? x = none := by
  intro x rest heq
  rcases digits with _ | ⟨d, _ | ⟨d', digits⟩⟩
  · exact absurd rfl hne
  · rw [List.singleton_append, List.cons.injEq] at heq
    exact h x (by rw [heq.2]; rfl)
  · obtain ⟨-, rfl, -⟩ : d = '0' ∧ d' = x ∧ digits ++ tail = rest := by simpa using heq
    have hnumeral := hdigits d' (by simp)
    rw [radix?.eq_def]
    split <;> first | rfl | exact absurd hnumeral (by decide)

theorem fraction_nil (h : ∀ c ∈ tail.head?, c ≠ '.') : fraction tail = [] := by
  rw [fraction.eq_def]
  split
  · exact absurd rfl (h _ rfl)
  · rfl

namespace Ends

variable (h : Ends radix tail)

include h

theorem numeral : ∀ c ∈ tail.head?, isNumeral radix c = false := by
  intro c hc
  have hnone := h c hc
  simp only [goesOn, Bool.or_eq_false_iff] at hnone
  exact hnone.1.1.1.1

theorem point : ∀ c ∈ tail.head?, c ≠ '.' := by
  rintro c hc rfl
  have hnone := h _ hc
  simp [goesOn] at hnone

theorem letter : ∀ c ∈ tail.head?, radix? c = none := by
  intro c hc
  have hnone := h c hc
  simp only [goesOn, Bool.or_eq_false_iff, Option.isSome_eq_false_iff,
    Option.isNone_iff_eq_none] at hnone
  exact hnone.2

theorem exponent : exponent tail = [] := by
  rw [exponent.eq_def]
  split
  · have hc := h _ rfl
    simp only [goesOn, Bool.or_eq_false_iff, beq_eq_false_iff_ne] at hc
    rw [if_neg (by simp [hc])]
  · rfl

end Ends

/-! ## Values -/

/-- The value of digits is what they denote, the last one counting once. -/
theorem value_eq_ofDigits (radix : Nat) (digits : List Char) :
    value radix digits = Nat.ofDigits radix (digits.reverse.map digitValue) := by
  induction digits using List.reverseRecOn with
  | nil => rfl
  | append_singleton digits c ih =>
    have hlast : value radix (digits ++ [c]) = value radix digits * radix + digitValue c := by
      simp [value]
    rw [hlast, ih, List.reverse_append, List.reverse_singleton, List.singleton_append, List.map_cons,
      Nat.ofDigits_cons, Nat.mul_comm, Nat.add_comm]

/-! ## Integers -/

/-- Decimal digits, with separators between and behind them. -/
inductive IsDecimal : List Char → Prop
  | cons {c : Char} {rest : List Char} (first : c.isDigit = true)
      (others : ∀ d ∈ rest, d.isDigit = true ∨ d = '_') : IsDecimal (c :: rest)

namespace IsDecimal

theorem ne_nil (h : IsDecimal digits) : digits ≠ [] := by
  cases h with
  | cons first others => exact List.cons_ne_nil _ _

theorem isNumeral (h : IsDecimal digits) : ∀ c ∈ digits, isNumeral 10 c = true := by
  cases h with
  | cons first others =>
    refine List.forall_mem_cons.2 ⟨isNumeral_of_isDigit first, fun d hd => ?_⟩
    rcases others d hd with hdigit | rfl
    · exact isNumeral_of_isDigit hdigit
    · rfl

theorem of_isDigit (hne : digits ≠ []) (h : ∀ c ∈ digits, c.isDigit = true) :
    IsDecimal digits := by
  obtain ⟨c, rest, rfl⟩ := List.exists_cons_of_ne_nil hne
  exact .cons (h c List.mem_cons_self) fun d hd => .inl (h d (List.mem_cons_of_mem c hd))

theorem toDigits (n : Nat) : IsDecimal (Nat.toDigits 10 n) :=
  of_isDigit Nat.toDigits_ne_nil fun _ hc =>
    Nat.isDigit_of_mem_toDigits (by decide) (by decide) hc

end IsDecimal

/-- The text of an integer, with its base and the part that holds its digits. -/
inductive IsInteger : (radix : Nat) → (text numerals : List Char) → Prop
  | decimal {numerals : List Char} (h : IsDecimal numerals) : IsInteger 10 numerals numerals
  | based {radix : Nat} {x : Char} {numerals : List Char}
      (letter : (x, radix) ∈ [('x', 16), ('X', 16), ('o', 8), ('O', 8), ('b', 2), ('B', 2)])
      (others : ∀ d ∈ numerals, digitValue d < radix ∨ d = '_')
      (digit : ∃ d ∈ numerals, d ≠ '_') : IsInteger radix ('0' :: x :: numerals) numerals

/-- A decimal number with all its parts. -/
theorem decimalLexeme_append (whole fr ex : List Char)
    (hbehind : ∀ c ∈ behind.head?, isIdentContinue c = false)
    (hwhole : (whole ++ (fr ++ (ex ++ (kind.suffix.toList ++ behind)))).takeWhile (isNumeral 10) =
      whole)
    (hfraction : fraction (fr ++ (ex ++ (kind.suffix.toList ++ behind))) = fr)
    (hexponent : exponent (ex ++ (kind.suffix.toList ++ behind)) = ex)
    (hkind : kindOf (fr != [] || ex != []) kind.suffix.toList = (kind, none)) :
    let size := whole.length + fr.length + ex.length + kind.suffix.toList.length
    let word := word? 10 (digitsOf whole)
    decimalLexeme (whole ++ (fr ++ (ex ++ (kind.suffix.toList ++ behind)))) =
      if (fr != [] || ex != []) || kind.isFloat then
        ⟨.literal, size, .literal (.float (float whole fr ex) kind), []⟩
      else
        ⟨.literal, size, .literal (.int (word.getD 0) kind),
          faultOf size (if word = none then some .integerTooLarge else none)⟩ := by
  have hdrop : (whole ++ (fr ++ (ex ++ (kind.suffix.toList ++ behind)))).drop
      (whole.length + fr.length) = ex ++ (kind.suffix.toList ++ behind) := by
    rw [← List.append_assoc, List.drop_left' (List.length_append ..)]
  have hdrop' : (whole ++ (fr ++ (ex ++ (kind.suffix.toList ++ behind)))).drop
      (whole.length + fr.length + ex.length) = kind.suffix.toList ++ behind := by
    rw [← List.append_assoc, ← List.append_assoc, List.drop_left' (by simp [Nat.add_assoc])]
  simp only [decimalLexeme, hwhole, List.drop_left, hfraction, hdrop, hexponent, hdrop',
    suffix_suffix kind hbehind, hkind, faultOf, List.nil_append]

variable {text numerals : List Char}

/-- An integer is read as a whole, with its suffix, and its value is that of its digits. -/
theorem lexeme_integer (h : IsInteger radix text numerals) (hkind : kind.isFloat = false)
    (hbehind : Delimits behind) :
    let word := word? radix (digitsOf numerals)
    ∃ size, lexeme (text ++ (kind.suffix.toList ++ behind)) =
      ⟨.literal, text.length + kind.suffix.toList.length, .literal (.int (word.getD 0) kind),
        faultOf size (if word = none then some .integerTooLarge else none)⟩ := by
  cases h with
  | decimal h =>
    have hends : Ends 10 (kind.suffix.toList ++ behind) := ends_suffix hbehind
    have hread := decimalLexeme_append text [] [] hbehind.word
      (takeWhile_run hends.numeral h.isNumeral) (fraction_nil hends.point)
      hends.exponent (kindOf_suffix kind)
    rw [lexeme_decimal (radix?_append h.ne_nil h.isNumeral hends.letter)]
    exact ⟨text.length + kind.suffix.toList.length, hread.trans (by simp [hkind])⟩
  | @based radix x numerals letter others digit =>
    have hradix : radix? x = some radix ∧ radix ≤ 16 := by
      simp only [List.mem_cons, Prod.mk.injEq, List.not_mem_nil, or_false] at letter
      rcases letter with ⟨rfl, rfl⟩ | ⟨rfl, rfl⟩ | ⟨rfl, rfl⟩ | ⟨rfl, rfl⟩ | ⟨rfl, rfl⟩ | ⟨rfl, rfl⟩
      all_goals exact ⟨rfl, by decide⟩
    have hall : ∀ d ∈ numerals, isNumeral radix d = true := fun d hd => by
      simpa [isNumeral, isDigitOf] using others d hd
    have hdigits : digitsOf numerals ≠ [] := by
      obtain ⟨d, hd, hne⟩ := digit
      exact List.ne_nil_of_mem (List.mem_filter.2 ⟨hd, by simpa using hne⟩)
    have hends : Ends radix (kind.suffix.toList ++ behind) :=
      ends_suffix_int hradix.2 hkind hbehind
    refine ⟨numerals.length + 2, ?_⟩
    simp only [List.cons_append, lexeme, hradix.1, basedLexeme, List.drop_succ_cons, List.drop_zero,
      takeWhile_run hends.numeral hall, List.drop_left, suffix_suffix kind hbehind.word, kindOf_suffix,
      hkind, hdigits, if_false, faultOf, List.append_nil, List.length_cons, Bool.false_eq_true]

end Number

/-! ## Tokens -/

theorem Lexeme.scan_number {c : Char} (h : c.isDigit = true) (rest : List Char) :
    scan c (c :: rest) = Number.lexeme (c :: rest) := by
  have hother : ∀ {d : Char}, d.isDigit = false → c ≠ d := ne_of_test h
  simp only [scan, fixedLexeme?_none h (by decide) rest, if_neg (hother (d := '\\') rfl),
    if_neg (hother (d := '"') rfl), if_neg (hother (d := '\'') rfl), h, if_true]

theorem Gap.stops_number {c : Char} (h : c.isDigit = true) (rest : List Char) :
    Stops (c :: rest) :=
  stops_of_ne (isWhiteSpace_of h (by decide)) (ne_of_test h rfl)

namespace Token

/-- A number at the front of a text is its first token. -/
theorem lexFrom_number (file : FileId) (rounds : Nat) (place : Place) {c : Char} {rest behind : List Char} {lexeme : Lexeme}
    (hdigit : c.isDigit = true) (hlexeme : Number.lexeme (c :: rest ++ behind) = lexeme)
    (hsize : lexeme.size = (c :: rest).length) :
    lexFrom file (rounds + 1) place (c :: rest ++ behind) =
      let stop := place.past (c :: rest)
      ⟨⟨lexeme.kind, ⟨file, place, stop⟩, String.ofList (c :: rest), lexeme.payload⟩,
          lexeme.faults.map (·.report file place (c :: rest ++ behind))⟩ ::
        lexFrom file rounds stop behind := by
  have hstops : Gap.scan ([] ++ c :: (rest ++ behind)) = ⟨0, none⟩ :=
    Gap.stops_number hdigit (rest ++ behind) 0
  have hread : lexFrom file (rounds + 1) place _ = _ := lexFrom_lexeme hstops
  have htake : (c :: rest ++ behind).take (c :: rest).length = c :: rest := List.take_left
  have hdrop : (c :: rest ++ behind).drop (c :: rest).length = behind := List.drop_left
  rw [List.cons_append] at hlexeme htake hdrop ⊢
  simp only [List.nil_append, Lexeme.scan_number hdigit, hlexeme, ofLexeme, hsize, htake, hdrop,
    Place.past_nil] at hread
  exact hread

open Number (IsInteger Delimits digitsOf digitValue)

/-- Integers are decoded exactly. The text of an integer in any base with the suffix of an integer or
none, in front of what does not go on with it, is one token. Its value is what the digits denote if
64 bits hold that, and nothing is reported; else it is zero, and one report says that it is too
large. Its kind is that of the suffix. -/
theorem lexFrom_integer (file : FileId) (rounds : Nat) (place : Place) {radix : Nat}
    {text numerals behind : List Char} {kind : NumKind} (h : IsInteger radix text numerals)
    (hkind : kind.isFloat = false) (hbehind : Delimits behind) :
    let denoted := Nat.ofDigits radix ((digitsOf numerals).reverse.map digitValue)
    let written := text ++ kind.suffix.toList
    let stop := place.past written
    ∃ value reports, lexFrom file (rounds + 1) place (written ++ behind) =
        ⟨⟨.literal, ⟨file, place, stop⟩, String.ofList written, .literal (.int value kind)⟩,
          reports⟩ :: lexFrom file rounds stop behind ∧
      (denoted < 2 ^ 64 → value.toNat = denoted ∧ reports = []) ∧
      (2 ^ 64 ≤ denoted → value = 0 ∧ ∃ d, reports = [d] ∧ d.code = some "E0005") := by
  intro denoted written stop
  obtain ⟨size, hlexeme⟩ := Number.lexeme_integer h hkind hbehind
  obtain ⟨c, rest, htext, hdigit⟩ : ∃ c rest, text = c :: rest ∧ c.isDigit = true := by
    cases h with
    | decimal h =>
      cases h with
      | @cons c rest first _ => exact ⟨c, rest, rfl, first⟩
    | @based _ x numerals _ _ _ => exact ⟨'0', x :: numerals, rfl, rfl⟩
  have hdenoted : Number.value radix (digitsOf numerals) = denoted :=
    Number.value_eq_ofDigits radix _
  have hwritten : written = c :: (rest ++ kind.suffix.toList) := by
    rw [← List.cons_append, ← htext]
  rw [← List.append_assoc, show text ++ kind.suffix.toList = _ from hwritten] at hlexeme
  have hread := lexFrom_number file rounds place hdigit hlexeme
    (by rw [← hwritten, List.length_append])
  rw [← hwritten] at hread
  refine ⟨_, _, hread, fun hlt => ?_, fun hge => ?_⟩
  · have hword : Number.word? radix (digitsOf numerals) = some (UInt64.ofNatLT denoted hlt) := by
      simp only [Number.word?, hdenoted]
      exact dif_pos hlt
    rw [hword]
    exact ⟨UInt64.toNat_ofNatLT .., rfl⟩
  · have hword : Number.word? radix (digitsOf numerals) = none := by
      simp only [Number.word?, hdenoted]
      exact dif_neg (Nat.not_lt.2 hge)
    rw [hword]
    exact ⟨rfl, _, rfl, rfl⟩

/-- A number of base sixteen that a semicolon ends. -/
theorem lexFrom_integer_hex :
    Number.IsInteger 16 "0xF_f".toList "F_f".toList ∧ NumKind.u8.isFloat = false ∧
      Number.Delimits [';'] ∧
      ∃ lexed rest, lexFrom ⟨0⟩ 10 Place.first ("0xF_f".toList ++ NumKind.u8.suffix.toList ++ [';']) =
          lexed :: rest ∧
        lexed.token.text = "0xF_fu8" ∧ lexed.token.payload = .literal (.int 255 .u8) ∧
        lexed.reports = [] := by
  have hothers : ∀ d ∈ "F_f".toList, Number.digitValue d < 16 ∨ d = '_' := by
    simp [Number.digitValue]
  have hinteger : Number.IsInteger 16 "0xF_f".toList "F_f".toList :=
    .based (by decide) hothers ⟨'F', by decide, by decide⟩
  have hkind : NumKind.u8.isFloat = false := rfl
  have hdelimits : Number.Delimits [';'] := fun c hc => Option.some.inj hc ▸ (by decide)
  obtain ⟨value, reports, hread, hfits, -⟩ :=
    lexFrom_integer ⟨0⟩ 9 Place.first hinteger hkind hdelimits
  obtain ⟨hvalue, hsilent⟩ := hfits (by decide)
  have h255 : value = 255 := UInt64.toNat_inj.1 (hvalue.trans (by decide))
  have htext : String.ofList ("0xF_f".toList ++ NumKind.u8.suffix.toList) = "0xF_fu8" := by decide
  exact ⟨hinteger, hkind, hdelimits, _, _, hread, htext, by rw [h255], hsilent⟩

end Token

end ImpLang
