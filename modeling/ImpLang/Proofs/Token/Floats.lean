import ImpLang.Proofs.Token.Spelling

/-!
Floats in a text, and the canonical texts of floats. A float is read as a whole, with its suffix.
What the printer writes for a finite number is a float again, so it is read back with its kind. What
it writes for infinity is a word and no number: the lexer takes it for an identifier.
-/

namespace ImpLang

namespace Number

/-- Nothing, or a point with digits behind it. -/
inductive IsFraction : List Char → Prop
  | nil : IsFraction []
  | point {digits : List Char} (h : IsDecimal digits) : IsFraction ('.' :: digits)

/-- Nothing, or the mark of an exponent with digits behind it that may have a sign. -/
inductive IsExponent : List Char → Prop
  | nil : IsExponent []
  | mark {mark : Char} {sign digits : List Char} (letter : mark = 'e' ∨ mark = 'E')
      (signed : sign ∈ [[], ['+'], ['-']]) (h : IsDecimal digits) :
      IsExponent (mark :: (sign ++ digits))

/-- The parts of a float. Digits alone are one if their suffix says so. -/
structure IsFloat (whole fr ex : List Char) (kind : NumKind) : Prop where
  digits : IsDecimal whole
  fraction : IsFraction fr
  exponent : IsExponent ex
  suffix : kind = .untyped ∨ kind.isFloat = true
  float : fr ≠ [] ∨ ex ≠ [] ∨ kind.isFloat = true

variable {kind : NumKind} {whole fr ex tail behind : List Char}

/-! ## Reading floats -/

/-- What stands behind the digits in front of a point or an exponent neither goes on with them nor
makes a base of them. -/
def Breaks (tail : List Char) : Prop :=
  ∀ c ∈ tail.head?, isNumeral 10 c = false ∧ radix? c = none

namespace IsExponent

theorem exponent_append (h : IsExponent ex) (hends : Ends 10 tail) : exponent (ex ++ tail) = ex := by
  cases h with
  | nil => exact hends.exponent
  | @mark mark sign digits letter signed h =>
    have hrun := takeWhile_run hends.numeral h.isNumeral
    obtain ⟨first, others⟩ := h
    simp only [List.mem_cons, List.not_mem_nil, or_false] at signed
    have hsign : '+'.isDigit = false ∧ '-'.isDigit = false := by decide
    rw [exponent.eq_def]
    rcases signed with rfl | rfl | rfl
    all_goals
      simp only [List.nil_append, List.cons_append, letter, first, hsign, if_true, true_or, or_true,
        Bool.false_eq_true, if_false] at hrun ⊢
      rw [hrun]

theorem head_append (h : IsExponent ex) (hends : Ends 10 tail) :
    ∀ c ∈ (ex ++ tail).head?, c ≠ '.' := by
  cases h with
  | nil => exact hends.point
  | mark letter _ _ =>
    rintro c hc rfl
    obtain rfl := Option.some.inj hc
    simp at letter

theorem breaks (h : IsExponent ex) (hends : Ends 10 tail) : Breaks (ex ++ tail) := by
  cases h with
  | nil => exact fun c hc => ⟨hends.numeral c hc, hends.letter c hc⟩
  | mark letter _ _ =>
    rintro c hc
    obtain rfl := Option.some.inj hc
    rcases letter with rfl | rfl <;> exact ⟨rfl, rfl⟩

end IsExponent

namespace IsFraction

theorem fraction_append (h : IsFraction fr) (hpoint : ∀ c ∈ tail.head?, c ≠ '.')
    (hbreaks : Breaks tail) : fraction (fr ++ tail) = fr := by
  cases h with
  | nil => exact fraction_nil hpoint
  | point h =>
    have hrun := takeWhile_run (fun c hc => (hbreaks c hc).1) h.isNumeral
    obtain ⟨first, others⟩ := h
    rw [List.cons_append, List.cons_append, fraction, if_pos first, ← List.cons_append, hrun]

theorem breaks (h : IsFraction fr) (hbreaks : Breaks tail) : Breaks (fr ++ tail) := by
  cases h with
  | nil => exact hbreaks
  | point _ => exact fun c hc => Option.some.inj hc ▸ ⟨rfl, rfl⟩

end IsFraction

theorem kindOf_suffix_float (h : kind = .untyped ∨ kind.isFloat = true) (isFloat : Bool) :
    kindOf isFloat kind.suffix.toList = (kind, none) := by
  cases isFloat <;> cases kind <;> first | rfl | simp [NumKind.isFloat] at h

/-- A float is read as a whole, with its suffix. -/
theorem lexeme_float (h : IsFloat whole fr ex kind) (hbehind : Delimits behind) :
    lexeme (whole ++ (fr ++ (ex ++ (kind.suffix.toList ++ behind)))) =
      ⟨.literal, whole.length + fr.length + ex.length + kind.suffix.toList.length,
        .literal (.float (float whole fr ex) kind), []⟩ := by
  have hends : Ends 10 (kind.suffix.toList ++ behind) := ends_suffix hbehind
  have hexponent := h.exponent.breaks hends
  have hfraction := h.fraction.breaks hexponent
  have hread := decimalLexeme_append whole fr ex hbehind.word
    (takeWhile_run (fun c hc => (hfraction c hc).1) h.digits.isNumeral)
    (h.fraction.fraction_append (h.exponent.head_append hends) hexponent)
    (h.exponent.exponent_append hends) (kindOf_suffix_float h.suffix _)
  have hfloat : ((fr != [] || ex != []) || kind.isFloat) = true := by
    simpa [or_assoc] using h.float
  rw [lexeme_decimal (radix?_append h.digits.ne_nil h.digits.isNumeral fun c hc => (hfraction c hc).2),
    hread, if_pos hfloat]

end Number

/-! ## Written floats -/

namespace Decimal

theorem Digits.isDigit_shortest (x : Binary64) : ∀ c ∈ (shortest x).digits, c.isDigit = true := by
  have hscaled : ∀ n g, ∀ c ∈ (ofScaled n g).digits, c.isDigit = true := by
    intro n g c hc
    have hmem := List.dropWhile_subset _ (List.mem_reverse.1 hc)
    exact Nat.isDigit_of_mem_toDigits (by decide) (by decide) (List.mem_reverse.1 hmem)
  rw [shortest]
  split
  · exact fun _ hc => nomatch hc
  · exact hscaled _ _

open Number (IsDecimal IsFraction IsExponent IsFloat)

theorem isExponent_toString (n : Int) : IsExponent ('e' :: (toString n).toList) := by
  cases n with
  | ofNat n =>
    have htext : (toString (Int.ofNat n)).toList = [] ++ Nat.toDigits 10 n := String.toList_ofList
    rw [htext]
    exact .mark (.inl rfl) (by decide) (.toDigits n)
  | negSucc n =>
    have htext : (toString (Int.negSucc n)).toList = ['-'] ++ Nat.toDigits 10 (n + 1) := by
      change ("-" ++ Nat.repr (n + 1)).toList = _
      simp [Nat.repr]
    rw [htext]
    exact .mark (.inl rfl) (by decide) (.toDigits (n + 1))

namespace Layout

variable {kind : NumKind}

/-- The parts of a number that is written positionally. -/
theorem isFloat_positional {d : Digits} (hne : d.digits ≠ [])
    (hdigits : ∀ c ∈ d.digits, c.isDigit = true) :
    ∃ whole places, positional d = whole ++ '.' :: places ∧ IsDecimal whole ∧ IsDecimal places := by
  have hzeros : ∀ n, ∀ c ∈ List.replicate n '0', c.isDigit = true := fun n c hc =>
    List.eq_of_mem_replicate hc ▸ rfl
  rw [positional]
  split
  · refine ⟨['0'], _, rfl, .toDigits 0, .of_isDigit (List.append_ne_nil_of_right_ne_nil _ hne) ?_⟩
    exact List.forall_mem_append.2 ⟨hzeros _, hdigits⟩
  · next hpoint =>
    dsimp only
    split
    · refine ⟨_, ['0'], rfl, .of_isDigit (List.append_ne_nil_of_left_ne_nil hne _) ?_, .toDigits 0⟩
      exact List.forall_mem_append.2 ⟨hdigits, hzeros _⟩
    · next hlength =>
      refine ⟨_, _, rfl, .of_isDigit ?_ ?_, .of_isDigit ?_ ?_⟩
      · rw [Ne, List.take_eq_nil_iff, not_or]
        exact ⟨by omega, hne⟩
      · exact fun c hc => hdigits c (List.mem_of_mem_take hc)
      · rw [Ne, List.drop_eq_nil_iff]
        omega
      · exact fun c hc => hdigits c (List.mem_of_mem_drop hc)

/-- The parts of a number that is written with an exponent. -/
theorem isFloat_scientific {d : Digits} (hne : d.digits ≠ [])
    (hdigits : ∀ c ∈ d.digits, c.isDigit = true) :
    ∃ whole fr, scientific d = whole ++ (fr ++ 'e' :: (toString (d.point - 1)).toList) ∧
      IsDecimal whole ∧ IsFraction fr := by
  have hone : ∀ {c}, c.isDigit = true → IsDecimal [c] := fun hc => .cons hc fun _ h => nomatch h
  rw [scientific]
  split
  · next heq => exact absurd heq hne
  · next x heq =>
    rw [heq] at hdigits
    exact ⟨[x], [], rfl, hone (hdigits x List.mem_cons_self), .nil⟩
  · next x rest hrest heq =>
    rw [heq] at hdigits
    obtain ⟨hfirst, hothers⟩ := List.forall_mem_cons.1 hdigits
    exact ⟨[x], '.' :: rest, rfl, hone hfirst, .point (.of_isDigit hrest hothers)⟩

/-- The written form of a finite number has the parts of a float. -/
theorem isFloat_write (layout : Layout) {x : Binary64} (h : x.isInfinite = false)
    (hkind : kind = .untyped ∨ kind.isFloat = true) :
    ∃ whole fr ex, layout.write x = whole ++ (fr ++ ex) ∧ IsFloat whole fr ex kind := by
  have hpoint : ∀ {whole places}, IsDecimal whole → IsDecimal places →
      IsFloat whole ('.' :: places) [] kind := fun hwhole hplaces =>
    ⟨hwhole, .point hplaces, .nil, hkind, .inl (List.cons_ne_nil _ _)⟩
  have hdigits := Digits.isDigit_shortest x
  rw [write, h, if_neg (by decide)]
  dsimp only
  split
  · exact ⟨['0'], ['.', '0'], [], rfl, hpoint (.toDigits 0) (.toDigits 0)⟩
  · next hne =>
    split
    · obtain ⟨whole, places, htext, hwhole, hplaces⟩ := isFloat_positional hne hdigits
      exact ⟨whole, '.' :: places, [], by rw [htext, List.append_nil], hpoint hwhole hplaces⟩
    · obtain ⟨whole, fr, htext, hwhole, hfraction⟩ := isFloat_scientific hne hdigits
      exact ⟨whole, fr, _, htext, hwhole, hfraction, isExponent_toString _, hkind,
        .inr (.inl (List.cons_ne_nil _ _))⟩

end Layout

end Decimal

/-! ## Tokens -/

namespace Token

variable {whole fr ex behind : List Char} {kind : NumKind} {rounds : Nat}

open Number (IsFloat Delimits)

/-- A float with its suffix, in front of what does not go on with it, is one token, and nothing is
reported. -/
theorem lexFrom_float (file : FileId) (rounds : Nat) (place : Place) (h : IsFloat whole fr ex kind)
    (hbehind : Delimits behind) :
    let written := whole ++ (fr ++ (ex ++ kind.suffix.toList))
    let stop := place.past written
    lexFrom file (rounds + 1) place (written ++ behind) =
      ⟨⟨.literal, ⟨file, place, stop⟩, String.ofList written,
          .literal (.float (Number.float whole fr ex) kind)⟩, []⟩ ::
        lexFrom file rounds stop behind := by
  intro written stop
  have hlexeme := Number.lexeme_float h hbehind
  obtain ⟨c, rest, hwhole, hdigit⟩ : ∃ c rest, whole = c :: rest ∧ c.isDigit = true := by
    cases h.digits with
    | @cons c rest first _ => exact ⟨c, rest, rfl, first⟩
  have hwritten : written = c :: (rest ++ (fr ++ (ex ++ kind.suffix.toList))) := by
    rw [← List.cons_append, ← hwhole]
  have hassoc : whole ++ (fr ++ (ex ++ (kind.suffix.toList ++ behind))) = written ++ behind := by
    simp only [written, List.append_assoc]
  rw [hassoc, hwritten] at hlexeme
  rw [hwritten, lexFrom_number file rounds place hdigit hlexeme (by rw [← hwritten]; simp [written, Nat.add_assoc]),
    ← hwritten]
  rfl

/-- A float with its suffix alone. -/
theorem lex_float (file : FileId) (h : IsFloat whole fr ex kind) {source : String}
    (hsource : source.toList = whole ++ (fr ++ (ex ++ kind.suffix.toList))) :
    let lexed := lex file source
    words (lexed.map Lexed.token) =
        [⟨.literal, .literal (.float (Number.float whole fr ex) kind)⟩, ⟨.eof, .none⟩] ∧
      ∀ l ∈ lexed, l.reports = [] := by
  -- One round reads the float, and a text that is not empty leaves one for its end.
  obtain ⟨rounds, hrounds⟩ : ∃ rounds, source.toList.length = rounds + 1 := by
    obtain ⟨c, rest, hwhole⟩ := List.exists_cons_of_ne_nil h.digits.ne_nil
    rw [hsource, hwhole]
    exact ⟨_, rfl⟩
  have hend : Delimits [] := fun _ hc => nomatch hc
  have hread := lexFrom_float file source.toList.length Place.first h hend
  simp only [List.append_nil, ← hsource] at hread
  intro lexed
  rw [show lexed = _ from hread, hrounds]
  exact ⟨rfl, List.forall_mem_cons.2 ⟨rfl, List.forall_mem_singleton.2 rfl⟩⟩

/-- What the printer writes for a finite number is one float of the same kind. -/
theorem lex_print_finite (file : FileId) {x : Binary64} (h : x.isInfinite = false)
    (hkind : kind = .untyped ∨ kind.isFloat = true) :
    let lexed := lex file (Literal.float x kind).print
    (∃ y, words (lexed.map Lexed.token) = [⟨.literal, .literal (.float y kind)⟩, ⟨.eof, .none⟩]) ∧
      ∀ l ∈ lexed, l.reports = [] := by
  obtain ⟨whole, fr, ex, htext, hfloat⟩ := Literal.floatLayout.isFloat_write h hkind
  have hprint : (Literal.float x kind).print.toList =
      whole ++ (fr ++ (ex ++ kind.suffix.toList)) := by
    rw [Literal.print, String.toList_append, String.toList_ofList, htext, List.append_assoc,
      List.append_assoc]
  obtain ⟨hwords, hsilent⟩ := lex_float file hfloat hprint
  exact ⟨⟨_, hwords⟩, hsilent⟩

/-- What the printer writes for infinity is one identifier. -/
theorem lex_print_infinite (file : FileId) {x : Binary64} (h : x.isInfinite = true)
    (hkind : kind = .untyped ∨ kind.isFloat = true) :
    let lexed := lex file (Literal.float x kind).print
    words (lexed.map Lexed.token) =
        [⟨.identifier, .name ("inf" ++ kind.suffix)⟩, ⟨.eof, .none⟩] ∧
      ∀ l ∈ lexed, l.reports = [] := by
  have hprint : (Literal.float x kind).print = "inf" ++ kind.suffix := by
    rw [Literal.print, Decimal.Layout.write, h]
    rfl
  have hname : IsName ("inf" ++ kind.suffix) := by
    have hall : ∀ kind ∈ [NumKind.untyped, .f32, .f64], IsName ("inf" ++ kind.suffix) := by
      intro kind hmem
      refine ⟨?_, ?_, ?_, ?_⟩ <;> revert kind <;> decide
    exact hall kind (by revert hkind; cases kind <;> decide)
  obtain ⟨hwords, -, hsilent⟩ := lexFrom_joined file [.name _ hname] Place.first
    (Nat.lt_succ_self (Spelled.joined [.name _ hname]).toList.length)
  rw [hprint]
  exact ⟨hwords, hsilent⟩

end Token

namespace Compiler

/-- A source on which the lexer finds nothing wrong adds no report. -/
theorem diagnostics_lex_silent (c : Compiler) {file : FileId} {source : String}
    (h : ∀ l ∈ Token.lex file source, l.reports = []) :
    (c.lex file source).2.diagnostics = c.diagnostics := by
  rw [diagnostics_lex, List.flatMap_eq_nil_iff.2 h, Array.append_empty]

variable (c : Compiler) (file : FileId) {kind : NumKind}

/-- The canonical text of a float is one token, a float of the same kind or an identifier. -/
theorem lex_print (x : Binary64) (hkind : kind = .untyped ∨ kind.isFloat = true) :
    let lexed := c.lex file (Literal.float x kind).print
    (x.isInfinite = false → ∃ y,
        Token.words lexed.1 = [⟨.literal, .literal (.float y kind)⟩, ⟨.eof, .none⟩]) ∧
      (x.isInfinite = true →
        Token.words lexed.1 = [⟨.identifier, .name ("inf" ++ kind.suffix)⟩, ⟨.eof, .none⟩]) ∧
      lexed.2.diagnostics = c.diagnostics := by
  intro lexed
  rw [tokens_lex]
  have hfinite := fun h => Token.lex_print_finite file (x := x) h hkind
  have hinfinite := fun h => Token.lex_print_infinite file (x := x) h hkind
  refine ⟨fun h => (hfinite h).1, fun h => (hinfinite h).1, c.diagnostics_lex_silent ?_⟩
  cases h : x.isInfinite with
  | false => exact (hfinite h).2
  | true => exact (hinfinite h).2

/-- The canonical text of a float that a source holds. The source is one token, a float with the
number nearest to what is written and the kind of its suffix. If that number is finite, its canonical
text is again one token and a float of that kind. If it is infinite, the text is the word for
infinity with the suffix behind it, an identifier. Nothing is reported in either case, not even that
the number does not fit. -/
theorem lex_print_float {whole fr ex : List Char} (h : Number.IsFloat whole fr ex kind) :
    let value := Number.float whole fr ex
    let read := c.lex file (String.ofList (whole ++ (fr ++ (ex ++ kind.suffix.toList))))
    let again := c.lex file (Literal.float value kind).print
    (Token.words read.1 = [⟨.literal, .literal (.float value kind)⟩, ⟨.eof, .none⟩] ∧
        read.2.diagnostics = c.diagnostics) ∧
      (value.isInfinite = false → ∃ value',
        Token.words again.1 = [⟨.literal, .literal (.float value' kind)⟩, ⟨.eof, .none⟩]) ∧
      (value.isInfinite = true →
        Token.words again.1 = [⟨.identifier, .name ("inf" ++ kind.suffix)⟩, ⟨.eof, .none⟩]) ∧
      again.2.diagnostics = c.diagnostics := by
  obtain ⟨hwords, hsilent⟩ := Token.lex_float file h String.toList_ofList
  rw [← tokens_lex c] at hwords
  exact ⟨⟨hwords, c.diagnostics_lex_silent hsilent⟩, c.lex_print file _ h.suffix⟩

end Compiler

example : (Literal.float (Number.float ['1'] [] "e999".toList) .f32).print = "inff32" := by decide

end ImpLang
