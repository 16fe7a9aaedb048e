import ImpLang.Token.Reader

/-!
The two ways to the tokens of a source. Whatever is in a name table besides the reserved words,
in whatever order, and whatever comes into it behind, the tokens that are read with it spell those of
`Token.lex`, and their names and strings are what it grows by.
-/

namespace ImpLang

theorem Token.internedTexts_cons (first : Lexed) (rest : List Lexed) :
    (first :: rest).filterMap (·.token.internedText?) =
      first.token.internedText?.toList ++ rest.filterMap (·.token.internedText?) := by
  rw [List.filterMap_cons]
  cases first.token.internedText? <;> rfl

namespace Lexicon

variable {lexicon later : Lexicon} {names : Interner}

/-- A text and its number lead to each other in every later state of the name table. -/
theorem name_intern {text : String} (h : (lexicon.intern text).2.names ≤ names) :
    names.name (lexicon.intern text).1 = text := by
  have htext : names.resolve? (lexicon.intern text).1 = some text :=
    Interner.resolve?_of_le h (lexicon.names.resolve?_intern text)
  rw [Interner.name, htext, Option.getD_some]

/-! ## Lexemes -/

/-- What is read with one state of a lexicon and leaves another: it numbers the text of a lexeme,
and spells that lexeme from then on. -/
structure Reads (before : Lexicon) (out : SymbolLexeme × Lexicon) (lexeme : Lexeme) : Prop where
  names : out.2.names = before.names.internAll lexeme.payload.text?.toList
  spell : ∀ names, out.2.names ≤ names → out.1.spell names = lexeme

theorem reads_plain (lexicon : Lexicon) (lexeme : Lexeme) :
    lexicon.Reads (lexicon.plain lexeme) lexeme := by
  obtain ⟨kind, size, payload, faults⟩ := lexeme
  cases payload with
  | none => exact { names := rfl, spell _ _ := rfl }
  | name text =>
    refine { names := rfl, spell names h := ?_ }
    exact congrArg (fun text => Lexeme.mk kind size (.name text) faults) (name_intern h)
  | literal value =>
    cases value with
    | str text =>
      refine { names := rfl, spell names h := ?_ }
      exact congrArg (fun text => Lexeme.mk kind size (.literal (.str text)) faults) (name_intern h)
    | int | float | bool | char => exact { names := rfl, spell _ _ := rfl }

/-- A word is reserved if its symbol is. -/
theorem reads_identifier (lexicon : Lexicon) (text : List Char) :
    lexicon.Reads (lexicon.identifier text) (Lexeme.identifier text) := by
  simp only [identifier, Lexeme.identifier]
  split
  · exact ⟨rfl, fun _ _ => rfl⟩
  split
  · exact ⟨rfl, fun _ _ => rfl⟩
  generalize String.ofList (text.takeWhile isIdentContinue) = name
  rw [keyword?_intern]
  cases hword : TokenKind.keyword? name with
  | some kind => exact ⟨intern_of_keyword? hword, fun _ _ => rfl⟩
  | none =>
    refine ⟨rfl, fun names h => ?_⟩
    exact congrArg (fun name => Lexeme.mk .identifier _ (.name name) []) (name_intern h)

/-- A word behind a backslash is a command if it is a reserved one, wherever else it has been
numbered. -/
theorem reads_command (lexicon : Lexicon) (text : List Char) :
    lexicon.Reads (lexicon.command text, lexicon) (Lexeme.command text) := by
  simp only [command, Lexeme.command, get?_bind_keyword?]
  split
  · cases TokenKind.keyword? (String.ofList ('\\' :: text.tail.takeWhile Char.isAlphanum)) with
    | some kind => exact ⟨rfl, fun _ _ => rfl⟩
    | none => exact ⟨rfl, fun _ _ => rfl⟩
  · exact ⟨rfl, fun _ _ => rfl⟩

theorem reads_scan (lexicon : Lexicon) (c : Char) (text : List Char) :
    lexicon.Reads (lexicon.scan c text) (Lexeme.scan c text) := by
  rw [scan, Lexeme.scan]
  cases fixedLexeme? text with
  | some lexeme => exact reads_plain lexicon lexeme
  | none =>
    dsimp only
    split
    · exact reads_command lexicon text
    split
    · exact reads_plain lexicon (Quote.stringLexeme text)
    split
    · exact reads_plain lexicon (Quote.charLexeme text)
    split
    · exact reads_plain lexicon (Number.lexeme text)
    split
    · exact reads_identifier lexicon text
    · exact reads_plain lexicon _

/-! ## Sources -/

variable {file : FileId}

/-- The tokens of a text with any lexicon: their names and strings are numbered, and in every later
state of the name table they spell the tokens that the text has by itself. -/
theorem readFrom_spells (file : FileId) (rounds : Nat) (place : Place) (text : List Char)
    (lexicon : Lexicon) :
    let out := readFrom file rounds place text lexicon
    let lexed := Token.lexFrom file rounds place text
    out.2.names = lexicon.names.internAll (lexed.filterMap (·.token.internedText?)) ∧
      ∀ names, out.2.names ≤ names → out.1.map (·.spell names) = lexed := by
  induction rounds generalizing place text lexicon with
  | zero => exact ⟨rfl, fun _ _ => rfl⟩
  | succ rounds ih =>
    simp only [readFrom, Token.lexFrom]
    cases htext : text.drop (Gap.scan text).size with
    | nil => exact ⟨rfl, fun _ _ => rfl⟩
    | cons c rest =>
      obtain ⟨hnames, hspell⟩ := reads_scan lexicon c (c :: rest)
      dsimp only
      generalize lexicon.scan c (c :: rest) = out at hnames hspell ⊢
      obtain ⟨lexeme, after⟩ := out
      generalize Lexeme.scan c (c :: rest) = lexeme' at hnames hspell ⊢
      obtain rfl : lexeme.spell after.names = lexeme' := hspell _ (Interner.le_refl _)
      obtain ⟨hgrown, hrest⟩ := ih ((place.past (text.take (Gap.scan text).size)).past
        ((c :: rest).take lexeme.size)) ((c :: rest).drop lexeme.size) after
      refine ⟨?_, fun names hlater => ?_⟩
      · rw [Token.internedTexts_cons, Interner.internAll_append]
        exact hgrown.trans (congrArg (Interner.internAll · _) hnames)
      · have hbetween : after.names ≤ names := Interner.le_trans ⟨_, hgrown⟩ hlater
        have hpayload : lexeme.payload.spell names = lexeme.payload.spell after.names :=
          congrArg Lexeme.payload (hspell names hbetween)
        rw [List.map_cons, hrest names hlater, SymbolToken.spell, hpayload]
        rfl

/-- Spelled out, the tokens that are read with a lexicon are the tokens that the text has by itself. -/
theorem lexed_eq (lexicon : Lexicon) (rounds : Nat) (file : FileId) (source : String) :
    (lexicon.lexed rounds file source).1 =
      Token.lexFrom file rounds Place.first source.toList :=
  (readFrom_spells file rounds Place.first source.toList lexicon).2 _ (Interner.le_refl _)

theorem names_lexed (lexicon : Lexicon) (rounds : Nat) (file : FileId) (source : String) :
    (lexicon.lexed rounds file source).2.names = lexicon.names.internAll
      ((Token.lexFrom file rounds Place.first source.toList).filterMap (·.token.internedText?)) :=
  (readFrom_spells file rounds Place.first source.toList lexicon).1

end Lexicon

end ImpLang
