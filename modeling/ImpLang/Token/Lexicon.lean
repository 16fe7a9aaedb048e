import ImpLang.Proofs.Symbol
import ImpLang.Token.Kind

/-!
Name tables with the reserved words in them.

The reserved words are numbered when a name table comes into the hands of a compiler, and are known
by their symbols from then on. The table may have had any texts before, the reserved words among
them, and may grow in any way behind: a symbol is that of a reserved word if its text is one.
-/

namespace ImpLang

/-- Number words from left to right. Each gives its token to its symbol. -/
def Interner.number (names : Interner) :
    List (String × TokenKind) → List (Symbol × TokenKind) × Interner
  | [] => ([], names)
  | (text, kind) :: words =>
    let (symbol, names) := names.intern text
    let (entries, names) := names.number words
    ((symbol, kind) :: entries, names)

/-- Entries that give the tokens of words to the symbols that the words have in a name table. -/
inductive Interner.Numbers (names : Interner) :
    List (String × TokenKind) → List (Symbol × TokenKind) → Prop
  | nil : Numbers names [] []
  | cons {text : String} {kind : TokenKind} {symbol : Symbol} {words : List (String × TokenKind)}
      {entries : List (Symbol × TokenKind)} (word : names.get? text = some symbol)
      (rest : Numbers names words entries) :
      Numbers names ((text, kind) :: words) ((symbol, kind) :: entries)

namespace Interner

variable {names later : Interner} {words : List (String × TokenKind)}
  {entries : List (Symbol × TokenKind)}

/-- The symbols of words do not change. -/
theorem Numbers.of_le (h : names.Numbers words entries) (hle : names ≤ later) :
    later.Numbers words entries := by
  induction h with
  | nil => exact .nil
  | cons word _ ih => exact .cons (get?_of_le hle word) ih

/-- A symbol is looked up as its text is. -/
theorem Numbers.lookup_eq (h : names.Numbers words entries) {text : String} {symbol : Symbol}
    (hget : names.get? text = some symbol) : entries.lookup symbol = words.lookup text := by
  induction h with
  | nil => rfl
  | @cons other kind first words entries word _ ih =>
    have hsame : (symbol == first) = (text == other) := by
      rw [Bool.eq_iff_iff, beq_iff_eq, beq_iff_eq]
      exact get?_eq_iff hget word
    rw [List.lookup_cons, List.lookup_cons, hsame, ih]

/-- What is not in the name table is none of the words. -/
theorem Numbers.lookup_eq_none (h : names.Numbers words entries) {text : String}
    (hget : names.get? text = none) : words.lookup text = none := by
  induction h with
  | nil => rfl
  | @cons other kind first words entries word _ ih =>
    have hne : (text == other) = false := by
      rw [beq_eq_false_iff_ne]
      rintro rfl
      rw [hget] at word
      cases word
    rw [List.lookup_cons, hne, ih]

/-- A name table fixes the entries of words. -/
theorem Numbers.eq {entries' : List (Symbol × TokenKind)} (h : names.Numbers words entries)
    (h' : names.Numbers words entries') : entries = entries' := by
  induction h generalizing entries' with
  | nil =>
    cases h'
    rfl
  | cons word _ ih =>
    cases h' with
    | cons word' rest' => rw [Option.some.inj (word.symm.trans word'), ih rest']

theorem number_names (names : Interner) (words : List (String × TokenKind)) :
    (names.number words).2 = names.internAll (words.map Prod.fst) := by
  induction words generalizing names with
  | nil => rfl
  | cons word words ih => exact ih (names.intern word.1).2

theorem numbers_number (names : Interner) (words : List (String × TokenKind)) :
    (names.number words).2.Numbers words (names.number words).1 := by
  induction words generalizing names with
  | nil => exact .nil
  | cons word words ih =>
    refine .cons ?_ (ih (names.intern word.1).2)
    refine get?_of_le ?_ (get?_intern names word.1)
    exact ⟨_, number_names _ words⟩

end Interner

/-- A name table and the tokens of the reserved words in it, by their symbols. -/
structure Lexicon where
  names : Interner
  keywords : List (Symbol × TokenKind)
  numbered : names.Numbers TokenKind.keywordTable keywords

namespace Lexicon

/-- Number the reserved words in a name table, where they are new. -/
def ofNames (names : Interner) : Lexicon where
  names := (names.number TokenKind.keywordTable).2
  keywords := (names.number TokenKind.keywordTable).1
  numbered := Interner.numbers_number names TokenKind.keywordTable

instance : Inhabited Lexicon := ⟨ofNames Interner.empty⟩

/-- The same reserved words in a later state of the name table. -/
def grow (lexicon : Lexicon) (names : Interner) (h : lexicon.names ≤ names) : Lexicon :=
  ⟨names, lexicon.keywords, lexicon.numbered.of_le h⟩

/-- The number of a text, which joins the name table if it is new. -/
def intern (lexicon : Lexicon) (text : String) : Symbol × Lexicon :=
  ((lexicon.names.intern text).1,
    lexicon.grow (lexicon.names.intern text).2 (lexicon.names.le_intern text))

/-- The reserved word or command that a symbol stands for. -/
def keyword? (lexicon : Lexicon) (symbol : Symbol) : Option TokenKind :=
  lexicon.keywords.lookup symbol

variable {lexicon other : Lexicon} {text : String} {symbol : Symbol}

theorem keyword?_of_get? (h : lexicon.names.get? text = some symbol) :
    lexicon.keyword? symbol = TokenKind.keyword? text := lexicon.numbered.lookup_eq h

/-- Every reserved word is in the name table. -/
theorem keyword?_of_get?_none (h : lexicon.names.get? text = none) :
    TokenKind.keyword? text = none := lexicon.numbered.lookup_eq_none h

/-- A symbol is that of a reserved word if its text is one, whatever else has a number. -/
theorem keyword?_intern (lexicon : Lexicon) (text : String) :
    (lexicon.intern text).2.keyword? (lexicon.intern text).1 = TokenKind.keyword? text :=
  keyword?_of_get? (lexicon.names.get?_intern text)

/-- To look a text up does not need a number for it. -/
theorem get?_bind_keyword? (lexicon : Lexicon) (text : String) :
    (lexicon.names.get? text).bind lexicon.keyword? = TokenKind.keyword? text := by
  cases h : lexicon.names.get? text with
  | some symbol => exact keyword?_of_get? h
  | none => exact (keyword?_of_get?_none h).symm

/-- A reserved word does not change the name table. -/
theorem intern_of_keyword? {kind : TokenKind} (h : TokenKind.keyword? text = some kind) :
    (lexicon.names.intern text).2 = lexicon.names := by
  cases hget : lexicon.names.get? text with
  | some symbol => rw [Interner.intern_of_get? hget]
  | none =>
    rw [keyword?_of_get?_none hget] at h
    cases h

/-- The name table says which symbols are reserved, so compilers that share it agree on them. -/
theorem eq_of_names (h : lexicon.names = other.names) : lexicon = other := by
  obtain ⟨names, keywords, numbered⟩ := lexicon
  obtain ⟨names', keywords', numbered'⟩ := other
  cases h
  rw [mk.injEq]
  exact ⟨rfl, numbered.eq numbered'⟩

theorem names_ofNames (names : Interner) :
    (ofNames names).names = names.internAll (TokenKind.keywordTable.map Prod.fst) :=
  Interner.number_names names TokenKind.keywordTable

end Lexicon

end ImpLang
