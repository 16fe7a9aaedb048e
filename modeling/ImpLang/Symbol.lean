/-!
Names and their numbers.

A name table gives every distinct text one number, in the order of first arrival, and never
forgets one. Looking a number up again gives the text back.
-/

namespace ImpLang

/-- The number of a text in a name table, which is of any size. -/
structure Symbol where
  index : Nat
deriving DecidableEq, Repr, Inhabited

/-- The texts numbered so far, each at the index of its symbol. -/
structure Interner where
  texts : Array String
deriving Repr

namespace Interner

/-- The name that never binds anything. -/
def wildcard : String := "_"

def empty : Interner := ⟨#[]⟩

instance : Inhabited Interner := ⟨empty⟩

def size (table : Interner) : Nat := table.texts.size

def isEmpty (table : Interner) : Bool := table.texts.isEmpty

/-- The number of a text that is already in the table. -/
def get? (table : Interner) (text : String) : Option Symbol :=
  (table.texts.findIdx? (· == text)).map Symbol.mk

/-- The number of a text, which joins the table behind all others if it is new. -/
def intern (table : Interner) (text : String) : Symbol × Interner :=
  match table.get? text with
  | some symbol => (symbol, table)
  | none => (⟨table.texts.size⟩, ⟨table.texts.push text⟩)

/-- Number a list of texts from left to right. -/
def internAll (table : Interner) (texts : List String) : Interner :=
  texts.foldl (fun table text => (table.intern text).2) table

/-- The text behind a number. -/
def resolve? (table : Interner) (symbol : Symbol) : Option String :=
  table.texts[symbol.index]?

/-- The text behind a number, with a placeholder for numbers of another table. -/
def name (table : Interner) (symbol : Symbol) : String :=
  (table.resolve? symbol).getD "<unknown>"

theorem resolve?_of_get? {table : Interner} {text : String} {symbol : Symbol}
    (h : table.get? text = some symbol) : table.resolve? symbol = some text := by
  obtain ⟨i, hi, rfl⟩ := Option.map_eq_some_iff.1 h
  obtain ⟨hlt, heq, _⟩ := Array.findIdx?_eq_some_iff_getElem.1 hi
  rw [resolve?, Array.getElem?_eq_getElem hlt, eq_of_beq heq]

/-- The number of a text leads back to it. -/
theorem resolve?_intern (table : Interner) (text : String) :
    (table.intern text).2.resolve? (table.intern text).1 = some text := by
  cases h : table.get? text with
  | some symbol => simpa only [intern, h] using resolve?_of_get? h
  | none => simp [intern, h, resolve?]

/-- Numbers given before keep their texts. -/
theorem resolve?_intern_of_lt (table : Interner) (text : String) {symbol : Symbol}
    (h : symbol.index < table.size) :
    (table.intern text).2.resolve? symbol = table.resolve? symbol := by
  cases hget : table.get? text with
  | some _ => simp only [intern, hget]
  | none =>
    have hne : symbol.index ≠ table.texts.size := Nat.ne_of_lt h
    simp [intern, hget, resolve?, Array.getElem?_push, hne]

end Interner

end ImpLang
