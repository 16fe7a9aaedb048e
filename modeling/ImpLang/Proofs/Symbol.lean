import ImpLang.Symbol

/-!
Name tables as they grow, and the renaming of symbols from one table to another.
-/

namespace ImpLang

namespace Interner

theorem internAll_append (table : Interner) (texts more : List String) :
    table.internAll (texts ++ more) = (table.internAll texts).internAll more := List.foldl_append ..

/-- A later state of a name table: some texts have been numbered since. -/
instance : LE Interner := ⟨fun a b => ∃ texts, b = a.internAll texts⟩

theorem le_refl (table : Interner) : table ≤ table := ⟨[], rfl⟩

theorem le_trans {a b c : Interner} (h : a ≤ b) (h' : b ≤ c) : a ≤ c := by
  obtain ⟨texts, rfl⟩ := h
  obtain ⟨more, rfl⟩ := h'
  exact ⟨texts ++ more, (internAll_append a texts more).symm⟩

theorem le_intern (table : Interner) (text : String) : table ≤ (table.intern text).2 :=
  ⟨[text], rfl⟩

/-- What a new number preserves is preserved by all that come later. -/
theorem preserves {p : Interner → Prop} (h : ∀ table text, p table → p (table.intern text).2)
    {a b : Interner} (hle : a ≤ b) (ha : p a) : p b := by
  obtain ⟨texts, rfl⟩ := hle
  induction texts generalizing a with
  | nil => exact ha
  | cons text texts ih => exact ih (h a text ha)

/-- Symbols keep their texts. -/
theorem resolve?_of_le {a b : Interner} (h : a ≤ b) {symbol : Symbol} {text : String}
    (hs : a.resolve? symbol = some text) : b.resolve? symbol = some text := by
  refine preserves (p := fun table => table.resolve? symbol = some text) ?_ h hs
  intro table other h
  obtain ⟨hlt, -⟩ := Array.getElem?_eq_some_iff.1 h
  rw [resolve?_intern_of_lt table other hlt, h]

theorem get?_intern (table : Interner) (text : String) :
    (table.intern text).2.get? text = some (table.intern text).1 := by
  rw [intern]
  split
  · next symbol h => exact h
  · next h =>
    have hnone := Array.findIdx?_eq_none_iff.1 (Option.map_eq_none_iff.1 h)
    have hfound : (table.texts.push text).findIdx? (· == text) = some table.texts.size := by
      rw [Array.findIdx?_push, Array.findIdx?_eq_none_iff.2 hnone]
      simp
    exact congrArg (Option.map Symbol.mk) hfound

/-- A text that has a number keeps it. -/
theorem get?_of_le {a b : Interner} (h : a ≤ b) {text : String} {symbol : Symbol}
    (hs : a.get? text = some symbol) : b.get? text = some symbol := by
  refine preserves (p := fun table => table.get? text = some symbol) ?_ h hs
  intro table other h
  rw [intern]
  split
  · exact h
  · obtain ⟨i, hi, rfl⟩ := Option.map_eq_some_iff.1 h
    have hfound : (table.texts.push other).findIdx? (· == text) = some i := by
      rw [Array.findIdx?_push, hi]
      rfl
    rw [get?, hfound]
    rfl

/-- Texts with numbers are told apart by them. -/
theorem get?_eq_iff {table : Interner} {a b : String} {s t : Symbol}
    (ha : table.get? a = some s) (hb : table.get? b = some t) : s = t ↔ a = b := by
  constructor
  · rintro rfl
    have hsame := (resolve?_of_get? ha).symm.trans (resolve?_of_get? hb)
    exact Option.some.inj hsame
  · rintro rfl
    exact Option.some.inj (ha.symm.trans hb)

/-- A text that has a number leaves the table as it is. -/
theorem intern_of_get? {table : Interner} {text : String} {symbol : Symbol}
    (h : table.get? text = some symbol) : table.intern text = (symbol, table) := by
  simp only [intern, h]

/-! ## Texts -/

theorem mem_texts_iff {table : Interner} {text : String} :
    text ∈ table.texts ↔ ∃ symbol, table.get? text = some symbol := by
  constructor
  · intro h
    cases hget : table.get? text with
    | some symbol => exact ⟨symbol, rfl⟩
    | none =>
      have hnone := Array.findIdx?_eq_none_iff.1 (Option.map_eq_none_iff.1 hget) text h
      simp at hnone
  · rintro ⟨symbol, h⟩
    exact Array.mem_of_getElem? (resolve?_of_get? h)

theorem mem_texts_of_resolve? {table : Interner} {symbol : Symbol} {text : String}
    (h : table.resolve? symbol = some text) : text ∈ table.texts := Array.mem_of_getElem? h

/-- Numbering a text adds it and no other. -/
theorem mem_texts_intern {table : Interner} {text other : String} :
    other ∈ (table.intern text).2.texts ↔ other ∈ table.texts ∨ other = text := by
  rw [intern]
  split
  · next symbol h =>
    have htext : text ∈ table.texts := mem_texts_iff.2 ⟨symbol, h⟩
    constructor
    · exact .inl
    · rintro (h | rfl)
      · exact h
      · exact htext
  · exact Array.mem_push

theorem mem_texts_internAll {table : Interner} {texts : List String} {text : String} :
    text ∈ (table.internAll texts).texts ↔ text ∈ table.texts ∨ text ∈ texts := by
  induction texts generalizing table with
  | nil => simp [internAll]
  | cons first rest ih =>
    change text ∈ ((table.intern first).2.internAll rest).texts ↔ _
    rw [ih, mem_texts_intern, List.mem_cons, or_assoc]

/-- Every text of one table is in another. -/
def Within (a b : Interner) : Prop := ∀ text ∈ a.texts, text ∈ b.texts

theorem Within.intern {a b : Interner} (h : Within a b) (text : String) :
    Within (a.intern text).2 (b.intern text).2 := by
  intro other hother
  rw [mem_texts_intern] at hother ⊢
  exact hother.imp_left (h other)

theorem Within.internAll {a b : Interner} (h : Within a b) (texts : List String) :
    Within (a.internAll texts) (b.internAll texts) := by
  induction texts generalizing a b with
  | nil => exact h
  | cons text texts ih => exact ih (h.intern text)

/-- A later table has the texts of the earlier ones. -/
theorem within_of_le {a b : Interner} (h : a ≤ b) : Within a b := by
  obtain ⟨texts, rfl⟩ := h
  exact fun text htext => mem_texts_internAll.2 (.inl htext)

theorem within_empty (b : Interner) : Within empty b :=
  fun text h => absurd h (Array.not_mem_empty text)

/-- No text has two numbers. -/
def Distinct (table : Interner) : Prop :=
  ∀ a b text, table.resolve? a = some text → table.resolve? b = some text → a = b

theorem distinct_empty : Distinct empty := fun _ _ text h =>
  absurd (mem_texts_of_resolve? h) (Array.not_mem_empty text)

theorem Distinct.intern {table : Interner} (h : Distinct table) (text : String) :
    Distinct (table.intern text).2 := by
  rw [Interner.intern]
  split
  · exact h
  · next hnone =>
    have hnew : text ∉ table.texts := fun hmem => by
      obtain ⟨symbol, hsome⟩ := mem_texts_iff.1 hmem
      rw [hnone] at hsome
      cases hsome
    rintro ⟨i⟩ ⟨j⟩ other hi hj
    rw [resolve?, Array.getElem?_push] at hi hj
    -- The new text stands at the end only.
    split at hi <;> split at hj
    · next hi' hj' => exact congrArg Symbol.mk (hi'.trans hj'.symm)
    · cases hi
      exact absurd (Array.mem_of_getElem? hj) hnew
    · cases hj
      exact absurd (Array.mem_of_getElem? hi) hnew
    · exact h ⟨i⟩ ⟨j⟩ other hi hj

theorem Distinct.of_le {a b : Interner} (h : a ≤ b) (ha : Distinct a) : Distinct b :=
  preserves (fun _ text hd => hd.intern text) h ha

/-! ## Renaming -/

/-- The symbol that the text of a symbol has in another table. Symbols without one there get
numbers that the other table does not know. -/
def carry (source target : Interner) (symbol : Symbol) : Symbol :=
  ((source.resolve? symbol).bind target.get?).getD ⟨target.size + symbol.index⟩

variable {source target : Interner}

theorem carry_eq {text : String} {a b : Symbol} (ha : source.get? text = some a)
    (hb : target.get? text = some b) : carry source target a = b := by
  rw [carry, resolve?_of_get? ha, Option.bind_some, hb, Option.getD_some]

/-- Unless a symbol is new to the other table, its text is the same there. -/
theorem carry_cases (source target : Interner) (symbol : Symbol) :
    (∃ text, source.resolve? symbol = some text ∧
      target.resolve? (carry source target symbol) = some text) ∨
    carry source target symbol = ⟨target.size + symbol.index⟩ := by
  rw [carry]
  cases htext : source.resolve? symbol with
  | none => exact .inr rfl
  | some text =>
    rw [Option.bind_some]
    cases hget : target.get? text with
    | none => exact .inr rfl
    | some other => exact .inl ⟨text, rfl, resolve?_of_get? hget⟩

theorem resolve?_beyond (table : Interner) (n : Nat) : table.resolve? ⟨table.size + n⟩ = none :=
  Array.getElem?_eq_none (Nat.le_add_right ..)

theorem carry_injective (h : Distinct source) : Function.Injective (carry source target) := by
  intro a b hab
  rcases carry_cases source target a with ⟨text, ha, hta⟩ | ha <;>
    rcases carry_cases source target b with ⟨other, hb, htb⟩ | hb
  · rw [hab, htb] at hta
    cases hta
    exact h a b text ha hb
  · rw [hab, hb, resolve?_beyond] at hta
    cases hta
  · rw [← hab, ha, resolve?_beyond] at htb
    cases htb
  · rw [ha, hb, Symbol.mk.injEq] at hab
    obtain ⟨i⟩ := a
    obtain ⟨j⟩ := b
    exact congrArg Symbol.mk (Nat.add_left_cancel hab)

/-- A renamed symbol has the text of the symbol. -/
theorem resolve?_carry (h : Within source target) (symbol : Symbol) :
    target.resolve? (carry source target symbol) = source.resolve? symbol := by
  cases htext : source.resolve? symbol with
  | none =>
    rw [carry, htext]
    exact resolve?_beyond target symbol.index
  | some text =>
    obtain ⟨other, hget⟩ := mem_texts_iff.1 (h text (mem_texts_of_resolve? htext))
    rw [carry, htext, Option.bind_some, hget]
    exact resolve?_of_get? hget

theorem name_carry (h : Within source target) (symbol : Symbol) :
    target.name (carry source target symbol) = source.name symbol := by
  rw [name, name, resolve?_carry h]

end Interner

end ImpLang
