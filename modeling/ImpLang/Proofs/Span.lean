import ImpLang.Span

/-!
Places of a text, counted from its front. A place that is reached by reading agrees with the count
of bytes, newlines and characters in front of it.
-/

namespace ImpLang

theorem byteSize_append (a b : List Char) : byteSize (a ++ b) = byteSize a + byteSize b := by
  induction a with
  | nil => simp [byteSize]
  | cons c a ih => simp [byteSize, ih, Nat.add_assoc]

/-- The position behind a text: one line for every newline in it, and one column for every character
behind the last of them. -/
def Pos.counted (before : List Char) : Pos :=
  ⟨.ofNat (1 + before.count '\n'), .ofNat (1 + (before.reverse.takeWhile (· ≠ '\n')).length)⟩

/-- The place behind a text. -/
def Place.counted (before : List Char) : Place := ⟨byteSize before, Pos.counted before⟩

theorem Pos.advance_counted (before : List Char) (c : Char) :
    (Pos.counted before).advance c = Pos.counted (before ++ [c]) := by
  by_cases h : c = '\n'
  · simp [advance, counted, h, UInt32.add_assoc]
  · simp [advance, counted, h, UInt32.add_comm 1]

theorem Place.advance_counted (before : List Char) (c : Char) :
    (Place.counted before).advance c = Place.counted (before ++ [c]) := by
  simp only [counted, advance, Pos.advance_counted, byteSize_append, byteSize, Nat.add_zero]

/-- Reading on moves a counted place to a counted place. -/
theorem Place.past_counted (before text : List Char) :
    (Place.counted before).past text = Place.counted (before ++ text) := by
  induction text generalizing before with
  | nil => rw [past_nil, List.append_nil]
  | cons c text ih => rw [past_cons, advance_counted, ih, List.append_assoc, List.singleton_append]

theorem Place.past_first (text : List Char) : Place.first.past text = Place.counted text :=
  Place.past_counted [] text

/-- A place between two characters of a text. -/
def Place.In (source : List Char) (p : Place) : Prop :=
  ∃ before after, source = before ++ after ∧ p = Place.counted before

theorem Place.in_counted (before after : List Char) :
    (Place.counted before).In (before ++ after) := ⟨before, after, rfl, rfl⟩

/-- A range of a text: it runs forward, between two places of the text. -/
structure Span.In (file : FileId) (source : List Char) (s : Span) : Prop where
  file : s.file = file
  start : s.start.In source
  stop : s.stop.In source
  forward : s.start.offset ≤ s.stop.offset

/-- No place lies behind the text. -/
theorem Place.In.le {source : List Char} {p : Place} (h : p.In source) :
    p.offset ≤ byteSize source := by
  obtain ⟨before, after, rfl, rfl⟩ := h
  rw [byteSize_append]
  exact Nat.le_add_right ..

/-! ## Texts of less than 2 ^ 32 bytes -/

theorem length_le_byteSize (text : List Char) : text.length ≤ byteSize text := by
  induction text with
  | nil => exact Nat.le_refl _
  | cons c text ih =>
    have hc := c.utf8Size_pos
    rw [List.length_cons, byteSize]
    omega

/-- The longest texts that have all offsets in 32 bits, in which there are too many lines or too many
columns nevertheless: characters of one byte that are all newlines, or none of them. -/
def Overlong (source : List Char) : Prop :=
  source.length = UInt32.size - 1 ∧ (source.count '\n' = source.length ∨ '\n' ∉ source)

/-- The position of a place is found by counting, without regard to the size of the numbers. -/
def Place.Exact (source : List Char) (p : Place) : Prop :=
  ∃ before after, source = before ++ after ∧ p.offset = byteSize before ∧
    p.pos.line.toNat = 1 + before.count '\n' ∧
    p.pos.col.toNat = 1 + (before.reverse.takeWhile (· ≠ '\n')).length

/-- The lines and columns in front of a place are too many for 32 bits only at the end of an overlong
text. -/
theorem Place.In.exact {source : List Char} {p : Place} (h : p.In source)
    (hsource : byteSize source < UInt32.size)
    (hend : p.offset = byteSize source → ¬Overlong source) : p.Exact source := by
  obtain ⟨before, after, rfl, rfl⟩ := h
  have hlength := length_le_byteSize before
  rw [byteSize_append] at hsource
  have hlines : before.count '\n' ≤ before.length := List.count_le_length
  have hcols : (before.reverse.takeWhile (· ≠ '\n')).length ≤ before.length := by
    have hrun := (List.takeWhile_sublist (· ≠ '\n') (l := before.reverse)).length_le
    rwa [List.length_reverse] at hrun
  -- Numbers that do not fit in 32 bits need all the bytes that there may be.
  have hshort : ¬Overlong before := by
    intro hover
    have hafter : after = [] := List.eq_nil_of_length_eq_zero <| by
      have hrest := length_le_byteSize after
      have hall := hover.1
      omega
    subst hafter
    rw [List.append_nil] at hend
    exact hend rfl hover
  have hline : before.count '\n' < UInt32.size - 1 :=
    Nat.lt_of_not_le fun hmany => hshort ⟨by omega, .inl (by omega)⟩
  have hcol : (before.reverse.takeWhile (· ≠ '\n')).length < UInt32.size - 1 := by
    refine Nat.lt_of_not_le fun hmany => ?_
    have hsame : before.reverse.takeWhile (· ≠ '\n') = before.reverse :=
      (List.takeWhile_sublist _).eq_of_length (by rw [List.length_reverse]; omega)
    refine hshort ⟨by omega, .inr fun hnewline => ?_⟩
    have hothers := List.all_takeWhile (p := (· ≠ '\n')) (l := before.reverse)
    rw [hsame, List.all_eq_true] at hothers
    exact absurd (hothers '\n' (List.mem_reverse.2 hnewline)) (by simp)
  refine ⟨before, after, rfl, rfl, ?_, ?_⟩
  · rw [counted, Pos.counted, UInt32.toNat_ofNat_of_lt' (by omega)]
  · rw [counted, Pos.counted, UInt32.toNat_ofNat_of_lt' (by omega)]

/-- A range of a text, with lines and columns that are found by counting. -/
structure Span.Located (file : FileId) (source : List Char) (s : Span) : Prop
    extends Span.In file source s where
  front : (s.start.offset = byteSize source → ¬Overlong source) → s.start.Exact source
  back : (s.stop.offset = byteSize source → ¬Overlong source) → s.stop.Exact source

theorem Span.In.located {file : FileId} {source : List Char} {s : Span} (h : s.In file source)
    (hsource : byteSize source < UInt32.size) : s.Located file source :=
  ⟨h, h.start.exact hsource, h.stop.exact hsource⟩

/-! ## Offsets in 32 bits -/

/-- The offset of a place in 32 bits. -/
def Place.word (p : Place) : UInt32 := .ofNat p.offset

section Words

variable {source : List Char} (hsource : byteSize source < UInt32.size)

include hsource

theorem Place.In.toNat_word {p : Place} (h : p.In source) : p.word.toNat = p.offset := by
  rw [word, UInt32.toNat_ofNat_of_lt' (Nat.lt_of_le_of_lt h.le hsource)]

variable {p q : Place} (hp : p.In source) (hq : q.In source)

include hp hq

theorem Place.In.word_lt_iff : p.word < q.word ↔ p.offset < q.offset := by
  rw [UInt32.lt_iff_toNat_lt, hp.toNat_word hsource, hq.toNat_word hsource]

theorem Place.In.word_eq_iff : p.word = q.word ↔ p.offset = q.offset := by
  rw [← UInt32.toNat_inj, hp.toNat_word hsource, hq.toNat_word hsource]

end Words

namespace Span.In

variable {file : FileId} {source : List Char} {a b : Span}

/-- Which ends cover two spans is seen from their offsets in 32 bits. -/
theorem cover_eq_words (hsource : byteSize source < UInt32.size) (ha : a.In file source)
    (hb : b.In file source) : a.cover b =
      { file := a.file
        start := if b.start.word < a.start.word then b.start else a.start
        stop := if a.stop.word < b.stop.word then b.stop else a.stop } := by
  simp only [cover, hb.start.word_lt_iff hsource ha.start, ha.stop.word_lt_iff hsource hb.stop]

theorem isEmpty_eq_words (hsource : byteSize source < UInt32.size) (ha : a.In file source) :
    a.isEmpty = (a.start.word == a.stop.word) := by
  rw [isEmpty, Bool.eq_iff_iff, beq_iff_eq, beq_iff_eq, ha.start.word_eq_iff hsource ha.stop]

end Span.In

end ImpLang
