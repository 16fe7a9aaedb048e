import ImpLang.Proofs.Symbol
import Mathlib.Data.Finset.Card
import Mathlib.Data.Finset.Dedup

/-!
A name table that several clients share.

A client numbers a text in two turns: under a read lock it looks for the text, and only if it
misses it takes the write lock and enters the text. Between the two turns of one client the others
may have entered anything, the same text included. Whatever the order of the turns, the calls
return what they would have returned one after another.
-/

namespace ImpLang

namespace Interner

/-! ## Growth -/

theorem intern_of_mem {table : Interner} {text : String} (h : text ∈ table.texts) :
    (table.intern text).2 = table := by
  obtain ⟨symbol, hget⟩ := mem_texts_iff.1 h
  rw [intern_of_get? hget]

theorem texts_intern_of_not_mem {table : Interner} {text : String} (h : text ∉ table.texts) :
    (table.intern text).2.texts = table.texts.push text := by
  cases hget : table.get? text with
  | some symbol => exact absurd (mem_texts_iff.2 ⟨symbol, hget⟩) h
  | none => simp only [intern, hget]

/-- A table grows by texts that it did not have, each of them once. -/
theorem texts_internAll (table : Interner) (texts : List String) :
    ∃ added : List String, (table.internAll texts).texts = table.texts ++ added ∧
      added.Nodup ∧ ∀ text ∈ added, text ∉ table.texts := by
  induction texts generalizing table with
  | nil => exact ⟨[], by simp [internAll], List.nodup_nil, by simp⟩
  | cons first rest ih =>
    obtain ⟨added, htexts, hnodup, hnew⟩ := ih (table.intern first).2
    change ∃ added : List String,
      ((table.intern first).2.internAll rest).texts = table.texts ++ added ∧ _
    by_cases hfirst : first ∈ table.texts
    · rw [intern_of_mem hfirst] at htexts hnew ⊢
      exact ⟨added, htexts, hnodup, hnew⟩
    · rw [texts_intern_of_not_mem hfirst] at htexts hnew
      simp only [Array.mem_push, not_or] at hnew
      have hnot : first ∉ added := fun h => (hnew first h).2 rfl
      have hjoin : table.texts.push first ++ added = table.texts ++ (first :: added) := by simp
      refine ⟨first :: added, htexts.trans hjoin, List.nodup_cons.2 ⟨hnot, hnodup⟩, ?_⟩
      intro text htext
      rcases List.mem_cons.1 htext with rfl | htext
      · exact hfirst
      · exact (hnew text htext).1

/-- A table has as many entries as distinct texts have been numbered. -/
theorem size_internAll_empty (texts : List String) :
    (empty.internAll texts).size = texts.toFinset.card := by
  obtain ⟨added, htexts, hnodup, -⟩ := texts_internAll empty texts
  have hadded : (empty.internAll texts).texts = added.toArray := by simpa [empty] using htexts
  have hsame : added.toFinset = texts.toFinset := by
    ext text
    have hmem : text ∈ (empty.internAll texts).texts ↔ text ∈ empty.texts ∨ text ∈ texts :=
      mem_texts_internAll
    rw [hadded] at hmem
    simpa [empty] using hmem
  rw [size, hadded, List.size_toArray, ← List.toFinset_card_of_nodup hnodup, hsame]

/-! ## Turns -/

/-- A call that has returned. -/
structure Call (Client : Type) where
  client : Client
  text : String
  symbol : Symbol
deriving DecidableEq, Repr

/-- A table and its clients between two turns. -/
structure Shared (Client : Type) where
  table : Interner
  /-- The text that a client has looked for in vain and is about to enter. -/
  missed : Client → Option String
  /-- The calls that have returned, in this order. -/
  calls : List (Call Client)

/-- What one client does while it holds the lock. -/
inductive Turn (Client : Type) where
  /-- Begin a call and look for its text. If it is there, the call returns. -/
  | seek (client : Client) (text : String)
  /-- Enter the text that was missed, unless it has come in since. The call returns. -/
  | enter (client : Client)
deriving DecidableEq, Repr

namespace Shared

variable {Client : Type} [DecidableEq Client] {s t : Shared Client}

/-- Nobody has numbered anything. -/
def start : Shared Client := ⟨.empty, fun _ => none, []⟩

/-- A client makes one call at a time, and enters only what it has missed. -/
def turn? (s : Shared Client) : Turn Client → Option (Shared Client)
  | .seek client text =>
    match s.missed client, s.table.get? text with
    | some _, _ => none
    | none, some symbol => some { s with calls := s.calls ++ [⟨client, text, symbol⟩] }
    | none, none => some { s with missed := Function.update s.missed client (some text) }
  | .enter client =>
    match s.missed client with
    | none => none
    | some text => some
        { table := (s.table.intern text).2
          missed := Function.update s.missed client none
          calls := s.calls ++ [⟨client, text, (s.table.intern text).1⟩] }

/-- Some turns, in the order in which the lock was given to them. -/
def run? (s : Shared Client) (turns : List (Turn Client)) : Option (Shared Client) :=
  turns.foldlM turn? s

/-- A call that returned in one turn. -/
def Returns (s : Shared Client) (client : Client) (text : String) (t : Shared Client) : Prop :=
  t.table = (s.table.intern text).2 ∧
    t.calls = s.calls ++ [⟨client, text, (s.table.intern text).1⟩]

/-- In one turn either no call returns and the table stays as it is, or one call returns as if it
had been alone. -/
theorem turn?_cases {turn : Turn Client} (h : s.turn? turn = some t) :
    (t.table = s.table ∧ t.calls = s.calls) ∨ ∃ client text, s.Returns client text t := by
  cases turn with
  | seek client text =>
    simp only [turn?] at h
    split at h
    · cases h
    · next symbol _ hget =>
      cases h
      have hintern := intern_of_get? hget
      exact .inr ⟨client, text, by rw [hintern], by rw [hintern]⟩
    · cases h
      exact .inl ⟨rfl, rfl⟩
  | enter client =>
    simp only [turn?] at h
    split at h
    · cases h
    · next text _ =>
      cases h
      exact .inr ⟨client, text, rfl, rfl⟩

theorem run?_cons {turn : Turn Client} {turns : List (Turn Client)}
    (h : s.run? (turn :: turns) = some t) :
    ∃ next, s.turn? turn = some next ∧ next.run? turns = some t := by
  rw [run?, List.foldlM_cons] at h
  exact Option.bind_eq_some_iff.1 h

/-! ## Undisturbed calls -/

/-- A client that has missed its text can always enter it, whatever has come in since. -/
theorem turn?_enter {client : Client} {text : String} (h : s.missed client = some text) :
    ∃ t, s.turn? (.enter client) = some t ∧ s.Returns client text t := by
  simp only [turn?, h]
  exact ⟨_, rfl, rfl, rfl⟩

/-- A call that nobody comes between takes one turn or two and numbers the text. -/
theorem run?_call {client : Client} (h : s.missed client = none) (text : String) :
    (∃ t, s.run? [.seek client text] = some t ∧ s.Returns client text t) ∨
    ∃ t, s.run? [.seek client text, .enter client] = some t ∧ s.Returns client text t := by
  cases hget : s.table.get? text with
  | some symbol =>
    have hintern : s.table.intern text = (symbol, s.table) := by simp only [intern, hget]
    have hseek : s.turn? (.seek client text) =
        some { s with calls := s.calls ++ [⟨client, text, symbol⟩] } := by
      simp only [turn?, h, hget]
    left
    rw [run?, List.foldlM_cons, hseek]
    exact ⟨_, rfl, by rw [hintern], by rw [hintern]⟩
  | none =>
    have hseek : s.turn? (.seek client text) =
        some { s with missed := Function.update s.missed client (some text) } := by
      simp only [turn?, h, hget]
    obtain ⟨t, henter, hreturns⟩ :=
      turn?_enter (s := { s with missed := Function.update s.missed client (some text) })
        (Function.update_self client (some text) s.missed)
    right
    rw [run?, List.foldlM_cons, hseek]
    refine ⟨t, ?_, hreturns⟩
    change [Turn.enter client].foldlM turn? _ = some t
    rw [List.foldlM_cons, henter]
    rfl

/-! ## Agreement -/

/-- The table is what the calls make one after another, and each of them has returned the number
that its text has there. -/
structure Agreed (s : Shared Client) : Prop where
  table : s.table = Interner.empty.internAll (s.calls.map Call.text)
  found : ∀ call ∈ s.calls, s.table.get? call.text = some call.symbol

omit [DecidableEq Client] in
theorem agreed_start : (start : Shared Client).Agreed := ⟨rfl, by simp [start]⟩

theorem Agreed.turn {turn : Turn Client} (hs : s.Agreed) (h : s.turn? turn = some t) :
    t.Agreed := by
  rcases turn?_cases h with ⟨htable, hcalls⟩ | ⟨client, text, htable, hcalls⟩
  · exact ⟨by rw [htable, hcalls, hs.table], by rw [htable, hcalls]; exact hs.found⟩
  · constructor
    · rw [htable, hcalls, List.map_append, internAll_append, ← hs.table]
      rfl
    · rw [htable, hcalls]
      intro call hcall
      rcases List.mem_append.1 hcall with hcall | hcall
      · exact get?_of_le (le_intern s.table text) (hs.found call hcall)
      · obtain rfl := List.mem_singleton.1 hcall
        exact get?_intern s.table text

theorem Agreed.run {turns : List (Turn Client)} (hs : s.Agreed) (h : s.run? turns = some t) :
    t.Agreed := by
  induction turns generalizing s with
  | nil =>
    cases h
    exact hs
  | cons turn turns ih =>
    obtain ⟨next, hturn, hrun⟩ := run?_cons h
    exact ih (hs.turn hturn) hrun

/-- Between two turns a table grows by the texts of the calls that have returned. -/
theorem le_of_run? {turns : List (Turn Client)} (h : s.run? turns = some t) :
    s.table ≤ t.table := by
  induction turns generalizing s with
  | nil =>
    cases h
    exact le_refl _
  | cons turn turns ih =>
    obtain ⟨next, hturn, hrun⟩ := run?_cons h
    rcases turn?_cases hturn with ⟨htable, -⟩ | ⟨client, text, htable, -⟩
    · rw [← htable]
      exact ih hrun
    · have hnext : s.table ≤ next.table := htable ▸ le_intern s.table text
      exact le_trans hnext (ih hrun)

/-- However the turns of the clients fall, a shared table only takes on texts that it did not have,
calls return one symbol for one text and keep it, and the table has as many entries as distinct
texts have been numbered. -/
theorem calls_agree {before after : List (Turn Client)} (hs : start.run? before = some s)
    (ht : s.run? after = some t) :
    (∃ added : List String, t.table.texts = s.table.texts ++ added ∧
      added.Nodup ∧ ∀ text ∈ added, text ∉ s.table.texts) ∧
    (∀ a ∈ t.calls, ∀ b ∈ t.calls, a.symbol = b.symbol ↔ a.text = b.text) ∧
    (∀ call ∈ s.calls, t.table.resolve? call.symbol = some call.text) ∧
    t.table.size = (t.calls.map Call.text).toFinset.card := by
  have hagreed : s.Agreed := agreed_start.run hs
  have hlater : t.Agreed := hagreed.run ht
  obtain ⟨texts, hgrown⟩ := le_of_run? ht
  refine ⟨hgrown ▸ texts_internAll s.table texts, ?_, ?_, ?_⟩
  · intro a ha b hb
    exact get?_eq_iff (hlater.found a ha) (hlater.found b hb)
  · intro call hcall
    have hfound := resolve?_of_get? (hagreed.found call hcall)
    exact resolve?_of_le ⟨texts, hgrown⟩ hfound
  · rw [hlater.table]
    exact size_internAll_empty _

/-- Two clients miss one text before either enters it, and both get the number of the first. -/
theorem calls_agree_race :
    ∃ s t : Shared Bool,
      start.run? [.seek true "x", .seek false "x", .enter false] = some s ∧
      s.run? [.seek false "y", .enter true, .enter false] = some t ∧
      t.calls = [⟨false, "x", ⟨0⟩⟩, ⟨true, "x", ⟨0⟩⟩, ⟨false, "y", ⟨1⟩⟩] ∧
      t.table.size = (t.calls.map Call.text).toFinset.card := by
  let s : Shared Bool := ⟨⟨#["x"]⟩, fun client => if client then some "x" else none,
    [⟨false, "x", ⟨0⟩⟩]⟩
  let t : Shared Bool := ⟨⟨#["x", "y"]⟩, fun _ => none,
    [⟨false, "x", ⟨0⟩⟩, ⟨true, "x", ⟨0⟩⟩, ⟨false, "y", ⟨1⟩⟩]⟩
  have hbefore : start.run? [.seek true "x", .seek false "x", .enter false] = some s := by
    simp [run?, turn?, start, intern, get?, Interner.empty, s]
    funext client
    cases client <;> rfl
  have hafter : s.run? [.seek false "y", .enter true, .enter false] = some t := by
    simp [run?, turn?, intern, get?, s, t]
    funext client
    cases client <;> rfl
  exact ⟨s, t, hbefore, hafter, rfl, (calls_agree hbefore hafter).2.2.2⟩

end Shared

end Interner

end ImpLang
