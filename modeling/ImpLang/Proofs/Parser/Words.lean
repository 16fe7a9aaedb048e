import ImpLang.Proofs.Parser.Isolation
import ImpLang.Proofs.Parser.Located

/-!
The tests that a parser makes on offsets, in 32 bits. A parser looks at the offsets of three places:
where the token in front begins, where the last token consumed ends, and where it has complained
last. While it reads less than 2 ^ 32 bytes all of these are places of the text, so what it finds by
comparing offsets is what it finds by comparing them in 32 bits.
-/

namespace ImpLang

namespace Parser

variable {file : FileId} {source : List Char}

variable (file source) in
/-- The tokens around a state and its last complaint are places of the source. -/
structure State.Inside (s : State) : Prop where
  pending : ∀ token ∈ s.pending, token.span.In file source
  prev : s.prev.In file source
  lastError : ∀ offset, s.lastError = some offset → ∃ p : Place, p.In source ∧ p.offset = offset

namespace State.Inside

variable {s : State} (h : s.Inside file source)

include h

theorem here : s.here.span.In file source := h.pending s.here (List.mem_cons_self ..)

theorem bump : s.bump.Inside file source where
  pending := by
    by_cases hbeyond : s.beyond = []
    · have hsame : s.bump.pending = s.pending := by simp [State.bump, State.pending, hbeyond]
      rw [hsame]
      exact h.pending
    · intro token htoken
      refine h.pending token ?_
      rw [s.pending_bump hbeyond]
      exact List.mem_cons_of_mem _ htoken
  prev := by
    rw [prev_bump]
    exact h.here
  lastError := by
    rw [lastError_bump]
    exact h.lastError

theorem complain (expected : Expected) (construct : String) :
    (s.complain expected construct).Inside file source where
  pending := by
    rw [complain_pending]
    exact h.pending
  prev := by
    rw [complain_prev]
    exact h.prev
  lastError := by
    rw [State.complain]
    split
    · exact h.lastError
    · intro offset hoffset
      cases hoffset
      exact ⟨_, h.here.start, rfl⟩

end State.Inside

/-- Wherever a parser comes to, what it looks at lies in the source. -/
theorem Steps.inside {s t : State} {ts : List Token} (h : Steps s ts t)
    (hs : s.Inside file source) : t.Inside file source :=
  preserves (I := State.Inside file source) (fun _ _ hu => hu.bump)
    (fun _ expected construct hu => hu.complain expected construct)
    (fun _ _ hu => ⟨hu.pending, hu.prev, hu.lastError⟩)
    (fun _ _ _ _ hu => ⟨hu.pending, hu.prev, hu.lastError⟩) h hs

theorem inside_start (file : FileId) (source : String) (names : Interner) :
    (State.start file source names).Inside file source.toList := by
  have hlocated := located_start file source names
  refine ⟨fun token htoken => ?_, hlocated.prev, fun offset hoffset => ?_⟩
  · rcases List.mem_cons.1 htoken with rfl | hbeyond
    · exact hlocated.here
    · obtain ⟨lexed, hlexed, rfl⟩ := List.mem_map.1 hbeyond
      exact (hlocated.beyond lexed hlexed).1
  · rw [(fresh_start file source names).1] at hoffset
    cases hoffset

/-- What a state of the parser finds by comparing offsets, found in 32 bits: where a construct that
began at `start` ends, whether anything has been consumed since, and whether the token in front has
been complained about. -/
structure State.SeenInWords (s : State) (start : Span) : Prop where
  finish : s.finish start =
    if s.prev.stop.word < start.start.word then { start with stop := start.start }
    else { start with stop := s.prev.stop }
  consumed : start.start.offset < s.prev.stop.offset ↔ start.start.word < s.prev.stop.word
  complained : s.lastError = some s.here.span.start.offset ↔
    s.lastError.map UInt32.ofNat = some s.here.span.start.word

theorem State.Inside.seenInWords {s : State} {start : Span} (h : s.Inside file source)
    (hsource : byteSize source < UInt32.size) (hstart : start.In file source) :
    s.SeenInWords start where
  finish := by simp only [State.finish, h.prev.stop.word_lt_iff hsource hstart.start]
  consumed := (hstart.start.word_lt_iff hsource h.prev.stop).symm
  complained := by
    cases hlast : s.lastError with
    | none => simp
    | some offset =>
      obtain ⟨p, hp, rfl⟩ := h.lastError offset hlast
      have hword := hp.word_eq_iff hsource h.here.start
      simpa [Place.word] using hword.symm

/-- While a source of less than 2 ^ 32 bytes is read, every test on offsets is one in 32 bits. -/
theorem tests_in_words (file : FileId) (source : String) (names : Interner)
    (hsource : byteSize source.toList < UInt32.size) {ts : List Token} {t : State}
    (h : Steps (.start file source names) ts t) {start : Span} (hstart : start.In file source.toList) :
    t.SeenInWords start :=
  (h.inside (inside_start file source names)).seenInWords hsource hstart

end Parser

end ImpLang
