import ImpLang.Proofs.Parser.Source
import ImpLang.Proofs.Span

/-!
Every span that a parser makes is a range of its source, whatever is wrong with the source. Tokens
are, and what is made of a token and the last one consumed runs forward, because it is empty where
nothing has been consumed since.
-/

namespace ImpLang

namespace Span.In

variable {file : FileId} {source : List Char} {s t : Span}

theorem endPoint (h : s.In file source) : s.endPoint.In file source :=
  ⟨h.file, h.stop, h.stop, Nat.le_refl _⟩

theorem origin (file : FileId) (source : List Char) : (Span.origin file).In file source := by
  have hfirst : Place.first.In source := ⟨[], source, rfl, rfl⟩
  exact ⟨rfl, hfirst, hfirst, Nat.le_refl _⟩

theorem cover (hs : s.In file source) (ht : t.In file source) : (s.cover t).In file source := by
  have hstart : ((s.cover t).start = t.start ∧ t.start.offset < s.start.offset) ∨
      (s.cover t).start = s.start := by
    by_cases h : t.start.offset < s.start.offset
    · exact .inl ⟨if_pos h, h⟩
    · exact .inr (if_neg h)
  have hstop : ((s.cover t).stop = t.stop ∧ s.stop.offset < t.stop.offset) ∨
      (s.cover t).stop = s.stop := by
    by_cases h : s.stop.offset < t.stop.offset
    · exact .inl ⟨if_pos h, h⟩
    · exact .inr (if_neg h)
  refine ⟨hs.file, ?_, ?_, ?_⟩
  · rcases hstart with ⟨heq, -⟩ | heq
    · exact heq ▸ ht.start
    · exact heq ▸ hs.start
  · rcases hstop with ⟨heq, -⟩ | heq
    · exact heq ▸ ht.stop
    · exact heq ▸ hs.stop
  · have hforward := hs.forward
    rcases hstart with ⟨heq, hlt⟩ | heq <;> rcases hstop with ⟨heq', hlt'⟩ | heq' <;>
      rw [heq, heq'] <;> omega

end Span.In

namespace Parser

variable (file : FileId) (source : List Char)

/-- What a state of the parser knows lies in the source. -/
structure State.Located (s : State) : Prop where
  here : s.here.span.In file source
  prev : s.prev.In file source
  beyond : ∀ lexed ∈ s.beyond, lexed.token.span.In file source ∧
    ∀ d ∈ lexed.reports, d.span.In file source
  decls : ∀ decl ∈ s.decls.toArray, decl.span.In file source
  reports : ∀ d ∈ s.reports, d.span.In file source

/-- From a state that lies in the source a parser goes to another one, with a result as described. -/
def Locates {α : Type} (m : Parser α) (p : α → Prop) : Prop :=
  ∀ s a t, s.Located file source → m s = some (a, t) → p a ∧ t.Located file source

variable {file source}

namespace State.Located

variable {s : State} (h : s.Located file source)

include h

theorem finish {start : Span} (hstart : start.In file source) :
    (s.finish start).In file source := by
  rw [State.finish]
  split
  · -- Nothing has been consumed since.
    exact ⟨hstart.file, hstart.start, hstart.start, Nat.le_refl _⟩
  · next hle => exact ⟨hstart.file, hstart.start, h.prev.stop, Nat.le_of_not_lt hle⟩

theorem enter {lexed : Lexed} (hlexed : ∀ d ∈ lexed.reports, d.span.In file source) :
    (s.enter lexed).Located file source where
  here := by rw [enter_here]; exact h.here
  prev := by rw [enter_prev]; exact h.prev
  beyond := by rw [enter_beyond]; exact h.beyond
  decls := by rw [enter_decls]; exact h.decls
  reports := by
    rw [enter_reports]
    intro d hd
    rcases Array.mem_append.1 hd with hd | hd
    · exact h.reports d hd
    · exact hlexed d (by simpa using hd)

theorem bump : s.bump.Located file source := by
  have hbeyond := h.beyond
  rw [State.bump]
  split
  · exact ⟨h.here, h.here, h.beyond, h.decls, h.reports⟩
  · next lexed rest heq =>
    rw [heq] at hbeyond
    have hmoved : State.Located file source
        { s with behind := s.here :: s.behind, here := lexed.token, beyond := rest } :=
      ⟨(hbeyond lexed (List.mem_cons_self ..)).1, h.here,
        fun other hother => hbeyond other (List.mem_cons_of_mem _ hother), h.decls, h.reports⟩
    cases rest with
    | nil => exact hmoved
    | cons next rest => exact hmoved.enter (hmoved.beyond next (List.mem_cons_self ..)).2

theorem complain (expected : Expected) (construct : String) :
    (s.complain expected construct).Located file source where
  here := by rw [complain_here]; exact h.here
  prev := by rw [complain_prev]; exact h.prev
  beyond := by rw [complain_beyond]; exact h.beyond
  decls := by rw [complain_decls]; exact h.decls
  reports := by
    rcases s.complain_reports expected construct with ⟨hsame, -⟩ | hpush
    · rw [hsame]
      exact h.reports
    · rw [hpush]
      intro d hd
      rcases Array.mem_push.1 hd with hd | rfl
      · exact h.reports d hd
      · exact h.here

theorem intern (text : String) : (s.intern text).2.Located file source :=
  ⟨h.here, h.prev, h.beyond, h.decls, h.reports⟩

theorem declare {id : Id} (hid : id.span.In file source) (kind : DeclKind) :
    (s.declare id kind).2.Located file source := by
  refine ⟨h.here, h.prev, h.beyond, fun decl hdecl => ?_, h.reports⟩
  rcases Array.mem_push.1 hdecl with hdecl | rfl
  · exact h.decls decl hdecl
  · exact hid

theorem synchronize (rounds depth : Nat) : (s.synchronize rounds depth).Located file source := by
  induction rounds generalizing depth s with
  | zero => exact h
  | succ rounds ih =>
    rw [State.synchronize]
    split
    · next found hfound =>
      rcases searchTurn_stops hfound with rfl | ⟨-, rfl⟩
      · exact h
      · exact h.bump
    · exact ih h.bump _

theorem recover (reported : Nat) : (s.recover reported).Located file source := by
  rw [State.recover]
  split
  · exact h.synchronize _ 0
  · exact h

end State.Located

namespace Locates

variable {α β : Type} {p : α → Prop} {q : β → Prop}

theorem pure {a : α} (h : p a) : Locates file source (pure a) p := by
  intro s b t hs hrun
  cases hrun
  exact ⟨h, hs⟩

theorem failure : Locates file source failure p := by
  intro s a t _ hrun
  cases hrun

theorem bind {m : Parser α} {f : α → Parser β} (hm : Locates file source m p)
    (hf : ∀ a, p a → Locates file source (f a) q) : Locates file source (m >>= f) q := by
  intro s b t hs hrun
  obtain ⟨⟨a, s'⟩, ha, hb⟩ := Option.bind_eq_some_iff.1 hrun
  obtain ⟨hp, hs'⟩ := hm s a s' hs ha
  exact hf a hp s' b t hs' hb

/-- A step that only looks at the state. -/
theorem look {f : State → α} (h : ∀ s, s.Located file source → p (f s)) :
    Locates file source (do return f (← get)) p := by
  intro s a t hs hrun
  cases hrun
  exact ⟨h s hs, hs⟩

theorem move {move : State → State}
    (h : ∀ s, s.Located file source → (move s).Located file source) :
    Locates file source (modify move) fun _ => True := by
  intro s a t hs hrun
  cases hrun
  exact ⟨trivial, h s hs⟩

/-- A property of the results of a loop that a round establishes or hands on. -/
inductive Keeps (p : α → Prop) : Turn α → Prop
  | leave {a : α} (h : p a) : Keeps p (.leave a)
  | goOn {wrap : α → α} (h : ∀ a, p a → p (wrap a)) : Keeps p (.goOn wrap)

theorem loop {round : Parser (Turn α)} {rest : Parser α}
    (hround : Locates file source round (Keeps p)) (hrest : Locates file source rest p) :
    Locates file source (loop round rest) p := by
  refine hround.bind ?_
  rintro _ (ha | hwrap)
  · exact .pure ha
  · exact hrest.bind fun a ha => .pure (hwrap a ha)

end Locates

/-! ## Moves -/

theorem locates_kind : Locates file source kind fun _ => True := .look fun _ _ => trivial

theorem locates_nextKind : Locates file source nextKind fun _ => True := .look fun _ _ => trivial

theorem locates_isAt (kind : TokenKind) : Locates file source (isAt kind) fun _ => True :=
  .look fun _ _ => trivial

theorem locates_reported : Locates file source reported fun _ => True := .look fun _ _ => trivial

theorem locates_peek : Locates file source peek fun token => token.span.In file source :=
  .look fun _ hs => hs.here

theorem locates_track : Locates file source track (Span.In file source) := .look fun _ hs => hs.here

theorem locates_prev : Locates file source prev (Span.In file source) := .look fun _ hs => hs.prev

theorem locates_finish {start : Span} (h : start.In file source) :
    Locates file source (finish start) (Span.In file source) := .look fun _ hs => hs.finish h

theorem locates_bump : Locates file source bump fun _ => True := .move fun _ hs => hs.bump

theorem locates_unexpected (expected : Expected) (construct : String) :
    Locates file source (unexpected expected construct) fun _ => True :=
  .move fun _ hs => hs.complain expected construct

theorem locates_recover (reported : Nat) :
    Locates file source (recover reported) fun _ => True := .move fun _ hs => hs.recover reported

theorem locates_intern (text : String) :
    Locates file source (intern text) fun _ => True := by
  intro s a t hs hrun
  cases hrun
  exact ⟨trivial, hs.intern text⟩

theorem locates_declare {id : Id} (h : id.span.In file source) (kind : DeclKind) :
    Locates file source (declare id kind) fun _ => True := by
  intro s a t hs hrun
  cases hrun
  exact ⟨trivial, hs.declare h kind⟩

theorem locates_accept (kind : TokenKind) :
    Locates file source (accept kind) fun _ => True := by
  show Locates file source (Parser.kind >>= fun here => if here = kind then _ else _) _
  refine locates_kind.bind fun here _ => ?_
  split
  · exact locates_bump.bind fun _ _ => .pure trivial
  · exact .pure trivial

theorem locates_expect (kind : TokenKind) (construct : String) :
    Locates file source (expect kind construct) fun _ => True := by
  show Locates file source (Parser.kind >>= fun here => if here = kind then _ else _) _
  refine locates_kind.bind fun here _ => ?_
  split
  · exact locates_bump.bind fun _ _ => .pure trivial
  · exact (locates_unexpected _ _).bind fun _ _ => .pure trivial

theorem locates_acceptSeparator : Locates file source acceptSeparator fun _ => True := by
  show Locates file source (Parser.kind >>= fun here => if here = .comma then _ else _) _
  refine locates_kind.bind fun here _ => ?_
  split
  · exact locates_bump.bind fun _ _ => .pure trivial
  · exact locates_accept .semi

theorem locates_ident (construct : String) :
    Locates file source (ident construct) fun id => id.span.In file source := by
  refine locates_peek.bind fun token htoken => ?_
  split
  · exact locates_bump.bind fun _ _ => (locates_intern _).bind fun symbol _ => .pure htoken
  · exact (locates_unexpected _ _).bind fun _ _ => (locates_intern _).bind fun symbol _ =>
      (locates_finish htoken).bind fun span hspan => .pure hspan

end Parser

end ImpLang
