import ImpLang.Parser.Rules
import ImpLang.Proofs.Parser.Steps

/-!
How runs of parsers are reasoned about: that a run gives a result at all, which tokens it consumes,
and what they spell if nothing is reported up to the end of the run.
-/

namespace ImpLang

namespace Parser

/-- A parser gives a result in a state, of which a condition holds. -/
def Runs {α : Type} (m : Parser α) (s : State) (post : α → State → Prop) : Prop :=
  ∃ a t, m s = some (a, t) ∧ post a t

namespace Runs

variable {α β : Type} {s : State} {p : α → State → Prop} {q : β → State → Prop}

theorem pure {a : α} (h : p a s) : Runs (pure a) s p := ⟨a, s, rfl, h⟩

theorem bind {m : Parser α} {f : α → Parser β} (hm : Runs m s p)
    (hf : ∀ a t, p a t → Runs (f a) t q) : Runs (m >>= f) s q := by
  obtain ⟨a, t, hrun, ha⟩ := hm
  obtain ⟨b, u, hrest, hb⟩ := hf a t ha
  refine ⟨b, u, ?_, hb⟩
  show (m s).bind (fun result => f result.1 result.2) = some (b, u)
  rw [hrun]
  exact hrest

/-- A step whose result is known. -/
theorem step {m : Parser α} {f : α → Parser β} {a : α} {t : State} (hm : m s = some (a, t))
    (hf : Runs (f a) t q) : Runs (m >>= f) s q :=
  bind (p := fun b u => b = a ∧ u = t) ⟨a, t, hm, rfl, rfl⟩ fun _ _ ⟨ha, ht⟩ => by
    rw [ha, ht]
    exact hf

theorem mono {m : Parser α} {p' : α → State → Prop} (h : Runs m s p)
    (hp : ∀ a t, p a t → p' a t) : Runs m s p' := by
  obtain ⟨a, t, hrun, ha⟩ := h
  exact ⟨a, t, hrun, hp a t ha⟩

end Runs

section Loops

variable {α β : Type} (rest : Parser α)

@[simp] theorem loop_leave (a : α) : loop (pure (.leave a)) rest = pure a := pure_bind ..

@[simp] theorem loop_goOn (wrap : α → α) :
    loop (pure (.goOn wrap)) rest = (do return wrap (← rest)) := pure_bind ..

theorem loop_bind (m : Parser β) (f : β → Parser (Turn α)) :
    loop (m >>= f) rest = m >>= fun b => loop (f b) rest := bind_assoc ..

/-- A round of a loop that goes on consumes tokens. What it leaves with spells the tokens consumed, and
what it makes of a result for the tokens behind them spells both. -/
structure Turned (spells : α → List Token → State → Prop) (s : State) (turn : Turn α)
    (ts : List Token) (t : State) : Prop where
  steps : Steps s ts t
  consumes : turn.goesOn = true → ts ≠ []
  leave : ∀ a, turn = .leave a → spells a ts t
  goOn : ∀ wrap, turn = .goOn wrap → ∀ a us u, Steps t us u → spells a us u →
    spells (wrap a) (ts ++ us) u

namespace Turned

variable {spells : α → List Token → State → Prop} {s t : State} {ts : List Token}

theorem left {a : α} (h : Steps s ts t) (ha : spells a ts t) : Turned spells s (.leave a) ts t where
  steps := h
  consumes := nofun
  leave
  | _, rfl => ha
  goOn := nofun

theorem on {wrap : α → α} (h : Steps s ts t) (hts : ts ≠ [])
    (hwrap : ∀ a us u, Steps t us u → spells a us u → spells (wrap a) (ts ++ us) u) :
    Turned spells s (.goOn wrap) ts t where
  steps := h
  consumes _ := hts
  leave := nofun
  goOn
  | _, rfl => hwrap

end Turned

/-- What rounds spell one by one is spelled by all of them, if the rounds behind the first are known to
end. -/
theorem runs_loop {spells : α → List Token → State → Prop} {round : Parser (Turn α)}
    {rest : Parser α} {s : State} (hs : s.Ok)
    (hround : Runs round s fun turn t => ∃ ts, Turned spells s turn ts t)
    (hrest : ∀ t, t.Ok → t.left < s.left → Runs rest t fun a u => ∃ us, Steps t us u ∧ spells a us u) :
    Runs (loop round rest) s fun a u => ∃ us, Steps s us u ∧ spells a us u := by
  apply Runs.bind hround
  rintro (a | wrap) t ⟨ts, hturn⟩
  · exact .pure ⟨ts, hturn.steps, hturn.leave a rfl⟩
  · have hpos := List.length_pos_iff.2 (hturn.consumes rfl)
    have hleft := hturn.steps.left hs
    apply Runs.bind (hrest t (hturn.steps.ok hs) (by omega))
    rintro a u ⟨us, hu, ha⟩
    exact .pure ⟨ts ++ us, hturn.steps.trans hu, hturn.goOn wrap rfl a us u hu ha⟩

end Loops

variable (names : Interner)

/-- Nothing is reported, and the names numbered so far are those of a table. -/
structure State.Clean (s : State) : Prop where
  reports : s.reports = #[]
  names : s.names ≤ names

variable {names}

theorem Steps.clean {s t : State} {ts : List Token} (h : Steps s ts t) (ht : t.Clean names) :
    s.Clean names :=
  ⟨h.reports ht.reports, Interner.le_trans h.names ht.names⟩

theorem State.Clean.of_declare {s : State} {id : Id} {kind : DeclKind}
    (h : (s.declare id kind).2.Clean names) : s.Clean names := ⟨h.reports, h.names⟩

/-- Whoever complains is not clean. -/
theorem State.Ok.not_clean_complain {s : State} (hs : s.Ok) (expected : Expected)
    (construct : String) : ¬ (s.complain expected construct).Clean names := by
  intro h
  have hreports := h.reports
  rcases s.complain_reports expected construct with ⟨hsame, hlast, -⟩ | hpush
  · rw [hsame] at hreports
    rw [hs.silent hreports] at hlast
    cases hlast
  · rw [hpush] at hreports
    exact absurd hreports Array.push_ne_empty

/-- The token in front carries what its kind asks for. -/
theorem State.Ok.fits {s : State} (hs : s.Ok) (hk : s.kind ≠ .eof) : s.here.Fits := by
  have hstream := hs.stream
  have hbeyond := hs.beyond_ne_nil hk
  obtain ⟨-, hfits, -⟩ := hstream.uncons (by simpa using hbeyond)
  exact hfits

theorem steps_bump {s : State} (hk : s.kind ≠ .eof) : Steps s [s.here] s.bump :=
  .bump hk (.refl _)

section Tokens

variable {s : State}

theorem runs_accept (kind : TokenKind) (hkind : kind ≠ .eof) :
    Runs (accept kind) s fun accepted t =>
      accepted = true ∧ s.kind = kind ∧ Steps s [s.here] t ∨
        accepted = false ∧ s.kind ≠ kind ∧ t = s := by
  by_cases hk : s.kind = kind
  · refine ⟨true, s.bump, ?_, .inl ⟨rfl, hk, steps_bump (by rw [hk]; exact hkind)⟩⟩
    show (if s.kind = kind then _ else _ : Parser Bool) s = _
    rw [if_pos hk]
    rfl
  · refine ⟨false, s, ?_, .inr ⟨rfl, hk, rfl⟩⟩
    show (if s.kind = kind then _ else _ : Parser Bool) s = _
    rw [if_neg hk]
    rfl

theorem runs_acceptSeparator :
    Runs acceptSeparator s fun accepted t =>
      accepted = true ∧ s.kind.isSeparator = true ∧ Steps s [s.here] t ∨
        accepted = false ∧ t = s := by
  by_cases hk : s.kind = .comma
  · refine ⟨true, s.bump, ?_, .inl ⟨rfl, by simp [TokenKind.isSeparator, hk],
      steps_bump (by simp [hk])⟩⟩
    show (if s.kind = .comma then _ else _ : Parser Bool) s = _
    rw [if_pos hk]
    rfl
  · obtain ⟨accepted, t, hrun, h⟩ := runs_accept .semi (by simp)
    refine ⟨accepted, t, ?_, ?_⟩
    · show (if s.kind = .comma then _ else _ : Parser Bool) s = _
      rw [if_neg hk]
      exact hrun
    · rcases h with ⟨ha, hk, h⟩ | ⟨ha, -, h⟩
      · exact .inl ⟨ha, by simp [TokenKind.isSeparator, hk], h⟩
      · exact .inr ⟨ha, h⟩

variable (names) (hs : s.Ok)

include hs

theorem runs_expect (kind : TokenKind) (hkind : kind ≠ .eof) (construct : String) :
    Runs (expect kind construct) s fun found t => ∃ ts, Steps s ts t ∧
      (found = true → ts ≠ []) ∧ (s.kind = kind → ts = [s.here]) ∧
      (t.Clean names → found = true ∧ ∃ u, ts = [u] ∧ u.kind = kind) := by
  by_cases hk : s.kind = kind
  · refine ⟨true, s.bump, ?_, [s.here], steps_bump (by rw [hk]; exact hkind), by simp,
      fun _ => rfl, fun _ => ⟨rfl, s.here, rfl, hk⟩⟩
    show (if s.kind = kind then _ else _ : Parser Bool) s = _
    rw [if_pos hk]
    rfl
  · refine ⟨false, s.complain (.token kind) construct, ?_, [],
      .complain _ _ (.refl _), by simp, fun h => absurd h hk, fun ht => absurd ht (hs.not_clean_complain _ _)⟩
    show (if s.kind = kind then _ else _ : Parser Bool) s = _
    rw [if_neg hk]
    rfl

theorem runs_ident (construct : String) :
    Runs (ident construct) s fun id t => ∃ ts, Steps s ts t ∧
      (s.kind = .identifier → ts = [s.here]) ∧
      (t.Clean names → ∃ u, ts = [u] ∧ u.Spells names .exact id) := by
  refine .step rfl ?_
  split
  · next text hkind htext =>
    have heof : s.kind ≠ .eof := by simp [State.kind, hkind]
    refine .step rfl (.step rfl (.pure ⟨[s.here], .bump heof (.intern text (.refl _)), fun _ => rfl,
      fun ht => ⟨s.here, rfl, hkind, ⟨text, htext, ?_⟩, s.here, s.here, rfl, rfl, rfl⟩⟩))
    exact Interner.resolve?_of_le ht.names (s.bump.names.resolve?_intern text)
  · next hno =>
    refine .step rfl (.step rfl (.step rfl (.pure ⟨[], .complain _ _ (.intern _ (.refl _)),
      fun hk => ?_, fun ht => ?_⟩)))
    · obtain ⟨text, htext⟩ := (hs.fits (by simp [hk])).1 hk
      exact (hno text hk htext).elim
    · exact absurd ((Steps.intern _ (.refl _)).clean ht) (hs.not_clean_complain _ _)

end Tokens

end Parser

end ImpLang
