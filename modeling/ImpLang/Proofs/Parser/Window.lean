import ImpLang.Proofs.Parser.Runs

/-!
What the moves of a parser leave of a source: the tokens beyond are always the last ones, the texts of
the tokens in the window have numbers, and whatever is reported is reported at a token that has been
in front.
-/

namespace ImpLang

namespace Parser

variable {s t : State} {ts : List Token}

theorem State.beyond_bump (s : State) : s.bump.beyond = s.beyond.tail := by
  simp only [bump]
  split
  · next h => rw [h, List.tail_nil]
  · next lexed rest h => cases rest <;> simp [h]

theorem Steps.beyond_suffix (h : Steps s ts t) : t.beyond <:+ s.beyond := by
  refine preserves (I := fun u => u.beyond <:+ s.beyond) ?_ ?_ ?_ ?_ h List.suffix_rfl
  · intro u _ hu
    rw [State.beyond_bump]
    exact (List.tail_suffix _).trans hu
  · intro u expected construct hu
    rwa [State.complain_beyond]
  · exact fun u text hu => hu
  · exact fun u id kind _ hu => hu

/-- The texts of the tokens in the window have numbers. -/
def State.Numbered (s : State) : Prop :=
  ∀ token ∈ s.pending.take 2, ∀ text, token.internedText? = some text → text ∈ s.names.texts

theorem State.Numbered.mono (h : s.Numbered) (hpending : t.pending = s.pending)
    (hnames : s.names ≤ t.names) : t.Numbered := by
  intro token htoken text htext
  rw [hpending] at htoken
  exact Interner.within_of_le hnames text (h token htoken text htext)

theorem State.mem_texts_enter (s : State) {lexed : Lexed} {text : String}
    (h : lexed.token.internedText? = some text) : text ∈ (s.enter lexed).names.texts := by
  rw [enter_names_eq, h]
  exact Interner.mem_texts_intern.2 (.inr rfl)

theorem State.Numbered.bump (h : s.Numbered) : s.bump.Numbered := by
  have hnames := s.names_bump
  cases hbeyond : s.beyond with
  | nil =>
    refine h.mono ?_ hnames
    simp [State.pending, State.bump, hbeyond]
  | cons lexed rest =>
    have hhere : ∀ text, lexed.token.internedText? = some text → text ∈ s.bump.names.texts := by
      intro text htext
      refine Interner.within_of_le hnames text (h lexed.token ?_ text htext)
      simp [State.pending, hbeyond]
    cases rest with
    | nil => simpa [State.Numbered, State.pending, State.bump, hbeyond] using hhere
    | cons next rest =>
      intro token htoken text htext
      have htwo : token = lexed.token ∨ token = next.token := by
        simpa [State.pending, State.bump, hbeyond] using htoken
      rcases htwo with rfl | rfl
      · exact hhere text htext
      · simp only [State.bump, hbeyond]
        exact State.mem_texts_enter _ htext

theorem Steps.numbered (h : Steps s ts t) (hs : s.Numbered) : t.Numbered :=
  preserves (I := State.Numbered) (fun _ _ hu => hu.bump)
    (fun u expected construct hu => hu.mono (by rw [State.complain_pending])
      (by rw [State.complain_names]; exact Interner.le_refl _))
    (fun u text hu => hu.mono rfl (Interner.le_intern u.names text))
    (fun u _ _ _ hu => hu.mono rfl (Interner.le_refl u.names)) h hs

/-- The last complaint is about a token that is not behind the one in front. -/
def State.Complained (s : State) : Prop :=
  ∀ offset, s.lastError = some offset → offset ≤ s.here.span.start.offset

theorem Steps.complained (h : Steps s ts t) (hok : s.Ok) (hs : s.Complained) : t.Complained := by
  refine (preserves (I := fun u => u.Ok ∧ u.Complained) ?_ ?_ ?_ ?_ h ⟨hok, hs⟩).2
  · intro u hk ⟨hok, hu⟩
    refine ⟨(steps_bump hk).ok hok, fun offset hoffset => ?_⟩
    rw [State.lastError_bump] at hoffset
    -- The next token begins behind the end of this one, and this one is not empty.
    have hle := hu offset hoffset
    have hstream := hok.stream
    rw [State.pending_bump u (hok.beyond_ne_nil hk)] at hstream
    obtain ⟨-, -, -, hlt, hrest⟩ := hstream.uncons (List.cons_ne_nil _ _)
    have hnext := hrest.start
    omega
  · intro u expected construct ⟨hok, hu⟩
    refine ⟨(Steps.complain expected construct (.refl _)).ok hok, ?_⟩
    rw [State.Complained, State.complain_here]
    rw [State.complain]
    split
    · exact hu
    · rintro offset hoffset
      cases hoffset
      exact Nat.le_refl _
  · exact fun u text ⟨hok, hu⟩ => ⟨(Steps.intern text (.refl _)).ok hok, hu⟩
  · exact fun u id kind hk ⟨hok, hu⟩ => ⟨(Steps.declare id kind hk (.refl _)).ok hok, hu⟩

/-- The token in front is consumed first or stays in front. -/
theorem Steps.here_mem (h : Steps s ts t) (hs : s.Ok) : s.here ∈ ts ++ [t.here] := by
  have hpending := h.pending hs
  cases ts with
  | nil => exact List.mem_singleton.2 (List.cons.inj hpending).1
  | cons first ts => exact (List.cons.inj hpending).1 ▸ List.mem_cons_self ..

/-- If nothing is wrong with the tokens themselves, every report is at a token that has been in
front. -/
theorem Steps.reported (h : Steps s ts t) (hs : s.Ok)
    (hsilent : ∀ lexed ∈ s.beyond, lexed.reports = []) :
    ∀ d ∈ t.reports, d ∈ s.reports ∨ ∃ token ∈ ts ++ [t.here], d.span = token.span := by
  induction h with
  | refl s => exact fun d hd => .inl hd
  | @bump s t tokens hk rest ih =>
    -- The token that comes into the window brings no report of its own.
    have hentering : s.entering = [] := by
      rw [State.entering]
      split
      · next second _ heq => exact hsilent second (by simp [heq])
      · rfl
    intro d hd
    have hbeyond : ∀ lexed ∈ s.bump.beyond, lexed.reports = [] := by
      rw [State.beyond_bump]
      exact fun lexed hlexed => hsilent lexed (List.mem_of_mem_tail hlexed)
    rcases ih ((steps_bump hk).ok hs) hbeyond d hd with hold | ⟨token, htoken, hspan⟩
    · rw [State.reports_bump, hentering] at hold
      exact .inl (by simpa using hold)
    · exact .inr ⟨token, List.mem_cons_of_mem _ htoken, hspan⟩
  | @complain s t tokens expected construct rest ih =>
    intro d hd
    have hok : (s.complain expected construct).Ok :=
      (Steps.complain expected construct (.refl _)).ok hs
    rw [State.complain_beyond] at ih
    rcases ih hok hsilent d hd with hold | hnew
    · rcases s.complain_reports expected construct with ⟨hsame, -⟩ | hpush
      · rw [hsame] at hold
        exact .inl hold
      · rw [hpush] at hold
        refine (Array.mem_push.1 hold).imp_right ?_
        rintro rfl
        exact ⟨s.here, (Steps.complain expected construct rest).here_mem hs, rfl⟩
    · exact .inr hnew
  | intern text rest ih => exact ih ((Steps.intern text (.refl _)).ok hs) hsilent
  | declare id kind hk rest ih => exact ih ((Steps.declare id kind hk (.refl _)).ok hs) hsilent

end Parser

end ImpLang
