import ImpLang.Parser.Rules
import ImpLang.Proofs.Parser.Grammar
import ImpLang.Proofs.Symbol
import ImpLang.Proofs.Token.Stream

/-!
The moves of a parser. Whatever a production does to the window is a sequence of four moves: consume
the token in front, which is never the end of the file, complain about it, number a text, and make a
declaration. What every move keeps is kept by every production.
-/

namespace ImpLang

namespace Parser

namespace State

/-- The tokens that are not consumed yet. -/
def pending (s : State) : List Token := s.here :: s.beyond.map Lexed.token

/-- How many tokens stand in front of the end of the file. -/
def left (s : State) : Nat := s.beyond.length

section Fields

variable (s : State) (lexed : Lexed) (text : String) (expected : Expected) (construct : String)
  (id : Id) (declKind : DeclKind)

@[simp] theorem enter_here : (s.enter lexed).here = s.here := by
  simp only [enter]; split <;> rfl

@[simp] theorem enter_beyond : (s.enter lexed).beyond = s.beyond := by
  simp only [enter]; split <;> rfl

@[simp] theorem enter_behind : (s.enter lexed).behind = s.behind := by
  simp only [enter]; split <;> rfl

@[simp] theorem enter_prev : (s.enter lexed).prev = s.prev := by
  simp only [prev, enter_behind, enter_here]

@[simp] theorem enter_lastError : (s.enter lexed).lastError = s.lastError := by
  simp only [enter]; split <;> rfl

@[simp] theorem enter_decls : (s.enter lexed).decls = s.decls := by
  simp only [enter]; split <;> rfl

@[simp] theorem enter_reports : (s.enter lexed).reports = s.reports ++ lexed.reports.toArray := by
  simp only [enter]; split <;> rfl

theorem enter_names_eq :
    (s.enter lexed).names = s.names.internAll lexed.token.internedText?.toList := by
  simp only [enter]
  split
  · next text h =>
    rw [h]
    rfl
  · next h =>
    rw [h]
    rfl

theorem enter_names : s.names ≤ (s.enter lexed).names := ⟨_, s.enter_names_eq lexed⟩

@[simp] theorem intern_here : (s.intern text).2.here = s.here := rfl
@[simp] theorem intern_beyond : (s.intern text).2.beyond = s.beyond := rfl
@[simp] theorem intern_behind : (s.intern text).2.behind = s.behind := rfl
@[simp] theorem intern_prev : (s.intern text).2.prev = s.prev := rfl
@[simp] theorem intern_lastError : (s.intern text).2.lastError = s.lastError := rfl
@[simp] theorem intern_decls : (s.intern text).2.decls = s.decls := rfl
@[simp] theorem intern_reports : (s.intern text).2.reports = s.reports := rfl

@[simp] theorem declare_here : (s.declare id declKind).2.here = s.here := rfl
@[simp] theorem declare_beyond : (s.declare id declKind).2.beyond = s.beyond := rfl
@[simp] theorem declare_behind : (s.declare id declKind).2.behind = s.behind := rfl
@[simp] theorem declare_prev : (s.declare id declKind).2.prev = s.prev := rfl
@[simp] theorem declare_lastError : (s.declare id declKind).2.lastError = s.lastError := rfl
@[simp] theorem declare_names : (s.declare id declKind).2.names = s.names := rfl
@[simp] theorem declare_reports : (s.declare id declKind).2.reports = s.reports := rfl

@[simp] theorem complain_here : (s.complain expected construct).here = s.here := by
  simp only [complain]; split <;> rfl

@[simp] theorem complain_beyond : (s.complain expected construct).beyond = s.beyond := by
  simp only [complain]; split <;> rfl

@[simp] theorem complain_behind : (s.complain expected construct).behind = s.behind := by
  simp only [complain]; split <;> rfl

@[simp] theorem complain_prev : (s.complain expected construct).prev = s.prev := by
  simp only [prev, complain_behind, complain_here]

@[simp] theorem complain_decls : (s.complain expected construct).decls = s.decls := by
  simp only [complain]; split <;> rfl

@[simp] theorem complain_names : (s.complain expected construct).names = s.names := by
  simp only [complain]; split <;> rfl

@[simp] theorem intern_pending : (s.intern text).2.pending = s.pending := rfl
@[simp] theorem declare_pending : (s.declare id declKind).2.pending = s.pending := rfl

@[simp] theorem complain_pending : (s.complain expected construct).pending = s.pending := by
  simp only [pending, complain_here, complain_beyond]

theorem pending_bump (h : s.beyond ≠ []) : s.pending = s.here :: s.bump.pending := by
  simp only [bump, pending]
  split
  · next h' => exact absurd h' h
  · next lexed rest h' => cases rest <;> simp [h']

theorem behind_bump : s.bump.behind = s.here :: s.behind := by
  simp only [bump]
  split
  · rfl
  · next lexed rest _ => cases rest <;> simp

theorem prev_bump : s.bump.prev = s.here.span := by
  rw [prev, behind_bump]

theorem lastError_bump : s.bump.lastError = s.lastError := by
  simp only [bump]
  split
  · rfl
  · next lexed rest _ => cases rest <;> simp

theorem decls_bump : s.bump.decls = s.decls := by
  simp only [bump]
  split
  · rfl
  · next lexed rest _ => cases rest <;> simp

theorem names_bump : s.names ≤ s.bump.names := by
  simp only [bump]
  split
  · exact Interner.le_refl s.names
  · next lexed rest _ =>
    cases rest with
    | nil => exact Interner.le_refl s.names
    | cons next rest =>
      exact enter_names { s with behind := s.here :: s.behind, here := lexed.token, beyond := next :: rest } next

/-- The reports of the token that enters the window with a bump. -/
def entering : List Diagnostic :=
  match s.beyond with
  | _ :: next :: _ => next.reports
  | _ => []

theorem reports_bump : s.bump.reports = s.reports ++ s.entering.toArray := by
  simp only [bump, entering]
  cases s.beyond with
  | nil => simp
  | cons lexed rest => cases rest <;> simp

/-- A complaint that is suppressed leaves the reports as they are. -/
theorem complain_reports :
    (s.complain expected construct).reports = s.reports ∧
        s.lastError = some s.here.span.start.offset ∧
        (s.complain expected construct).lastError = s.lastError ∨
      (s.complain expected construct).reports =
        s.reports.push (ParseError.report ⟨expected, s.here, construct⟩) := by
  simp only [complain]
  split
  · next h => exact .inl ⟨rfl, h, rfl⟩
  · exact .inr rfl

end Fields

/-- A search ends where it is, or behind a token that is not the end of the file. -/
theorem searchTurn_stops {s t : State} {depth : Nat} (h : s.searchTurn depth = .inl t) :
    t = s ∨ s.kind ≠ .eof ∧ t = s.bump := by
  simp only [State.searchTurn] at h
  split at h
  · cases h
    exact .inl rfl
  · next hsemi =>
    split at h
    · cases h
      exact .inr ⟨by simp [hsemi], rfl⟩
    · cases h
  all_goals first
    | cases h
    | split at h
      · cases h
        exact .inl rfl
      · cases h

/-- What holds of the window at every moment. -/
structure Ok (s : State) : Prop where
  stream : Stream s.prev.stop.offset s.pending
  /-- Every complaint that is suppressed has another one before it. -/
  silent : s.reports = #[] → s.lastError = none

/-- All reports are of errors, those on tokens ahead included. -/
structure Errors (s : State) : Prop where
  reports : ∀ d ∈ s.reports, d.isError = true
  beyond : ∀ lexed ∈ s.beyond, ∀ d ∈ lexed.reports, d.isError = true

theorem Ok.beyond_ne_nil {s : State} (hs : s.Ok) (hk : s.kind ≠ .eof) : s.beyond ≠ [] := by
  intro hnil
  have hstream := hs.stream
  rw [pending, hnil] at hstream
  cases hstream with
  | eof kind => exact hk kind
  | token _ _ _ _ rest => cases rest

end State

/-- From one state to another by moves that consume the given tokens. -/
inductive Steps : State → List Token → State → Prop
  | refl (s : State) : Steps s [] s
  | bump {s t : State} {tokens : List Token} (h : s.kind ≠ .eof) (rest : Steps s.bump tokens t) :
      Steps s (s.here :: tokens) t
  | complain {s t : State} {tokens : List Token} (expected : Expected) (construct : String)
      (rest : Steps (s.complain expected construct) tokens t) : Steps s tokens t
  | intern {s t : State} {tokens : List Token} (text : String)
      (rest : Steps (s.intern text).2 tokens t) : Steps s tokens t
  | declare {s t : State} {tokens : List Token} (id : Id) (kind : DeclKind) (h : kind ≠ .error)
      (rest : Steps (s.declare id kind).2 tokens t) : Steps s tokens t

namespace Steps

theorem trans {s t u : State} {ts us : List Token} (h : Steps s ts t) (h' : Steps t us u) :
    Steps s (ts ++ us) u := by
  induction h with
  | refl s => exact h'
  | bump hk _ ih => exact .bump hk (ih h')
  | complain expected construct _ ih => exact .complain expected construct (ih h')
  | intern text _ ih => exact .intern text (ih h')
  | declare id kind hk _ ih => exact .declare id kind hk (ih h')

theorem declared {s t : State} {ts : List Token} (h : Steps s ts t) (id : Id) (kind : DeclKind)
    (hk : kind ≠ .error) : Steps s ts (t.declare id kind).2 := by
  have h' := h.trans (.declare id kind hk (.refl _))
  rwa [List.append_nil] at h'

theorem interned {s t : State} {ts : List Token} (h : Steps s ts t) (text : String) :
    Steps s ts (t.intern text).2 := by
  have h' := h.trans (.intern text (.refl _))
  rwa [List.append_nil] at h'

/-- What every move keeps is kept by a sequence of them. -/
theorem preserves {I : State → Prop} (bump : ∀ s : State, s.kind ≠ .eof → I s → I s.bump)
    (complain : ∀ (s : State) expected construct, I s → I (s.complain expected construct))
    (intern : ∀ (s : State) text, I s → I (s.intern text).2)
    (declare : ∀ (s : State) id kind, kind ≠ .error → I s → I (s.declare id kind).2)
    {s t : State} {ts : List Token} (h : Steps s ts t) (hs : I s) : I t := by
  induction h with
  | refl s => exact hs
  | bump hk _ ih => exact ih (bump _ hk hs)
  | complain expected construct _ ih => exact ih (complain _ expected construct hs)
  | intern text _ ih => exact ih (intern _ text hs)
  | declare id kind hk _ ih => exact ih (declare _ id kind hk hs)

theorem ok {s t : State} {ts : List Token} (h : Steps s ts t) (hs : s.Ok) : t.Ok := by
  refine preserves (I := State.Ok) ?_ ?_ ?_ ?_ h hs
  · intro s hk hs
    have hbeyond : s.beyond ≠ [] := hs.beyond_ne_nil hk
    refine ⟨?_, fun hr => ?_⟩
    · have hstream := hs.stream
      rw [State.pending_bump s hbeyond] at hstream
      rw [State.prev_bump]
      cases hstream with
      | token _ _ _ _ rest => exact rest
    · rw [State.reports_bump, Array.append_eq_empty_iff] at hr
      rw [State.lastError_bump]
      exact hs.silent hr.1
  · intro s expected construct hs
    refine ⟨by simpa using hs.stream, fun hr => ?_⟩
    rcases s.complain_reports expected construct with ⟨hsame, hlast, -⟩ | hpush
    · rw [hsame] at hr
      rw [hs.silent hr] at hlast
      cases hlast
    · rw [hpush] at hr
      exact absurd hr (Array.push_ne_empty)
  · intro s text hs
    exact ⟨hs.stream, hs.silent⟩
  · intro s id kind _ hs
    exact ⟨hs.stream, hs.silent⟩

variable {s t : State} {ts : List Token}

/-- The tokens between two states are those that were consumed. -/
theorem pending (h : Steps s ts t) (hs : s.Ok) : s.pending = ts ++ t.pending := by
  induction h with
  | refl s => rfl
  | bump hk rest ih =>
    rw [State.pending_bump _ (hs.beyond_ne_nil hk), ih (ok (.bump hk (.refl _)) hs)]
    rfl
  | complain expected construct rest ih =>
    rw [← ih (ok (.complain expected construct (.refl _)) hs), State.complain_pending]
  | intern text rest ih => exact ih (ok (.intern text (.refl _)) hs)
  | declare id kind hk rest ih => exact ih (ok (.declare id kind hk (.refl _)) hs)

/-- Which tokens were consumed is seen from what is left. -/
theorem eq_of_left {us rest : List Token} (h : Steps s us t) (hs : s.Ok)
    (hpending : s.pending = ts ++ rest) (hleft : t.pending.length = rest.length) :
    us = ts ∧ t.pending = rest := by
  rw [h.pending hs] at hpending
  exact List.append_inj' hpending hleft

theorem left (h : Steps s ts t) (hs : s.Ok) : s.left = ts.length + t.left := by
  have hlength := congrArg List.length (h.pending hs)
  simp only [State.pending, List.length_cons, List.length_append, List.length_map] at hlength
  simp only [State.left]
  omega

/-- The first token consumed is the one in front. -/
theorem head (h : Steps s ts t) (hs : s.Ok) (hts : ts ≠ []) : ts.head? = some s.here := by
  have hpending := h.pending hs
  cases ts with
  | nil => exact absurd rfl hts
  | cons first rest =>
    simp only [State.pending, List.cons_append, List.cons.injEq] at hpending
    rw [hpending.1]
    rfl

/-- The second token consumed is the second one in the window. -/
theorem second {first second : Token} {rest : List Token}
    (h : Steps s (first :: second :: rest) t) (hs : s.Ok) :
    first.kind = s.kind ∧ second.kind = s.nextKind := by
  have hpending := h.pending hs
  simp only [State.pending, List.cons_append, List.cons.injEq] at hpending
  obtain ⟨hfirst, hsecond⟩ := hpending
  refine ⟨by rw [← hfirst]; rfl, ?_⟩
  cases hbeyond : s.beyond with
  | nil => simp [hbeyond] at hsecond
  | cons lexed beyond =>
    rw [hbeyond, List.map_cons, List.cons.injEq] at hsecond
    simp only [State.nextKind, hbeyond, hsecond.1]

/-- Behind one token stands the second one in the window. -/
theorem kind_of_singleton {token : Token} (h : Steps s [token] t) (hs : s.Ok) :
    t.kind = s.nextKind := by
  have hpending := h.pending hs
  simp only [State.pending, List.cons_append, List.nil_append, List.cons.injEq] at hpending
  cases hbeyond : s.beyond with
  | nil => simp [hbeyond] at hpending
  | cons lexed beyond =>
    rw [hbeyond, List.map_cons, List.cons.injEq] at hpending
    simp only [State.nextKind, hbeyond, State.kind, hpending.2.1]

/-- The tokens consumed are kept, the last one first. -/
theorem behind (h : Steps s ts t) : t.behind = ts.reverse ++ s.behind := by
  induction h with
  | refl s => rfl
  | bump hk rest ih =>
    rw [ih, State.behind_bump, List.reverse_cons, List.append_assoc]
    rfl
  | complain expected construct rest ih => rw [ih, State.complain_behind]
  | intern text rest ih => exact ih
  | declare id kind hk rest ih => exact ih

/-- The span remembered is that of the last token consumed. -/
theorem prev (h : Steps s ts t) : t.prev = (ts.getLast?.map Token.span).getD s.prev := by
  induction h with
  | refl s => rfl
  | @bump s t tokens hk rest ih =>
    rw [ih, State.prev_bump]
    cases tokens with
    | nil => rfl
    | cons second tokens =>
      rw [List.getLast?_cons_cons, List.getLast?_eq_some_getLast (List.cons_ne_nil second tokens)]
      rfl
  | complain expected construct rest ih => rw [ih, State.complain_prev]
  | intern text rest ih => exact ih
  | declare id kind hk rest ih => exact ih

/-- Where nothing is consumed the window stays. -/
theorem here_of_nil (h : Steps s [] t) (hs : s.Ok) : t.here = s.here ∧ t.prev = s.prev := by
  have hpending := h.pending hs
  simp only [State.pending, List.nil_append, List.cons.injEq] at hpending
  exact ⟨hpending.1.symm, h.prev⟩

/-- Behind tokens consumed stands the end of the last. -/
theorem prev_of_ne_nil (h : Steps s ts t) (hts : ts ≠ []) :
    ∃ last, ts.getLast? = some last ∧ t.prev = last.span := by
  have hprev := h.prev
  rw [List.getLast?_eq_some_getLast hts] at hprev ⊢
  exact ⟨_, rfl, hprev⟩

/-- Tokens consumed end behind the place where they began. -/
theorem start_lt (h : Steps s ts t) (hs : s.Ok) (hts : ts ≠ []) :
    s.here.span.start.offset < t.prev.stop.offset := by
  obtain ⟨last, hlast, hprev⟩ := h.prev_of_ne_nil hts
  have hstream := hs.stream
  rw [h.pending hs] at hstream
  have hhead := h.head hs hts
  cases ts with
  | nil => exact absurd rfl hts
  | cons first ts =>
    obtain rfl : first = s.here := Option.some.inj hhead
    rw [hprev]
    exact hstream.start_lt_stop (List.cons_ne_nil _ _) hlast

theorem finish_covers (h : Steps s ts t) (hs : s.Ok) (hts : ts ≠ []) :
    Placement.exact.covers (t.finish s.here.span) ts := by
  obtain ⟨last, hlast, hprev⟩ := h.prev_of_ne_nil hts
  refine ⟨s.here, last, h.head hs hts, hlast, ?_⟩
  have hlt := h.start_lt hs hts
  rw [State.finish, if_neg (by omega), hprev]

theorem endPoint_behind (h : Steps s ts t) (hts : ts ≠ []) :
    Placement.exact.behind t.prev.endPoint ts := by
  obtain ⟨last, hlast, hprev⟩ := h.prev_of_ne_nil hts
  exact ⟨last, hlast, congrArg Span.endPoint hprev⟩

theorem names (h : Steps s ts t) : s.names ≤ t.names :=
  preserves (I := fun u => s.names ≤ u.names)
    (fun u _ hu => Interner.le_trans hu u.names_bump)
    (fun u expected construct hu => by rw [State.complain_names]; exact hu)
    (fun u text hu => Interner.le_trans hu (Interner.le_intern u.names text))
    (fun _ _ _ _ hu => hu) h (Interner.le_refl s.names)

/-- Reports are never taken back. -/
theorem reports (h : Steps s ts t) (ht : t.reports = #[]) : s.reports = #[] := by
  induction h with
  | refl s => exact ht
  | bump hk rest ih =>
    have hbump := ih ht
    rw [State.reports_bump, Array.append_eq_empty_iff] at hbump
    exact hbump.1
  | @complain s t tokens expected construct rest ih =>
    have hcomplain := ih ht
    rcases s.complain_reports expected construct with ⟨hsame, -, -⟩ | hpush
    · rw [← hsame, hcomplain]
    · rw [hpush] at hcomplain
      exact absurd hcomplain Array.push_ne_empty
  | intern text rest ih => exact ih ht
  | declare id kind hk rest ih => exact ih ht

/-- If nothing is reported up to the end of a source, nothing was wrong with its tokens. -/
theorem silent_tokens (h : Steps s ts t) (ht : t.reports = #[]) (hend : t.beyond = []) :
    ∀ lexed ∈ s.beyond.drop 1, lexed.reports = [] := by
  induction h with
  | refl s => simp [hend]
  | @bump s t tokens hk rest ih =>
    have hbump := rest.reports ht
    rw [State.reports_bump, Array.append_eq_empty_iff] at hbump
    have hrest := ih ht hend
    have hentering := hbump.2
    cases hbeyond : s.beyond with
    | nil => simp
    | cons lexed beyond =>
      cases beyond with
      | nil => simp
      | cons next beyond =>
        have hdrop : s.bump.beyond = next :: beyond := by simp [State.bump, hbeyond]
        rw [hdrop] at hrest
        rintro other hother
        rcases List.mem_cons.1 hother with rfl | hother
        · simpa [State.entering, hbeyond] using hentering
        · exact hrest other hother
  | complain expected construct rest ih =>
    rw [State.complain_beyond] at ih
    exact ih ht hend
  | intern text rest ih => exact ih ht hend
  | declare id kind hk rest ih => exact ih ht hend

theorem errors (h : Steps s ts t) (hs : s.Errors) : t.Errors := by
  refine preserves (I := State.Errors) ?_ ?_ ?_ ?_ h hs
  · intro s _ hs
    have hentering : ∀ d ∈ s.entering, d.isError = true := by
      intro d hd
      cases hbeyond : s.beyond with
      | nil => simp [State.entering, hbeyond] at hd
      | cons lexed rest =>
        cases rest with
        | nil => simp [State.entering, hbeyond] at hd
        | cons next rest =>
          simp only [State.entering, hbeyond] at hd
          exact hs.beyond next (by simp [hbeyond]) d hd
    refine ⟨fun d hd => ?_, fun lexed hlexed => ?_⟩
    · rw [State.reports_bump, Array.mem_append] at hd
      rcases hd with hd | hd
      · exact hs.reports d hd
      · exact hentering d (by simpa using hd)
    · refine hs.beyond lexed ?_
      simp only [State.bump] at hlexed
      split at hlexed
      · exact hlexed
      · next first rest hbeyond =>
        rw [hbeyond]
        cases rest with
        | nil => cases hlexed
        | cons next rest =>
          rw [State.enter_beyond] at hlexed
          exact List.mem_cons_of_mem _ hlexed
  · intro s expected construct hs
    refine ⟨fun d hd => ?_, by simpa using hs.beyond⟩
    rcases s.complain_reports expected construct with ⟨hsame, -, -⟩ | hpush
    · rw [hsame] at hd
      exact hs.reports d hd
    · rw [hpush] at hd
      rcases Array.mem_push.1 hd with hd | rfl
      · exact hs.reports d hd
      · rfl
  · intro s text hs
    exact ⟨hs.reports, hs.beyond⟩
  · intro s id kind _ hs
    exact ⟨hs.reports, hs.beyond⟩

/-- A parser makes no placeholders. -/
theorem declared_only (h : Steps s ts t) (hs : ∀ id, s.decls.isError id = false) (id : DeclId) :
    t.decls.isError id = false := by
  refine preserves (I := fun s => ∀ id, s.decls.isError id = false) ?_ ?_ ?_ ?_ h hs id
  · intro s _ hs
    rwa [State.decls_bump]
  · intro s expected construct hs
    rwa [State.complain_decls]
  · intro s text hs
    exact hs
  · intro s name kind hk hs id
    have hne : Decl.isError ⟨name.symbol, name.span, kind⟩ = false := by simpa [Decl.isError] using hk
    show (s.decls.push ⟨name.symbol, name.span, kind⟩).2.isError id = false
    rw [Decls.isError, Decls.get?_push]
    split
    · next decl hdecl =>
      split at hdecl
      · cases hdecl
        exact hne
      · have hid := hs id
        rw [Decls.isError, hdecl] at hid
        exact hid
    · rfl

end Steps

end Parser

end ImpLang
