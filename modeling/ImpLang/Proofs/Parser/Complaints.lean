import ImpLang.Proofs.Parser.Source
import ImpLang.Proofs.Token.Tiling

/-!
The complaints of a parser: its reports of tokens that do not fit. The window never slides back and
the last complaint is remembered, so no token is complained about twice; and a complaint that is
suppressed has been made already.
-/

namespace ImpLang

/-- A report of the parser that a token does not fit, by its code. -/
def Diagnostic.isComplaint (d : Diagnostic) : Bool :=
  d.code.any fun code => ['E', '0', '1'].isPrefixOf code.toList

/-- Where a report begins. -/
def Diagnostic.offset (d : Diagnostic) : Nat := d.span.start.offset

namespace ParseError

theorem isComplaint_report (e : ParseError) : e.report.isComplaint = true := by
  obtain ⟨expected, found, construct⟩ := e
  cases expected <;> simp [Diagnostic.isComplaint, report, Expected.code, List.isPrefixOf]

end ParseError

namespace LexError

theorem isComplaint_report (e : LexError) (span : Span) : (e.report span).isComplaint = false := by
  cases e <;> simp [Diagnostic.isComplaint, report, code, List.isPrefixOf]

end LexError

namespace Parser

namespace State

/-- The complaints made so far. -/
def complaints (s : State) : List Diagnostic := s.reports.toList.filter Diagnostic.isComplaint

variable (tokens : List Token)

/-- What lies ahead are tokens of the source, in order and with the reports of the lexer. -/
structure Ahead (s : State) : Prop where
  stream : ∃ n, Stream n s.pending
  forward : ∀ token ∈ s.pending, token.span.start.offset ≤ token.span.stop.offset
  prev : s.prev.stop.offset ≤ s.here.span.stop.offset
  pending : s.pending ⊆ tokens
  beyond : ∀ lexed ∈ s.beyond, ∀ d ∈ lexed.reports, d.isComplaint = false

/-- Complaints are about tokens of the source, one behind the other and none of them about a token
behind that in front. The last one is remembered, and nothing else. -/
structure Orderly (s : State) : Prop where
  ahead : s.Ahead tokens
  known : ∀ d ∈ s.complaints, ∃ token ∈ tokens, d.span = token.span
  ordered : s.complaints.Pairwise fun d d' => d.offset < d'.offset
  reached : ∀ d ∈ s.complaints, d.offset < s.here.span.start.offset ∨
    d.offset = s.here.span.start.offset ∧ s.lastError = some d.offset
  last : ∀ offset, s.lastError = some offset → ∃ d ∈ s.complaints, d.offset = offset

/-- From one state to a later one: complaints have only been added, and the window has not slid
back. -/
structure Onward (s t : State) : Prop where
  orderly : t.Orderly tokens
  complaints : s.complaints ⊆ t.complaints
  prev : s.prev.stop.offset ≤ t.prev.stop.offset

variable {tokens} {s t u : State}

namespace Onward

theorem refl (h : s.Orderly tokens) : s.Onward tokens s := ⟨h, fun _ hd => hd, Nat.le_refl _⟩

theorem trans (h : s.Onward tokens t) (h' : t.Onward tokens u) : s.Onward tokens u :=
  ⟨h'.orderly, fun _ hd => h'.complaints (h.complaints hd), Nat.le_trans h.prev h'.prev⟩

end Onward

/-- The reports of the lexer are no complaints. -/
theorem complaints_append {reports : List Diagnostic}
    (h : ∀ d ∈ reports, d.isComplaint = false) :
    (s.reports ++ reports.toArray).toList.filter Diagnostic.isComplaint = s.complaints := by
  have hnone : reports.filter Diagnostic.isComplaint = [] :=
    List.filter_eq_nil_iff.2 fun d hd => by simp [h d hd]
  rw [Array.toList_append, List.filter_append, hnone, List.append_nil, complaints]

theorem complaints_enter {lexed : Lexed} (h : ∀ d ∈ lexed.reports, d.isComplaint = false) :
    (s.enter lexed).complaints = s.complaints := by
  rw [complaints, enter_reports, complaints_append h]

namespace Ahead

variable (h : s.Ahead tokens)

include h

/-- What lies ahead is the same where the window is. -/
theorem of_eq (hhere : t.here = s.here) (hbeyond : t.beyond = s.beyond) (hprev : t.prev = s.prev) :
    t.Ahead tokens := by
  have hpending : t.pending = s.pending := by rw [State.pending, State.pending, hhere, hbeyond]
  obtain ⟨stream, forward, prev, pending, beyond⟩ := h
  rw [← hpending] at stream forward pending
  rw [← hhere, ← hprev] at prev
  rw [← hbeyond] at beyond
  exact ⟨stream, forward, prev, pending, beyond⟩

theorem complaints_bump : s.bump.complaints = s.complaints := by
  rw [complaints, reports_bump]
  apply complaints_append
  rw [entering]
  split
  · next first next rest heq =>
    exact h.beyond next (heq ▸ List.mem_cons_of_mem _ (List.mem_cons_self ..))
  · exact List.forall_mem_nil _

/-- The token in front is not empty and carries what its kind asks for, unless it is the last. -/
theorem of_ne_eof (hk : s.kind ≠ .eof) :
    s.here.Fits ∧ s.here.span.start.offset < s.here.span.stop.offset := by
  obtain ⟨n, hstream⟩ := h.stream
  rw [State.pending] at hstream
  generalize s.beyond.map Lexed.token = rest at hstream
  cases hstream with
  | eof kind => exact absurd kind hk
  | token _ fits _ stop _ => exact ⟨fits, stop⟩

/-- Behind the token in front the next one begins, if there is one. -/
theorem here_bump : s.bump.here = s.here ∨ s.here.span.start.offset < s.bump.here.span.start.offset := by
  cases hbeyond : s.beyond with
  | nil => exact .inl (by simp only [bump, hbeyond])
  | cons lexed rest =>
    obtain ⟨n, hstream⟩ := h.stream
    rw [pending_bump s (hbeyond ▸ List.cons_ne_nil _ _)] at hstream
    obtain ⟨-, -, -, hstop, hrest⟩ := hstream.uncons (by simp [State.pending])
    have hnext : s.here.span.stop.offset ≤ s.bump.here.span.start.offset := hrest.start
    exact .inr (by omega)

theorem bump : s.bump.Ahead tokens := by
  cases hbeyond : s.beyond with
  | nil =>
    have hmoved : s.bump = { s with behind := s.here :: s.behind } := by
      simp only [State.bump, hbeyond]
    rw [hmoved]
    exact ⟨h.stream, h.forward, Nat.le_refl _, h.pending, h.beyond⟩
  | cons lexed rest =>
    have hpending := pending_bump s (hbeyond ▸ List.cons_ne_nil _ _)
    obtain ⟨n, hstream⟩ := h.stream
    rw [hpending] at hstream
    obtain ⟨-, -, -, -, hrest⟩ := hstream.uncons (by simp [State.pending])
    have hforward : ∀ token ∈ s.bump.pending, token.span.start.offset ≤ token.span.stop.offset :=
      fun token htoken => h.forward token (hpending ▸ List.mem_cons_of_mem _ htoken)
    have hnext : s.here.span.stop.offset ≤ s.bump.here.span.start.offset := hrest.start
    have hhere := hforward s.bump.here (List.mem_cons_self ..)
    refine ⟨⟨_, hrest⟩, hforward, ?_, fun token htoken => ?_, fun next hmem => ?_⟩
    · rw [prev_bump]
      omega
    · exact h.pending (hpending ▸ List.mem_cons_of_mem _ htoken)
    · have hmore : next ∈ s.beyond := by
        rw [hbeyond]
        refine List.mem_cons_of_mem _ ?_
        simp only [State.bump, hbeyond] at hmem
        cases rest with
        | nil => exact hmem
        | cons second rest => simpa using hmem
      exact h.beyond next hmore

end Ahead

/-- A complaint that is suppressed changes nothing. -/
theorem complain_cases (s : State) (expected : Expected) (construct : String) :
    s.lastError = some s.here.span.start.offset ∧ s.complain expected construct = s ∨
      s.lastError ≠ some s.here.span.start.offset ∧
        (s.complain expected construct).lastError = some s.here.span.start.offset ∧
        (s.complain expected construct).complaints =
          s.complaints ++ [ParseError.report ⟨expected, s.here, construct⟩] := by
  simp only [complain]
  split
  · next h => exact .inl ⟨h, rfl⟩
  · next h =>
    refine .inr ⟨h, rfl, ?_⟩
    rw [complaints, Array.toList_push, List.filter_append,
      List.filter_cons_of_pos (ParseError.isComplaint_report _), List.filter_nil, complaints]

namespace Orderly

variable (h : s.Orderly tokens)

include h

theorem bump : s.Onward tokens s.bump where
  orderly := by
    have hcomplaints := h.ahead.complaints_bump
    refine ⟨h.ahead.bump, ?_, ?_, ?_, ?_⟩
    · rw [hcomplaints]
      exact h.known
    · rw [hcomplaints]
      exact h.ordered
    · rw [hcomplaints, lastError_bump]
      intro d hd
      rcases h.ahead.here_bump with hsame | hlt
      · rw [hsame]
        exact h.reached d hd
      · rcases h.reached d hd with hbefore | ⟨hat, -⟩
        · exact .inl (by omega)
        · exact .inl (by omega)
    · rw [hcomplaints, lastError_bump]
      exact h.last
  complaints := by
    rw [h.ahead.complaints_bump]
    exact fun _ hd => hd
  prev := by
    rw [prev_bump]
    exact h.ahead.prev

/-- Where the window is the same and nothing is reported, nothing has changed. -/
theorem of_eq (hhere : t.here = s.here) (hbeyond : t.beyond = s.beyond) (hprev : t.prev = s.prev)
    (hcomplaints : t.complaints = s.complaints) (hlast : t.lastError = s.lastError) :
    t.Orderly tokens := by
  have hahead := h.ahead.of_eq hhere hbeyond hprev
  obtain ⟨-, known, ordered, reached, last⟩ := h
  rw [← hcomplaints] at known ordered reached last
  rw [← hlast] at reached last
  rw [← hhere] at reached
  exact ⟨hahead, known, ordered, reached, last⟩

theorem intern (text : String) : s.Onward tokens (s.intern text).2 :=
  ⟨h.of_eq rfl rfl rfl rfl rfl, fun _ hd => hd, Nat.le_refl _⟩

theorem declare (id : Id) (kind : DeclKind) : s.Onward tokens (s.declare id kind).2 :=
  ⟨h.of_eq rfl rfl rfl rfl rfl, fun _ hd => hd, Nat.le_refl _⟩

/-- All complaints made so far are about tokens in front of the one that does not fit. -/
theorem complain (expected : Expected) (construct : String) :
    s.Onward tokens (s.complain expected construct) := by
  rcases s.complain_cases expected construct with ⟨-, hsame⟩ | ⟨hnew, hlast, hcomplaints⟩
  · rw [hsame]
    exact .refl h
  let d := ParseError.report ⟨expected, s.here, construct⟩
  have hbefore : ∀ d' ∈ s.complaints, d'.offset < d.offset := by
    intro d' hd'
    rcases h.reached d' hd' with hlt | ⟨heq, hsome⟩
    · exact hlt
    · exact absurd (heq ▸ hsome) hnew
  have hahead := h.ahead.of_eq (s.complain_here expected construct)
    (s.complain_beyond expected construct) (s.complain_prev expected construct)
  refine ⟨⟨hahead, ?_, ?_, ?_, ?_⟩, ?_, ?_⟩
  · rw [hcomplaints, List.forall_mem_append, List.forall_mem_singleton]
    exact ⟨h.known, s.here, h.ahead.pending (List.mem_cons_self ..), rfl⟩
  · rw [hcomplaints, List.pairwise_append]
    exact ⟨h.ordered, List.pairwise_singleton _ _,
      fun d' hd' => List.forall_mem_singleton.2 (hbefore d' hd')⟩
  · rw [hcomplaints, List.forall_mem_append, List.forall_mem_singleton, complain_here, hlast]
    exact ⟨fun d' hd' => .inl (hbefore d' hd'), .inr ⟨rfl, rfl⟩⟩
  · rw [hcomplaints, hlast]
    rintro offset ⟨⟩
    exact ⟨d, List.mem_append_right _ (List.mem_singleton_self d), rfl⟩
  · rw [hcomplaints]
    exact List.subset_append_left ..
  · rw [complain_prev]

theorem synchronize (rounds depth : Nat) : s.Onward tokens (s.synchronize rounds depth) := by
  induction rounds generalizing depth s with
  | zero => exact .refl h
  | succ rounds ih =>
    rw [State.synchronize]
    split
    · next found hfound =>
      rcases searchTurn_stops hfound with rfl | ⟨-, rfl⟩
      · exact .refl h
      · exact h.bump
    · exact h.bump.trans (ih h.bump.orderly _)

theorem recover (reported : Nat) : s.Onward tokens (s.recover reported) := by
  rw [State.recover]
  split
  · exact h.synchronize _ 0
  · exact .refl h

/-- Whoever complains, in vain or not, there is a complaint about the token in front. -/
theorem complained (expected : Expected) (construct : String) :
    ∃ d ∈ (s.complain expected construct).complaints, d.offset = s.here.span.start.offset := by
  rcases s.complain_cases expected construct with ⟨hlast, hsame⟩ | ⟨-, -, hcomplaints⟩
  · rw [hsame]
    exact h.last _ hlast
  · rw [hcomplaints]
    exact ⟨_, List.mem_append_right _ (List.mem_singleton_self _), rfl⟩

theorem enter {lexed : Lexed} (hlexed : ∀ d ∈ lexed.reports, d.isComplaint = false) :
    (s.enter lexed).Orderly tokens :=
  h.of_eq (s.enter_here lexed) (s.enter_beyond lexed) (s.enter_prev lexed)
    (complaints_enter hlexed) (s.enter_lastError lexed)

end Orderly

end State

/-- Before anything is consumed nothing is complained about. -/
theorem orderly_start (file : FileId) (source : String) (names : Interner) :
    (State.start file source names).Orderly
      ((significant (Token.lex file source)).map Lexed.token) := by
  have hstream := stream_significant file source
  have hreports : ∀ lexed ∈ significant (Token.lex file source), ∀ d ∈ lexed.reports,
      d.isComplaint = false :=
    reports_significant (Token.forall_reports_lexFrom LexError.isComplaint_report file _ _ _)
  obtain ⟨_, htiles, -⟩ := Token.tiles_lexFrom file _ Place.first source.toList
    (Nat.lt_succ_self _)
  have hforward : ∀ token ∈ (significant (Token.lex file source)).map Lexed.token,
      token.span.start.offset ≤ token.span.stop.offset := by
    intro token htoken
    rw [tokens_significant] at htoken
    exact (htiles.in_source [] token (List.mem_of_mem_filter htoken)).forward
  have hblank : ∀ first beyond, significant (Token.lex file source) = first :: beyond →
      State.Orderly ((significant (Token.lex file source)).map Lexed.token)
        { behind := [], here := first.token, beyond, lastError := none
          decls := Decls.empty, names, reports := #[] } := by
    intro first beyond heq
    rw [heq] at hstream hreports hforward ⊢
    exact ⟨⟨⟨0, hstream⟩, hforward, Nat.zero_le _, fun _ htoken => htoken,
      fun lexed hlexed => hreports lexed (List.mem_cons_of_mem _ hlexed)⟩,
      List.forall_mem_nil _, .nil, List.forall_mem_nil _, nofun⟩
  simp only [State.start, State.opening]
  split
  · next hnil => exact absurd hnil (significant_ne_nil file source)
  · next first heq => exact (hblank first [] heq).enter (hreports first (by simp [heq]))
  · next first second rest heq =>
    exact ((hblank first (second :: rest) heq).enter (hreports first (by simp [heq]))).enter
      (hreports second (by simp [heq]))

end Parser

end ImpLang
