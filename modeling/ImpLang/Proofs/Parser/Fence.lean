import ImpLang.Proofs.Parser.Runs
import ImpLang.Proofs.Token.Brackets

/-!
How far a production goes, however wrong the tokens are. A word that begins a statement is a fence to
those in front of it if the brackets of the tokens on the way are nested: no production consumes such a
word outside of braces, and a production that opens a brace goes on until it is closed.
-/

namespace ImpLang

namespace TokenKind

/-- The words that begin a statement. -/
def stmntWords : List TokenKind := [kwDef, kwFn, kwLet]

/-- Neither a word that begins a statement nor a brace. -/
def isLoose (kind : TokenKind) : Bool := kind ∉ lBrace :: rBrace :: stmntWords

theorem isLoose_of_prefixOp? {kind : TokenKind} {op : PrefixOp} (h : kind.prefixOp? = some op) :
    kind.isLoose = true := by
  cases kind <;> first | rfl | cases h

theorem isLoose_of_postfixOp? {kind : TokenKind} {op : PostfixOp} (h : kind.postfixOp? = some op) :
    kind.isLoose = true := by
  cases kind <;> first | rfl | cases h

theorem isLoose_of_infixOp? {kind : TokenKind} {op : InfixOp} (h : kind.infixOp? = some op) :
    kind.isLoose = true := by
  cases kind <;> first | rfl | cases h

/-- Only braces count among the braces that are due. -/
theorem count_due? {kind : TokenKind} {closers behind : List TokenKind}
    (h : kind.due? closers = some behind) (hopen : kind ≠ lBrace) (hclose : kind ≠ rBrace) :
    behind.count rBrace = closers.count rBrace := by
  rcases due?_cases h with ⟨closer, hcloser, rfl⟩ | ⟨-, rfl⟩ | ⟨-, -, rfl⟩
  · have hne : closer ≠ rBrace := by
      rintro rfl
      cases kind <;> first | exact hopen rfl | cases hcloser
    rw [List.count_cons_of_ne hne]
  · rw [List.count_cons_of_ne hclose]
  · rfl

end TokenKind

namespace Parser

variable {bs : List Token} {n : Nat} {s t : State}

/-- In front of a fence, with brackets on the way that are nested behind those that are open. -/
structure Fenced (bs : List Token) (closers : List TokenKind) (s : State) : Prop where
  ok : s.Ok
  word : ∃ first rest, bs = first :: rest ∧ first.kind ∈ TokenKind.stmntWords
  ahead : ∃ ts, s.pending = ts ++ bs ∧ TokenKind.nested closers (ts.map Token.kind) = true

/-- In front of a fence with a number of braces open. -/
def Braced (bs : List Token) (n : Nat) (s : State) : Prop :=
  ∃ closers, Fenced bs closers s ∧ closers.count .rBrace = n

/-- On the way to a fence there is a token in front that is not the last of the source. -/
theorem Fenced.bump {closers : List TokenKind} (h : Fenced bs closers s) (hs : s.pending ≠ bs) :
    s.kind ≠ .eof ∧ ∃ behind, s.kind.due? closers = some behind ∧ Fenced bs behind s.bump := by
  obtain ⟨hok, hword, ts, hts, hnested⟩ := h
  cases ts with
  | nil => exact absurd hts hs
  | cons first ts =>
    obtain ⟨word, rest, rfl, -⟩ := id hword
    obtain ⟨hfirst, hrest⟩ := List.cons.inj hts
    -- The word of the fence at least stands behind the token in front.
    have hbeyond : s.beyond ≠ [] := by
      intro hnil
      rw [hnil] at hrest
      exact List.append_ne_nil_of_right_ne_nil ts (List.cons_ne_nil word rest) hrest.symm
    have hstream := hok.stream
    rw [State.pending_bump s hbeyond] at hstream
    obtain ⟨hk, -⟩ := hstream.uncons (List.cons_ne_nil _ _)
    obtain ⟨behind, hdue, hbehind⟩ := TokenKind.nested_cons hnested
    rw [← hfirst] at hdue
    refine ⟨hk, behind, hdue, (steps_bump hk).ok hok, hword, ts, ?_, hbehind⟩
    rw [State.pending_bump s hbeyond] at hts
    exact (List.cons.inj hts).2

namespace Braced

variable (h : Braced bs n s)

include h

theorem ok : s.Ok := by
  obtain ⟨closers, hs, -⟩ := h
  exact hs.ok

/-- Only the tokens ahead matter. -/
theorem of_steps (ht : Steps s [] t) : Braced bs n t := by
  obtain ⟨closers, ⟨hok, hword, ts, hts, hnested⟩, hn⟩ := h
  have hpending := ht.pending hok
  rw [List.nil_append] at hpending
  exact ⟨closers, ⟨ht.ok hok, hword, ts, hpending.symm.trans hts, hnested⟩, hn⟩

/-- At the fence every brace is closed. -/
theorem pending_ne (hs : s.kind ∉ TokenKind.stmntWords ∨ n ≠ 0) : s.pending ≠ bs := by
  obtain ⟨closers, ⟨-, ⟨word, rest, rfl, hword⟩, ts, hts, hnested⟩, hn⟩ := h
  intro heq
  rw [heq] at hts
  obtain rfl : ts = [] := List.self_eq_append_left.1 hts
  rcases hs with hkind | hne
  · obtain ⟨hhere, -⟩ := List.cons.inj heq
    rw [State.kind, hhere] at hkind
    exact hkind hword
  · obtain rfl : closers = [] := List.isEmpty_iff.1 hnested
    exact hne hn.symm

/-- A token on the way that is no brace. -/
theorem bump (hs : s.pending ≠ bs) (hopen : s.kind ≠ .lBrace) (hclose : s.kind ≠ .rBrace) :
    Steps s [s.here] s.bump ∧ Braced bs n s.bump := by
  obtain ⟨closers, hfenced, hn⟩ := h
  obtain ⟨hk, behind, hdue, hbump⟩ := hfenced.bump hs
  exact ⟨steps_bump hk, behind, hbump, (TokenKind.count_due? hdue hopen hclose).trans hn⟩

theorem kind_ne_eof (hs : s.pending ≠ bs) : s.kind ≠ .eof := by
  obtain ⟨closers, hfenced, -⟩ := h
  exact (hfenced.bump hs).1

theorem bump_loose (hs : s.kind.isLoose = true) : Steps s [s.here] s.bump ∧ Braced bs n s.bump := by
  simp only [TokenKind.isLoose, List.mem_cons, not_or, decide_eq_true_eq] at hs
  obtain ⟨hopen, hclose, hword⟩ := hs
  exact h.bump (h.pending_ne (.inl hword)) hopen hclose

theorem bump_open (hs : s.kind = .lBrace) : Steps s [s.here] s.bump ∧ Braced bs (n + 1) s.bump := by
  have hne := h.pending_ne (.inl (by rw [hs]; decide))
  obtain ⟨closers, hfenced, hn⟩ := h
  obtain ⟨hk, behind, hdue, hbump⟩ := hfenced.bump hne
  rw [hs] at hdue
  obtain rfl : .rBrace :: closers = behind := Option.some.inj hdue
  exact ⟨steps_bump hk, _, hbump, by rw [List.count_cons_self, hn]⟩

theorem bump_close (hs : s.kind = .rBrace) :
    Steps s [s.here] s.bump ∧ Braced bs (n - 1) s.bump := by
  have hne := h.pending_ne (.inl (by rw [hs]; decide))
  obtain ⟨closers, hfenced, hn⟩ := h
  obtain ⟨hk, behind, hdue, hbump⟩ := hfenced.bump hne
  rw [hs] at hdue
  rcases TokenKind.due?_cases hdue with ⟨closer, hcloser, -⟩ | ⟨-, rfl⟩ | ⟨-, hclose, -⟩
  · cases hcloser
  · rw [List.count_cons_self] at hn
    exact ⟨steps_bump hk, behind, hbump, Nat.eq_sub_of_add_eq hn⟩
  · cases hclose

end Braced

/-! ## Parsers -/

/-- Every run from one kind of states consists of moves and ends in another kind. -/
def Sends {α : Type} (P : State → Prop) (m : Parser α) (Q : α → State → Prop) : Prop :=
  ∀ s a t, P s → m s = some (a, t) → (∃ ts, Steps s ts t) ∧ Q a t

namespace Sends

variable {α β : Type} {P R : State → Prop} {m : Parser α} {k : α → Parser β}
  {Q : β → State → Prop} {M : α → State → Prop}

theorem pure {a : β} (h : ∀ s, P s → Q a s) : Sends P (pure a) Q := by
  intro s b t hs hrun
  cases hrun
  exact ⟨⟨[], .refl s⟩, h s hs⟩

theorem failure : Sends P (failure : Parser β) Q := by
  intro s a t _ hrun
  cases hrun

theorem bind (hm : Sends P m M) (hk : ∀ a, Sends (M a) (k a) Q) : Sends P (m >>= k) Q := by
  intro s b u hs hrun
  obtain ⟨⟨a, t⟩, ha, hb⟩ := Option.bind_eq_some_iff.1 hrun
  obtain ⟨⟨ts, hts⟩, hM⟩ := hm s a t hs ha
  obtain ⟨⟨us, hus⟩, hu⟩ := hk a t b u hM hb
  exact ⟨⟨_, hts.trans hus⟩, hu⟩

/-- A step that only looks. -/
theorem look {f : State → α} (hm : ∀ s, m s = some (f s, s))
    (hk : ∀ a, Sends (fun s => P s ∧ f s = a) (k a) Q) : Sends P (m >>= k) Q := by
  intro s b u hs hrun
  obtain ⟨⟨a, t⟩, ha, hb⟩ := Option.bind_eq_some_iff.1 hrun
  cases (hm s).symm.trans ha
  exact hk (f s) s b u ⟨hs, rfl⟩ hb

/-- A step that looks at places. -/
theorem place {k : Span → Parser β} {m : Parser Span} {f : State → Span}
    (hm : ∀ s, m s = some (f s, s)) (hk : ∀ span, Sends P (k span) Q) : Sends P (m >>= k) Q := by
  intro s b u hs hrun
  obtain ⟨⟨span, t⟩, hspan, hb⟩ := Option.bind_eq_some_iff.1 hrun
  cases (hm s).symm.trans hspan
  exact hk (f s) s b u hs hb

theorem track {k : Span → Parser β} (hk : ∀ span, Sends P (k span) Q) :
    Sends P (Parser.track >>= k) Q :=
  place (fun _ => rfl) hk

theorem prev {k : Span → Parser β} (hk : ∀ span, Sends P (k span) Q) :
    Sends P (Parser.prev >>= k) Q :=
  place (fun _ => rfl) hk

theorem finish {start : Span} {k : Span → Parser β} (hk : ∀ span, Sends P (k span) Q) :
    Sends P (Parser.finish start >>= k) Q :=
  place (fun _ => rfl) hk

theorem weaken {m : Parser β} {P' : State → Prop} (h : Sends P m Q) (hP : ∀ s, P' s → P s) :
    Sends P' m Q :=
  fun s a t hs => h s a t (hP s hs)

theorem strengthen {m : Parser β} {Q' : β → State → Prop} (h : Sends P m Q)
    (hQ : ∀ a s, Q a s → Q' a s) : Sends P m Q' :=
  fun s a t hs hrun => ⟨(h s a t hs hrun).1, hQ a t (h s a t hs hrun).2⟩

theorem ite {p : Prop} [Decidable p] {m m' : Parser β} (hm : p → Sends P m Q)
    (hm' : ¬ p → Sends P m' Q) : Sends P (if p then m else m') Q := by
  by_cases h : p
  · rw [if_pos h]
    exact hm h
  · rw [if_neg h]
    exact hm' h

theorem bump (h : ∀ s, P s → Steps s [s.here] s.bump ∧ R s.bump) :
    Sends P Parser.bump fun _ => R := by
  intro s _ t hs hrun
  cases hrun
  obtain ⟨hbump, hR⟩ := h s hs
  exact ⟨⟨_, hbump⟩, hR⟩

end Sends

/-- Every state by itself. -/
theorem Sends.each {α : Type} {P : State → Prop} {m : Parser α} {Q : α → State → Prop}
    (h : ∀ s, P s → Sends (fun u => u = s) m Q) : Sends P m Q :=
  fun s a t hs hrun => h s hs s a t rfl hrun

theorem Sends.both {α : Type} {P : State → Prop} {m : Parser α} {Q Q' : α → State → Prop}
    (h : Sends P m Q) (h' : Sends P m Q') : Sends P m fun a t => Q a t ∧ Q' a t := by
  intro s a t hs hrun
  obtain ⟨hsteps, hQ⟩ := h s a t hs hrun
  exact ⟨hsteps, hQ, (h' s a t hs hrun).2⟩

/-- What every move keeps stays. -/
theorem Sends.frame {α : Type} {P F : State → Prop} {m : Parser α} {Q : α → State → Prop}
    (h : Sends P m Q) (hF : ∀ s ts t, Steps s ts t → F s → F t) :
    Sends (fun s => P s ∧ F s) m fun a t => Q a t ∧ F t := by
  intro s a t hs hrun
  obtain ⟨⟨ts, hts⟩, hQ⟩ := h s a t hs.1 hrun
  exact ⟨⟨ts, hts⟩, hQ, hF s ts t hts hs.2⟩

/-- Once something is consumed, it stays so. -/
theorem Sends.onward {α : Type} {P : State → Prop} {m : Parser α} {Q : α → State → Prop}
    (h : Sends P m Q) (k : Nat) :
    Sends (fun s => P s ∧ k < s.behind.length) m fun a t => Q a t ∧ k < t.behind.length := by
  refine h.frame fun s ts t hsteps hk => ?_
  rw [hsteps.behind, List.length_append]
  exact Nat.lt_add_left _ hk

variable (bs n)

/-- Runs on the way to a fence, from states of one kind, come no farther than the fence and leave as
many braces open as they find. -/
abbrev Keeps {α : Type} (P : State → Prop) (m : Parser α) : Prop :=
  Sends (fun s => Braced bs n s ∧ P s) m fun _ => Braced bs n

/-- All states. -/
def Anywhere (_ : State) : Prop := True

/-- The token in front is no word that begins a statement and no brace. -/
def Loose (s : State) : Prop := s.kind.isLoose = true

/-- The token in front stands before the fence and is no brace. -/
structure Passable (s : State) : Prop where
  before : s.pending ≠ bs
  opens : s.kind ≠ .lBrace
  closes : s.kind ≠ .rBrace

variable {bs n}

namespace Keeps

variable {α β : Type} {P : State → Prop} {m : Parser α} {k : α → Parser β}

theorem pure (b : β) : Keeps bs n P (pure b) := Sends.pure fun _ hs => hs.1

theorem bind (hm : Keeps bs n P m) (hk : ∀ a, Keeps bs n Anywhere (k a)) :
    Keeps bs n P (m >>= k) :=
  Sends.bind hm fun a => (hk a).weaken fun _ hs => ⟨hs, trivial⟩

theorem weaken {P' : State → Prop} (h : Keeps bs n P m) (hP : ∀ s, P' s → P s) :
    Keeps bs n P' m :=
  Sends.weaken h fun s hs => ⟨hs.1, hP s hs.2⟩

theorem everywhere (h : Keeps bs n Anywhere m) : Keeps bs n P m := h.weaken fun _ _ => trivial

/-- At a token that is loose. -/
theorem at_kind {kind : TokenKind} (h : Keeps bs n Loose m) (hk : kind.isLoose = true) :
    Keeps bs n (fun s => s.kind = kind) m :=
  h.weaken fun _ hs => (congrArg TokenKind.isLoose hs).trans hk

theorem on {kind : TokenKind} (h : Keeps bs n Loose m) (hk : kind.isLoose = true) :
    Keeps bs n (fun s => P s ∧ s.kind = kind) m :=
  (h.at_kind hk).weaken fun _ hs => hs.2

theorem look {f : State → α} (hm : ∀ s, m s = some (f s, s))
    (hk : ∀ a, Keeps bs n (fun s => P s ∧ f s = a) (k a)) : Keeps bs n P (m >>= k) :=
  Sends.look hm fun a => Sends.weaken (hk a) fun _ hs => ⟨hs.1.1, hs.1.2, hs.2⟩

theorem kind {k : TokenKind → Parser β}
    (hk : ∀ kind, Keeps bs n (fun s => P s ∧ s.kind = kind) (k kind)) :
    Keeps bs n P (Parser.kind >>= k) :=
  look (fun _ => rfl) hk

theorem nextKind {k : TokenKind → Parser β}
    (hk : ∀ kind, Keeps bs n (fun s => P s ∧ s.nextKind = kind) (k kind)) :
    Keeps bs n P (Parser.nextKind >>= k) :=
  look (fun _ => rfl) hk

theorem isAt {kind : TokenKind} {k : Bool → Parser β}
    (hk : ∀ here, Keeps bs n (fun s => P s ∧ decide (s.kind = kind) = here) (k here)) :
    Keeps bs n P (Parser.isAt kind >>= k) :=
  look (fun _ => rfl) hk

theorem peek {k : Token → Parser β}
    (hk : ∀ token, Keeps bs n (fun s => P s ∧ s.here = token) (k token)) :
    Keeps bs n P (Parser.peek >>= k) :=
  look (fun _ => rfl) hk

theorem track {k : Span → Parser β} (hk : ∀ span, Keeps bs n P (k span)) :
    Keeps bs n P (Parser.track >>= k) :=
  Sends.track hk

theorem prev {k : Span → Parser β} (hk : ∀ span, Keeps bs n P (k span)) :
    Keeps bs n P (Parser.prev >>= k) :=
  Sends.prev hk

theorem finish {start : Span} {k : Span → Parser β} (hk : ∀ span, Keeps bs n P (k span)) :
    Keeps bs n P (Parser.finish start >>= k) :=
  Sends.finish hk

theorem ite {p : Prop} [Decidable p] {m m' : Parser β} (hm : p → Keeps bs n P m)
    (hm' : ¬ p → Keeps bs n P m') : Keeps bs n P (if p then m else m') :=
  Sends.ite hm hm'

/-- A move that consumes nothing leaves the token in front. -/
theorem still {f : State → α × State} {here : TokenKind} (hm : ∀ s, m s = some (f s))
    (hsteps : ∀ s, Steps s [] (f s).2) :
    Sends (fun s => Braced bs n s ∧ s.kind = here) m fun _ t => Braced bs n t ∧ t.kind = here := by
  intro s a t ⟨hs, hhere⟩ hrun
  rw [hm] at hrun
  obtain rfl : (f s).2 = t := congrArg Prod.snd (Option.some.inj hrun)
  refine ⟨⟨[], hsteps s⟩, hs.of_steps (hsteps s), ?_⟩
  rw [State.kind, ((hsteps s).here_of_nil hs.ok).1]
  exact hhere

theorem of_still (h : ∀ here, Sends (fun s => Braced bs n s ∧ s.kind = here) m
    fun _ t => Braced bs n t ∧ t.kind = here) : Keeps bs n P m := by
  intro s a t hs hrun
  obtain ⟨hsteps, ht, -⟩ := h s.kind s a t ⟨hs.1, rfl⟩ hrun
  exact ⟨hsteps, ht⟩

theorem sends_unexpected (expected : Expected) (construct : String) {here : TokenKind} :
    Sends (fun s => Braced bs n s ∧ s.kind = here) (unexpected expected construct)
      fun _ t => Braced bs n t ∧ t.kind = here :=
  still (fun _ => rfl) fun _ => .complain expected construct (.refl _)

theorem sends_declare (id : Id) (kind : DeclKind) (hkind : kind ≠ .error) {here : TokenKind} :
    Sends (fun s => Braced bs n s ∧ s.kind = here) (declare id kind)
      fun _ t => Braced bs n t ∧ t.kind = here :=
  still (fun _ => rfl) fun _ => .declare id kind hkind (.refl _)

theorem bump : Keeps bs n Loose Parser.bump :=
  Sends.bump fun _ hs => hs.1.bump_loose hs.2

/-- In front of the fence a word may be consumed as well. -/
theorem step : Keeps bs n (Passable bs) Parser.bump :=
  Sends.bump fun _ hs => hs.1.bump hs.2.before hs.2.opens hs.2.closes

theorem unexpected (expected : Expected) (construct : String) :
    Keeps bs n P (unexpected expected construct) :=
  of_still fun _ => sends_unexpected expected construct

theorem intern (text : String) : Keeps bs n P (intern text) :=
  of_still fun _ => still (fun _ => rfl) fun _ => .intern text (.refl _)

theorem declare (id : Id) (kind : DeclKind) (hkind : kind ≠ .error) :
    Keeps bs n P (declare id kind) :=
  of_still fun _ => sends_declare id kind hkind

theorem accept {kind : TokenKind} (hkind : kind.isLoose = true) : Keeps bs n P (accept kind) := by
  show Keeps bs n P (Parser.kind >>= fun here => if here = kind then _ else _)
  refine Keeps.kind fun here => ite (fun hhere => ?_) fun _ => pure _
  exact (Keeps.on bump (hhere ▸ hkind)).bind fun _ => pure _

theorem expect {kind : TokenKind} (hkind : kind.isLoose = true) (construct : String) :
    Keeps bs n P (expect kind construct) := by
  show Keeps bs n P (Parser.kind >>= fun here => if here = kind then _ else _)
  refine Keeps.kind fun here => ite (fun hhere => ?_) fun _ => ?_
  · exact (Keeps.on bump (hhere ▸ hkind)).bind fun _ => pure _
  · exact (unexpected _ _).bind fun _ => pure _

theorem acceptSeparator : Keeps bs n P acceptSeparator := by
  show Keeps bs n P (Parser.kind >>= fun here => if here = .comma then _ else _)
  refine Keeps.kind fun here => ite (fun hhere => ?_) fun _ => accept rfl
  exact (Keeps.on bump (hhere ▸ rfl)).bind fun _ => pure _

theorem ident (construct : String) : Keeps bs n P (ident construct) := by
  apply peek
  intro token
  split
  · next text hkind _ =>
    have hbump : Keeps bs n (fun s => P s ∧ s.here = token) Parser.bump := by
      refine bump.weaken fun s hs => ?_
      rw [Loose, State.kind, hs.2, hkind]
      rfl
    exact hbump.bind fun _ => (intern text).bind fun _ => pure _
  · exact (unexpected _ _).bind fun _ => (intern _).bind fun _ => finish fun _ => pure _

end Keeps

end Parser

end ImpLang
