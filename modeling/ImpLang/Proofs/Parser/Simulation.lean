import Mathlib.Tactic.ByContra
import ImpLang.Proofs.Parser.Growth
import ImpLang.Proofs.Parser.Runs
import ImpLang.Proofs.Tree.Relabel

/-!
Two runs of the parser on the same tokens at different places, with different name tables, and behind
different declarations and reports. One run shows in the other: it does the same step by step, up to a
renaming of places, symbols and declarations.
-/

namespace ImpLang

namespace Parser

/-- How a run of the parser shows in another one. Where the tokens of one run stand apart those of
the other may touch, so the end of a token and the start of the next may become one place. -/
structure Link where
  place : Place → Place
  /-- Where tokens start. -/
  starts : Place → Prop
  /-- Where tokens stop. -/
  stops : Place → Prop
  mono : ∀ p q : Place, p.offset ≤ q.offset → (place p).offset ≤ (place q).offset
  eq_or_lt : ∀ p q : Place, p.offset < q.offset →
    place p = place q ∨ (place p).offset < (place q).offset
  start_inj : ∀ p q : Place, starts p → starts q → (place p).offset = (place q).offset →
    p.offset = q.offset
  lt_stop : ∀ p q : Place, starts p → stops q → p.offset < q.offset →
    (place p).offset < (place q).offset
  /-- What the other run had declared and reported before. -/
  decls : Decls
  reports : Array Diagnostic
  /-- The name tables that the two runs end with. -/
  source : Interner
  target : Interner

namespace Link

/-- A link that keeps the order of places. Any place may be where a token starts or stops. -/
def ofLt (place : Place → Place)
    (h : ∀ p q : Place, (place p).offset < (place q).offset ↔ p.offset < q.offset) (decls : Decls)
    (reports : Array Diagnostic) (source target : Interner) : Link where
  place := place
  starts _ := True
  stops _ := True
  mono p q hle := Nat.le_of_not_lt fun hlt => absurd hle (Nat.not_le.2 ((h q p).1 hlt))
  eq_or_lt p q hlt := .inr ((h p q).2 hlt)
  start_inj p q _ _ hsame := by
    have hlt := h p q
    have hgt := h q p
    omega
  lt_stop p q _ _ hlt := (h p q).2 hlt
  decls := decls
  reports := reports
  source := source
  target := target

variable (L : Link)

def span (s : Span) : Span := ⟨s.file, L.place s.start, L.place s.stop⟩

/-- A symbol becomes the one of the same text. -/
def symbol : Symbol → Symbol := L.source.carry L.target

def decl (id : DeclId) : DeclId := ⟨L.decls.size + id.index⟩

/-- The renaming of trees. Trees that come from a parser hold no values yet. -/
def relabel : Relabel := ⟨L.span, L.symbol, L.decl, id⟩

def diagnostic (d : Diagnostic) : Diagnostic := { d with span := L.span d.span }

def token (t : Token) : Token := { t with span := L.span t.span }

def lexed (l : Lexed) : Lexed := ⟨L.token l.token, l.reports.map L.diagnostic⟩

@[simp] theorem relabel_span : L.relabel.span = L.span := rfl

@[simp] theorem relabel_symbol : L.relabel.symbol = L.symbol := rfl

@[simp] theorem relabel_decl : L.relabel.decl = L.decl := rfl

@[simp] theorem relabel_value : L.relabel.value = id := rfl

@[simp] theorem endPoint_span (s : Span) : (L.span s).endPoint = L.span s.endPoint := rfl

theorem offset_eq {p q : Place} (hp : L.starts p) (hq : L.starts q) :
    (L.place p).offset = (L.place q).offset ↔ p.offset = q.offset := by
  refine ⟨L.start_inj p q hp hq, fun h => ?_⟩
  have hle := L.mono p q (Nat.le_of_eq h)
  have hge := L.mono q p (Nat.le_of_eq h.symm)
  omega

/-- Whether a token starts in front of where another one stops. -/
theorem lt_stop_iff {p q : Place} (hp : L.starts p) (hq : L.stops q) :
    (L.place p).offset < (L.place q).offset ↔ p.offset < q.offset := by
  refine ⟨fun h => ?_, L.lt_stop p q hp hq⟩
  by_contra hle
  have hge := L.mono q p (Nat.le_of_not_lt hle)
  omega

/-- Two runs look at the same tokens, and agree on what they did since they began. -/
structure Ahead (s s' : State) : Prop where
  here : s'.here = L.token s.here
  beyond : s'.beyond = s.beyond.map L.lexed
  names : s.names.Within s'.names
  decls : s'.decls.toArray = L.decls.toArray ++ s.decls.toArray.map (Decl.relabel L.relabel)
  reports : s'.reports = L.reports ++ s.reports.map L.diagnostic
  placed : ∀ t ∈ s.pending, L.starts t.span.start ∧ L.stops t.span.stop

/-- Two runs also agree on what they consumed last and on where they may complain. -/
structure Rel (s s' : State) : Prop extends L.Ahead s s' where
  prev : s'.prev = L.span s.prev
  stopped : L.stops s.prev.stop
  prevKind : s'.prevKind = s.prevKind
  lastError : ∀ t ∈ s.pending, s'.lastError = some (L.token t).span.start.offset ↔
    s.lastError = some t.span.start.offset

/-- A relation under which two runs look at the same tokens. -/
class Looking (before : State → State → Prop) : Prop where
  ahead : ∀ {s s'}, before s s' → L.Ahead s s'

instance : L.Looking L.Rel := ⟨Rel.toAhead⟩

end Link

variable {L : Link} {s s' : State}

/-- Whatever is ahead behind the token in front is ahead before. -/
theorem State.mem_pending_bump {s : State} {t : Token} (ht : t ∈ s.bump.pending) : t ∈ s.pending := by
  by_cases hbeyond : s.beyond = []
  · simpa [State.bump, State.pending, hbeyond] using ht
  · rw [s.pending_bump hbeyond]
    exact List.mem_cons_of_mem _ ht

namespace Link.Ahead

variable (h : L.Ahead s s')

include h

theorem kind : s'.kind = s.kind := by
  rw [State.kind, h.here]
  rfl

theorem nextKind : s'.nextKind = s.nextKind := by
  rw [State.nextKind, State.nextKind, h.here, h.beyond]
  cases s.beyond <;> rfl

theorem size_reports : s'.reports.size = L.reports.size + s.reports.size := by
  rw [h.reports, Array.size_append, Array.size_map]

theorem intern (text : String) : L.Ahead (s.intern text).2 (s'.intern text).2 :=
  ⟨h.here, h.beyond, h.names.intern text, h.decls, h.reports, h.placed⟩

theorem enter (l : Lexed) : L.Ahead (s.enter l) (s'.enter (L.lexed l)) := by
  constructor
  · rw [State.enter_here, State.enter_here, h.here]
  · rw [State.enter_beyond, State.enter_beyond, h.beyond]
  · rw [State.enter_names_eq, State.enter_names_eq]
    exact h.names.internAll l.token.internedText?.toList
  · rw [State.enter_decls, State.enter_decls, h.decls]
  · have hreports : (L.lexed l).reports.toArray = l.reports.toArray.map L.diagnostic := by
      rw [List.map_toArray]
      rfl
    rw [State.enter_reports, State.enter_reports, h.reports, hreports, Array.map_append,
      Array.append_assoc]
  · rw [State.pending, State.enter_here, State.enter_beyond]
    exact h.placed

theorem bump : L.Ahead s.bump s'.bump := by
  have hbeyond := h.beyond
  cases hs : s.beyond with
  | nil =>
    rw [hs] at hbeyond
    simp only [State.bump, hs, hbeyond, List.map_nil]
    exact ⟨h.here, rfl, h.names, h.decls, h.reports,
      fun t ht => h.placed t (by simpa [State.pending, hs] using ht)⟩
  | cons l rest =>
    rw [hs, List.map_cons] at hbeyond
    simp only [State.bump, hs, hbeyond]
    have hnext : L.Ahead { s with behind := s.here :: s.behind, here := l.token, beyond := rest }
        { s' with behind := s'.here :: s'.behind, here := (L.lexed l).token, beyond := rest.map L.lexed } :=
      ⟨rfl, rfl, h.names, h.decls, h.reports, fun t ht => h.placed t <| by
        rw [State.pending, hs]
        exact List.mem_cons_of_mem _ ht⟩
    cases rest with
    | nil => exact hnext
    | cons next rest => exact hnext.enter next

theorem declare (i : Id) (kind : DeclKind) :
    L.Ahead (s.declare i kind).2 (s'.declare (i.relabel L.relabel) kind).2 := by
  refine ⟨h.here, h.beyond, h.names, ?_, h.reports, h.placed⟩
  show s'.decls.toArray.push _ = _ ++ (s.decls.toArray.push _).map _
  rw [h.decls, Array.map_push, Array.append_push]
  rfl

theorem declare_id (i : Id) (kind : DeclKind) :
    (s'.declare (i.relabel L.relabel) kind).1 = L.decl (s.declare i kind).1 := by
  show DeclId.mk s'.decls.toArray.size = _
  rw [h.decls, Array.size_append, Array.size_map]
  rfl

end Link.Ahead

theorem State.prevKind_bump (s : State) : s.bump.prevKind = s.here.kind := by
  rw [State.prevKind, State.behind_bump]

namespace Link.Rel

variable (h : L.Rel s s')

include h

theorem intern (text : String) : L.Rel (s.intern text).2 (s'.intern text).2 :=
  ⟨h.toAhead.intern text, h.prev, h.stopped, h.prevKind, h.lastError⟩

theorem declare (i : Id) (kind : DeclKind) :
    L.Rel (s.declare i kind).2 (s'.declare (i.relabel L.relabel) kind).2 :=
  ⟨h.toAhead.declare i kind, h.prev, h.stopped, h.prevKind, h.lastError⟩

theorem bump : L.Rel s.bump s'.bump where
  toAhead := h.toAhead.bump
  prev := by
    rw [State.prev_bump, State.prev_bump, h.here]
    rfl
  stopped := by
    rw [State.prev_bump]
    exact (h.placed s.here (List.mem_cons_self ..)).2
  prevKind := by
    rw [State.prevKind_bump, State.prevKind_bump, h.here]
    rfl
  lastError t ht := by
    rw [State.lastError_bump, State.lastError_bump]
    exact h.lastError t (State.mem_pending_bump ht)

theorem finish (start : Span) : s'.finish (L.span start) = L.span (s.finish start) := by
  rw [State.finish, State.finish, h.prev]
  show (if (L.place s.prev.stop).offset < (L.place start.start).offset then _ else _) = _
  split
  · next hlt =>
    have hgap : s.prev.stop.offset < start.start.offset := by
      by_contra hle
      have hge := L.mono start.start s.prev.stop (Nat.le_of_not_lt hle)
      omega
    rw [if_pos hgap]
    rfl
  · next hle =>
    split
    · next hgap =>
      -- Nothing is consumed, and the token in front touches the last one: both ends are one place.
      have hsame := (L.eq_or_lt _ _ hgap).resolve_right hle
      simp only [Link.span, hsame]
    · rfl

/-- A complaint is suppressed in both runs or in none. -/
theorem complain (expected : Expected) (construct : String) :
    L.Rel (s.complain expected construct) (s'.complain expected construct) := by
  have hhere := h.lastError s.here (List.mem_cons_self ..)
  rw [← h.here] at hhere
  by_cases hsame : s.lastError = some s.here.span.start.offset
  · have hsame' := hhere.2 hsame
    rw [State.complain, State.complain, if_pos hsame, if_pos hsame']
    exact h
  · have hsame' := mt hhere.1 hsame
    rw [State.complain, State.complain, if_neg hsame, if_neg hsame']
    refine ⟨⟨h.here, h.beyond, h.names, h.decls, ?_, h.placed⟩, h.prev, h.stopped, h.prevKind, ?_⟩
    · show s'.reports.push _ = _ ++ (s.reports.push _).map _
      rw [h.reports, h.here, Array.map_push, Array.append_push]
      rfl
    · intro t ht
      show some s'.here.span.start.offset = _ ↔ some s.here.span.start.offset = _
      rw [Option.some_inj, Option.some_inj, h.here]
      exact L.offset_eq (h.placed s.here (List.mem_cons_self ..)).1 (h.placed t ht).1

theorem searchTurn (depth : Nat) :
    (∃ t t', s.searchTurn depth = .inl t ∧ s'.searchTurn depth = .inl t' ∧ L.Rel t t') ∨
      ∃ depth', s.searchTurn depth = .inr depth' ∧ s'.searchTurn depth = .inr depth' := by
  simp only [State.searchTurn, h.kind]
  split
  · exact .inl ⟨s, s', rfl, rfl, h⟩
  · by_cases hdepth : depth = 0
    · simp only [if_pos hdepth]
      exact .inl ⟨_, _, rfl, rfl, h.bump⟩
    · simp only [if_neg hdepth]
      exact .inr ⟨depth, rfl, rfl⟩
  all_goals first
    | exact .inr ⟨_, rfl, rfl⟩
    | by_cases hdepth : depth = 0
      · simp only [if_pos hdepth]
        exact .inl ⟨s, s', rfl, rfl, h⟩
      · simp only [if_neg hdepth]
        exact .inr ⟨depth, rfl, rfl⟩

omit h in
theorem synchronize {s s' : State} (h : L.Rel s s') (rounds depth : Nat) :
    L.Rel (s.synchronize rounds depth) (s'.synchronize rounds depth) := by
  induction rounds generalizing depth s s' with
  | zero => exact h
  | succ rounds ih =>
    rw [State.synchronize, State.synchronize]
    rcases h.searchTurn depth with ⟨t, t', ht, ht', hrel⟩ | ⟨depth', ht, ht'⟩
    · rw [ht, ht']
      exact hrel
    · rw [ht, ht']
      exact ih h.bump depth'

theorem recover (reported : Nat) :
    L.Rel (s.recover reported) (s'.recover (L.reports.size + reported)) := by
  have hsame : (L.reports.size + reported < s'.reports.size ∧ s'.prevKind ≠ .semi ∧
      s'.prevKind ≠ .rBrace) ↔
      (reported < s.reports.size ∧ s.prevKind ≠ .semi ∧ s.prevKind ≠ .rBrace) := by
    rw [h.size_reports, h.prevKind, Nat.add_lt_add_iff_left]
  have hrounds : s'.beyond.length = s.beyond.length := by rw [h.beyond, List.length_map]
  rw [State.recover, State.recover, hrounds]
  simp only [hsame]
  split
  · exact h.synchronize _ 0
  · exact h

end Link.Rel

/-! ## Parsers -/

variable (L)

/-- Wherever two parsers give a result in related states, and end with the tables of the link, their
results and the states behind them are related. -/
def Follows {α β : Type} (before : State → State → Prop) (m : Parser α) (m' : Parser β)
    (rel : α → β → Prop) : Prop :=
  ∀ s s' a t a' t', before s s' → m s = some (a, t) → m' s' = some (a', t') →
    t.names ≤ L.source → t'.names ≤ L.target → rel a a' ∧ L.Rel t t'

/-- The result of one parser is that of the other one under a map. -/
abbrev Maps {α β : Type} (f : α → β) (a : α) (a' : β) : Prop := a' = f a

/-- Rounds of loops that end alike. -/
inductive Turn.Follows {α : Type} (f : α → α) : Turn α → Turn α → Prop
  | leave (a : α) : Turn.Follows f (.leave a) (.leave (f a))
  | goOn {wrap wrap' : α → α} (h : ∀ a, wrap' (f a) = f (wrap a)) :
      Turn.Follows f (.goOn wrap) (.goOn wrap')

variable {L}

namespace Follows

variable {α β γ δ : Type} {before : State → State → Prop} {m : Parser α} {m' : Parser β}
  {k : α → Parser γ} {k' : β → Parser δ} {f : α → β} {rel : γ → δ → Prop}

theorem pure {a : γ} {a' : δ} (h : rel a a') : Follows L L.Rel (pure a) (pure a') rel := by
  intro s s' b t b' t' hs hrun hrun' _ _
  cases hrun
  cases hrun'
  exact ⟨h, hs⟩

theorem failure_left {m' : Parser δ} : Follows L before (failure : Parser γ) m' rel := by
  intro s s' a t a' t' _ hrun
  cases hrun

theorem failure_right {m : Parser γ} : Follows L before m (failure : Parser δ) rel := by
  intro s s' a t a' t' _ _ hrun'
  cases hrun'

theorem bindRel {rel' : α → β → Prop} [hk : ∀ a, Grows (k a)] [hk' : ∀ a, Grows (k' a)]
    (hm : Follows L before m m' rel')
    (h : ∀ a a', rel' a a' → Follows L L.Rel (k a) (k' a') rel) :
    Follows L before (m >>= k) (m' >>= k') rel := by
  intro s s' b u b' u' hs hrun hrun' hu hu'
  obtain ⟨⟨a, t⟩, ha, hb⟩ := Option.bind_eq_some_iff.1 hrun
  obtain ⟨⟨a', t'⟩, ha', hb'⟩ := Option.bind_eq_some_iff.1 hrun'
  have ht := Interner.le_trans ((hk a).names hb) hu
  have ht' := Interner.le_trans ((hk' a').names hb') hu'
  obtain ⟨hrel, htt⟩ := hm s s' a t a' t' hs ha ha' ht ht'
  exact h a a' hrel t t' b u b' u' htt hb hb' hu hu'

theorem bind [∀ a, Grows (k a)] [∀ a, Grows (k' a)] (hm : Follows L before m m' (Maps f))
    (h : ∀ a, Follows L L.Rel (k a) (k' (f a)) rel) :
    Follows L before (m >>= k) (m' >>= k') rel := by
  apply hm.bindRel
  rintro a _ rfl
  exact h a

/-- A step that only looks, and what it sees. -/
theorem lookAt {p : α → Prop}
    (hm : ∀ s s', before s s' → ∃ a, p a ∧ m s = some (a, s) ∧ m' s' = some (f a, s'))
    (h : ∀ a, p a → Follows L before (k a) (k' (f a)) rel) :
    Follows L before (m >>= k) (m' >>= k') rel := by
  intro s s' b u b' u' hs hrun hrun' hu hu'
  obtain ⟨a, hp, ha, ha'⟩ := hm s s' hs
  have hb : k a s = some (b, u) := by
    obtain ⟨⟨_, _⟩, heq, hb⟩ := Option.bind_eq_some_iff.1 hrun
    cases ha.symm.trans heq
    exact hb
  have hb' : k' (f a) s' = some (b', u') := by
    obtain ⟨⟨_, _⟩, heq, hb⟩ := Option.bind_eq_some_iff.1 hrun'
    cases ha'.symm.trans heq
    exact hb
  exact h a hp s s' b u b' u' hs hb hb' hu hu'

/-- A step that only looks. -/
theorem look (hm : ∀ s s', before s s' → ∃ a, m s = some (a, s) ∧ m' s' = some (f a, s'))
    (h : ∀ a, Follows L before (k a) (k' (f a)) rel) :
    Follows L before (m >>= k) (m' >>= k') rel := by
  refine lookAt (p := fun _ => True) (fun s s' hs => ?_) fun a _ => h a
  obtain ⟨a, ha, ha'⟩ := hm s s' hs
  exact ⟨a, trivial, ha, ha'⟩

/-- A move that is made in both runs. -/
theorem move {move move' : State → State} (h : ∀ s s', before s s' → L.Rel (move s) (move' s')) :
    Follows L before (modify move) (modify move') (Maps id) := by
  intro s s' a t a' t' hs hrun hrun' _ _
  cases hrun
  cases hrun'
  exact ⟨rfl, h s s' hs⟩

theorem ite {p : Prop} [Decidable p] {m n : Parser γ} {m' n' : Parser δ}
    (hm : p → Follows L before m m' rel) (hn : ¬ p → Follows L before n n' rel) :
    Follows L before (if p then m else n) (if p then m' else n') rel := by
  by_cases h : p
  · rw [if_pos h, if_pos h]
    exact hm h
  · rw [if_neg h, if_neg h]
    exact hn h

/-! ## Looking -/

theorem kind {k : TokenKind → Parser γ} {k' : TokenKind → Parser δ}
    [hbefore : L.Looking before]
    (h : ∀ kind, Follows L before (k kind) (k' kind) rel) :
    Follows L before (Parser.kind >>= k) (Parser.kind >>= k') rel :=
  look (f := id) (fun s s' hs => ⟨s.kind, rfl, by rw [id_eq, ← (hbefore.ahead hs).kind]; rfl⟩) h

theorem kindAt {p : TokenKind → Prop} {k : TokenKind → Parser γ} {k' : TokenKind → Parser δ}
    [hbefore : L.Looking before] (hp : ∀ s s', before s s' → p s.kind)
    (h : ∀ kind, p kind → Follows L before (k kind) (k' kind) rel) :
    Follows L before (Parser.kind >>= k) (Parser.kind >>= k') rel :=
  lookAt (f := id)
    (fun s s' hs => ⟨s.kind, hp s s' hs, rfl, by rw [id_eq, ← (hbefore.ahead hs).kind]; rfl⟩) h

theorem track {k : Span → Parser γ} {k' : Span → Parser δ}
    [hbefore : L.Looking before]
    (h : ∀ span, Follows L before (k span) (k' (L.span span)) rel) :
    Follows L before (Parser.track >>= k) (Parser.track >>= k') rel := by
  refine look (f := L.span) (fun s s' hs => ⟨s.here.span, rfl, ?_⟩) h
  show some (s'.here.span, s') = _
  rw [(hbefore.ahead hs).here]
  rfl

theorem trackAt {k : Span → Parser γ} {k' : Span → Parser δ}
    (h : ∀ span, L.starts span.start → Follows L L.Rel (k span) (k' (L.span span)) rel) :
    Follows L L.Rel (Parser.track >>= k) (Parser.track >>= k') rel := by
  refine lookAt (f := L.span) (fun s s' hs => ⟨s.here.span, ?_, rfl, ?_⟩) h
  · exact (hs.placed s.here (List.mem_cons_self ..)).1
  · show some (s'.here.span, s') = _
    rw [hs.here]
    rfl

theorem peek {k : Token → Parser γ} {k' : Token → Parser δ}
    (h : ∀ token, Follows L L.Rel (k token) (k' (L.token token)) rel) :
    Follows L L.Rel (Parser.peek >>= k) (Parser.peek >>= k') rel := by
  refine look (f := L.token) (fun s s' hs => ⟨s.here, rfl, ?_⟩) h
  show some (s'.here, s') = _
  rw [hs.here]

theorem nextKind {k : TokenKind → Parser γ} {k' : TokenKind → Parser δ}
    (h : ∀ kind, Follows L L.Rel (k kind) (k' kind) rel) :
    Follows L L.Rel (Parser.nextKind >>= k) (Parser.nextKind >>= k') rel :=
  look (f := id) (fun s s' hs => ⟨s.nextKind, rfl, by rw [id_eq, ← hs.nextKind]; rfl⟩) h

theorem isAt {kind : TokenKind} {k : Bool → Parser γ} {k' : Bool → Parser δ}
    (h : ∀ at_, Follows L L.Rel (k at_) (k' at_) rel) :
    Follows L L.Rel (Parser.isAt kind >>= k) (Parser.isAt kind >>= k') rel := by
  refine look (f := id) (fun s s' hs => ⟨s.kind = kind, rfl, ?_⟩) h
  rw [id_eq, ← hs.kind]
  rfl

theorem prev {k : Span → Parser γ} {k' : Span → Parser δ}
    (h : ∀ span, Follows L L.Rel (k span) (k' (L.span span)) rel) :
    Follows L L.Rel (Parser.prev >>= k) (Parser.prev >>= k') rel := by
  refine look (f := L.span) (fun s s' hs => ⟨s.prev, rfl, ?_⟩) h
  rw [← hs.prev]
  rfl

theorem prevAt {k : Span → Parser γ} {k' : Span → Parser δ}
    (h : ∀ span, L.stops span.stop → Follows L L.Rel (k span) (k' (L.span span)) rel) :
    Follows L L.Rel (Parser.prev >>= k) (Parser.prev >>= k') rel := by
  refine lookAt (f := L.span) (fun s s' hs => ⟨s.prev, hs.stopped, rfl, ?_⟩) h
  rw [← hs.prev]
  rfl

theorem finish {start : Span} {k : Span → Parser γ} {k' : Span → Parser δ}
    (h : ∀ span, Follows L L.Rel (k span) (k' (L.span span)) rel) :
    Follows L L.Rel (Parser.finish start >>= k) (Parser.finish (L.span start) >>= k') rel := by
  refine look (f := L.span) (fun s s' hs => ⟨s.finish start, rfl, ?_⟩) h
  rw [← hs.finish]
  rfl

theorem reported {k : Nat → Parser γ} {k' : Nat → Parser δ}
    [hbefore : L.Looking before]
    (h : ∀ n, Follows L before (k n) (k' (L.reports.size + n)) rel) :
    Follows L before (Parser.reported >>= k) (Parser.reported >>= k') rel := by
  refine look (f := (L.reports.size + ·)) (fun s s' hs => ⟨s.reports.size, rfl, ?_⟩) h
  rw [← (hbefore.ahead hs).size_reports]
  rfl

end Follows

/-! ## Moving -/

theorem follows_bump : Follows L L.Rel bump bump (Maps id) := .move fun _ _ hs => hs.bump

theorem follows_unexpected (expected : Expected) (construct : String) :
    Follows L L.Rel (unexpected expected construct) (unexpected expected construct) (Maps id) :=
  .move fun _ _ hs => hs.complain expected construct

theorem follows_recover (reported : Nat) :
    Follows L L.Rel (recover reported) (recover (L.reports.size + reported)) (Maps id) :=
  .move fun _ _ hs => hs.recover reported

/-- One text has the same symbol in both runs, up to the renaming. -/
theorem follows_intern (text : String) :
    Follows L L.Rel (intern text) (intern text) (Maps L.symbol) := by
  intro s s' a t a' t' hs hrun hrun' ht ht'
  cases hrun
  cases hrun'
  refine ⟨?_, hs.intern text⟩
  exact (Interner.carry_eq (Interner.get?_of_le ht (s.names.get?_intern text))
    (Interner.get?_of_le ht' (s'.names.get?_intern text))).symm

theorem follows_declare (i : Id) (kind : DeclKind) :
    Follows L L.Rel (declare i kind) (declare (i.relabel L.relabel) kind) (Maps L.decl) := by
  intro s s' a t a' t' hs hrun hrun' _ _
  cases hrun
  cases hrun'
  exact ⟨hs.declare_id i kind, hs.declare i kind⟩

/-- What follows a step that has nothing to tell. -/
theorem Follows.then {γ δ : Type} {before : State → State → Prop} {m : Parser Unit}
    {m' : Parser Unit} {k : Unit → Parser γ} {k' : Unit → Parser δ} {rel : γ → δ → Prop}
    [∀ a, Grows (k a)] [∀ a, Grows (k' a)] (hm : Follows L before m m' (Maps id))
    (h : Follows L L.Rel (k ()) (k' ()) rel) : Follows L before (m >>= k) (m' >>= k') rel :=
  hm.bindRel fun _ _ _ => h

theorem follows_accept (kind : TokenKind) :
    Follows L L.Rel (accept kind) (accept kind) (Maps id) := by
  show Follows L L.Rel (Parser.kind >>= fun here => if here = kind then _ else _)
    (Parser.kind >>= fun here => if here = kind then _ else _) _
  refine Follows.kind fun here => Follows.ite (fun _ => ?_) fun _ => ?_
  · exact follows_bump.then (.pure rfl)
  · exact .pure rfl

theorem follows_expect (kind : TokenKind) (construct : String) :
    Follows L L.Rel (expect kind construct) (expect kind construct) (Maps id) := by
  show Follows L L.Rel (Parser.kind >>= fun here => if here = kind then _ else _)
    (Parser.kind >>= fun here => if here = kind then _ else _) _
  refine Follows.kind fun here => Follows.ite (fun _ => ?_) fun _ => ?_
  · exact follows_bump.then (.pure rfl)
  · exact (follows_unexpected _ _).then (.pure rfl)

theorem follows_acceptSeparator : Follows L L.Rel acceptSeparator acceptSeparator (Maps id) := by
  show Follows L L.Rel (Parser.kind >>= fun here => if here = .comma then _ else _)
    (Parser.kind >>= fun here => if here = .comma then _ else _) _
  refine Follows.kind fun here => Follows.ite (fun _ => ?_) fun _ => ?_
  · exact follows_bump.then (.pure rfl)
  · exact follows_accept .semi

theorem follows_ident (construct : String) :
    Follows L L.Rel (ident construct) (ident construct) (Maps (Id.relabel L.relabel)) := by
  apply Follows.peek
  intro token
  rw [show (L.token token).kind = token.kind from rfl,
    show (L.token token).payload = token.payload from rfl]
  split
  · exact follows_bump.then ((follows_intern _).bind fun symbol => .pure rfl)
  · exact (follows_unexpected _ _).then ((follows_intern _).bind fun symbol =>
      .finish fun span => .pure rfl)

theorem follows_loop {α : Type} {before : State → State → Prop} {f : α → α}
    {round round' : Parser (Turn α)} {rest rest' : Parser α} [Grows rest]
    [Grows rest'] (hround : Follows L before round round' (Turn.Follows f))
    (hrest : Follows L L.Rel rest rest' (Maps f)) :
    Follows L before (loop round rest) (loop round' rest') (Maps f) := by
  rw [← bind_pure round, ← bind_pure round', loop_bind, loop_bind]
  apply hround.bindRel
  rintro _ _ (a | hwrap)
  · rw [loop_leave, loop_leave]
    exact .pure rfl
  · rw [loop_goOn, loop_goOn]
    exact hrest.bind fun a => .pure (hwrap a)

end Parser

end ImpLang
