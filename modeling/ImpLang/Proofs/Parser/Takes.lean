import ImpLang.Proofs.Parser.Runs
import ImpLang.Proofs.Tree.Alike

/-!
How runs are reasoned about that are known beforehand to go well: which words the parser takes, which
it leaves in front, and that it reports nothing on the way.
-/

namespace ImpLang

/-- What a token says, wherever it stands. -/
structure Word where
  kind : TokenKind
  payload : Payload
deriving DecidableEq, Repr

def Token.word (token : Token) : Word := ⟨token.kind, token.payload⟩

def Token.words (tokens : List Token) : List Word := tokens.map word

namespace Token

@[simp] theorem words_nil : words [] = [] := rfl

@[simp] theorem words_cons (t : Token) (ts : List Token) : words (t :: ts) = t.word :: words ts := rfl

@[simp] theorem words_append (ts us : List Token) : words (ts ++ us) = words ts ++ words us :=
  List.map_append

@[simp] theorem length_words (ts : List Token) : (words ts).length = ts.length := List.length_map _

@[simp] theorem kind_word (t : Token) : t.word.kind = t.kind := rfl

@[simp] theorem payload_word (t : Token) : t.word.payload = t.payload := rfl

end Token

namespace Word

/-- The kind of the first word. -/
def firstKind (words : List Word) : TokenKind := (words.head?.map kind).getD .eof

/-- The kind of the second word, as a window shows it: the last word repeats. -/
def nextKind : List Word → TokenKind
  | [] => .eof
  | [w] => w.kind
  | _ :: w :: _ => w.kind

@[simp] theorem firstKind_cons (w : Word) (ws : List Word) : firstKind (w :: ws) = w.kind := rfl

theorem firstKind_words (ts : List Token) : firstKind (Token.words ts) = Token.firstKind ts := by
  cases ts <;> rfl

theorem firstKind_append {ts : List Token} (hts : ts ≠ []) (k : List Word) :
    firstKind (Token.words ts ++ k) = Token.firstKind ts := by
  cases ts with
  | nil => exact absurd rfl hts
  | cons t ts => rfl

theorem nextKind_cons {w : Word} {ws : List Word} (hws : ws ≠ []) :
    nextKind (w :: ws) = firstKind ws := by
  cases ws with
  | nil => exact absurd rfl hws
  | cons w' ws => rfl

/-- No word in front that continues an operand, nor an operator of a given strength. -/
abbrev Stops (min : Prec) (k : List Word) : Prop := ImpLang.Stops min (firstKind k) (nextKind k)

end Word

/-- Words that do not carry on an ascription or a branch in front of them. -/
structure Word.Free (k : List Word) : Prop where
  colon : firstKind k ≠ .colon
  kwElse : firstKind k ≠ .kwElse

theorem Stops.mono {p q : Prec} {kind next : TokenKind} (h : Stops p kind next) (hle : p ≤ q) :
    Stops q kind next :=
  ⟨h.postfixOp, h.call, h.callCps, h.field, fun op hop => Nat.lt_of_lt_of_le (h.infixOp op hop) hle⟩

/-- A kind of token that stands behind expressions without being part of one. -/
def TokenKind.closes : TokenKind → Bool
  | .eof | .rBrace | .rParen | .rBracket | .rPack | .rVariadic | .comma | .semi | .lBrace | .arrow
  | .fatArrow | .kwIn => true
  | _ => false

theorem TokenKind.closes_of_separator {kind : TokenKind} (h : kind.isSeparator = true) :
    kind.closes = true := by
  revert h
  cases kind <;> simp [isSeparator, closes]

theorem Stops.of_closes {kind : TokenKind} (h : kind.closes = true) (min : Prec)
    (next : TokenKind) : Stops min kind next := by
  cases kind <;> first
    | exact absurd h Bool.false_ne_true
    | exact ⟨rfl, nofun, nofun, nofun, nofun⟩

theorem Word.Free.of_closes {k : List Word} (h : (firstKind k).closes = true) : Free k := by
  constructor <;>
  · intro hk
    rw [hk] at h
    cases h

namespace Parser

/-- The window looks at words that end a source, on which nothing is left to report. -/
structure State.Faces (s : State) (words : List Word) : Prop where
  ok : s.Ok
  quiet : ∀ lexed ∈ s.beyond.drop 1, lexed.reports = []
  pending : Token.words s.pending = words

/-- From one state to another without a report. -/
structure Moves (s t : State) : Prop where
  steps : ∃ ts, Steps s ts t
  reports : t.reports = s.reports

namespace Moves

theorem refl (s : State) : Moves s s := ⟨⟨[], .refl s⟩, rfl⟩

theorem trans {s t u : State} (h : Moves s t) (h' : Moves t u) : Moves s u := by
  obtain ⟨ts, hsteps⟩ := h.steps
  obtain ⟨us, hsteps'⟩ := h'.steps
  exact ⟨⟨ts ++ us, hsteps.trans hsteps'⟩, h'.reports.trans h.reports⟩

theorem names {s t : State} (h : Moves s t) : s.names ≤ t.names := by
  obtain ⟨ts, hsteps⟩ := h.steps
  exact hsteps.names

theorem intern (s : State) (text : String) : Moves s (s.intern text).2 :=
  ⟨⟨[], .intern text (.refl _)⟩, rfl⟩

theorem declare (s : State) (id : Id) {kind : DeclKind} (hk : kind ≠ .error) :
    Moves s (s.declare id kind).2 := ⟨⟨[], .declare id kind hk (.refl _)⟩, rfl⟩

end Moves

namespace State.Faces

variable {s t : State} {w : Word} {k : List Word}

theorem here (h : s.Faces (w :: k)) : s.here.word = w := (List.cons.inj h.pending).1

theorem kind (h : s.Faces k) : s.kind = Word.firstKind k := by
  rw [← h.pending]
  rfl

theorem nextKind (h : s.Faces k) : s.nextKind = Word.nextKind k := by
  rw [← h.pending, State.nextKind, State.pending]
  cases s.beyond <;> rfl

theorem payload (h : s.Faces (w :: k)) : s.here.payload = w.payload := by
  rw [← h.here]
  rfl

theorem left (h : s.Faces k) : s.left + 1 = k.length := by
  rw [← h.pending, Token.length_words, State.pending, List.length_cons, List.length_map, State.left]

theorem intern (h : s.Faces k) (text : String) : (s.intern text).2.Faces k :=
  ⟨⟨h.ok.stream, h.ok.silent⟩, h.quiet, h.pending⟩

theorem declare (h : s.Faces k) (id : Id) (kind : DeclKind) : (s.declare id kind).2.Faces k :=
  ⟨⟨h.ok.stream, h.ok.silent⟩, h.quiet, h.pending⟩

theorem kind_ne_eof (h : s.Faces (w :: k)) (hw : w.kind ≠ .eof) : s.kind ≠ .eof := by
  rwa [h.kind, Word.firstKind_cons]

/-- Behind the word in front the window looks at the others. -/
theorem bump (h : s.Faces (w :: k)) (hw : w.kind ≠ .eof) : s.bump.Faces k := by
  have hk := h.kind_ne_eof hw
  have hpending := State.pending_bump s (h.ok.beyond_ne_nil hk)
  refine ⟨(steps_bump hk).ok h.ok, ?_, ?_⟩
  · intro lexed hlexed
    apply h.quiet
    have hbeyond := h.ok.beyond_ne_nil hk
    cases hs : s.beyond with
    | nil => exact absurd hs hbeyond
    | cons first rest =>
      have hdrop : s.bump.beyond = rest := by
        simp only [State.bump, hs]
        cases rest <;> simp
      rw [hdrop] at hlexed
      exact List.drop_subset 1 rest hlexed
  · have hwords := h.pending
    rw [hpending] at hwords
    exact (List.cons.inj hwords).2

theorem moves_bump (h : s.Faces (w :: k)) (hw : w.kind ≠ .eof) : Moves s s.bump := by
  refine ⟨⟨_, steps_bump (h.kind_ne_eof hw)⟩, ?_⟩
  have hentering : s.entering = [] := by
    have hquiet := h.quiet
    rw [State.entering]
    split
    · next next rest hbeyond =>
      rw [hbeyond] at hquiet
      exact hquiet next (List.mem_cons_self ..)
    · rfl
  rw [State.reports_bump, hentering]
  exact Array.append_empty

/-- Where words were taken, the last of them ends behind the begin of the first. -/
theorem start_lt {ks : List Word} (hs : s.Faces k) (ht : t.Faces ks) (h : Moves s t)
    (hlt : ks.length < k.length) : s.here.span.start.offset < t.prev.stop.offset := by
  obtain ⟨ts, hsteps⟩ := h.steps
  refine hsteps.start_lt hs.ok ?_
  rintro rfl
  have hleft := hsteps.left hs.ok
  have hs := hs.left
  have ht := ht.left
  rw [List.length_nil] at hleft
  omega

/-- Where the tokens in front are known, so are those that were consumed. -/
theorem consumed {ts rest : List Token} (hs : s.Ok) (ht : t.Faces (Token.words rest))
    (h : Moves s t) (hpending : s.pending = ts ++ rest) : Steps s ts t ∧ t.pending = rest := by
  obtain ⟨us, hsteps⟩ := h.steps
  have hlength := congrArg List.length ht.pending
  rw [Token.length_words, Token.length_words] at hlength
  obtain ⟨rfl, hrest⟩ := hsteps.eq_of_left hs hpending hlength
  exact ⟨hsteps, hrest⟩

end State.Faces

/-- A parser gives a result in front of some words, without a report. What is said of the result holds
with every later name table. -/
def Takes {α : Type} (m : Parser α) (s : State) (k : List Word) (post : Interner → α → Prop) :
    Prop :=
  Runs m s fun a t => t.Faces k ∧ Moves s t ∧ ∀ M, t.names ≤ M → post M a

namespace Takes

variable {α β : Type} {s t : State} {w : Word} {k k' : List Word} {p : Interner → α → Prop}
  {q : Interner → β → Prop} {f : α → Parser β}

theorem pure {a : α} (h : s.Faces k) (ha : ∀ M, s.names ≤ M → p M a) : Takes (pure a) s k p :=
  Runs.pure ⟨h, .refl s, ha⟩

/-- What is known of a result is at hand where the result of the whole is judged. -/
theorem bind {m : Parser α} (hm : Takes m s k p)
    (hf : ∀ a t, t.Faces k → Moves s t → p t.names a →
      Takes (f a) t k' fun M b => p M a → q M b) : Takes (m >>= f) s k' q := by
  apply Runs.bind hm
  rintro a t ⟨ht, hst, ha⟩
  obtain ⟨b, u, hrun, hu, htu, hb⟩ := hf a t ht hst (ha _ (Interner.le_refl _))
  refine ⟨b, u, hrun, hu, hst.trans htu, ?_⟩
  intro M hM
  exact hb M hM (ha M (Interner.le_trans htu.names hM))

/-- Two results that are known together. -/
theorem bind₂ {γ : Type} {m : Parser α} {m' : α → Parser β} {g : α → β → Parser γ}
    {p : Interner → α × β → Prop} {q : Interner → γ → Prop}
    (hm : Takes (do let a ← m; let b ← m' a; return (a, b)) s k p)
    (hf : ∀ a b t, t.Faces k → Moves s t → p t.names (a, b) →
      Takes (g a b) t k' fun M c => p M (a, b) → q M c) :
    Takes (do let a ← m; let b ← m' a; g a b) s k' q := by
  have h := hm.bind (f := fun out => g out.1 out.2) fun out t ht hst hout => hf out.1 out.2 t ht hst hout
  simpa only [bind_assoc, pure_bind] using h

/-- A step whose result is known. -/
theorem step {m : Parser α} {a : α} (hm : m s = some (a, t)) (hst : Moves s t)
    (hf : Takes (f a) t k' q) : Takes (m >>= f) s k' q := by
  obtain ⟨b, u, hrun, hu, htu, hb⟩ := hf
  exact Runs.step hm ⟨b, u, hrun, hu, hst.trans htu, hb⟩

/-- A step that only looks. -/
theorem look {m : Parser α} {a : α} (hm : m s = some (a, s)) (hf : Takes (f a) s k' q) :
    Takes (m >>= f) s k' q := step hm (.refl s) hf

theorem mono {m : Parser α} {p' : Interner → α → Prop} (h : Takes m s k p)
    (hp : ∀ M a, p M a → p' M a) : Takes m s k p' :=
  Runs.mono h fun a _ ⟨ht, hst, ha⟩ => ⟨ht, hst, fun M hM => hp M a (ha M hM)⟩

/-- A result that is only handed on. -/
theorem map {m : Parser α} {g : α → β} (h : Takes m s k fun M a => q M (g a)) :
    Takes (do return g (← m)) s k q :=
  h.bind fun _ _ ht _ _ => .pure ht fun _ _ ha => ha

theorem bump {f : Unit → Parser β} (hs : s.Faces (w :: k)) (hw : w.kind ≠ .eof)
    (hf : ∀ t, t.Faces k → Moves s t → Takes (f ()) t k' q) :
    Takes (Parser.bump >>= f) s k' q :=
  step rfl (hs.moves_bump hw) (hf _ (hs.bump hw) (hs.moves_bump hw))

theorem declare {f : DeclId → Parser β} (id : Id) {kind : DeclKind} (hkind : kind ≠ .error)
    (hs : s.Faces k) (hf : ∀ d t, t.Faces k → Moves s t → Takes (f d) t k' q) :
    Takes (Parser.declare id kind >>= f) s k' q :=
  step rfl (.declare s id hkind) (hf _ _ (hs.declare id kind) (.declare s id hkind))

theorem accept {f : Bool → Parser β} {kind : TokenKind} (hkind : kind ≠ .eof)
    (hs : s.Faces (w :: k)) (hw : w.kind = kind)
    (hf : ∀ t, t.Faces k → Moves s t → Takes (f true) t k' q) :
    Takes (Parser.accept kind >>= f) s k' q := by
  have hne : w.kind ≠ .eof := by rwa [hw]
  refine step (a := true) (t := s.bump) ?_ (hs.moves_bump hne) (hf _ (hs.bump hne) (hs.moves_bump hne))
  show (if s.kind = kind then _ else _ : Parser Bool) s = _
  rw [if_pos (hs.kind.trans hw)]
  rfl

theorem decline {f : Bool → Parser β} {kind : TokenKind} (hs : s.Faces k)
    (hk : Word.firstKind k ≠ kind) (hf : Takes (f false) s k' q) :
    Takes (Parser.accept kind >>= f) s k' q := by
  refine look (a := false) ?_ hf
  show (if s.kind = kind then _ else _ : Parser Bool) s = _
  rw [if_neg (by rwa [hs.kind])]
  rfl

theorem expect {f : Bool → Parser β} {kind : TokenKind} {construct : String} (hkind : kind ≠ .eof)
    (hs : s.Faces (w :: k)) (hw : w.kind = kind)
    (hf : ∀ t, t.Faces k → Moves s t → Takes (f true) t k' q) :
    Takes (Parser.expect kind construct >>= f) s k' q := by
  have hne : w.kind ≠ .eof := by rwa [hw]
  refine step (a := true) (t := s.bump) ?_ (hs.moves_bump hne) (hf _ (hs.bump hne) (hs.moves_bump hne))
  show (if s.kind = kind then _ else _ : Parser Bool) s = _
  rw [if_pos (hs.kind.trans hw)]
  rfl

theorem separator {f : Bool → Parser β} (hs : s.Faces (w :: k)) (hw : w.kind.isSeparator = true)
    (hf : ∀ t, t.Faces k → Moves s t → Takes (f true) t k' q) :
    Takes (acceptSeparator >>= f) s k' q := by
  have hne : w.kind ≠ .eof := by
    intro heof
    rw [heof] at hw
    cases hw
  refine step (a := true) (t := s.bump) ?_ (hs.moves_bump hne) (hf _ (hs.bump hne) (hs.moves_bump hne))
  show (if s.kind = .comma then _ else _ : Parser Bool) s = _
  by_cases hcomma : s.kind = .comma
  · rw [if_pos hcomma]
    rfl
  · have hsemi : s.kind = .semi := by
      rw [hs.kind, Word.firstKind_cons] at hcomma ⊢
      simpa [TokenKind.isSeparator, hcomma] using hw
    rw [if_neg hcomma]
    show (if s.kind = .semi then _ else _ : Parser Bool) s = _
    rw [if_pos hsemi]
    rfl

theorem noSeparator {f : Bool → Parser β} (hs : s.Faces k)
    (hk : (Word.firstKind k).isSeparator = false) (hf : Takes (f false) s k' q) :
    Takes (acceptSeparator >>= f) s k' q := by
  refine look (a := false) ?_ hf
  have hkind : s.kind ≠ .comma ∧ s.kind ≠ .semi := by
    rw [hs.kind]
    simpa [TokenKind.isSeparator] using hk
  show (if s.kind = .comma then _ else _ : Parser Bool) s = _
  rw [if_neg hkind.1]
  show (if s.kind = .semi then _ else _ : Parser Bool) s = _
  rw [if_neg hkind.2]
  rfl

/-- A loop that its first round leaves. -/
theorem leave {round : Parser (Turn α)} {rest : Parser α}
    (h : Takes round s k fun M turn => ∃ a, turn = .leave a ∧ p M a) :
    Takes (loop round rest) s k p := by
  apply h.bind
  rintro _ t ht - ⟨a, rfl, -⟩
  apply Takes.pure ht
  rintro M - ⟨_, ⟨⟩, ha⟩
  exact ha

/-- A loop that goes on with its other rounds. -/
theorem goOn {round : Parser (Turn α)} {rest : Parser α} {p' : Interner → α → Prop}
    (h : Takes round s k fun M turn => ∃ wrap, turn = .goOn wrap ∧ ∀ a, p M a → p' M (wrap a))
    (hrest : ∀ t, t.Faces k → Moves s t → Takes rest t k' p) :
    Takes (loop round rest) s k' p' := by
  apply h.bind
  rintro _ t ht hst ⟨wrap, rfl, -⟩
  apply (hrest t ht hst).bind
  intro a u hu _ _
  apply Takes.pure hu
  rintro M - ha ⟨_, ⟨⟩, hwrap⟩
  exact hwrap a ha

end Takes

/-- An identifier is read as a name of the same text. -/
theorem takes_ident {N : Interner} {place : Placement} {t : Token} {id : Id} {s : State}
    {k : List Word} (hid : t.Spells N place id) (hs : s.Faces (t.word :: k)) (construct : String) :
    Takes (ident construct) s k fun M id' => Symbol.Alike N M id.symbol id'.symbol := by
  obtain ⟨text, hpayload, htext⟩ := hid.text
  have hne : t.word.kind ≠ .eof := by
    rw [Token.kind_word, hid.kind]
    nofun
  have hkind : s.here.kind = .identifier := hs.kind.trans hid.kind
  have hhere : s.here.payload = .name text := hs.payload.trans hpayload
  refine .look rfl ?_
  split
  · next found _ hfound =>
    obtain rfl : found = text := by
      rw [hhere] at hfound
      cases hfound
      rfl
    refine .bump hs hne fun u hu _ => .step rfl (.intern u found) (.pure (hu.intern found) ?_)
    intro M hM
    exact ⟨found, htext, Interner.resolve?_of_le hM (u.names.resolve?_intern found)⟩
  · next hno => exact (hno text hkind hhere).elim

end Parser

end ImpLang
