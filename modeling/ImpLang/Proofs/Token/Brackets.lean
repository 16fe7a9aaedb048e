import ImpLang.Token.Kind

/-!
Round, square and curly brackets, and what it means that they are nested.
-/

namespace ImpLang

namespace TokenKind

/-- The bracket that closes an opening one. -/
def closer? : TokenKind → Option TokenKind
  | lParen => some rParen
  | lBracket => some rBracket
  | lBrace => some rBrace
  | _ => none

def isCloser : TokenKind → Bool
  | rParen | rBracket | rBrace => true
  | _ => false

/-- The closers that are due behind a token, the next one first, if they are `closers` in front of it.
A closer that is not due may not stand there. -/
def due? (kind : TokenKind) (closers : List TokenKind) : Option (List TokenKind) :=
  match kind.closer? with
  | some closer => some (closer :: closers)
  | none =>
    if kind.isCloser then
      if closers.head? = some kind then some closers.tail else none
    else some closers

/-- Whether brackets are nested: each is closed in its turn and by its own closer, and so are those
that are open before, of which the closers are given. -/
def nested : (closers kinds : List TokenKind) → Bool
  | closers, [] => closers.isEmpty
  | closers, kind :: kinds =>
    match kind.due? closers with
    | some closers => nested closers kinds
    | none => false

theorem nested_cons {closers kinds : List TokenKind} {kind : TokenKind}
    (h : nested closers (kind :: kinds) = true) :
    ∃ behind, kind.due? closers = some behind ∧ nested behind kinds = true := by
  rw [nested] at h
  cases hdue : kind.due? closers with
  | none =>
    rw [hdue] at h
    cases h
  | some behind =>
    rw [hdue] at h
    exact ⟨behind, rfl, h⟩

/-- A token opens a bracket, closes the last one, or is none. -/
theorem due?_cases {kind : TokenKind} {closers behind : List TokenKind}
    (h : kind.due? closers = some behind) :
    (∃ closer, kind.closer? = some closer ∧ behind = closer :: closers) ∨
      (kind.isCloser = true ∧ closers = kind :: behind) ∨
      (kind.closer? = none ∧ kind.isCloser = false ∧ behind = closers) := by
  rw [due?] at h
  cases hcloser : kind.closer? with
  | some closer =>
    rw [hcloser] at h
    exact .inl ⟨closer, rfl, (Option.some.inj h).symm⟩
  | none =>
    simp only [hcloser] at h
    by_cases hkind : kind.isCloser = true
    · rw [if_pos hkind] at h
      by_cases hhead : closers.head? = some kind
      · rw [if_pos hhead] at h
        obtain ⟨rest, rfl⟩ := List.head?_eq_some_iff.1 hhead
        exact .inr (.inl ⟨hkind, congrArg (kind :: ·) (Option.some.inj h)⟩)
      · rw [if_neg hhead] at h
        cases h
    · rw [if_neg hkind] at h
      exact .inr (.inr ⟨rfl, Bool.eq_false_iff.2 hkind, (Option.some.inj h).symm⟩)

/-- What stands behind the last bracket counts for nothing. -/
theorem nested_concat {kind : TokenKind} (hcloser : kind.closer? = none)
    (hkind : kind.isCloser = false) (closers kinds : List TokenKind) :
    nested closers (kinds ++ [kind]) = nested closers kinds := by
  induction kinds generalizing closers with
  | nil => simp [nested, due?, hcloser, hkind]
  | cons first kinds ih => simp only [List.cons_append, nested, ih]

end TokenKind

end ImpLang
