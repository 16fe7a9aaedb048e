import ImpLang.Proofs.Parser.Reading
import ImpLang.Proofs.Parser.Renaming
import Mathlib.Data.List.Induction

/-!
Names with operators in front of them, behind them and between them. Of the trees that read like
such a sequence of tokens from left to right, one groups the operators by their strength. It is the
one the parser gives.

That there is one is shown without the parser: operands join a tree at its right edge. That there is
no other follows from the grammar, which derives every such tree, so that the parser gives it.
-/

namespace ImpLang

namespace InfixOp

/-- An operator takes for its left operand what is stronger, or as strong unless it groups to the
right. -/
theorem leftLevel_le_iff (op op' : InfixOp) :
    op.leftLevel ≤ op'.prec ↔
      op.prec < op'.prec ∨ op'.prec = op.prec ∧ op.isRightAssoc = false := by
  have hlevels : ∀ p p' : Prec, (if p == .assign then p.next else p) ≤ p' ↔
      p < p' ∨ p' = p ∧ (p == .assign) = false := by
    intro p p'
    cases p <;> cases p' <;> decide
  exact hlevels op.prec op'.prec

/-- An operator takes for its right operand what is stronger, or as strong if it groups to the
right. -/
theorem rightLevel_le_iff (op op' : InfixOp) :
    op.rightLevel ≤ op'.prec ↔
      op.prec < op'.prec ∨ op'.prec = op.prec ∧ op.isRightAssoc = true := by
  have hlevels : ∀ p p' : Prec, p ≠ .postfixed → ((if p == .assign then p else p.next) ≤ p' ↔
      p < p' ∨ p' = p ∧ (p == .assign) = true) := by
    intro p p'
    cases p <;> cases p' <;> decide
  exact hlevels op.prec op'.prec (by cases op <;> decide)

end InfixOp

/-- The tokens of a tree fix its span. -/
theorem Placement.exact_unique {span span' : Span} {ts : List Token}
    (h : Placement.exact.covers span ts) (h' : Placement.exact.covers span' ts) : span = span' := by
  obtain ⟨first, last, hfirst, hlast, rfl⟩ := h
  obtain ⟨first', last', hfirst', hlast', rfl⟩ := h'
  rw [hfirst] at hfirst'
  rw [hlast] at hlast'
  cases hfirst'
  cases hlast'
  rfl

/-! ## Sequences of operators -/

namespace Token

/-- A name with any number of operators in front of it and behind it. -/
def Unary (ts : List Token) : Prop :=
  ∃ before name behind, ts = before ++ name :: behind ∧
    (∀ t ∈ before, t.kind.prefixOp?.isSome) ∧ name.kind = .identifier ∧
    ∀ t ∈ behind, t.kind.postfixOp?.isSome

/-- Names with their operators, joined by infix ones. -/
inductive Chain : List Token → Prop
  | unary {ts} (operand : Unary ts) : Chain ts
  | infixed {t ts us} (left : Chain ts) (op : t.kind.infixOp?.isSome) (operand : Unary us) :
      Chain (ts ++ t :: us)

end Token

namespace Expr

/-- The operator at the root of a tree, if it stands between operands. -/
def infixOp? : Expr → Option InfixOp
  | binary _ _ op _ => some op
  | _ => none

def isPrefixed : Expr → Bool
  | prefixed .. => true
  | _ => false

/-- A tree of names and operators that reads like the given tokens from left to right. -/
inductive Reads (names : Interner) (place : Placement) : Expr → List Token → Prop
  | name {span id t} (spells : t.Spells names place id) (extent : place.covers span [t]) :
      Reads names place (.name span id .unset) [t]
  | prefixed {span op e t ts} (kind : t.kind.prefixOp? = some op)
      (operand : Reads names place e ts) (extent : place.covers span (t :: ts)) :
      Reads names place (.prefixed span op e) (t :: ts)
  | postfixed {span op e t ts} (operand : Reads names place e ts)
      (kind : t.kind.postfixOp? = some op) (extent : place.covers span (ts ++ [t])) :
      Reads names place (.postfixed span e op) (ts ++ [t])
  | binary {span op l r t ts us} (left : Reads names place l ts)
      (kind : t.kind.infixOp? = some op) (right : Reads names place r us)
      (extent : place.covers span (ts ++ t :: us)) :
      Reads names place (.binary span l op r) (ts ++ t :: us)

/-- Postfix operators bind more tightly than prefix ones, and those more tightly than infix ones. An
operand of an infix operator is stronger than it, or as strong on the side to which it groups. -/
inductive Grouped : Expr → Prop
  | name {span id decl} : Grouped (.name span id decl)
  | prefixed {span op e} (operand : Grouped e) (tight : e.infixOp? = none) :
      Grouped (.prefixed span op e)
  | postfixed {span op e} (operand : Grouped e) (tight : e.infixOp? = none)
      (tighter : e.isPrefixed = false) : Grouped (.postfixed span e op)
  | binary {span l op r} (left : Grouped l) (right : Grouped r)
      (above : ∀ op', l.infixOp? = some op' →
        op.prec < op'.prec ∨ op'.prec = op.prec ∧ op.isRightAssoc = false)
      (below : ∀ op', r.infixOp? = some op' →
        op.prec < op'.prec ∨ op'.prec = op.prec ∧ op.isRightAssoc = true) :
      Grouped (.binary span l op r)

/-- No infix operator weaker than given stands at the root of a tree. -/
def Binds (min : Prec) (e : Expr) : Prop := ∀ op, e.infixOp? = some op → min ≤ op.prec

variable {N : Interner} {place : Placement} {min : Prec} {span : Span} {op : InfixOp}
  {e l r u : Expr} {t : Token} {ts us : List Token}

theorem Binds.of_none (h : e.infixOp? = none) : e.Binds min := by
  intro op hop
  rw [h] at hop
  cases hop

/-- No infix operator binds as tightly as a prefix one. -/
theorem Binds.none (h : e.Binds .prefixed) : e.infixOp? = none := by
  cases hop : e.infixOp? with
  | none => rfl
  | some op =>
    have hstrong := h op hop
    revert hstrong
    cases op <;> decide

theorem binds_binary : (Expr.binary span l op r).Binds min ↔ min ≤ op.prec := by
  constructor
  · intro h
    exact h op rfl
  · rintro h _ ⟨⟩
    exact h

theorem Grouped.of_binds (hl : l.Grouped) (hr : r.Grouped) (habove : l.Binds op.leftLevel)
    (hbelow : r.Binds op.rightLevel) : (Expr.binary span l op r).Grouped :=
  .binary hl hr (fun op' h => (op.leftLevel_le_iff op').1 (habove op' h))
    fun op' h => (op.rightLevel_le_iff op').1 (hbelow op' h)

theorem Grouped.operands (h : (Expr.binary span l op r).Grouped) :
    l.Grouped ∧ r.Grouped ∧ l.Binds op.leftLevel ∧ r.Binds op.rightLevel := by
  cases h with
  | binary left right above below =>
    exact ⟨left, right, fun op' h => (op.leftLevel_le_iff op').2 (above op' h),
      fun op' h => (op.rightLevel_le_iff op').2 (below op' h)⟩

/-! ## Readings and trees -/

/-- Alike trees read like the same number of tokens. -/
theorem Reads.length_eq {N' : Interner} {place' : Placement} {e' : Expr} {ts' : List Token}
    (h : e.Reads N place ts) (h' : e'.Reads N' place' ts') (halike : Expr.Alike N N' e e') :
    ts.length = ts'.length := by
  induction h generalizing e' ts' with
  | name =>
    cases halike
    cases h'
    rfl
  | prefixed _ _ _ ih =>
    cases halike with
    | prefixed operand =>
      cases h' with
      | prefixed _ h' _ => rw [List.length_cons, List.length_cons, ih h' operand]
  | postfixed _ _ _ ih =>
    cases halike with
    | postfixed operand =>
      cases h' with
      | postfixed h' _ _ => rw [List.length_append, List.length_append, ih h' operand]; rfl
  | binary _ _ _ _ ihl ihr =>
    cases halike with
    | binary left right =>
      cases h' with
      | binary hl _ hr _ =>
        rw [List.length_append, List.length_append, List.length_cons, List.length_cons, ihl hl left,
          ihr hr right]

/-- Where no text has two numbers, alike trees that read like the same tokens are equal. -/
theorem Reads.eq_of_alike (hdistinct : N.Distinct) {e' : Expr} (h : e.Reads N .exact ts)
    (h' : e'.Reads N .exact ts) (halike : Expr.Alike N N e e') : e = e' := by
  induction h generalizing e' with
  | @name _ id _ spells extent =>
    cases halike with
    | @name _ _ _ id' _ _ same =>
      cases h' with
      | name spells' extent' =>
        obtain ⟨text, htext, htext'⟩ := same
        have hid : id = id' := by
          obtain ⟨symbol, span⟩ := id
          obtain ⟨symbol', span'⟩ := id'
          have hspan := Placement.exact_unique spells.span spells'.span
          exact congrArg₂ Id.mk (hdistinct _ _ text htext htext') hspan
        rw [hid, Placement.exact_unique extent extent']
  | prefixed _ _ extent ih =>
    cases halike with
    | prefixed operand =>
      cases h' with
      | prefixed _ h' extent' => rw [ih h' operand, Placement.exact_unique extent extent']
  | @postfixed span op e t ts _ _ extent ih =>
    cases halike with
    | postfixed operand =>
      generalize hall : ts ++ [t] = all at h' extent
      cases h' with
      | postfixed h' _ extent' =>
        obtain ⟨rfl, -⟩ := List.append_inj' hall rfl
        rw [ih h' operand, Placement.exact_unique extent extent']
  | @binary span op l r t ts us left _ _ extent ihl ihr =>
    cases halike with
    | binary hl hr =>
      generalize hall : ts ++ t :: us = all at h' extent
      cases h' with
      | binary left' _ right' extent' =>
        obtain ⟨rfl, hrest⟩ := List.append_inj hall (left.length_eq left' hl)
        obtain ⟨-, rfl⟩ := List.cons.inj hrest
        rw [ihl left' hl, ihr right' hr, Placement.exact_unique extent extent']

/-! ## Grouped trees and the grammar -/

/-- A grouped tree is derived, as an operand unless its root is a prefix or an infix operator. -/
theorem Reads.derives (h : e.Reads N place ts) (hgrouped : e.Grouped) :
    (∀ min, e.Binds min → Derives N place (.expr min .postfixed e) ts) ∧
      (e.infixOp? = none → e.isPrefixed = false → Derives N place (.operand .postfixed e) ts) := by
  induction h with
  | name spells extent =>
    have hname := Derives.name spells extent
    exact ⟨fun _ _ => .exprOperand hname, fun _ _ => hname⟩
  | prefixed kind _ extent ih =>
    cases hgrouped with
    | prefixed operand tight =>
      have hoperand := (ih operand).1 .prefixed (.of_none tight)
      exact ⟨fun _ _ => .exprPrefixed kind hoperand extent, fun _ h => nomatch h⟩
  | postfixed _ kind extent ih =>
    cases hgrouped with
    | postfixed operand tight tighter =>
      have hpostfixed := Derives.postfixed ((ih operand).2 tight tighter) kind extent
      exact ⟨fun _ _ => .exprOperand hpostfixed, fun _ _ => hpostfixed⟩
  | @binary span op l r t ts us _ kind _ extent ihl ihr =>
    obtain ⟨hl, hr, habove, hbelow⟩ := hgrouped.operands
    have hleft := (ihl hl).1 op.leftLevel habove
    have hright := (ihr hr).1 op.rightLevel hbelow
    refine ⟨fun min hmin => ?_, fun h => nomatch h⟩
    exact .exprBinary kind (binds_binary.1 hmin) hleft op.prec_lt_postfixed hright extent

end Expr

/-- Names, and operators of whatever place. -/
def TokenKind.isOperation (kind : TokenKind) : Bool :=
  kind = .identifier ∨ kind.prefixOp?.isSome ∨ kind.postfixOp?.isSome ∨ kind.infixOp?.isSome

/-- An expression that reads like the given tokens, with what its place asks of its operators. -/
def Phrase.Groups (names : Interner) (place : Placement) (ts : List Token) : Phrase → Prop
  | expr min _ e => e.Reads names place ts ∧ e.Grouped ∧ e.Binds min
  | operand _ e =>
    e.Reads names place ts ∧ e.Grouped ∧ e.infixOp? = none ∧ e.isPrefixed = false
  | _ => True

/-- A phrase that begins neither with a name nor with an operator. -/
theorem Derives.foreign {names : Interner} {place : Placement} {phrase : Phrase} {ts : List Token}
    (h : Derives names place phrase ts) (hsolid : phrase.isSolid = true)
    (hstart : ∀ kind, phrase.startsWith kind = true → kind.isOperation = false) :
    ¬ ∀ t ∈ ts, t.kind.isOperation = true := by
  intro hall
  have hne := h.ne_nil hsolid
  cases ts with
  | nil => exact hne rfl
  | cons t ts =>
    have hno := hstart t.kind (h.starts hne)
    rw [hall t (List.mem_cons_self ..)] at hno
    cases hno

/-- What is derived from names and operators alone is a grouped tree. -/
theorem Derives.groups {names : Interner} {place : Placement} {phrase : Phrase} {ts : List Token}
    (h : Derives names place phrase ts) (hall : ∀ t ∈ ts, t.kind.isOperation = true) :
    phrase.Groups names place ts := by
  have hparens : ∀ {e : Expr} {ts : List Token}, Derives names place (.parens e) ts →
      ¬ ∀ t ∈ ts, t.kind.isOperation = true := by
    intro e ts h
    apply h.foreign rfl
    rintro kind hkind
    rw [of_decide_eq_true hkind]
    rfl
  induction h
  case exprOperand ih =>
    obtain ⟨hreads, hgrouped, hinfix, -⟩ := ih hall
    exact ⟨hreads, hgrouped, .of_none hinfix⟩
  case exprPrefixed kind _ extent ih =>
    obtain ⟨hreads, hgrouped, hbinds⟩ := ih fun t ht => hall t (List.mem_cons_of_mem _ ht)
    exact ⟨.prefixed kind hreads extent, .prefixed hgrouped hbinds.none, .of_none rfl⟩
  case exprBinary kind strength _ _ _ extent ihl ihr =>
    obtain ⟨hl, hgl, hbl⟩ := ihl fun t ht => hall t (List.mem_append_left _ ht)
    obtain ⟨hr, hgr, hbr⟩ := ihr fun t ht =>
      hall t (List.mem_append_right _ (List.mem_cons_of_mem _ ht))
    exact ⟨.binary hl kind hr extent, .of_binds hgl hgr hbl hbr, Expr.binds_binary.2 strength⟩
  case name spells extent => exact ⟨.name spells extent, .name, rfl, rfl⟩
  case postfixed kind extent ih =>
    obtain ⟨hreads, hgrouped, hinfix, hprefix⟩ := ih fun t ht => hall t (List.mem_append_left _ ht)
    exact ⟨.postfixed hreads kind extent, .postfixed hgrouped hinfix hprefix, rfl, rfl⟩
  -- Every other operand has a token of its own, which is neither a name nor an operator.
  case parens h _ => exact absurd hall (hparens h)
  case app h _ _ _ => exact absurd (fun t ht => hall t (List.mem_append_right _ ht)) (hparens h)
  case appCps h _ _ _ =>
    refine absurd (fun t ht => hall t ?_) (hparens h)
    exact List.mem_append_right _ (List.mem_cons_of_mem _ ht)
  case operandForm h _ =>
    refine absurd hall (h.foreign rfl ?_)
    intro kind hkind
    cases kind <;> first | rfl | cases hkind
  case qualifier t hkind _ =>
    have hno := hall t (List.mem_cons_self ..)
    revert hkind hno
    cases t.kind <;> simp [TokenKind.qualifier?, TokenKind.isOperation, TokenKind.prefixOp?,
      TokenKind.postfixOp?, TokenKind.infixOp?]
  case field t _ _ _ hdot _ _ _ =>
    have hno := hall t (List.mem_append_right _ (List.mem_cons_self ..))
    rw [hdot] at hno
    cases hno
  all_goals first
    | exact trivial
    | (refine absurd (hall _ (List.mem_cons_self ..)) ?_
       simp only [*]
       decide)

/-! ## The tree of a sequence -/

namespace Expr

section Joining

variable {N : Interner} {op : InfixOp} {e u : Expr} {t : Token} {ts us : List Token}

/-- One more operand joins a tree at its right edge, below the operators that bind less tightly. -/
theorem Reads.exists_joined (hu : u.Reads N .free us) (hgrouped : u.Grouped)
    (hlone : u.infixOp? = none) (hk : t.kind.infixOp? = some op) (h : e.Reads N .free ts)
    (he : e.Grouped) :
    ∃ e' : Expr, e'.Reads N .free (ts ++ t :: us) ∧ e'.Grouped ∧
      ∀ min, e.Binds min → min ≤ op.prec → e'.Binds min := by
  have hwhole : ∀ {e : Expr} {ts : List Token}, e.Reads N .free ts → e.Grouped →
      e.Binds op.leftLevel → ∃ e' : Expr, e'.Reads N .free (ts ++ t :: us) ∧ e'.Grouped ∧
        ∀ min, e.Binds min → min ≤ op.prec → e'.Binds min := by
    intro e ts h he hbinds
    refine ⟨.binary t.span e op u, .binary h hk hu trivial, ?_, ?_⟩
    · exact .of_binds he hgrouped hbinds (.of_none hlone)
    · intro min _ hmin
      exact binds_binary.2 hmin
  -- The induction goes down the right edge.
  induction h with
  | name spells extent => exact hwhole (.name spells extent) he (.of_none rfl)
  | prefixed kind operand extent _ => exact hwhole (.prefixed kind operand extent) he (.of_none rfl)
  | postfixed operand kind extent _ =>
    exact hwhole (.postfixed operand kind extent) he (.of_none rfl)
  | @binary span op' l r t' ts ts' left kind right extent _ ih =>
    by_cases hlevel : op.leftLevel ≤ op'.prec
    · exact hwhole (.binary left kind right extent) he (binds_binary.2 hlevel)
    · obtain ⟨hl, hr, habove, hbelow⟩ := he.operands
      obtain ⟨r', hreads, hr', hbinds⟩ := ih hr
      have hstrong : op'.rightLevel ≤ op.prec := by
        by_contra hweak
        exact hlevel (op'.leftLevel_le_of_lt op (Nat.lt_of_not_le hweak))
      refine ⟨.binary span l op' r', ?_, ?_, ?_⟩
      · rw [List.append_assoc, List.cons_append]
        exact .binary left kind hreads trivial
      · exact .of_binds hl hr' habove (hbinds _ hbelow hstrong)
      · intro min hmin _
        exact binds_binary.2 (binds_binary.1 hmin)

end Joining

end Expr

namespace Token

variable {N : Interner} {ts : List Token}

theorem Unary.exists_reads (h : Unary ts)
    (hnames : ∀ t ∈ ts, t.kind = .identifier → ∃ id, t.Spells N .free id) :
    ∃ e : Expr, e.Reads N .free ts ∧ e.Grouped ∧ e.infixOp? = none := by
  obtain ⟨before, name, behind, rfl, hbefore, hname, hbehind⟩ := h
  obtain ⟨id, hid⟩ := hnames name (by simp) hname
  clear hnames
  -- The operators behind a name are nearer to it than those in front.
  have hinner : ∃ e : Expr, e.Reads N .free (name :: behind) ∧ e.Grouped ∧ e.infixOp? = none ∧
      e.isPrefixed = false := by
    induction behind using List.reverseRecOn with
    | nil => exact ⟨.name name.span id .unset, .name hid trivial, .name, rfl, rfl⟩
    | append_singleton behind t ih =>
      obtain ⟨e, hreads, hgrouped, hinfix, hprefix⟩ := ih fun t ht =>
        hbehind t (List.mem_append_left _ ht)
      obtain ⟨op, hop⟩ := Option.isSome_iff_exists.1 (hbehind t (by simp))
      refine ⟨.postfixed t.span e op, ?_, .postfixed hgrouped hinfix hprefix, rfl, rfl⟩
      exact .postfixed hreads hop trivial
  induction before with
  | nil =>
    obtain ⟨e, hreads, hgrouped, hinfix, -⟩ := hinner
    exact ⟨e, hreads, hgrouped, hinfix⟩
  | cons t before ih =>
    obtain ⟨e, hreads, hgrouped, hinfix⟩ := ih fun t ht => hbefore t (List.mem_cons_of_mem _ ht)
    obtain ⟨op, hop⟩ := Option.isSome_iff_exists.1 (hbefore t (List.mem_cons_self ..))
    exact ⟨.prefixed t.span op e, .prefixed hop hreads trivial, .prefixed hgrouped hinfix, rfl⟩

theorem Chain.exists_reads (h : Chain ts)
    (hnames : ∀ t ∈ ts, t.kind = .identifier → ∃ id, t.Spells N .free id) :
    ∃ e : Expr, e.Reads N .free ts ∧ e.Grouped := by
  induction h with
  | unary operand =>
    obtain ⟨e, hreads, hgrouped, -⟩ := operand.exists_reads hnames
    exact ⟨e, hreads, hgrouped⟩
  | infixed _ op operand ih =>
    obtain ⟨e, he, hgrouped⟩ := ih fun t ht => hnames t (List.mem_append_left _ ht)
    obtain ⟨u, hu, hu', hlone⟩ := operand.exists_reads fun t ht =>
      hnames t (List.mem_append_right _ (List.mem_cons_of_mem _ ht))
    obtain ⟨op', hop⟩ := Option.isSome_iff_exists.1 op
    obtain ⟨e', hreads, hgrouped', -⟩ := hu.exists_joined hu' hlone hop he hgrouped
    exact ⟨e', hreads, hgrouped'⟩

theorem Unary.isOperation (h : Unary ts) : ∀ t ∈ ts, t.kind.isOperation = true := by
  obtain ⟨before, name, behind, rfl, hbefore, hname, hbehind⟩ := h
  intro t ht
  rw [List.mem_append, List.mem_cons] at ht
  rw [TokenKind.isOperation, decide_eq_true_eq]
  rcases ht with ht | rfl | ht
  · exact .inr (.inl (hbefore t ht))
  · exact .inl hname
  · exact .inr (.inr (.inl (hbehind t ht)))

theorem Chain.isOperation (h : Chain ts) : ∀ t ∈ ts, t.kind.isOperation = true := by
  induction h with
  | unary operand => exact operand.isOperation
  | infixed _ op operand ih =>
    intro t ht
    rw [List.mem_append, List.mem_cons] at ht
    rcases ht with ht | rfl | ht
    · exact ih t ht
    · rw [TokenKind.isOperation, decide_eq_true_eq]
      exact .inr (.inr (.inr op))
    · exact operand.isOperation t ht

/-- Some table has numbers for all names among the tokens of a source. -/
theorem exists_spells {n : Nat} {tokens : List Token} (h : Stream n tokens) :
    ∃ N, ∀ t ∈ tokens, t.kind = .identifier → ∃ id, t.Spells N .free id := by
  refine ⟨⟨(tokens.filterMap internedText?).toArray⟩, ?_⟩
  intro t ht hk
  have hfits : ∃ text, t.payload = .name text := by
    induction h with
    | eof kind _ =>
      obtain rfl := List.mem_singleton.1 ht
      rw [kind] at hk
      cases hk
    | token _ fits _ _ _ ih =>
      rcases List.mem_cons.1 ht with rfl | ht
      · exact fits.1 hk
      · exact ih ht
  obtain ⟨text, htext⟩ := hfits
  have hmem : text ∈ (tokens.filterMap internedText?).toArray := by
    rw [List.mem_toArray]
    exact List.mem_filterMap.2 ⟨t, ht, by rw [internedText?, htext, Payload.text?]⟩
  obtain ⟨symbol, hsymbol⟩ := Interner.mem_texts_iff.1 hmem
  exact ⟨⟨symbol, t.span⟩, hk, ⟨text, htext, Interner.resolve?_of_get? hsymbol⟩, trivial⟩

end Token

namespace Parser

variable {N : Interner} {place : Placement} {s t : State} {e : Expr} {ts us rest : List Token}

/-- From one state to another a sequence of operators is read, and nothing else. -/
structure Climbs (s : State) (ts rest : List Token) (e : Expr) (t : State) : Prop where
  steps : Steps s ts t
  left : t.pending = rest
  reports : t.reports = #[]
  reads : e.Reads t.names .exact ts
  grouped : e.Grouped

/-- In front of a closing token the parser takes all of a sequence of operators, and gives its
grouped tree. -/
theorem run_chain {n : Nat} (min : Prec) (construct : String)
    (hs : s.Faces (Token.words (ts ++ rest))) (hpending : s.pending = ts ++ rest)
    (hsilent : s.reports = #[]) (hclose : (Token.firstKind rest).closes = true)
    (hn : 4 * (ts.length + rest.length) ≤ n + 2) (hchain : Token.Chain ts)
    (hreads : e.Reads N place ts) (hgrouped : e.Grouped) (hbinds : e.Binds min) :
    ∃ e' t, (rules n).expr min construct s = some (e', t) ∧ Climbs s ts rest e' t ∧
      Expr.Alike N t.names e e' := by
  rw [Token.words_append] at hs
  have hderives := (hreads.derives hgrouped).1 min hbinds
  have htakes : Takes ((rules n).expr min construct) s (Token.words rest) fun M e' =>
      Expr.Alike N M e e' :=
    (accepts hderives).takes_closed hs (by rwa [Token.length_words])
      (by rwa [Word.firstKind_words]) (Prec.le_refl _)
  obtain ⟨e', t, hrun, hfaces, hmoves, halike⟩ := htakes
  have hleft : t.pending.length = rest.length := by
    have hwords := congrArg List.length hfaces.pending
    rwa [Token.length_words, Token.length_words] at hwords
  have hclean : t.Clean t.names := ⟨by rw [hmoves.reports, hsilent], Interner.le_refl _⟩
  have hcalls : 4 * s.left + 2 ≤ n := by
    have hlength := hs.left
    rw [List.length_append, Token.length_words, Token.length_words] at hlength
    omega
  -- The same run derives what it consumes, with exact spans.
  obtain ⟨e'', t', hrun', us, hus, -⟩ := (rules_sound t.names n).expr min construct s hs.ok hcalls
  rw [hrun, Option.some.injEq, Prod.mk.injEq] at hrun'
  obtain ⟨rfl, rfl⟩ := hrun'
  obtain ⟨rfl, hrest⟩ := hus.steps.eq_of_left hs.ok hpending hleft
  obtain ⟨reach, hexact, -⟩ := hus.derives hclean
  obtain ⟨hreads', hgrouped', -⟩ := hexact.groups hchain.isOperation
  exact ⟨e', t, hrun, ⟨hus.steps, hrest, hclean.reports, hreads', hgrouped'⟩,
    halike _ (Interner.le_refl _)⟩

/-- A source that spells a sequence of names and operators gives the tree that reads like them and
groups by strength. Any such tree is alike, whatever its spans and its name table, and with exact
spans and the same name table it is the same. -/
theorem expr_groups (file : FileId) (source : String) (names : Interner) (construct : String)
    (default : Expr) (hsilent : ∀ lexed ∈ Token.lex file source, lexed.reports = [])
    (htokens : (Token.lex file source).map Lexed.token = ts ++ rest) (hchain : Token.Chain ts)
    (hclose : (Token.firstKind rest).closes = true) :
    let out := run (fun r => expr r .bottom construct) default file source names
    out.2.behind = ts.reverse ∧ out.2.pending = rest ∧ out.2.reports = #[] ∧
      out.1.Reads out.2.names .exact ts ∧ out.1.Grouped ∧
      (∀ N place (e : Expr), e.Reads N place ts → e.Grouped → Expr.Alike N out.2.names e out.1) ∧
      (names.Distinct → ∀ e : Expr, e.Reads out.2.names .exact ts → e.Grouped → e = out.1) := by
  intro out
  have hfaces := faces_start hsilent names
  rw [htokens] at hfaces
  have hpending : (State.start file source names).pending = ts ++ rest := by
    rw [pending_start, significant_of_silent hsilent, htokens]
  have hcalls : 4 * (ts.length + rest.length) ≤
      callLimit (State.start file source names) + 1 + 2 := by
    have hlimit := hfaces.le_callLimit
    rw [Token.length_words, List.length_append] at hlimit
    omega
  -- The run is the same whichever tree it is compared to.
  have hrun : ∀ N place (e : Expr), e.Reads N place ts → e.Grouped →
      Climbs (State.start file source names) ts rest out.1 out.2 ∧
        Expr.Alike N out.2.names e out.1 := by
    intro N place e hreads hgrouped
    obtain ⟨e', t, hrun, hclimbs⟩ := run_chain .bottom construct hfaces hpending
      (reports_start_of_silent hsilent names) hclose hcalls hchain hreads hgrouped
      fun op _ => Nat.zero_le _
    have hout : out = (e', t) := by
      change expr _ .bottom construct _ = some (e', t) at hrun
      simp only [out, run, runFrom, hrun, Option.getD_some]
    rw [hout]
    exact hclimbs
  have hstream := stream_significant file source
  rw [significant_of_silent hsilent, htokens] at hstream
  obtain ⟨N, hnames⟩ := Token.exists_spells hstream
  obtain ⟨e, he, hgrouped⟩ := hchain.exists_reads fun t ht => hnames t (List.mem_append_left _ ht)
  have hclimbs := (hrun N .free e he hgrouped).1
  refine ⟨?_, hclimbs.left, hclimbs.reports, hclimbs.reads, hclimbs.grouped, ?_, ?_⟩
  · rw [hclimbs.steps.behind, behind_start, List.append_nil]
  · intro N place e he hgrouped
    exact (hrun N place e he hgrouped).2
  · intro hdistinct e he hgrouped
    have hlater := Interner.le_trans (names_start file source names) hclimbs.steps.names
    exact he.eq_of_alike (hdistinct.of_le hlater) hclimbs.reads (hrun _ _ e he hgrouped).2

theorem expr_groups_assignment :
    ∃ ts rest, (∀ lexed ∈ Token.lex ⟨0⟩ "a = -b++ * c", lexed.reports = []) ∧
      (Token.lex ⟨0⟩ "a = -b++ * c").map Lexed.token = ts ++ rest ∧ Token.Chain ts ∧
      (Token.firstKind rest).closes = true ∧
      let out := run (fun r => expr r .bottom "operators") (.error (Span.origin ⟨0⟩)) ⟨0⟩
        "a = -b++ * c" .empty
      out.2.behind = ts.reverse ∧ out.2.pending = rest ∧ out.2.reports = #[] ∧
        out.1.Reads out.2.names .exact ts ∧ out.1.Grouped ∧
        (∀ N place (e : Expr), e.Reads N place ts → e.Grouped →
          Expr.Alike N out.2.names e out.1) ∧
        (Interner.empty.Distinct →
          ∀ e : Expr, e.Reads out.2.names .exact ts → e.Grouped → e = out.1) := by
  have hkinds : ((Token.lex ⟨0⟩ "a = -b++ * c").map Lexed.token).map Token.kind =
      [.identifier, .assign, .minus, .identifier, .inc, .star, .identifier, .eof] := by
    decide +kernel
  have hsilent : ∀ lexed ∈ Token.lex ⟨0⟩ "a = -b++ * c", lexed.reports = [] := by decide +kernel
  obtain ⟨tokens, htokens⟩ : ∃ tokens, (Token.lex ⟨0⟩ "a = -b++ * c").map Lexed.token = tokens :=
    ⟨_, rfl⟩
  rw [htokens] at hkinds
  simp only [List.map_eq_cons_iff, List.map_eq_nil_iff] at hkinds
  obtain ⟨a, _, rfl, ha, assign, _, rfl, hassign, minus, _, rfl, hminus, b, _, rfl, hb, inc, _,
    rfl, hinc, star, _, rfl, hstar, c, _, rfl, hc, eof, _, rfl, heof, rfl⟩ := hkinds
  have hname : ∀ {t : Token}, t.kind = .identifier → Token.Unary [t] := fun h =>
    ⟨[], _, [], rfl, by simp, h, by simp⟩
  have hoperand : Token.Unary [minus, b, inc] :=
    ⟨[minus], b, [inc], rfl, by simp [hminus]; rfl, hb, by simp [hinc]; rfl⟩
  have hchain : Token.Chain [a, assign, minus, b, inc, star, c] :=
    .infixed (.infixed (.unary (hname ha)) (by rw [hassign]; rfl) hoperand) (by rw [hstar]; rfl)
      (hname hc)
  have hclose : (Token.firstKind [eof]).closes = true := by
    rw [Token.firstKind_cons, heof]
    rfl
  exact ⟨[a, assign, minus, b, inc, star, c], [eof], hsilent, htokens, hchain, hclose,
    expr_groups ⟨0⟩ _ .empty "operators" _ hsilent htokens hchain hclose⟩

end Parser

end ImpLang
