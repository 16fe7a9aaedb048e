import ImpLang.Proofs.Token.Tiling
import ImpLang.Proofs.Tree.Parts

/-!
Spans of what is read without errors. Tokens stand in order, so do the parts that they spell, and
each part stands around its own.
-/

namespace ImpLang

/-- Ranges that follow each other between two offsets. -/
def Span.Chain : Nat → List Span → Nat → Prop
  | n, [], m => n ≤ m
  | n, s :: ss, m => n ≤ s.start.offset ∧ s.start.offset ≤ s.stop.offset ∧ Chain s.stop.offset ss m

namespace Span

theorem Chain.le {n m : Nat} {ss : List Span} (h : Chain n ss m) : n ≤ m := by
  induction ss generalizing n with
  | nil => exact h
  | cons s ss ih =>
    obtain ⟨hstart, hforward, hrest⟩ := h
    have hle := ih hrest
    omega

theorem Chain.mono {n n' m m' : Nat} {ss : List Span} (h : Chain n ss m) (hn : n' ≤ n)
    (hm : m ≤ m') : Chain n' ss m' := by
  induction ss generalizing n n' with
  | nil => exact Nat.le_trans hn (Nat.le_trans h hm)
  | cons s ss ih =>
    obtain ⟨hstart, hforward, hrest⟩ := h
    exact ⟨Nat.le_trans hn hstart, hforward, ih hrest (Nat.le_refl _)⟩

theorem chain_append {n m : Nat} {ss ss' : List Span} :
    Chain n (ss ++ ss') m ↔ ∃ k, Chain n ss k ∧ Chain k ss' m := by
  induction ss generalizing n with
  | nil =>
    constructor
    · intro h
      exact ⟨n, Nat.le_refl n, h⟩
    · rintro ⟨k, hk, h⟩
      exact h.mono hk (Nat.le_refl m)
  | cons s ss ih =>
    constructor
    · rintro ⟨hstart, hforward, hrest⟩
      obtain ⟨k, hss, hss'⟩ := ih.1 hrest
      exact ⟨k, ⟨hstart, hforward, hss⟩, hss'⟩
    · rintro ⟨k, ⟨hstart, hforward, hss⟩, hss'⟩
      exact ⟨hstart, hforward, ih.2 ⟨k, hss, hss'⟩⟩

/-- Every range of a chain lies between its ends. -/
theorem Chain.mem {n m : Nat} {ss : List Span} (h : Chain n ss m) :
    ∀ s ∈ ss, n ≤ s.start.offset ∧ s.start.offset ≤ s.stop.offset ∧ s.stop.offset ≤ m := by
  induction ss generalizing n with
  | nil => simp
  | cons first ss ih =>
    obtain ⟨hstart, hforward, hrest⟩ := h
    intro s hs
    rcases List.mem_cons.1 hs with rfl | hs
    · exact ⟨hstart, hforward, hrest.le⟩
    · obtain ⟨hlow, hmid, hhigh⟩ := ih hrest s hs
      exact ⟨by omega, hmid, hhigh⟩

theorem Chain.pairwise {n m : Nat} {ss : List Span} (h : Chain n ss m) :
    ss.Pairwise fun a b => a.stop.offset ≤ b.start.offset := by
  induction ss generalizing n with
  | nil => exact .nil
  | cons s ss ih =>
    obtain ⟨-, -, hrest⟩ := h
    exact .cons (fun other hother => (hrest.mem other hother).1) (ih hrest)

end Span

/-- Tokens that stand in order, none of them empty. -/
structure Token.Ordered (ts : List Token) : Prop where
  chain : ∃ n m, Span.Chain n (ts.map span) m
  nonempty : ∀ token ∈ ts, token.span.start.offset < token.span.stop.offset

namespace Token

theorem Ordered.of_infix {ts us : List Token} (h : Ordered us) (hin : ts <:+: us) : Ordered ts := by
  refine ⟨?_, fun token htoken => h.nonempty token (hin.subset htoken)⟩
  obtain ⟨before, after, rfl⟩ := hin
  obtain ⟨n, m, hchain⟩ := h.chain
  rw [List.map_append, Span.chain_append, List.map_append] at hchain
  obtain ⟨k, hfront, -⟩ := hchain
  obtain ⟨l, -, hts⟩ := Span.chain_append.1 hfront
  exact ⟨l, k, hts⟩

/-- A span that covers tokens has them between its ends, and lies where they lie. -/
theorem chain_covers {n m : Nat} {s : Span} {ts : List Token} (hcovers : Placement.exact.covers s ts)
    (h : Span.Chain n (ts.map span) m) :
    n ≤ s.start.offset ∧ Span.Chain s.start.offset (ts.map span) s.stop.offset ∧
      s.stop.offset ≤ m := by
  obtain ⟨first, last, hfirst, hlast, rfl⟩ := hcovers
  obtain ⟨front, rfl⟩ := List.getLast?_eq_some_iff.1 hlast
  rw [List.map_append, Span.chain_append] at h
  obtain ⟨k, hfront, hk, hforward, hstop⟩ := h
  have hchain : Span.Chain n ((front ++ [last]).map span) last.span.stop.offset := by
    rw [List.map_append, Span.chain_append]
    exact ⟨k, hfront, hk, hforward, Nat.le_refl _⟩
  obtain ⟨rest, hrest⟩ := List.head?_eq_some_iff.1 hfirst
  rw [hrest] at hchain ⊢
  obtain ⟨hstart, hchain⟩ := hchain
  exact ⟨hstart, ⟨Nat.le_refl _, hchain⟩, hstop⟩

theorem Ordered.start_lt_stop {s : Span} {ts : List Token} (h : Ordered ts)
    (hcovers : Placement.exact.covers s ts) : s.start.offset < s.stop.offset := by
  obtain ⟨n, m, hchain⟩ := h.chain
  obtain ⟨-, hchain, -⟩ := chain_covers hcovers hchain
  obtain ⟨first, last, hfirst, hlast, rfl⟩ := hcovers
  obtain ⟨rest, rfl⟩ := List.head?_eq_some_iff.1 hfirst
  have hnonempty := h.nonempty first (List.mem_cons_self ..)
  obtain ⟨-, -, hrest⟩ := hchain
  exact Nat.lt_of_lt_of_le hnonempty hrest.le

end Token

/-- Wherever the tokens stand in order, so do the parts. -/
def Part.Fill (ts : List Token) (parts : List Part) : Prop :=
  ∀ n m, Span.Chain n (ts.map Token.span) m → Span.Chain n (parts.map Part.span) m

namespace Part.Fill

theorem nil (ts : List Token) : Fill ts [] := fun _ _ h => h.le

theorem append {ts us : List Token} {parts parts' : List Part} (h : Fill ts parts)
    (h' : Fill us parts') : Fill (ts ++ us) (parts ++ parts') := by
  intro n m hchain
  rw [List.map_append, Span.chain_append] at hchain ⊢
  obtain ⟨k, hts, hus⟩ := hchain
  exact ⟨k, h n k hts, h' k m hus⟩

theorem covers {ts : List Token} {part : Part} (h : Placement.exact.covers part.span ts) :
    Fill ts [part] := by
  intro n m hchain
  obtain ⟨hstart, htight, hstop⟩ := Token.chain_covers h hchain
  exact ⟨hstart, htight.le, hstop⟩

/-- Behind a part that covers tokens there is place for an empty one. -/
theorem behind {ts : List Token} {front part : Part} (h : Placement.exact.covers front.span ts)
    (hpart : front.span.Behind ts part.span) : Fill ts [front, part] := by
  intro n m hchain
  obtain ⟨hstart, htight, hstop⟩ := Token.chain_covers h hchain
  refine ⟨hstart, htight.le, ?_⟩
  show _ ∧ _ ∧ _
  rw [hpart.start, hpart.stop]
  exact ⟨Nat.le_refl _, Nat.le_refl _, hstop⟩

end Part.Fill

/-- The empty span behind tokens stands behind what covers them. -/
theorem Span.Behind.of_exact {ts : List Token} {front s : Span}
    (hcovers : Placement.exact.covers front ts) (hbehind : Placement.exact.behind s ts) :
    front.Behind ts s := by
  obtain ⟨first, last, -, hlast, rfl⟩ := hcovers
  obtain ⟨last', hlast', rfl⟩ := hbehind
  obtain rfl : last = last' := Option.some.inj (hlast.symm.trans hlast')
  exact ⟨rfl, rfl, last, List.mem_of_getLast? hlast, rfl⟩

/-- Parts that are spelled by tokens, each by some of them. -/
structure Part.Lay (ts : List Token) (parts : List Part) : Prop where
  fill : Fill ts parts
  sound : Token.Ordered ts → ∀ part ∈ parts, part.span.Whole ts ∧ part.Laid ts

/-- A part that is spelled by tokens, all of them. -/
structure Part.Solid (ts : List Token) (part : Part) : Prop where
  extent : Placement.exact.covers part.span ts
  fill : Fill ts part.children
  sound : Token.Ordered ts → ∀ child ∈ part.children,
    (child.span.Whole ts ∨ part.Implied ts child) ∧ child.Laid ts
  braced : ∀ span stmnts value, part = .expr (.block span stmnts value) → Expr.Braced ts value

namespace Part

variable {ts us : List Token} {parts parts' : List Part} {part : Part}

theorem Lay.nil (ts : List Token) : Lay ts [] := ⟨.nil ts, by simp⟩

theorem Lay.append (h : Lay ts parts) (h' : Lay us parts') : Lay (ts ++ us) (parts ++ parts') := by
  refine ⟨h.fill.append h'.fill, fun hordered part hpart => ?_⟩
  have hleft : ts <:+: ts ++ us := (List.prefix_append ts us).isInfix
  have hright : us <:+: ts ++ us := (List.suffix_append ts us).isInfix
  rcases List.mem_append.1 hpart with hpart | hpart
  · obtain ⟨hwhole, hlaid⟩ := h.sound (hordered.of_infix hleft) part hpart
    exact ⟨hwhole.mono hleft, hlaid.mono hleft⟩
  · obtain ⟨hwhole, hlaid⟩ := h'.sound (hordered.of_infix hright) part hpart
    exact ⟨hwhole.mono hright, hlaid.mono hright⟩

/-- Tokens around parts need not be theirs. -/
theorem Lay.cons (t : Token) (h : Lay ts parts) : Lay (t :: ts) parts := (Lay.nil [t]).append h

theorem Lay.snoc (t : Token) (h : Lay ts parts) : Lay (ts ++ [t]) parts := by
  have hall := h.append (Lay.nil [t])
  rwa [List.append_nil] at hall

theorem Solid.of_lay (extent : Placement.exact.covers part.span ts) (h : Lay ts part.children)
    (hblock : ∀ span stmnts value, part ≠ .expr (.block span stmnts value) := by simp) :
    Solid ts part where
  extent := extent
  fill := h.fill
  sound hordered child hchild := (h.sound hordered child hchild).imp_left .inl
  braced span stmnts value hpart := absurd hpart (hblock span stmnts value)

/-- A part is placed around its children. -/
theorem Solid.laid (h : Solid ts part) (hordered : Token.Ordered ts) : part.Laid ts := by
  obtain ⟨n, m, hchain⟩ := hordered.chain
  obtain ⟨-, htight, -⟩ := Token.chain_covers h.extent hchain
  have hchildren := h.fill _ _ htight
  refine Placed.laid ⟨fun child hchild => ?_, ?_, fun child hchild => ?_, ?_⟩ fun child hchild => ?_
  · exact hchildren.mem _ (List.mem_map_of_mem hchild)
  · exact List.pairwise_map.1 hchildren.pairwise
  · exact (h.sound hordered child hchild).1
  · rintro span stmnts value rfl -
    exact ⟨ts, List.infix_rfl, h.extent, h.braced span stmnts value rfl⟩
  · exact (h.sound hordered child hchild).2

theorem Solid.lay (h : Solid ts part) : Lay ts [part] := by
  refine ⟨.covers h.extent, fun hordered other hother => ?_⟩
  obtain rfl := List.mem_singleton.1 hother
  exact ⟨⟨ts, List.infix_rfl, h.extent⟩, h.laid hordered⟩

theorem Solid.leaf (extent : Placement.exact.covers part.span ts) (h : part.children = [])
    (hblock : ∀ span stmnts value, part ≠ .expr (.block span stmnts value) := by simp) :
    Solid ts part := .of_lay extent (h ▸ .nil ts) hblock

/-- Parentheses widen the span of what they enclose. -/
theorem Solid.grouped {span : Span} {e : Expr} {t u : Token} (h : Solid ts (.expr e))
    (opens : t.kind = .lParen) (closes : u.kind = .rParen)
    (extent : Placement.exact.covers span (t :: (ts ++ [u]))) :
    Solid (t :: (ts ++ [u])) (.expr (e.withSpan span)) := by
  have hin : ts <:+: t :: (ts ++ [u]) := ⟨[t], [u], rfl⟩
  have hspan : (e.withSpan span).span = span := by cases e <;> rfl
  refine ⟨?_, ?_, fun hordered child hchild => ?_, fun span' stmnts value hpart => ?_⟩
  · rw [Part.span, hspan]
    exact extent
  · have hfill := ((Fill.nil [t]).append h.fill).append (Fill.nil [u])
    rw [List.append_nil] at hfill
    rw [children, Expr.parts_withSpan]
    exact hfill
  · rw [children, Expr.parts_withSpan] at hchild
    obtain ⟨hwritten, hlaid⟩ := h.sound (hordered.of_infix hin) child hchild
    refine ⟨?_, hlaid.mono hin⟩
    rcases hwritten with hwhole | himplied
    · exact .inl (hwhole.mono hin)
    · right
      cases himplied.mono hin with
      | alternative hs => exact .alternative hs
      | codomain hs => exact .codomain hs
      | bottom hs => exact .bottom hs
      | alternativeValue hs =>
        -- What covers tokens is not empty.
        have hlt := (hordered.of_infix hin).start_lt_stop h.extent
        have heq := congrArg Place.offset hs.start
        exact absurd heq (Nat.ne_of_lt hlt)
  · cases e
    case block inner stmnts' value' =>
      obtain ⟨lefts, inner, rights, opening, closing, rfl, hlefts, ho, hc, hrights, hvalue⟩ :=
        h.braced _ _ _ rfl
      cases hpart
      refine ⟨t :: lefts, inner, rights ++ [u], opening, closing, by simp, ?_, ho, hc, ?_, hvalue⟩
      · simpa [opens] using hlefts
      · intro token htoken
        rcases List.mem_append.1 htoken with htoken | htoken
        · exact hrights token htoken
        · rw [List.mem_singleton.1 htoken]
          exact closes
    all_goals cases hpart

/-- What the source leaves out has no parts of its own, but for the value of a block. -/
theorem laid_leaf (h : part.children = [])
    (hblock : ∀ span stmnts value, part ≠ .expr (.block span stmnts value) := by simp) :
    part.Laid ts := by
  refine Placed.laid ⟨?_, ?_, ?_, fun span stmnts value hpart => ?_⟩ ?_
  · simp [h]
  · simp [h]
  · simp [h]
  · exact absurd hpart (hblock span stmnts value)
  · simp [h]

theorem laid_emptyBlock {front s : Span} (h : front.Behind ts s) :
    Part.Laid ts (.expr (.emptyBlock s)) := by
  have hempty : s.start = s.stop := h.start.trans h.stop.symm
  have hbehind : s.Behind ts s := ⟨hempty, rfl, by rw [h.stop]; exact h.token⟩
  have hchild : ∀ child ∈ (Part.expr (.emptyBlock s)).children, child = .expr (.emptyTuple s) := by
    simp [children, Expr.emptyBlock, Expr.parts]
  have hoffset : s.start.offset = s.stop.offset := congrArg Place.offset hempty
  refine Placed.laid ⟨fun child hc => ?_, ?_, fun child hc => ?_, fun _ _ _ hpart hspan => ?_⟩
    fun child hc => ?_
  · rw [hchild child hc]
    exact ⟨Nat.le_refl _, Nat.le_of_eq hoffset, Nat.le_refl _⟩
  · simp [children, Expr.emptyBlock, Expr.parts]
  · rw [hchild child hc]
    exact .inr (.alternativeValue hbehind)
  · cases hpart
    omega
  · rw [hchild child hc]
    exact laid_leaf rfl (by simp [Expr.emptyTuple])

/-- A part with one child that the source leaves out, directly behind a written one. -/
theorem Solid.of_behind {front : Part} {ts rest : List Token} (lead : List Token)
    (before : List Part) (left : Part) (after : List Part)
    (extent : Placement.exact.covers part.span (lead ++ (ts ++ rest)))
    (hbefore : Lay lead before) (hfront : Solid ts front) (hbehind : front.span.Behind ts left.span)
    (hafter : Lay rest after) (hchildren : part.children = before ++ ([front, left] ++ after))
    (himplied : ∀ tokens, front.span.Behind tokens left.span → part.Implied tokens left)
    (hlaid : ∀ tokens, front.span.Behind tokens left.span → left.Laid tokens)
    (hblock : ∀ span stmnts value, part ≠ .expr (.block span stmnts value) := by simp) :
    Solid (lead ++ (ts ++ rest)) part := by
  have hin : ts <:+: lead ++ (ts ++ rest) := ⟨lead, rest, by simp⟩
  have hmiddle : Fill ts [front, left] := .behind hfront.extent hbehind
  have hwritten : Lay (lead ++ (ts ++ rest)) (before ++ ([front] ++ after)) :=
    hbefore.append (hfront.lay.append hafter)
  refine ⟨extent, ?_, fun hordered child hchild => ?_, fun _ _ _ hpart => absurd hpart (hblock _ _ _)⟩
  · rw [hchildren]
    exact hbefore.fill.append (hmiddle.append hafter.fill)
  · by_cases hleft : child = left
    · subst hleft
      exact ⟨.inr (himplied _ (hbehind.mono hin)), hlaid _ (hbehind.mono hin)⟩
    · have hmem : child ∈ before ++ ([front] ++ after) := by
        rw [hchildren] at hchild
        simpa [hleft] using hchild
      exact (hwritten.sound hordered child hmem).imp_left .inl

end Part

/-- How a phrase is spelled by its tokens: a part by all of them, several parts each by some. -/
def Phrase.Covered (ts : List Token) : Phrase → Prop
  | .expr _ _ e | .operand _ e | .parens e | .block e | .branch e | .form e | .stmntExpr e =>
    Part.Solid ts (.expr e)
  | .elems es separated => Part.Lay ts (es.map fun elem => .expr elem.expr) ∧
    (separated = false → ∀ e, es = [⟨none, e⟩] → Part.Solid ts (.expr e))
  | .elem e => Part.Lay ts [.expr e.expr] ∧ (e.id = none → Part.Solid ts (.expr e.expr))
  | .sigmaElems ps | .ptrns _ ps => Part.Lay ts (ps.map .ptrn)
  | .sigmaElem p | .ptrn _ _ p => Part.Solid ts (.ptrn p)
  | .ascription _ ty => Part.Lay ts (ty.toList.map .expr)
  | .codomain ds c => Part.Lay ts [.expr c] ∨
    ts = [] ∧ ∃ s, c = .unknown s ∧ Placement.exact.behind s ds
  | .otherwise ys e => Part.Lay ts [.expr e] ∨
    ts = [] ∧ ∃ s, e = .emptyBlock s ∧ Placement.exact.behind s ys
  | .function d c b => ∀ lead span, Placement.exact.covers span (lead ++ ts) →
    Part.Solid (lead ++ ts) (.expr (.lambda span d c b))
  | .body close ss value => Part.Lay (ts ++ [close]) (ss.map .stmnt ++ [.expr value]) ∧
    (value.span.Whole ts ∨ ∃ s, value = .emptyTuple s ∧ Placement.exact.covers s [close])
  | .arms as => Part.Lay ts (as.map .arm)
  | .binding s => Part.Solid ts (.stmnt s)
  | .stmnts ss => Part.Lay ts (ss.map .stmnt)

open ImpLang.Part in
/-- Every phrase is covered by the tokens that spell it. -/
theorem Derives.covered {names : Interner} {phrase : Phrase} {ts : List Token}
    (h : Derives names .exact phrase ts) : phrase.Covered ts := by
  induction h
  -- Expressions.
  case exprOperand ih => exact ih
  case exprPrefixed extent ih => exact Solid.of_lay extent (ih.lay.cons _)
  case exprBinary extent ih ih' => exact Solid.of_lay extent (ih.lay.append (ih'.lay.cons _))
  case name extent => exact Solid.leaf extent rfl
  case literal extent => exact Solid.leaf extent rfl
  case parens ih => exact ih
  case sigma extent ih => exact Solid.of_lay extent ((ih.snoc _).cons _)
  case operandForm ih => exact ih
  case lambda t _ _ _ extent ih => exact ih [t] _ extent
  case pi extent ih ih' => exact Solid.of_lay extent ((ih.lay.append (ih'.lay.cons _)).cons _)
  case continuation reach span inner d t ts kind domain behind extent ih =>
    have hts : t :: ts = [t] ++ (ts ++ []) := by simp
    rw [hts] at extent ⊢
    exact Solid.of_behind [t] [] (.expr (.bottom inner)) [] extent (.nil _)
      ih (.of_exact ih.extent behind) (.nil _) rfl (fun _ hs => .bottom hs)
      (fun _ _ => laid_leaf rfl)
  case pack extent ih ih' =>
    exact Solid.of_lay extent ((ih.lay.append ((ih'.lay.snoc _).cons _)).cons _)
  case variadic extent ih ih' =>
    exact Solid.of_lay extent ((ih.lay.append ((ih'.lay.snoc _).cons _)).cons _)
  case qualifier extent => exact Solid.leaf extent rfl
  case bottom extent => exact Solid.leaf extent rfl
  case unknown extent => exact Solid.leaf extent rfl
  case postfixed extent ih => exact Solid.of_lay extent (ih.lay.snoc _)
  case app extent ih ih' => exact Solid.of_lay extent (ih.lay.append ih'.lay)
  case appCps extent ih ih' => exact Solid.of_lay extent (ih.lay.append (ih'.lay.cons _))
  case field extent ih => exact Solid.of_lay extent (ih.lay.append (.nil _))
  case grouped opens elems closes extent ih => exact (ih.2 rfl _ rfl).grouped opens closes extent
  case tuple extent ih => exact Solid.of_lay extent ((ih.1.snoc _).cons _)
  case elemsNil => exact ⟨.nil _, by simp⟩
  case elemsOne ih =>
    refine ⟨ih.1, fun _ e he => ?_⟩
    cases he
    exact ih.2 rfl
  case elemsCons ih ih' => exact ⟨ih.1.append (ih'.1.cons _), by simp⟩
  case elemNamed ih => exact ⟨(ih.lay.cons _).cons _, by simp⟩
  case elemPlain ih => exact ⟨ih.lay, fun _ => ih⟩
  case sigmaElemsNil => exact Lay.nil _
  case sigmaElemsOne ih => exact ih.lay
  case sigmaElemsCons ih ih' => exact ih.lay.append (ih'.cons _)
  case sigmaElemNamed extent ih => exact Solid.of_lay extent ((ih.lay.cons _).cons _)
  case sigmaElemPlain ih => exact Solid.of_lay ih.extent ih.lay
  -- Patterns.
  case ptrnName extent ih => exact Solid.of_lay extent (ih.cons _)
  case ptrnTuple extent ih ih' => exact Solid.of_lay extent ((ih.append (ih'.cons _)).cons _)
  case ptrnsNil => exact Lay.nil _
  case ptrnsOne ih => exact ih.lay
  case ptrnsCons ih ih' => exact ih.lay.append (ih'.cons _)
  case ascriptionNone => exact Lay.nil _
  case ascriptionSome ih => exact ih.lay.cons _
  -- Functions.
  case codomainOpen behind => exact .inr ⟨rfl, _, rfl, behind⟩
  case codomainWritten ih => exact .inl (ih.lay.cons _)
  case function d c b ds cs bs _ _ _ ih ih' ih'' =>
    intro lead span extent
    rcases ih' with hwritten | ⟨rfl, s, rfl, hbehind⟩
    · exact Solid.of_lay extent ((Lay.nil lead).append (ih.lay.append (hwritten.append ih''.lay)))
    · exact Solid.of_behind lead [] (.expr (.unknown s)) [.expr b] extent (.nil _) ih
        (.of_exact ih.extent hbehind) ih''.lay rfl (fun _ hs => .codomain hs)
        (fun _ _ => laid_leaf rfl)
  -- Forms that end in a block.
  case formBlock ih => exact ih
  case formBranch ih => exact ih
  case formSelect extent ih ih' =>
    exact Solid.of_lay extent ((ih.lay.append ((ih'.snoc _).cons _)).cons _)
  case formFor extent ih ih' ih'' =>
    exact Solid.of_lay extent ((ih.lay.append ((ih'.lay.append ih''.lay).cons _)).cons _)
  case formWhile extent ih ih' => exact Solid.of_lay extent ((ih.lay.append ih'.lay).cons _)
  case branch span c y n t ts us vs _ _ _ _ extent ih ih' ih'' =>
    rcases ih'' with hwritten | ⟨rfl, s, rfl, hbehind⟩
    · exact Solid.of_lay extent ((ih.lay.append (ih'.lay.append hwritten)).cons _)
    · exact Solid.of_behind (t :: ts) [.expr c] (.expr (.emptyBlock s)) [] extent (ih.lay.cons _) ih'
        (.of_exact ih'.extent hbehind)
        (.nil _) rfl (fun _ hs => .alternative hs) (fun _ hs => laid_emptyBlock hs)
  case otherwiseNone behind => exact .inr ⟨rfl, _, rfl, behind⟩
  case otherwiseBranch ih => exact .inl (ih.lay.cons _)
  case otherwiseBlock ih => exact .inl (ih.lay.cons _)
  case armsNil => exact Lay.nil _
  case armsCons span p e as t ts us separator vs _ _ _ extent _ _ ih ih' ih'' =>
    have harm : Solid (ts ++ t :: us) (.arm ⟨span, p, e⟩) :=
      .of_lay extent (ih.lay.append (ih'.lay.cons _))
    have hts : ts ++ t :: (us ++ (separator ++ vs)) = (ts ++ t :: us) ++ (separator ++ vs) := by simp
    rw [hts]
    exact harm.lay.append ((Lay.nil separator).append ih'')
  -- Blocks.
  case block t u ts opens body closes extent ih =>
    have hlay := ih.1.cons t
    refine ⟨extent, hlay.fill, fun hordered child hchild => ?_, fun span stmnts value hpart => ?_⟩
    · exact (hlay.sound hordered child hchild).imp_left .inl
    · cases hpart
      exact ⟨[], ts, [], t, u, rfl, by simp, opens, closes, by simp, ih.2⟩
  case bodyEnd close span extent =>
    have hvalue : Solid [close] (.expr (.emptyTuple span)) :=
      .leaf extent rfl (by simp [Expr.emptyTuple])
    exact ⟨hvalue.lay, .inr ⟨_, rfl, extent⟩⟩
  case bodyValue ih => exact ⟨ih.lay.snoc _, .inl ⟨_, List.infix_rfl, ih.extent⟩⟩
  case bodySemi ih => exact ⟨ih.1.cons _, ih.2.imp_left (·.mono (List.suffix_cons ..).isInfix)⟩
  case bodyBinding ih ih' =>
    refine ⟨?_, ih'.2.imp_left (·.mono (List.suffix_append ..).isInfix)⟩
    rw [List.append_assoc]
    exact ih.lay.append ih'.1
  case bodyExpr close span e ss value t ts us expr semi extent rest ih ih' =>
    have hstmnt : Solid (ts ++ [t]) (.stmnt (.expr span e)) := .of_lay extent (ih.lay.snoc _)
    refine ⟨?_, ih'.2.imp_left (·.mono ⟨ts ++ [t], [], by simp⟩)⟩
    have hts : ts ++ t :: us ++ [close] = (ts ++ [t]) ++ (us ++ [close]) := by simp
    rw [hts]
    exact hstmnt.lay.append ih'.1
  case bodyForm close e ss value ts us _ _ _ _ _ _ ih ih' =>
    have hstmnt : Solid ts (.stmnt (.expr e.span e)) := .of_lay ih.extent ih.lay
    refine ⟨?_, ih'.2.imp_left (·.mono (List.suffix_append ..).isInfix)⟩
    rw [List.append_assoc]
    exact hstmnt.lay.append ih'.1
  -- Statements.
  case stmntForm ih => exact ih
  case stmntPlain ih => exact ih
  case bindLet extent ih ih' =>
    exact Solid.of_lay extent ((ih.lay.append ((ih'.lay.snoc _).cons _)).cons _)
  case bindDef span id e decl t u v w us _ _ _ _ _ extent ih =>
    have hitem : Solid (t :: u :: v :: (us ++ [w])) (.item ⟨span, id, e, decl, .unset⟩) :=
      .of_lay extent ((((ih.lay.snoc _).cons _).cons _).cons _)
    exact Solid.of_lay extent hitem.lay
  case bindFn span inner id d c b decl t u ts _ _ _ innerExtent extent ih =>
    have hvalue : Solid ts (.expr (.lambda inner d c b)) := ih [] inner innerExtent
    have hitem : Solid (t :: u :: ts) (.item ⟨span, id, .lambda inner d c b, decl, .unset⟩) :=
      .of_lay extent ((hvalue.lay.cons _).cons _)
    exact Solid.of_lay extent hitem.lay
  case stmntsNil => exact Lay.nil _
  case stmntsSemi ih => exact Lay.cons _ ih
  case stmntsBinding ih ih' => exact ih.lay.append ih'
  case stmntsExpr span e ss t ts us _ _ extent _ ih ih' =>
    have hstmnt : Solid (ts ++ [t]) (.stmnt (.expr span e)) := .of_lay extent (ih.lay.snoc _)
    have hts : ts ++ t :: us = (ts ++ [t]) ++ us := by simp
    rw [hts]
    exact hstmnt.lay.append ih'
  case stmntsForm span e ss ts us _ _ _ _ extent _ ih ih' =>
    have hstmnt : Solid ts (.stmnt (.expr span e)) := .of_lay extent ih.lay
    exact hstmnt.lay.append ih'

/-- In front of the end of a file tokens stand in order. -/
theorem Stream.ordered {n : Nat} {ts : List Token} {eof : Token} (h : Stream n (ts ++ [eof])) :
    Span.Chain n (ts.map Token.span) eof.span.start.offset ∧ Token.Ordered ts := by
  have hchain : Span.Chain n (ts.map Token.span) eof.span.start.offset ∧
      ∀ token ∈ ts, token.span.start.offset < token.span.stop.offset := by
    induction ts generalizing n with
    | nil => exact ⟨h.start, by simp⟩
    | cons token ts ih =>
      obtain ⟨-, -, hstart, hstop, hrest⟩ := h.uncons (by simp)
      obtain ⟨hchain, hnonempty⟩ := ih hrest
      refine ⟨⟨hstart, Nat.le_of_lt hstop, hchain⟩, ?_⟩
      intro other hother
      rcases List.mem_cons.1 hother with rfl | hother
      · exact hstop
      · exact hnonempty other hother
  exact ⟨hchain.1, ⟨_, _, hchain.1⟩, hchain.2⟩

/-- The end of a file is an empty token. -/
theorem Token.eof_empty {file : FileId} {source : String} {ts : List Token} {eof : Token}
    (h : (Token.lex file source).map Lexed.token = ts ++ [eof]) : eof.span.start = eof.span.stop := by
  obtain ⟨opening, htiles, -⟩ := Token.tiles_lexFrom file _ Place.first source.toList
    (Nat.lt_succ_self _)
  obtain ⟨before, last, htokens, -, -, hspan⟩ := htiles.last
  obtain ⟨-, hlast⟩ := List.append_inj' (htokens.symm.trans h) rfl
  obtain rfl : last = eof := List.singleton_inj.1 hlast
  rw [hspan]

theorem Span.stop_le_cover (a b : Span) : b.stop.offset ≤ (a.cover b).stop.offset := by
  simp only [cover]
  split
  · exact Nat.le_refl _
  · next h => exact Nat.le_of_not_lt h

theorem Span.start_cover_origin (file : FileId) (s : Span) :
    ((Span.origin file).cover s).start = Place.first := by
  simp [cover, origin, Place.first]

/-- The statements of a module are placed in it as the tokens of its source are. -/
theorem Module.parse_laid (file : FileId) (source : String) (names : Interner)
    (h : (Module.parse file source names).reports = #[]) :
    ∃ ts eof, (Token.lex file source).map Lexed.token = ts ++ [eof] ∧ eof.kind = .eof ∧
      (Part.module (Module.parse file source names).result).Laid ts := by
  obtain ⟨ts, eof, htokens, heof, hspan, hderives⟩ := Module.parse_covers file source names h
  have hstream := Token.stream_lexFrom file _ Place.first source.toList (Nat.lt_succ_self _)
  change Stream _ ((Token.lex file source).map Lexed.token) at hstream
  have hempty := congrArg Place.offset (Token.eof_empty htokens)
  rw [htokens] at hstream
  obtain ⟨hchain, hordered⟩ := hstream.ordered
  have hlay : Part.Lay ts ((Module.parse file source names).result.stmnts.map .stmnt) :=
    hderives.covered
  have hchildren := hlay.fill _ _ hchain
  have hstart := Span.start_cover_origin file eof.span
  have hstop := Span.stop_le_cover (Span.origin file) eof.span
  rw [← hspan] at hstart hstop
  refine ⟨ts, eof, htokens, heof, Part.Placed.laid ⟨fun child hchild => ?_, ?_, fun child hchild =>
    ?_, fun _ _ _ hpart => ?_⟩ fun child hchild => ?_⟩
  · obtain ⟨hlow, hmid, hhigh⟩ := hchildren.mem _ (List.mem_map_of_mem hchild)
    refine ⟨?_, hmid, ?_⟩
    · show (Module.parse file source names).result.span.start.offset ≤ _
      rw [hstart]
      exact Nat.zero_le _
    · show _ ≤ (Module.parse file source names).result.span.stop.offset
      omega
  · exact List.pairwise_map.1 hchildren.pairwise
  · exact .inl (hlay.sound hordered child hchild).1
  · cases hpart
  · exact (hlay.sound hordered child hchild).2

namespace Compiler

/-- In what is read from a source without a report every part stands in the one around it, beside
the others there in the order of the source, and covers whole tokens unless the source leaves it
out. -/
theorem parseSource_placed (c : Compiler) (name source : String)
    (h : (c.parseSource name source).2.diagnostics = c.diagnostics) :
    ∃ ts eof,
      (Token.lex (c.parseSource name source).1.file source).map Lexed.token = ts ++ [eof] ∧
      eof.kind = .eof ∧
      ∀ part, (Part.module (c.parseSource name source).1).Has part → part.Placed ts := by
  rw [diagnostics_parseSource] at h
  rw [result_parseSource]
  exact Module.parse_laid ⟨c.files.size⟩ source c.names (Array.append_right_eq_self.1 h)

/-- With parentheses that are dropped, a branch without alternative, a function without result type,
a type of continuations and a block without value. -/
theorem parseSource_placed_fn :
    let source := "fn f (x: cn int) { if (x) { x; } } let (a, b): [c: t, u] = 1 + f(2) * 3;"
    (new.parseSource "a" source).2.diagnostics = new.diagnostics ∧
      ∃ ts eof,
        (Token.lex (new.parseSource "a" source).1.file source).map Lexed.token = ts ++ [eof] ∧
        eof.kind = .eof ∧
        ∀ part, (Part.module (new.parseSource "a" source).1).Has part → part.Placed ts := by
  intro source
  have h : (new.parseSource "a" source).2.diagnostics = new.diagnostics := by decide +kernel
  exact ⟨h, parseSource_placed new "a" source h⟩

end Compiler

end ImpLang
