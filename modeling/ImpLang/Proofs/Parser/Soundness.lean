import ImpLang.Proofs.Parser.Faultless
import ImpLang.Proofs.Parser.Runs

/-!
Every production gives a result if enough nested calls are left, and what it gives is spelled by the
tokens it consumed unless something is reported.

A call counts against the tokens ahead: four calls for each, and as many more as can follow each
other before one of them consumes a token.
-/

namespace ImpLang

namespace Parser

variable (names : Interner)

/-- Tokens are consumed, and they spell a phrase unless something is reported. -/
structure Reads (s : State) (phrase : Phrase) (ts : List Token) (t : State) : Prop where
  steps : Steps s ts t
  derives : t.Clean names → Derives names .exact phrase ts

/-- The tokens consumed up to a state spell a phrase unless something is reported. -/
abbrev Spelled {α : Type} (phrase : α → Phrase) (a : α) (ts : List Token) (t : State) : Prop :=
  t.Clean names → Derives names .exact (phrase a) ts

/-- The tokens consumed up to a closing brace spell the inside of a block unless something is
reported. -/
abbrev BodySpelled (body : List Stmnt × Expr) (ts : List Token) (t : State) : Prop :=
  t.Clean names → t.kind = .rBrace → Derives names .exact (.body t.here body.1 body.2) ts

/-- The tokens consumed up to the end of the file spell statements unless something is reported. -/
abbrev EndSpelled (ss : List Stmnt) (ts : List Token) (t : State) : Prop :=
  t.kind = .eof ∧ (t.Clean names → Derives names .exact (.stmnts ss) ts)

variable {names} in
theorem reads_loop {α : Type} {phrase : α → Phrase} {round : Parser (Turn α)} {rest : Parser α}
    {s : State} (hs : s.Ok)
    (hround : Runs round s fun turn t => ∃ ts, Turned (Spelled names phrase) s turn ts t)
    (hrest : ∀ t, t.Ok → t.left < s.left → Runs rest t fun a u => ∃ us, Reads names t (phrase a) us u) :
    Runs (loop round rest) s fun a u => ∃ us, Reads names s (phrase a) us u := by
  have hloop := runs_loop hs hround fun t ht hleft =>
    (hrest t ht hleft).mono fun a u ⟨us, hus⟩ => ⟨us, hus.steps, hus.derives⟩
  exact hloop.mono fun a u ⟨us, hu, ha⟩ => ⟨us, hu, ha⟩

/-- No operator in front that binds strongly enough, nor anything else that continues an operand. -/
abbrev State.Stops (s : State) (min : Prec) : Prop := ImpLang.Stops min s.kind s.nextKind

/-- What is in front does not belong to a phrase of some reach. -/
def State.Leaves (s : State) (reach : Prec) : Prop := reach = .postfixed ∨ s.Stops reach

/-- What is read so far of an expression: an operand, or operands joined by operators such that
every operator that may follow takes all of it for its left operand. -/
def Ready (s : State) (min : Prec) (left : Expr) (ts : List Token) : Prop :=
  Derives names .exact (.operand .postfixed left) ts ∨
    ∃ level reach bound, Derives names .exact (.expr level reach left) ts ∧ min ≤ level ∧
      s.Stops reach ∧ s.Stops bound ∧ ∀ op : InfixOp, op.prec < bound → op.leftLevel ≤ level

/-- Tokens are consumed, and unless something is reported they spell a phrase of some reach, to
which nothing in front belongs. -/
structure ReadsTo (s : State) (phrase : Prec → Phrase) (ts : List Token) (t : State) : Prop where
  steps : Steps s ts t
  derives : t.Clean names → ∃ reach, Derives names .exact (phrase reach) ts ∧ t.Leaves reach

variable {names} in
theorem Reads.closed {s t : State} {e : Expr} {ts : List Token}
    (h : Reads names s (.operand .postfixed e) ts t) : ReadsTo names s (.operand · e) ts t :=
  ⟨h.steps, fun ht => ⟨_, h.derives ht, .inl rfl⟩⟩

theorem Steps.firstKind {s t : State} {ts : List Token} (h : Steps s ts t) (hs : s.Ok)
    (hts : ts ≠ []) : Token.firstKind ts = s.kind := by
  rw [Token.firstKind, h.head hs hts]
  rfl

/-- Where nothing in front continues an operand, the tokens consumed next stand apart. -/
theorem Steps.apart {s t : State} {ts : List Token} (h : Steps s ts t) (hs : s.Ok)
    (hstops : s.Stops .bottom) : Token.Apart ts := by
  have hlone : ∀ kind : TokenKind, Stops .bottom kind s.nextKind → Stops .bottom kind .eof :=
    fun _ h => ⟨h.postfixOp, h.call, by simp, h.field, h.infixOp⟩
  match ts with
  | [] => exact ⟨rfl, by simp [Token.firstKind], by simp [Token.firstKind],
      by simp [Token.firstKind], by simp [Token.firstKind, TokenKind.infixOp?]⟩
  | [first] =>
    rw [Token.Apart, h.firstKind hs (List.cons_ne_nil _ _)]
    exact hlone _ hstops
  | first :: second :: rest =>
    obtain ⟨hfirst, hsecond⟩ := h.second hs
    show Stops .bottom first.kind second.kind
    rw [hfirst, hsecond]
    exact hstops

theorem State.Stops.mono {s : State} {p q : Prec} (h : s.Stops p) (hle : p ≤ q) : s.Stops q :=
  ⟨h.postfixOp, h.call, h.callCps, h.field, fun op hop => Nat.lt_of_lt_of_le (h.infixOp op hop) hle⟩

theorem State.Leaves.stops {s : State} {reach min : Prec} (h : s.Leaves reach)
    (hstops : s.Stops min) : s.Stops reach := by
  rcases h with rfl | h
  · exact hstops.mono (Prec.le_postfixed min)
  · exact h

variable {names} in
/-- An operand is ready to be continued. One with a reach is continued by operators only. -/
theorem ready_of_operand {s t : State} {min : Prec} {e : Expr} {ts : List Token}
    (h : ReadsTo names s (.operand · e) ts t) (ht : t.Clean names) : Ready names t min e ts := by
  obtain ⟨reach, hderives, hleaves⟩ := h.derives ht
  rcases hleaves with rfl | hstops
  · exact .inl hderives
  · exact .inr ⟨.postfixed, reach, .postfixed, .exprOperand hderives, Prec.le_postfixed min, hstops,
      hstops.mono (Prec.le_postfixed reach), fun op _ => Prec.le_postfixed _⟩

/-- What is known of productions that have a number of nested calls left. -/
structure Rules.Sound (r : Rules) (calls : Nat) : Prop where
  expr : ∀ min construct (s : State), s.Ok → 4 * s.left + 2 ≤ calls →
    Runs (r.expr min construct) s fun e t => ∃ ts, ReadsTo names s (.expr min · e) ts t ∧
      (t.Clean names → t.Stops min) ∧ (s.kind.startsExpr = true → ts ≠ [])
  operators : ∀ start min left (o s : State) (ts : List Token), o.Ok → Steps o ts s → ts ≠ [] →
    o.here.span = start → (s.Clean names → Ready names s min left ts) →
    4 * s.left + 1 ≤ calls →
    Runs (r.operators start min left) s fun e t => ∃ us, ReadsTo names o (.expr min · e) us t ∧
      (t.Clean names → t.Stops min) ∧ us ≠ []
  ptrn : ∀ typed construct (s : State), s.Ok → 4 * s.left + 1 ≤ calls →
    Runs (r.ptrn typed construct) s fun p t => ∃ ts, ReadsTo names s (.ptrn typed · p) ts t
  ptrnElems : ∀ typed (s : State), s.Ok → 4 * s.left + 2 ≤ calls →
    Runs (r.ptrnElems typed) s fun ps t => ∃ ts, Reads names s (.ptrns typed ps) ts t
  tupleElems : ∀ s : State, s.Ok → 4 * s.left + 3 ≤ calls →
    Runs r.tupleElems s fun es t => ∃ ts, Reads names s (.elems es.1 es.2) ts t
  sigmaElems : ∀ s : State, s.Ok → 4 * s.left + 3 ≤ calls →
    Runs r.sigmaElems s fun ps t => ∃ ts, Reads names s (.sigmaElems ps) ts t
  block : ∀ construct (s : State), s.Ok → 4 * s.left + 1 ≤ calls →
    Runs (r.block construct) s fun e t => ∃ ts, Reads names s (.block e) ts t ∧
      (s.kind = .lBrace → ts ≠ [])
  blockBody : ∀ s : State, s.Ok → 4 * s.left + 3 ≤ calls →
    Runs r.blockBody s fun body t => ∃ ts, Steps s ts t ∧
      (t.Clean names → t.kind = .rBrace →
        Derives names .exact (.body t.here body.1 body.2) ts)
  branch : ∀ s : State, s.Ok → 4 * s.left + 1 ≤ calls → s.kind = .kwIf →
    Runs r.branch s fun e t => ∃ ts, Reads names s (.branch e) ts t ∧ ts ≠ []
  arms : ∀ s : State, s.Ok → 4 * s.left + 3 ≤ calls →
    Runs r.arms s fun arms t => ∃ ts, Reads names s (.arms arms) ts t

variable {names} {calls : Nat} {r : Rules} {s : State}

/-! ## Patterns -/

section Patterns

variable (hr : r.Sound names calls) (hs : s.Ok)

include hr hs

theorem runs_ascription (hcalls : 4 * s.left ≤ calls + 2) :
    Runs (ascription r) s fun ty t => ∃ ts, ReadsTo names s (.ascription · ty) ts t := by
  refine (runs_accept .colon (by simp)).bind fun accepted t h => ?_
  rcases h with ⟨rfl, hk, h⟩ | ⟨rfl, -, rfl⟩
  · have hleft := h.left hs
    rw [List.length_singleton] at hleft
    refine (hr.expr .orOr _ t (h.ok hs) (by omega)).bind fun ty u ⟨ts, hty, hstops, _⟩ =>
      .pure ⟨_, h.trans hty.steps, fun hu => ?_⟩
    obtain ⟨reach, hderives, hleaves⟩ := hty.derives hu
    -- The reach of the whole is the lesser of that of the type and the level of types.
    by_cases hle : reach ≤ .orOr
    · exact ⟨reach, .ascriptionSome hk hderives (Prec.le_refl _) hle, hleaves⟩
    · exact ⟨.orOr, .ascriptionSome hk hderives (Nat.le_of_not_le hle) (Prec.le_refl _),
        .inr (hstops hu)⟩
  · exact .pure ⟨[], .refl _, fun _ => ⟨_, .ascriptionNone, .inl rfl⟩⟩

theorem runs_ptrn (typed : Bool) (construct : String) (hcalls : 4 * s.left ≤ calls) :
    Runs (ptrn r typed construct) s fun p t => ∃ ts, ReadsTo names s (.ptrn typed · p) ts t := by
  refine .step rfl (.step rfl ?_)
  split
  · next hk =>
    refine (runs_ident names hs construct).bind fun id t ⟨ts, h, hne, hid⟩ => .step rfl ?_
    have h := h.declared id .binding (by simp)
    have hleft := h.left hs
    rw [hne hk, List.length_singleton] at hleft
    refine (runs_ascription hr (h.ok hs) (by omega)).bind fun ty u ⟨us, hty⟩ => .step rfl ?_
    have hall := h.trans hty.steps
    refine .pure ⟨_, hall, fun hu => ?_⟩
    obtain ⟨v, rfl, hv⟩ := hid (hty.steps.clean hu).of_declare
    obtain ⟨reach, hderives, hleaves⟩ := hty.derives hu
    exact ⟨reach, .ptrnName hv hderives (hall.finish_covers hs (by simp)), hleaves⟩
  · next hk =>
    have hopen := steps_bump (s := s) (by simp [hk])
    have hleft := hopen.left hs
    rw [List.length_singleton] at hleft
    refine .step rfl ((hr.ptrnElems typed _ (hopen.ok hs) (by omega)).bind
      fun elems t ⟨ts, helems⟩ => ?_)
    have helemsOk := helems.steps.ok (hopen.ok hs)
    have hleft' := helems.steps.left (hopen.ok hs)
    refine (runs_expect names helemsOk .rParen (by simp) _).bind fun _ u ⟨us, hclose, _, _, hrParen⟩ => ?_
    have hleft'' := hclose.left helemsOk
    refine (runs_ascription hr (hclose.ok helemsOk) (by omega)).bind fun ty v ⟨vs, hty⟩ =>
      .step rfl ?_
    have hall := hopen.trans (helems.steps.trans (hclose.trans hty.steps))
    refine .pure ⟨_, hall, fun hv => ?_⟩
    have hu := hty.steps.clean hv
    obtain ⟨-, w, rfl, hw⟩ := hrParen hu
    obtain ⟨reach, hderives, hleaves⟩ := hty.derives hv
    exact ⟨reach, .ptrnTuple hk (helems.derives (hclose.clean hu)) hw hderives
      (hall.finish_covers hs (by simp)), hleaves⟩
  · refine .step rfl (.step rfl (.pure ⟨[], .complain _ _ (.refl _), fun ht => ?_⟩))
    exact absurd ht (hs.not_clean_complain _ _)

theorem runs_ptrnElemsTurn (typed : Bool) (hcalls : 4 * s.left + 1 ≤ calls) :
    Runs (ptrnElemsTurn r typed) s fun turn t => ∃ ts,
      Turned (Spelled names (.ptrns typed ·)) s turn ts t := by
  refine .step rfl ?_
  split
  · exact .pure ⟨[], .left (.refl _) fun _ => .ptrnsNil⟩
  · exact .pure ⟨[], .left (.refl _) fun _ => .ptrnsNil⟩
  · refine (hr.ptrn typed _ s hs hcalls).bind fun elem t ⟨ts, helem⟩ => ?_
    have hone : Turned (Spelled names (.ptrns typed ·)) s (.leave [elem]) ts t := by
      refine .left helem.steps fun ht => ?_
      obtain ⟨reach, hderives, -⟩ := helem.derives ht
      exact .ptrnsOne hderives
    split
    · exact .pure ⟨ts, hone⟩
    · refine runs_acceptSeparator.bind fun accepted u h => ?_
      rcases h with ⟨rfl, hk, h⟩ | ⟨rfl, rfl⟩
      · refine .pure ⟨_, .on (helem.steps.trans h) (by simp) fun elems vs v hv helems hclean => ?_⟩
        have hu := hv.clean hclean
        obtain ⟨reach, hderives, -⟩ := helem.derives (h.clean hu)
        rw [List.append_assoc]
        exact .ptrnsCons hderives hk (helems hclean)
      · exact .pure ⟨ts, hone⟩

theorem runs_ptrnElems (typed : Bool) (hcalls : 4 * s.left + 1 ≤ calls) :
    Runs (ptrnElems r typed) s fun ps t => ∃ ts, Reads names s (.ptrns typed ps) ts t :=
  reads_loop hs (runs_ptrnElemsTurn hr hs typed hcalls) fun t ht hleft =>
    hr.ptrnElems typed t ht (by omega)

end Patterns

/-! ## Tuples and dependent tuples -/

theorem runs_elemName (names : Interner) (hs : s.Ok) :
    Runs elemName s fun id t => ∃ ts, Steps s ts t ∧
      (id = none ∧ ts = [] ∧ ¬ (s.kind = .identifier ∧ s.nextKind = .assign) ∨
        ∃ i, id = some i ∧ (t.Clean names → ∃ u v, ts = [u, v] ∧ u.Spells names .exact i ∧
          v.kind = .assign)) := by
  refine .step rfl (.step rfl ?_)
  split
  · next hk =>
    refine (runs_ident names hs _).bind fun id t ⟨ts, h, hident, hid⟩ => ?_
    obtain rfl := hident hk.1
    have hassign : t.kind = .assign := (h.kind_of_singleton hs).trans hk.2
    have hbump := steps_bump (s := t) (by simp [hassign])
    refine .step rfl (.pure ⟨_, h.trans hbump, .inr ⟨id, rfl, fun hu => ?_⟩⟩)
    obtain ⟨u, hu, hspells⟩ := hid (hbump.clean hu)
    obtain rfl : s.here = u := List.head_eq_of_cons_eq hu
    exact ⟨s.here, t.here, rfl, hspells, hassign⟩
  · next hk => exact .pure ⟨[], .refl _, .inl ⟨rfl, rfl, hk⟩⟩

section Tuples

variable (hr : r.Sound names calls) (hs : s.Ok)

include hr hs

theorem runs_tupleElemsTurn (hcalls : 4 * s.left + 2 ≤ calls) :
    Runs (tupleElemsTurn r) s fun turn t => ∃ ts,
      Turned (Spelled names fun es => .elems es.1 es.2) s turn ts t := by
  refine .step rfl ?_
  split
  · exact .pure ⟨[], .left (.refl _) fun _ => .elemsNil⟩
  · exact .pure ⟨[], .left (.refl _) fun _ => .elemsNil⟩
  · refine (runs_elemName names hs).bind fun id t ⟨ts, h, hid⟩ => ?_
    have hleft := h.left hs
    refine (hr.expr .bottom _ t (h.ok hs) (by omega)).bind fun e u ⟨us, he, _⟩ => ?_
    have helem : Reads names s (.elem ⟨id, e⟩) (ts ++ us) u := by
      refine ⟨h.trans he.steps, fun hu => ?_⟩
      rcases hid with ⟨rfl, rfl, hplain⟩ | ⟨i, rfl, hi⟩
      · obtain ⟨reach, hderives, -⟩ := he.derives hu
        refine .elemPlain hderives ?_
        rintro t₁ t₂ rest rfl hk₁ hk₂
        obtain ⟨h₁, h₂⟩ := (h.trans he.steps).second hs
        exact hplain ⟨h₁ ▸ hk₁, h₂ ▸ hk₂⟩
      · obtain ⟨v, w, rfl, hspells, hassign⟩ := hi (he.steps.clean hu)
        obtain ⟨reach, hderives, -⟩ := he.derives hu
        exact .elemNamed hspells hassign hderives
    have hone : Turned (Spelled names fun es => .elems es.1 es.2) s (.leave ([⟨id, e⟩], false))
        (ts ++ us) u := .left helem.steps fun hu => .elemsOne (helem.derives hu)
    split
    · exact .pure ⟨_, hone⟩
    · refine runs_acceptSeparator.bind fun accepted v h => ?_
      rcases h with ⟨rfl, hk, h⟩ | ⟨rfl, rfl⟩
      · refine .pure ⟨_, .on (helem.steps.trans h) (by simp) fun elems ws w hw helems hclean => ?_⟩
        have hv := hw.clean hclean
        rw [List.append_assoc _ [_]]
        exact .elemsCons (helem.derives (h.clean hv)) hk (helems hclean)
      · exact .pure ⟨_, hone⟩

theorem runs_tupleElems (hcalls : 4 * s.left + 2 ≤ calls) :
    Runs (tupleElems r) s fun es t => ∃ ts, Reads names s (.elems es.1 es.2) ts t :=
  reads_loop hs (runs_tupleElemsTurn hr hs hcalls) fun t ht hleft => hr.tupleElems t ht (by omega)

theorem runs_tuple (hk : s.kind = .lParen) (hcalls : 4 * s.left ≤ calls) :
    Runs (tuple r) s fun e t => ∃ ts, Reads names s (.parens e) ts t ∧ ts ≠ [] := by
  have hopen := steps_bump (s := s) (by simp [hk])
  have hleft := hopen.left hs
  rw [List.length_singleton] at hleft
  refine .step rfl (.step rfl ((hr.tupleElems _ (hopen.ok hs) (by omega)).bind
    fun (elems, separated) t ⟨ts, helems⟩ => ?_))
  refine (runs_expect names (helems.steps.ok (hopen.ok hs)) .rParen (by simp) _).bind
    fun _ u ⟨us, hclose, _, _, hrParen⟩ => .step rfl ?_
  have hall := hopen.trans (helems.steps.trans hclose)
  have hspan := hall.finish_covers hs (by simp)
  refine .pure ⟨_, ⟨hall, fun hu => ?_⟩, by simp⟩
  obtain ⟨-, v, rfl, hv⟩ := hrParen hu
  rw [grouping.eq_def]
  split
  · next hone =>
    cases hone
    exact .grouped hk (helems.derives (hclose.clean hu)) hv hspan
  · next hseveral hsame =>
    cases hsame
    refine .tuple hk (helems.derives (hclose.clean hu)) hv (fun hseparated e he => ?_) hspan
    subst he hseparated
    exact hseveral e rfl rfl

theorem runs_sigmaElem (hcalls : 4 * s.left + 2 ≤ calls) :
    Runs (sigmaElem r) s fun p t => ∃ ts, Reads names s (.sigmaElem p) ts t := by
  refine .step rfl (.step rfl (.step rfl ?_))
  split
  · next hk =>
    refine (runs_ident names hs _).bind fun id t ⟨ts, h, hident, hid⟩ => .step rfl ?_
    obtain rfl := hident hk.1
    have h' := h.declared id .binding (by simp)
    have hcolon : t.kind = .colon := (h.kind_of_singleton hs).trans hk.2
    have hbump := steps_bump (s := (t.declare id .binding).2) (fun heof => by
      rw [show (t.declare id .binding).2.kind = t.kind from rfl, hcolon] at heof
      cases heof)
    have hname := h'.trans hbump
    have hleft := hname.left hs
    refine .step rfl ((hr.expr .bottom _ _ (hname.ok hs) (by omega)).bind
      fun ty u ⟨us, hty, _⟩ => .step rfl ?_)
    have hall := hname.trans hty.steps
    refine .pure ⟨_, hall, fun hu => ?_⟩
    obtain ⟨v, hv, hspells⟩ := hid (hbump.clean (hty.steps.clean hu)).of_declare
    obtain rfl : s.here = v := List.head_eq_of_cons_eq hv
    obtain ⟨reach, hderives, -⟩ := hty.derives hu
    exact .sigmaElemNamed hspells hcolon hderives (hall.finish_covers hs (by simp))
  · next hplain =>
    refine (hr.expr .bottom _ s hs hcalls).bind fun ty t ⟨ts, hty, _⟩ =>
      .step rfl (.step rfl (.pure ⟨ts, ?_, fun hu => ?_⟩))
    · exact (hty.steps.interned _).declared _ _ (by simp)
    · have hinterned := hu.of_declare
      have ht : t.Clean names := (Steps.intern Interner.wildcard (.refl _)).clean hinterned
      obtain ⟨reach, hderives, -⟩ := hty.derives ht
      refine .sigmaElemPlain hderives ?_
        (Interner.resolve?_of_le hinterned.names (t.names.resolve?_intern Interner.wildcard))
      rintro t₁ t₂ rest rfl hk₁ hk₂
      obtain ⟨h₁, h₂⟩ := hty.steps.second hs
      exact hplain ⟨h₁ ▸ hk₁, h₂ ▸ hk₂⟩

theorem runs_sigmaElemsTurn (hcalls : 4 * s.left + 2 ≤ calls) :
    Runs (sigmaElemsTurn r) s fun turn t => ∃ ts, Turned (Spelled names .sigmaElems) s turn ts t := by
  refine .step rfl ?_
  split
  · exact .pure ⟨[], .left (.refl _) fun _ => .sigmaElemsNil⟩
  · exact .pure ⟨[], .left (.refl _) fun _ => .sigmaElemsNil⟩
  · refine (runs_sigmaElem hr hs hcalls).bind fun elem t ⟨ts, helem⟩ => ?_
    have hone : Turned (Spelled names .sigmaElems) s (.leave [elem]) ts t :=
      .left helem.steps fun ht => .sigmaElemsOne (helem.derives ht)
    split
    · exact .pure ⟨ts, hone⟩
    · refine runs_acceptSeparator.bind fun accepted u h => ?_
      rcases h with ⟨rfl, hk, h⟩ | ⟨rfl, rfl⟩
      · refine .pure ⟨_, .on (helem.steps.trans h) (by simp) fun elems vs v hv helems hclean => ?_⟩
        have hu := hv.clean hclean
        rw [List.append_assoc]
        exact .sigmaElemsCons (helem.derives (h.clean hu)) hk (helems hclean)
      · exact .pure ⟨ts, hone⟩

theorem runs_sigmaElems (hcalls : 4 * s.left + 2 ≤ calls) :
    Runs (sigmaElems r) s fun ps t => ∃ ts, Reads names s (.sigmaElems ps) ts t :=
  reads_loop hs (runs_sigmaElemsTurn hr hs hcalls) fun t ht hleft => hr.sigmaElems t ht (by omega)

theorem runs_sigma (hk : s.kind = .lBracket) (hcalls : 4 * s.left ≤ calls) :
    Runs (sigma r) s fun e t => ∃ ts, Reads names s (.operand .postfixed e) ts t ∧ ts ≠ [] := by
  have hopen := steps_bump (s := s) (by simp [hk])
  have hleft := hopen.left hs
  rw [List.length_singleton] at hleft
  refine .step rfl (.step rfl ((hr.sigmaElems _ (hopen.ok hs) (by omega)).bind
    fun elems t ⟨ts, helems⟩ => ?_))
  refine (runs_expect names (helems.steps.ok (hopen.ok hs)) .rBracket (by simp) _).bind
    fun _ u ⟨us, hclose, _, _, hrBracket⟩ => .step rfl ?_
  have hall := hopen.trans (helems.steps.trans hclose)
  refine .pure ⟨_, ⟨hall, fun hu => ?_⟩, by simp⟩
  obtain ⟨-, v, rfl, hv⟩ := hrBracket hu
  exact .sigma hk (helems.derives (hclose.clean hu)) hv (hall.finish_covers hs (by simp))

end Tuples

/-! ## Functions and their types -/

section Functions

variable (hr : r.Sound names calls) (hs : s.Ok)

include hr hs

theorem runs_codomain (construct : String) {ds : List Token}
    (hbehind : s.Clean names → Placement.exact.behind s.prev.endPoint ds)
    (hcalls : 4 * s.left ≤ calls + 2) :
    Runs (codomain r construct) s fun c t => ∃ ts, Reads names s (.codomain ds c) ts t := by
  refine (runs_accept .arrow (by simp)).bind fun accepted t h => ?_
  rcases h with ⟨rfl, hk, h⟩ | ⟨rfl, -, rfl⟩
  · have hleft := h.left hs
    rw [List.length_singleton] at hleft
    exact (hr.expr .orOr _ t (h.ok hs) (by omega)).mono fun c u ⟨ts, hc, _⟩ =>
      ⟨_, h.trans hc.steps, fun hu => by
        obtain ⟨reach, hderives, -⟩ := hc.derives hu
        exact .codomainWritten hk hderives⟩
  · exact .step rfl (.pure ⟨[], .refl _, fun ht => .codomainOpen (hbehind ht)⟩)

/-- A domain, a codomain and a body in front of what follows them. -/
theorem runs_function {β : Type} (inDomain inCodomain inBody : String)
    {f : Ptrn → Expr → Expr → Parser β} {q : β → State → Prop} (hcalls : 4 * s.left + 1 ≤ calls)
    (hf : ∀ d c b t ts, Reads names s (.function d c b) ts t → Runs (f d c b) t q) :
    Runs (do
      let d ← r.ptrn true inDomain
      let c ← codomain r inCodomain
      let b ← r.block inBody
      f d c b) s q := by
  refine (hr.ptrn true _ s hs hcalls).bind fun d t ⟨ds, hd⟩ => ?_
  have ht := hd.steps.ok hs
  have hleft := hd.steps.left hs
  have hbehind : t.Clean names → Placement.exact.behind t.prev.endPoint ds := by
    intro hclean
    obtain ⟨reach, hderives, -⟩ := hd.derives hclean
    exact hd.steps.endPoint_behind (hderives.ne_nil rfl)
  refine (runs_codomain hr ht _ hbehind (by omega)).bind fun c u ⟨cs, hc⟩ => ?_
  have hleft' := hc.steps.left ht
  refine (hr.block _ u (hc.steps.ok ht) (by omega)).bind fun b v ⟨bs, hb, _⟩ => ?_
  refine hf d c b v _ ⟨hd.steps.trans (hc.steps.trans hb.steps), fun hv => ?_⟩
  have hu := hb.steps.clean hv
  obtain ⟨reach, hderives, -⟩ := hd.derives (hc.steps.clean hu)
  exact .function hderives (hc.derives hu) (hb.derives hv)

theorem runs_lambda (hk : s.kind = .lambda) (hcalls : 4 * s.left ≤ calls) :
    Runs (lambda r) s fun e t => ∃ ts, Reads names s (.operand .postfixed e) ts t ∧ ts ≠ [] := by
  have hopen := steps_bump (s := s) (by simp [hk])
  have hleft := hopen.left hs
  rw [List.length_singleton] at hleft
  refine .step rfl (.step rfl (runs_function hr (hopen.ok hs) _ _ _ (by omega)
    fun d c b t ts h => .step rfl ?_))
  have hall := hopen.trans h.steps
  exact .pure ⟨_, ⟨hall, fun ht => .lambda hk (h.derives ht) (hall.finish_covers hs (by simp))⟩,
    by simp⟩

theorem runs_pi (hk : s.kind = .pi) (hcalls : 4 * s.left ≤ calls) :
    Runs (pi r) s fun e t => ∃ ts, ReadsTo names s (.operand · e) ts t ∧ ts ≠ [] := by
  have hopen := steps_bump (s := s) (by simp [hk])
  have hleft := hopen.left hs
  rw [List.length_singleton] at hleft
  refine .step rfl (.step rfl ((hr.ptrn true _ _ (hopen.ok hs) (by omega)).bind
    fun d t ⟨ds, hd⟩ => ?_))
  have hfirst := hopen.trans hd.steps
  refine (runs_expect names (hfirst.ok hs) .arrow (by simp) _).bind fun _ u ⟨us, h, _, _, harrow⟩ => ?_
  have hsecond := hfirst.trans h
  have hleft' := hsecond.left hs
  simp only [List.length_append, List.length_singleton] at hleft'
  refine (hr.expr .bottom _ u (hsecond.ok hs) (by omega)).bind
    fun c v ⟨cs, hc, hstops, _⟩ => .step rfl ?_
  have hall := hopen.trans (hd.steps.trans (h.trans hc.steps))
  refine .pure ⟨_, ⟨hall, fun hv => ?_⟩, by simp⟩
  have hu := hc.steps.clean hv
  obtain ⟨-, w, rfl, hw⟩ := harrow hu
  obtain ⟨_, hdomain, -⟩ := hd.derives (h.clean hu)
  obtain ⟨_, hcodomain, -⟩ := hc.derives hv
  exact ⟨.bottom, .pi hk hdomain hw hcodomain (hall.finish_covers hs (by simp)), .inr (hstops hv)⟩

theorem runs_continuation (hk : s.kind = .kwCn) (hcalls : 4 * s.left ≤ calls) :
    Runs (continuation r) s fun e t => ∃ ts, ReadsTo names s (.operand · e) ts t ∧ ts ≠ [] := by
  have hopen := steps_bump (s := s) (by simp [hk])
  have hleft := hopen.left hs
  rw [List.length_singleton] at hleft
  refine .step rfl (.step rfl ((hr.ptrn true _ _ (hopen.ok hs) (by omega)).bind
    fun d t ⟨ds, hd⟩ => .step rfl (.step rfl ?_)))
  have hall := hopen.trans hd.steps
  refine .pure ⟨_, ⟨hall, fun ht => ?_⟩, by simp⟩
  obtain ⟨reach, hds, hleaves⟩ := hd.derives ht
  exact ⟨reach, .continuation hk hds (hd.steps.endPoint_behind (hds.ne_nil rfl))
    (hall.finish_covers hs (by simp)), hleaves⟩

/-- A pattern, a semicolon, an expression and a closing bracket in front of what follows them. -/
theorem runs_bracketed {β : Type} (close : TokenKind) (hclose : close ≠ .eof)
    (inDomain inBody inBracket : String) {f : Ptrn → Expr → Parser β} {q : β → State → Prop}
    (hcalls : 4 * s.left + 2 ≤ calls)
    (hf : ∀ d b t ts, Steps s ts t → (t.Clean names → ∃ u v ds bs,
      ts = ds ++ u :: (bs ++ [v]) ∧ (∃ reach, Derives names .exact (.ptrn false reach d) ds) ∧
        u.kind = .semi ∧ (∃ reach, Derives names .exact (.expr .bottom reach b) bs) ∧
        v.kind = close) → Runs (f d b) t q) :
    Runs (do
      let d ← r.ptrn false inDomain
      let _ ← expect .semi inBracket
      let b ← r.expr .bottom inBody
      let _ ← expect close inBracket
      f d b) s q := by
  refine (hr.ptrn false _ s hs (by omega)).bind fun d t ⟨ds, hd⟩ => ?_
  refine (runs_expect names (hd.steps.ok hs) .semi (by simp) _).bind fun _ u ⟨us, hu, _, _, hsemi⟩ => ?_
  have hsecond := hd.steps.trans hu
  have hleft := hsecond.left hs
  refine (hr.expr .bottom _ u (hsecond.ok hs) (by omega)).bind fun b v ⟨bs, hb, _⟩ => ?_
  refine (runs_expect names (hb.steps.ok (hsecond.ok hs)) close hclose _).bind
    fun _ w ⟨ws, hw, _, _, hend⟩ => ?_
  refine hf d b w _ (hd.steps.trans (hu.trans (hb.steps.trans hw))) fun hclean => ?_
  have hv := hw.clean hclean
  have hu' := hb.steps.clean hv
  obtain ⟨-, x, rfl, hx⟩ := hsemi hu'
  obtain ⟨-, y, rfl, hy⟩ := hend hclean
  obtain ⟨_, hdomain, -⟩ := hd.derives (hu.clean hu')
  obtain ⟨_, hbody, -⟩ := hb.derives hv
  exact ⟨x, y, ds, bs, rfl, ⟨_, hdomain⟩, hx, ⟨_, hbody⟩, hy⟩

theorem runs_pack (hk : s.kind = .lPack) (hcalls : 4 * s.left ≤ calls) :
    Runs (pack r) s fun e t => ∃ ts, Reads names s (.operand .postfixed e) ts t ∧ ts ≠ [] := by
  have hopen := steps_bump (s := s) (by simp [hk])
  have hleft := hopen.left hs
  rw [List.length_singleton] at hleft
  refine .step rfl (.step rfl (runs_bracketed hr (hopen.ok hs) .rPack (by simp) _ _ _ (by omega)
    fun d b t ts h hts => .step rfl ?_))
  have hall := hopen.trans h
  refine .pure ⟨_, ⟨hall, fun ht => ?_⟩, by simp⟩
  obtain ⟨u, v, ds, bs, rfl, ⟨_, hd⟩, hu, ⟨_, hb⟩, hv⟩ := hts ht
  exact .pack hk hd hu hb hv (hall.finish_covers hs (by simp))

theorem runs_variadic (hk : s.kind = .lVariadic) (hcalls : 4 * s.left ≤ calls) :
    Runs (variadic r) s fun e t => ∃ ts, Reads names s (.operand .postfixed e) ts t ∧ ts ≠ [] := by
  have hopen := steps_bump (s := s) (by simp [hk])
  have hleft := hopen.left hs
  rw [List.length_singleton] at hleft
  refine .step rfl (.step rfl (runs_bracketed hr (hopen.ok hs) .rVariadic (by simp) _ _ _
    (by omega) fun d b t ts h hts => .step rfl ?_))
  have hall := hopen.trans h
  refine .pure ⟨_, ⟨hall, fun ht => ?_⟩, by simp⟩
  obtain ⟨u, v, ds, bs, rfl, ⟨_, hd⟩, hu, ⟨_, hb⟩, hv⟩ := hts ht
  exact .variadic hk hd hu hb hv (hall.finish_covers hs (by simp))

end Functions

/-! ## Control flow -/

section Forms

variable (hr : r.Sound names calls) (hs : s.Ok)

include hr hs

theorem runs_otherwise {ys : List Token}
    (hbehind : s.Clean names → Placement.exact.behind s.prev.endPoint ys)
    (hcalls : 4 * s.left ≤ calls + 3) :
    Runs (otherwise r) s fun no t => ∃ ts, Reads names s (.otherwise ys no) ts t := by
  refine (runs_accept .kwElse (by simp)).bind fun accepted t h => ?_
  rcases h with ⟨rfl, helse, h⟩ | ⟨rfl, -, rfl⟩
  · have hleft := h.left hs
    rw [List.length_singleton] at hleft
    refine .step rfl ?_
    split
    · next hif =>
      refine (hr.branch t (h.ok hs) (by omega) (of_decide_eq_true hif)).mono
        fun no u ⟨ts, hno, _⟩ => ⟨_, h.trans hno.steps, fun hu => ?_⟩
      exact .otherwiseBranch helse (hno.derives hu)
    · refine (hr.block _ t (h.ok hs) (by omega)).mono
        fun no u ⟨ts, hno, _⟩ => ⟨_, h.trans hno.steps, fun hu => ?_⟩
      exact .otherwiseBlock helse (hno.derives hu)
  · exact .step rfl (.pure ⟨[], .refl _, fun ht => .otherwiseNone (hbehind ht)⟩)

theorem runs_branch (hk : s.kind = .kwIf) (hcalls : 4 * s.left ≤ calls) :
    Runs (branch r) s fun e t => ∃ ts, Reads names s (.branch e) ts t ∧ ts ≠ [] := by
  have hopen := steps_bump (s := s) (by simp [hk])
  have hleft := hopen.left hs
  rw [List.length_singleton] at hleft
  refine .step rfl (.step rfl ((hr.expr .bottom _ _ (hopen.ok hs) (by omega)).bind
    fun cond t ⟨cs, hc, _⟩ => ?_))
  have hfirst := hopen.trans hc.steps
  have hleft₁ := hfirst.left hs
  rw [List.length_append, List.length_singleton] at hleft₁
  refine (hr.block _ t (hfirst.ok hs) (by omega)).bind fun yes u ⟨ys, hy, _⟩ => ?_
  have hsecond := hfirst.trans hy.steps
  have hleft₂ := hsecond.left hs
  simp only [List.length_append, List.length_singleton] at hleft₂
  have hbehind : u.Clean names → Placement.exact.behind u.prev.endPoint ys := fun hu =>
    hy.steps.endPoint_behind ((hy.derives hu).ne_nil rfl)
  refine (runs_otherwise hr (hsecond.ok hs) hbehind (by omega)).bind fun no v ⟨vs, hno⟩ => ?_
  have hall := hopen.trans (hc.steps.trans (hy.steps.trans hno.steps))
  refine .step rfl (.pure ⟨_, ⟨hall, fun hv => ?_⟩, by simp⟩)
  have hu := hno.steps.clean hv
  obtain ⟨_, hcond, -⟩ := hc.derives (hy.steps.clean hu)
  have h := Derives.branch hk hcond (hy.derives hu) (hno.derives hv)
    (hall.finish_covers hs (by simp))
  exact h

/-- A case of a `match` consumes a token, by force if nothing else does. -/
theorem runs_armsTurn (hcalls : 4 * s.left + 2 ≤ calls) :
    Runs (armsTurn r) s fun turn t => ∃ ts, Turned (Spelled names .arms) s turn ts t := by
  refine .step rfl ?_
  split
  · exact .pure ⟨[], .left (.refl _) fun _ => .armsNil⟩
  · exact .pure ⟨[], .left (.refl _) fun _ => .armsNil⟩
  · next hbrace heof =>
    refine .step rfl ((hr.ptrn false _ s hs (by omega)).bind fun p t ⟨ps, hp⟩ => ?_)
    refine (runs_expect names (hp.steps.ok hs) .fatArrow (by simp) _).bind
      fun _ u ⟨us, hu, _, _, harrow⟩ => ?_
    have hfirst := hp.steps.trans hu
    have hleft := hfirst.left hs
    refine (hr.expr .bottom _ u (hfirst.ok hs) (by omega)).bind fun b v ⟨bs, hb, hstops, _⟩ =>
      .step rfl (.step rfl ?_)
    have harm := hp.steps.trans (hu.trans hb.steps)
    have hv := harm.ok hs
    have hspells : v.Clean names → ∃ w reach reach', us = [w] ∧ w.kind = .fatArrow ∧
        Derives names .exact (.ptrn false reach p) ps ∧
        Derives names .exact (.expr .bottom reach' b) bs := by
      intro hclean
      have hu' := hb.steps.clean hclean
      obtain ⟨-, w, rfl, hw⟩ := harrow hu'
      obtain ⟨_, hptrn, -⟩ := hp.derives (hu.clean hu')
      obtain ⟨_, hbody, -⟩ := hb.derives hclean
      exact ⟨w, _, _, rfl, hw, hptrn, hbody⟩
    have hrest : ∀ w ws, Steps v ws w → ps ++ (us ++ bs) ++ ws ≠ [] →
        (w.Clean names → ws = [] ∧ w.Stops .bottom ∨
          ∃ x : Token, ws = [x] ∧ x.kind.isSeparator = true) →
        Turned (Spelled names .arms) s (.goOn (⟨v.finish s.here.span, p, b⟩ :: ·))
          (ps ++ (us ++ bs) ++ ws) w := by
      intro w ws hws hne hsep
      refine .on (harm.trans hws) hne fun as xs x hx has hclean => ?_
      have hw := hx.clean hclean
      obtain ⟨y, _, _, rfl, hy, hpd, hbd⟩ := hspells (hws.clean hw)
      have hcover := harm.finish_covers hs (by simp)
      have hone := (hsep hw).imp_left fun ⟨hnil, hstops⟩ =>
        And.intro hnil (hx.apart (hws.ok hv) hstops)
      have h := Derives.armsCons hpd hy hbd hcover hone (has hclean)
      simpa using h
    refine runs_acceptSeparator.bind fun accepted w h => ?_
    rcases h with ⟨rfl, hk, h⟩ | ⟨rfl, rfl⟩
    · exact .pure ⟨_, hrest w _ h (by simp) fun _ => .inr ⟨_, rfl, hk⟩⟩
    · by_cases hnil : ps ++ (us ++ bs) = []
      · -- Nothing was consumed, so the remembered span ends in front of the token at hand.
        rw [hnil] at harm
        obtain ⟨hhere, hprev⟩ := harm.here_of_nil hs
        have hstart := hs.stream.start
        have hconsumed : ¬ s.here.span.start.offset < w.prev.stop.offset := by
          rw [hprev]
          omega
        rw [if_neg Bool.false_ne_true, if_neg hconsumed]
        have hk : w.kind ≠ .eof := by
          rw [State.kind, hhere]
          exact heof
        refine .step rfl (.pure ⟨_, hrest _ _ (steps_bump hk) (by simp) fun hclean => ?_⟩)
        obtain ⟨x, _, _, rfl, -⟩ := hspells ((steps_bump hk).clean hclean)
        simp at hnil
      · have hconsumed := harm.start_lt hs hnil
        rw [if_neg Bool.false_ne_true, if_pos hconsumed]
        exact .pure ⟨_, hrest w [] (.refl _) (by simpa using hnil) fun hw => .inl ⟨rfl, hstops hw⟩⟩

theorem runs_arms (hcalls : 4 * s.left + 2 ≤ calls) :
    Runs (arms r) s fun as t => ∃ ts, Reads names s (.arms as) ts t :=
  reads_loop hs (runs_armsTurn hr hs hcalls) fun t ht hleft => hr.arms t ht (by omega)

theorem runs_select (hk : s.kind = .kwMatch) (hcalls : 4 * s.left ≤ calls) :
    Runs (select r) s fun e t => ∃ ts, Reads names s (.form e) ts t ∧ ts ≠ [] := by
  have hopen := steps_bump (s := s) (by simp [hk])
  have hleft := hopen.left hs
  rw [List.length_singleton] at hleft
  refine .step rfl (.step rfl ((hr.expr .bottom _ _ (hopen.ok hs) (by omega)).bind
    fun e t ⟨es, he, _⟩ => ?_))
  have hfirst := hopen.trans he.steps
  refine (runs_expect names (hfirst.ok hs) .lBrace (by simp) _).bind
    fun found u ⟨us, hu, _, _, hbrace⟩ => ?_
  have hsecond := hfirst.trans hu
  have hleft₁ := hsecond.left hs
  simp only [List.length_append, List.length_singleton] at hleft₁
  split
  · refine (hr.arms u (hsecond.ok hs) (by omega)).bind fun as v ⟨vs, has⟩ => ?_
    refine (runs_expect names (has.steps.ok (hsecond.ok hs)) .rBrace (by simp) _).bind
      fun _ w ⟨ws, hw, _, _, hclose⟩ => .step rfl ?_
    have hall := hopen.trans (he.steps.trans (hu.trans (has.steps.trans hw)))
    refine .pure ⟨_, ⟨hall, fun hclean => ?_⟩, by simp⟩
    have hv := hw.clean hclean
    have hu' := has.steps.clean hv
    obtain ⟨-, x, rfl, hx⟩ := hbrace hu'
    obtain ⟨-, y, rfl, hy⟩ := hclose hclean
    obtain ⟨_, hscrutinee, -⟩ := he.derives (hu.clean hu')
    have h := Derives.formSelect hk hscrutinee hx (has.derives hv) hy
      (hall.finish_covers hs (by simp))
    exact h
  · next hfound =>
    have hall := hopen.trans (he.steps.trans hu)
    refine .step rfl (.pure ⟨_, ⟨hall, fun hclean => ?_⟩, by simp⟩)
    obtain ⟨rfl, -⟩ := hbrace hclean
    exact absurd rfl hfound

theorem runs_forLoop (hk : s.kind = .kwFor) (hcalls : 4 * s.left ≤ calls) :
    Runs (forLoop r) s fun e t => ∃ ts, Reads names s (.form e) ts t ∧ ts ≠ [] := by
  have hopen := steps_bump (s := s) (by simp [hk])
  have hleft := hopen.left hs
  rw [List.length_singleton] at hleft
  refine .step rfl (.step rfl ((hr.ptrn false _ _ (hopen.ok hs) (by omega)).bind
    fun p t ⟨ps, hp⟩ => ?_))
  have hfirst := hopen.trans hp.steps
  refine (runs_expect names (hfirst.ok hs) .kwIn (by simp) _).bind fun _ u ⟨us, hu, _, _, hin⟩ => ?_
  have hsecond := hfirst.trans hu
  have hleft₁ := hsecond.left hs
  simp only [List.length_append, List.length_singleton] at hleft₁
  refine (hr.expr .bottom _ u (hsecond.ok hs) (by omega)).bind fun e v ⟨es, he, _⟩ => ?_
  have hthird := hsecond.trans he.steps
  have hleft₂ := hthird.left hs
  simp only [List.length_append, List.length_singleton] at hleft₂
  refine (hr.block _ v (hthird.ok hs) (by omega)).bind fun b w ⟨bs, hb, _⟩ => .step rfl ?_
  have hall := hopen.trans (hp.steps.trans (hu.trans (he.steps.trans hb.steps)))
  refine .pure ⟨_, ⟨hall, fun hclean => ?_⟩, by simp⟩
  have hv := hb.steps.clean hclean
  have hu' := he.steps.clean hv
  obtain ⟨-, x, rfl, hx⟩ := hin hu'
  obtain ⟨_, hptrn, -⟩ := hp.derives (hu.clean hu')
  obtain ⟨_, hiter, -⟩ := he.derives hv
  have h := Derives.formFor hk hptrn hx hiter (hb.derives hclean)
    (hall.finish_covers hs (by simp))
  exact h

theorem runs_whileLoop (hk : s.kind = .kwWhile) (hcalls : 4 * s.left ≤ calls) :
    Runs (whileLoop r) s fun e t => ∃ ts, Reads names s (.form e) ts t ∧ ts ≠ [] := by
  have hopen := steps_bump (s := s) (by simp [hk])
  have hleft := hopen.left hs
  rw [List.length_singleton] at hleft
  refine .step rfl (.step rfl ((hr.expr .bottom _ _ (hopen.ok hs) (by omega)).bind
    fun c t ⟨cs, hc, _⟩ => ?_))
  have hfirst := hopen.trans hc.steps
  have hleft₁ := hfirst.left hs
  simp only [List.length_append, List.length_singleton] at hleft₁
  refine (hr.block _ t (hfirst.ok hs) (by omega)).bind fun b u ⟨bs, hb, _⟩ => .step rfl ?_
  have hall := hopen.trans (hc.steps.trans hb.steps)
  refine .pure ⟨_, ⟨hall, fun hu => ?_⟩, by simp⟩
  obtain ⟨_, hcond, -⟩ := hc.derives (hb.steps.clean hu)
  have h := Derives.formWhile hk hcond (hb.derives hu)
    (hall.finish_covers hs (by simp))
  exact h

theorem runs_formBlock (hk : s.kind = .lBrace) (construct : String)
    (hcalls : 4 * s.left + 1 ≤ calls) :
    Runs (r.block construct) s fun e t => ∃ ts, Reads names s (.form e) ts t ∧ ts ≠ [] :=
  (hr.block construct s hs hcalls).mono fun _ _ ⟨ts, he, hne⟩ =>
    ⟨ts, ⟨he.steps, fun ht => .formBlock (he.derives ht)⟩, hne hk⟩

theorem runs_formBranch (hk : s.kind = .kwIf) (hcalls : 4 * s.left + 1 ≤ calls) :
    Runs r.branch s fun e t => ∃ ts, Reads names s (.form e) ts t ∧ ts ≠ [] :=
  (hr.branch s hs hcalls hk).mono fun _ _ ⟨ts, he, hne⟩ =>
    ⟨ts, ⟨he.steps, fun ht => .formBranch (he.derives ht)⟩, hne⟩

end Forms

/-! ## Expressions -/

section Expressions

theorem runs_single {expr : Span → Expr} (hk : s.kind ≠ .eof)
    (hexpr : ∀ span, Placement.exact.covers span [s.here] →
      Derives names .exact (.operand .postfixed (expr span)) [s.here]) :
    Runs (single expr) s fun e t => ∃ ts, Reads names s (.operand .postfixed e) ts t ∧ ts ≠ [] := by
  have h := steps_bump hk
  refine .step rfl (.step rfl (.pure ⟨_, ⟨h, fun _ => hexpr _ ?_⟩, by simp⟩))
  exact ⟨s.here, s.here, rfl, rfl, rfl⟩

variable (hs : s.Ok)

include hs

theorem runs_literal (hk : s.kind = .literal) :
    Runs literal s fun e t => ∃ ts, Reads names s (.operand .postfixed e) ts t ∧ ts ≠ [] := by
  have heof : s.kind ≠ .eof := by simp [hk]
  have h := steps_bump heof
  have hcovers : Placement.exact.covers s.here.span [s.here] := ⟨s.here, s.here, rfl, rfl, rfl⟩
  obtain ⟨value, hvalue⟩ := (hs.fits heof).2 hk
  refine .step rfl (.step rfl ?_)
  rw [hvalue]
  cases value with
  | str text =>
    refine .step rfl (.pure ⟨_, ⟨h.interned text, fun ht => ?_⟩, by simp⟩)
    refine .literal hk hvalue ?_ hcovers
    exact congrArg Literal.str (Interner.resolve?_of_le ht.names (s.bump.names.resolve?_intern text))
  | int value kind =>
    exact .pure ⟨_, ⟨h, fun _ => .literal hk hvalue rfl hcovers⟩, by simp⟩
  | float value kind =>
    exact .pure ⟨_, ⟨h, fun _ => .literal hk hvalue rfl hcovers⟩, by simp⟩
  | bool value =>
    exact .pure ⟨_, ⟨h, fun _ => .literal hk hvalue rfl hcovers⟩, by simp⟩
  | char value =>
    exact .pure ⟨_, ⟨h, fun _ => .literal hk hvalue rfl hcovers⟩, by simp⟩

variable (hr : r.Sound names calls)

include hr

theorem runs_primary (hk : s.kind.prefixOp? = none) (construct : String)
    (hcalls : 4 * s.left + 1 ≤ calls) :
    Runs (primary r construct) s fun e t => ∃ ts, ReadsTo names s (.operand · e) ts t ∧
      (ts = [] → e.isError = true ∧ s.kind.startsExpr = false) := by
  have hsolid : ∀ {m : Parser Expr},
      (Runs m s fun e t => ∃ ts, ReadsTo names s (.operand · e) ts t ∧ ts ≠ []) →
      Runs m s fun e t => ∃ ts, ReadsTo names s (.operand · e) ts t ∧
        (ts = [] → e.isError = true ∧ s.kind.startsExpr = false) := fun h =>
    h.mono fun _ _ ⟨ts, he, hne⟩ => ⟨ts, he, fun hnil => absurd hnil hne⟩
  have hclosed : ∀ {m : Parser Expr},
      (Runs m s fun e t => ∃ ts, Reads names s (.operand .postfixed e) ts t ∧ ts ≠ []) →
      Runs m s fun e t => ∃ ts, ReadsTo names s (.operand · e) ts t ∧
        (ts = [] → e.isError = true ∧ s.kind.startsExpr = false) := fun h =>
    hsolid (h.mono fun _ _ ⟨ts, he, hne⟩ => ⟨ts, he.closed, hne⟩)
  have hform : ∀ {m : Parser Expr},
      (Runs m s fun e t => ∃ ts, Reads names s (.form e) ts t ∧ ts ≠ []) →
      Runs m s fun e t => ∃ ts, Reads names s (.operand .postfixed e) ts t ∧ ts ≠ [] := fun h =>
    h.mono fun _ _ ⟨ts, he, hne⟩ => ⟨ts, ⟨he.steps, fun ht => .operandForm (he.derives ht)⟩, hne⟩
  refine .step rfl ?_
  split
  · next hident =>
    refine hclosed ((runs_ident names hs construct).bind fun id t ⟨ts, h, hne, hid⟩ =>
      .pure ⟨ts, ⟨h, fun ht => ?_⟩, by simp [hne hident]⟩)
    obtain ⟨u, rfl, hu⟩ := hid ht
    exact .name hu hu.span
  · next hliteral => exact hclosed (runs_literal hs hliteral)
  · next hparen =>
    exact hclosed ((runs_tuple hr hs hparen (by omega)).mono fun e t ⟨ts, he, hne⟩ =>
      ⟨ts, ⟨he.steps, fun ht => .parens (he.derives ht)⟩, hne⟩)
  · next hbracket => exact hclosed (runs_sigma hr hs hbracket (by omega))
  · next hbrace => exact hclosed (hform (runs_formBlock hr hs hbrace construct hcalls))
  · next hif => exact hclosed (hform (runs_formBranch hr hs hif hcalls))
  · next hmatch => exact hclosed (hform (runs_select hr hs hmatch (by omega)))
  · next hfor => exact hclosed (hform (runs_forLoop hr hs hfor (by omega)))
  · next hwhile => exact hclosed (hform (runs_whileLoop hr hs hwhile (by omega)))
  · next hlambda => exact hclosed (runs_lambda hr hs hlambda (by omega))
  · next hpi => exact hsolid (runs_pi hr hs hpi (by omega))
  · next hcn => exact hsolid (runs_continuation hr hs hcn (by omega))
  · next hpack => exact hclosed (runs_pack hr hs hpack (by omega))
  · next hvariadic => exact hclosed (runs_variadic hr hs hvariadic (by omega))
  · next h => exact hclosed (runs_single (by simp [h]) fun _ => .qualifier (by
      rw [show s.here.kind = _ from h]; rfl))
  · next h => exact hclosed (runs_single (by simp [h]) fun _ => .qualifier (by
      rw [show s.here.kind = _ from h]; rfl))
  · next h => exact hclosed (runs_single (by simp [h]) fun _ => .qualifier (by
      rw [show s.here.kind = _ from h]; rfl))
  · next h => exact hclosed (runs_single (by simp [h]) fun _ => .qualifier (by
      rw [show s.here.kind = _ from h]; rfl))
  · next h => exact hclosed (runs_single (by simp [h]) fun _ => .bottom h)
  · next h => exact hclosed (runs_single (by simp [h]) fun _ => .unknown h)
  · refine .step rfl (.step rfl (.step rfl (.pure ⟨[], ⟨.complain _ _ (.refl _), fun ht => ?_⟩,
      fun _ => ⟨rfl, ?_⟩⟩)))
    · exact absurd ht (hs.not_clean_complain _ _)
    · simp [TokenKind.startsExpr, *]

theorem runs_expr (min : Prec) (construct : String) (hcalls : 4 * s.left + 1 ≤ calls) :
    Runs (expr r min construct) s fun e t => ∃ ts, ReadsTo names s (.expr min · e) ts t ∧
      (t.Clean names → t.Stops min) ∧ (s.kind.startsExpr = true → ts ≠ []) := by
  refine .step rfl (.step rfl ?_)
  split
  · next op hop =>
    have hopen := steps_bump (s := s) (fun heof => by simp [heof, TokenKind.prefixOp?] at hop)
    have hleft := hopen.left hs
    rw [List.length_singleton] at hleft
    refine .step rfl ((hr.expr .prefixed _ _ (hopen.ok hs) (by omega)).bind
      fun e t ⟨ts, he, hstops, _⟩ => .step rfl ?_)
    have h := hopen.trans he.steps
    have hleft₁ := h.left hs
    rw [List.length_append, List.length_singleton] at hleft₁
    have hready : t.Clean names →
        Ready names t min (.prefixed (t.finish s.here.span) op e) ([s.here] ++ ts) := by
      intro ht
      obtain ⟨reach, hoperand, hleaves⟩ := he.derives ht
      refine .inr ⟨.postfixed, reach, .prefixed, ?_, Prec.le_postfixed min,
        hleaves.stops (hstops ht), hstops ht, fun op _ => Prec.le_postfixed _⟩
      exact .exprPrefixed hop hoperand (h.finish_covers hs (by simp))
    exact (hr.operators _ min _ s t _ hs h (by simp) rfl hready (by omega)).mono
      fun e u ⟨us, he, hstops, hne⟩ => ⟨us, he, hstops, fun _ => hne⟩
  · next hnone =>
    refine (runs_primary hs hr hnone construct hcalls).bind fun e t ⟨ts, he, hnil⟩ => ?_
    have hleft := he.steps.left hs
    split
    · next herror =>
      have hunclean : ¬ t.Clean names := by
        intro ht
        obtain ⟨_, hoperand, -⟩ := he.derives ht
        have hroot := hoperand.faultless _ e.mem_nodes
        rw [Node.isError, herror] at hroot
        cases hroot
      refine .pure ⟨ts, ⟨he.steps, fun ht => absurd ht hunclean⟩, fun ht => absurd ht hunclean, ?_⟩
      intro hstarts hts
      rw [(hnil hts).2] at hstarts
      cases hstarts
    · next hfit =>
      have hne : ts ≠ [] := fun hts => hfit (hnil hts).1
      exact (hr.operators _ min _ s t _ hs he.steps hne rfl (fun ht => ready_of_operand he ht)
        (by omega)).mono fun e u ⟨us, he, hstops, hne⟩ => ⟨us, he, hstops, fun _ => hne⟩

omit hs in
/-- One more operator, call or field behind what is read of an expression. -/
theorem runs_operators (min : Prec) {left : Expr} {o : State} {ts : List Token} (ho : o.Ok)
    (h : Steps o ts s) (hne : ts ≠ []) (hready : s.Clean names → Ready names s min left ts)
    (hcalls : 4 * s.left ≤ calls) :
    Runs (operators r o.here.span min left) s fun e t => ∃ us,
      ReadsTo names o (.expr min · e) us t ∧ (t.Clean names → t.Stops min) ∧ us ≠ [] := by
  have hs := h.ok ho
  -- Where an operand is continued, what is read so far is one.
  have hoperand : (∀ level, ¬ s.Stops level) → s.Clean names →
      Derives names .exact (.operand .postfixed left) ts := by
    intro hgoes ht
    rcases hready ht with hleft | ⟨_, _, bound, -, -, -, hstops, -⟩
    · exact hleft
    · exact absurd hstops (hgoes bound)
  have hpos : ∀ {us : List Token}, ts ++ us ≠ [] := by simp [hne]
  refine .step rfl ?_
  split
  · next op hop =>
    have hbump := steps_bump (s := s) (fun heof => by simp [heof, TokenKind.postfixOp?] at hop)
    have hleft := hbump.left hs
    rw [List.length_singleton] at hleft
    have hall := h.trans hbump
    refine .step rfl (.step rfl (hr.operators _ min _ o _ _ ho hall hpos rfl (fun ht => .inl ?_)
      (by omega)))
    refine .postfixed (hoperand (fun level hstops => ?_) (hbump.clean ht)) hop
      (hall.finish_covers ho hpos)
    rw [hstops.postfixOp] at hop
    cases hop
  · next hpost =>
    split
    · next hcall =>
      refine (runs_tuple hr hs hcall hcalls).bind fun a t ⟨us, ha, hus⟩ => .step rfl ?_
      have hall := h.trans ha.steps
      have hleft := ha.steps.left hs
      have hlength := List.length_pos_iff.2 hus
      refine hr.operators _ min _ o _ _ ho hall hpos rfl (fun ht => .inl ?_) (by omega)
      exact .app (hoperand (fun level hstops => hstops.call hcall) (ha.steps.clean ht))
        (ha.derives ht) (hall.finish_covers ho hpos)
    · next hcall =>
      refine .step rfl ?_
      split
      · next hcps =>
        have hbump := steps_bump (s := s) (by simp [hcps.1])
        have hleft := hbump.left hs
        rw [List.length_singleton] at hleft
        have hparen : s.bump.kind = .lParen := (hbump.kind_of_singleton hs).trans hcps.2
        refine .step rfl ((runs_tuple hr (hbump.ok hs) hparen (by omega)).bind
          fun a t ⟨us, ha, hus⟩ => .step rfl ?_)
        have hall := h.trans (hbump.trans ha.steps)
        have hleft₁ := ha.steps.left (hbump.ok hs)
        refine hr.operators _ min _ o _ _ ho hall hpos rfl (fun ht => .inl ?_) (by omega)
        have hs' := hbump.clean (ha.steps.clean ht)
        exact .appCps (hoperand (fun level hstops => hstops.callCps hcps) hs') hcps.1
          (ha.derives ht) (hall.finish_covers ho hpos)
      · next hcps =>
        split
        · next hdot =>
          have hbump := steps_bump (s := s) (by simp [hdot])
          have hleft := hbump.left hs
          rw [List.length_singleton] at hleft
          refine .step rfl ((runs_ident names (hbump.ok hs) _).bind
            fun id t ⟨us, hu, _, hid⟩ => .step rfl ?_)
          have hall := h.trans (hbump.trans hu)
          have hleft₁ := hu.left (hbump.ok hs)
          refine hr.operators _ min _ o _ _ ho hall hpos rfl (fun ht => .inl ?_) (by omega)
          obtain ⟨v, rfl, hv⟩ := hid ht
          have hs' := hbump.clean (hu.clean ht)
          exact .field (hoperand (fun level hstops => hstops.field hdot) hs') hdot hv
            (hall.finish_covers ho hpos)
        · next hdot =>
          -- No operand is continued here, so the end of the expression is near.
          have hleftAt : ∀ {level}, (∀ p bound, s.Stops bound → min ≤ p →
              (∀ op : InfixOp, op.prec < bound → op.leftLevel ≤ p) → level ≤ p) →
              s.Clean names → ∃ reach, Derives names .exact (.expr level reach left) ts ∧
                s.Leaves reach := by
            intro level hlevel ht
            rcases hready ht with hleft | ⟨p, reach, bound, hleft, hmin, hreach, hstops, hbound⟩
            · exact ⟨_, .exprOperand hleft, .inl rfl⟩
            · exact ⟨reach, hleft.mono (hlevel p bound hstops hmin hbound), .inr hreach⟩
          have hend : (∀ op, s.kind.infixOp? = some op → op.prec < min) →
              ∃ us, ReadsTo names o (.expr min · left) us s ∧ (s.Clean names → s.Stops min) ∧
                us ≠ [] := by
            intro hweak
            refine ⟨ts, ⟨h, hleftAt fun _ _ _ hmin _ => hmin⟩, fun _ => ?_, hne⟩
            exact ⟨hpost, hcall, hcps, hdot, hweak⟩
          split
          · next op hop =>
            split
            · next hweak =>
              refine .pure (hend fun op' hop' => ?_)
              rw [hop] at hop'
              cases hop'
              exact hweak
            · next hstrong =>
              have hbump := steps_bump (s := s)
                (fun heof => by simp [heof, TokenKind.infixOp?] at hop)
              have hleft := hbump.left hs
              rw [List.length_singleton] at hleft
              refine .step rfl ((hr.expr op.rightLevel _ _ (hbump.ok hs) (by omega)).bind
                fun b t ⟨us, hb, hstops, _⟩ => .step rfl ?_)
              have hall := h.trans (hbump.trans hb.steps)
              have hleft₁ := hb.steps.left (hbump.ok hs)
              refine hr.operators _ min _ o _ _ ho hall hpos rfl (fun ht => .inr ?_) (by omega)
              have hs' := hbump.clean (hb.steps.clean ht)
              obtain ⟨inner, hlhs, hinner⟩ : ∃ inner,
                  Derives names .exact (.expr op.leftLevel inner left) ts ∧ s.Leaves inner :=
                hleftAt (fun p bound hstops _ hbound => hbound op (hstops.infixOp op hop)) hs'
              obtain ⟨reach, hrhs, hleaves⟩ := hb.derives ht
              refine ⟨op.prec, reach, op.rightLevel, ?_, Nat.le_of_not_lt hstrong,
                hleaves.stops (hstops ht), hstops ht, op.leftLevel_le_of_lt⟩
              have hbeyond : op.prec < inner := by
                rcases hinner with rfl | hinner
                · exact op.prec_lt_postfixed
                · exact hinner.infixOp op hop
              exact .exprBinary hop (Prec.le_refl _) hlhs hbeyond hrhs (hall.finish_covers ho hpos)
          · next hnone =>
            refine .pure (hend fun op' hop' => ?_)
            rw [hnone] at hop'
            cases hop'

end Expressions

/-! ## Statements and blocks -/

section Statements

variable (hr : r.Sound names calls) (hs : s.Ok)

include hr hs

theorem runs_stmntExpr (construct : String) (hcalls : 4 * s.left + 2 ≤ calls) :
    Runs (stmntExpr r construct) s fun e t => ∃ ts, Reads names s (.stmntExpr e) ts t ∧
      (s.kind.startsExpr = true → ts ≠ []) ∧
      (t.Clean names → s.kind.startsForm = true ∨ t.Stops .bottom) := by
  have hform : ∀ {m : Parser Expr}, s.kind.startsForm = true →
      (Runs m s fun e t => ∃ ts, Reads names s (.form e) ts t ∧ ts ≠ []) →
      Runs m s fun e t => ∃ ts, Reads names s (.stmntExpr e) ts t ∧
        (s.kind.startsExpr = true → ts ≠ []) ∧
        (t.Clean names → s.kind.startsForm = true ∨ t.Stops .bottom) := fun hk h =>
    h.mono fun _ _ ⟨ts, he, hne⟩ =>
      ⟨ts, ⟨he.steps, fun ht => .stmntForm (he.derives ht)⟩, fun _ => hne, fun _ => .inl hk⟩
  refine .step rfl ?_
  split
  · next hbrace =>
    exact hform (by rw [hbrace]; rfl) (runs_formBlock hr hs hbrace construct (by omega))
  · next hif => exact hform (by rw [hif]; rfl) (runs_formBranch hr hs hif (by omega))
  · next hmatch => exact hform (by rw [hmatch]; rfl) (runs_select hr hs hmatch (by omega))
  · next hfor => exact hform (by rw [hfor]; rfl) (runs_forLoop hr hs hfor (by omega))
  · next hwhile => exact hform (by rw [hwhile]; rfl) (runs_whileLoop hr hs hwhile (by omega))
  · refine (hr.expr .bottom construct s hs hcalls).mono fun e t ⟨ts, he, hstops, hne⟩ =>
      ⟨ts, ⟨he.steps, fun ht => ?_⟩, hne, fun ht => .inr (hstops ht)⟩
    obtain ⟨_, hderives, -⟩ := he.derives ht
    have hhead := he.steps.head hs (hderives.ne_nil rfl)
    cases ts with
    | nil => cases hhead
    | cons first ts =>
      obtain rfl : first = s.here := Option.some.inj hhead
      refine .stmntPlain hderives ?_
      show s.kind.startsForm = false
      simp [TokenKind.startsForm, *]

theorem runs_letStmnt (hk : s.kind = .kwLet) (hcalls : 4 * s.left ≤ calls) :
    Runs (letStmnt r) s fun st t => ∃ ts, Reads names s (.binding st) ts t ∧ ts ≠ [] := by
  have hopen := steps_bump (s := s) (by simp [hk])
  have hleft := hopen.left hs
  rw [List.length_singleton] at hleft
  refine .step rfl (.step rfl ((hr.ptrn false _ _ (hopen.ok hs) (by omega)).bind
    fun p t ⟨ps, hp⟩ => ?_))
  have hfirst := hopen.trans hp.steps
  refine (runs_expect names (hfirst.ok hs) .assign (by simp) _).bind
    fun _ u ⟨us, hu, _, _, hassign⟩ => ?_
  have hsecond := hfirst.trans hu
  have hleft₁ := hsecond.left hs
  simp only [List.length_append, List.length_singleton] at hleft₁
  refine (hr.expr .bottom _ u (hsecond.ok hs) (by omega)).bind fun e v ⟨es, he, _⟩ => ?_
  have hthird := hsecond.trans he.steps
  refine (runs_expect names (hthird.ok hs) .semi (by simp) _).bind
    fun _ w ⟨ws, hw, _, _, hsemi⟩ => .step rfl ?_
  have hall := hopen.trans (hp.steps.trans (hu.trans (he.steps.trans hw)))
  refine .pure ⟨_, ⟨hall, fun hclean => ?_⟩, by simp⟩
  have hv := hw.clean hclean
  have hu' := he.steps.clean hv
  obtain ⟨-, x, rfl, hx⟩ := hassign hu'
  obtain ⟨-, y, rfl, hy⟩ := hsemi hclean
  obtain ⟨reach, hptrn, hleaves⟩ := hp.derives (hu.clean hu')
  obtain ⟨_, hinit, -⟩ := he.derives hv
  have hbeyond : Prec.assign < reach := by
    rcases hleaves with rfl | hstops
    · decide
    · have hkind := hu.firstKind (hfirst.ok hs) (List.cons_ne_nil _ _)
      refine hstops.infixOp .assign ?_
      rw [← hkind, show Token.firstKind [x] = .assign from hx]
      rfl
  have h := Derives.bindLet hk hptrn hbeyond hx hinit hy
    (hall.finish_covers hs (by simp))
  exact h

theorem runs_defItem (hk : s.kind = .kwDef) (hcalls : 4 * s.left ≤ calls) :
    Runs (defItem r) s fun it t => ∃ ts, Reads names s (.binding (.item it)) ts t ∧ ts ≠ [] := by
  have hopen := steps_bump (s := s) (by simp [hk])
  refine .step rfl (.step rfl ((runs_ident names (hopen.ok hs) _).bind
    fun id t ⟨ts, ht, _, hid⟩ => .step rfl ?_))
  have ht' := ht.declared id .item (by simp)
  have hfirst := hopen.trans ht'
  refine (runs_expect names (hfirst.ok hs) .assign (by simp) _).bind
    fun _ u ⟨us, hu, _, _, hassign⟩ => ?_
  have hsecond := hfirst.trans hu
  have hleft := hsecond.left hs
  simp only [List.length_append, List.length_singleton] at hleft
  refine (hr.expr .bottom _ u (hsecond.ok hs) (by omega)).bind fun e v ⟨es, he, _⟩ => ?_
  have hthird := hsecond.trans he.steps
  refine (runs_expect names (hthird.ok hs) .semi (by simp) _).bind
    fun _ w ⟨ws, hw, _, _, hsemi⟩ => .step rfl ?_
  have hall := hopen.trans (ht'.trans (hu.trans (he.steps.trans hw)))
  refine .pure ⟨_, ⟨hall, fun hclean => ?_⟩, by simp⟩
  have hv := hw.clean hclean
  have hu' := he.steps.clean hv
  obtain ⟨x, rfl, hx⟩ := hid (hu.clean hu').of_declare
  obtain ⟨-, y, rfl, hy⟩ := hassign hu'
  obtain ⟨-, z, rfl, hz⟩ := hsemi hclean
  obtain ⟨_, hvalue, -⟩ := he.derives hv
  have h : Derives names .exact (.binding (.item ⟨w.finish s.here.span, id, e,
      (t.declare id .item).1, .unset⟩)) (s.here :: x :: y :: (es ++ [z])) :=
    .bindDef hk hx hy hvalue hz (hall.finish_covers hs (by simp))
  exact h

theorem runs_fnItem (hk : s.kind = .kwFn) (hcalls : 4 * s.left ≤ calls) :
    Runs (fnItem r) s fun it t => ∃ ts, Reads names s (.binding (.item it)) ts t ∧ ts ≠ [] := by
  have hopen := steps_bump (s := s) (by simp [hk])
  refine .step rfl (.step rfl ((runs_ident names (hopen.ok hs) _).bind
    fun id t ⟨ts, ht, _, hid⟩ => .step rfl (.step rfl ?_)))
  have ht' := ht.declared id .item (by simp)
  have hfirst := hopen.trans ht'
  have hleft := hfirst.left hs
  simp only [List.length_append, List.length_singleton] at hleft
  refine runs_function hr (hfirst.ok hs) _ _ _ (by omega) fun d c b u us h => .step rfl ?_
  have hall := hopen.trans (ht'.trans h.steps)
  refine .step rfl (.pure ⟨_, ⟨hall, fun hu => ?_⟩, by simp⟩)
  obtain ⟨x, rfl, hx⟩ := hid (h.steps.clean hu).of_declare
  have hfunction := h.derives hu
  exact .bindFn hk hx hfunction
    (h.steps.finish_covers (hfirst.ok hs) (hfunction.ne_nil rfl)) (hall.finish_covers hs (by simp))

theorem runs_block (construct : String) (hcalls : 4 * s.left ≤ calls) :
    Runs (block r construct) s fun e t => ∃ ts, Reads names s (.block e) ts t ∧
      (s.kind = .lBrace → ts ≠ []) := by
  refine .step rfl ((runs_expect names hs .lBrace (by simp) _).bind
    fun found t ⟨ts, ht, hfound, hhere, hopen⟩ => ?_)
  have hleft := ht.left hs
  split
  · next htrue =>
    have hpos := List.length_pos_iff.2 (hfound htrue)
    refine (hr.blockBody t (ht.ok hs) (by omega)).bind fun (ss, value) u ⟨us, hu, hbody⟩ => ?_
    have hu' := (ht.trans hu).ok hs
    refine (runs_expect names hu' .rBrace (by simp) _).bind
      fun _ v ⟨vs, hv, _, _, hclose⟩ => .step rfl ?_
    have hall := ht.trans (hu.trans hv)
    refine .pure ⟨_, ⟨hall, fun hclean => ?_⟩, by simp [hfound htrue]⟩
    obtain ⟨-, x, rfl, hx⟩ := hopen (hu.clean (hv.clean hclean))
    obtain ⟨-, y, rfl, hy⟩ := hclose hclean
    obtain rfl : y = u.here := Option.some.inj (hv.head hu' (by simp))
    have h := Derives.block hx (hbody (hv.clean hclean) hy) hy (hall.finish_covers hs (by simp))
    exact h
  · next hfalse =>
    refine .step rfl (.pure ⟨ts, ⟨ht, fun hclean => ?_⟩, fun hk => by simp [hhere hk]⟩)
    exact absurd (hopen hclean).1 hfalse

/-- A round inside a block. What it spells counts only if the block is closed. -/
theorem runs_blockBodyTurn (hcalls : 4 * s.left + 2 ≤ calls) :
    Runs (blockBodyTurn r) s fun turn t => ∃ ts, Turned (BodySpelled names) s turn ts t := by
  -- What a statement adds to the rest of a block.
  have hadds : ∀ {st : Stmnt} {ts : List Token} {t : State}, Steps s ts t → ts ≠ [] →
      (∀ ss value u us, Steps t us u → u.Clean names → u.kind = .rBrace →
        Derives names .exact (.body u.here ss value) us →
        Derives names .exact (.body u.here (st :: ss) value) (ts ++ us)) →
      Turned (BodySpelled names) s (blockRest st) ts t := by
    intro st ts t ht hne hbody
    refine .on ht hne fun (ss, value) us u hu hrest hclean hk => ?_
    exact hbody ss value u us hu hclean hk (hrest hclean hk)
  have hbinding : ∀ {st : Stmnt} {t : State}, (∃ ts, Reads names s (.binding st) ts t ∧ ts ≠ []) →
      ∃ ts, Turned (BodySpelled names) s (blockRest st) ts t := by
    intro st t ⟨ts, hst, hne⟩
    refine ⟨ts, hadds hst.steps hne fun ss value u us hu hclean _ hrest => ?_⟩
    exact .bodyBinding (hst.derives (hu.clean hclean)) hrest
  refine .step rfl ?_
  split
  · next hsemi =>
    have hbump := steps_bump (s := s) (by simp [hsemi])
    refine .step rfl (.pure ⟨_, .on hbump (by simp) fun body ts t _ hbody hclean hk => ?_⟩)
    exact .bodySemi hsemi (hbody hclean hk)
  · refine .step rfl (.pure ⟨[], .left (.refl _) fun _ _ => .bodyEnd ?_⟩)
    exact ⟨s.here, s.here, rfl, rfl, rfl⟩
  · next heof =>
    refine .step rfl (.pure ⟨[], .left (.refl _) fun _ hk => ?_⟩)
    rw [heof] at hk
    cases hk
  · next hlet => exact (runs_letStmnt hr hs hlet (by omega)).bind fun _ _ h => .pure (hbinding h)
  · next hdef => exact (runs_defItem hr hs hdef (by omega)).bind fun _ _ h => .pure (hbinding h)
  · next hfn => exact (runs_fnItem hr hs hfn (by omega)).bind fun _ _ h => .pure (hbinding h)
  · next heof _ _ _ =>
    split
    · next hstarts =>
      refine .step rfl ((runs_stmntExpr hr hs _ hcalls).bind fun e t ⟨ts, he, hne, hends⟩ => ?_)
      have hts := hne hstarts
      refine (runs_accept .semi (by simp)).bind fun accepted u h => ?_
      rcases h with ⟨rfl, hsemi, hu⟩ | ⟨rfl, hnext, rfl⟩
      · have hall := he.steps.trans hu
        refine .step rfl (.pure ⟨_, hadds hall (by simp) fun ss value v vs hv hclean _ hrest => ?_⟩)
        have hu' := hv.clean hclean
        have h := Derives.bodyExpr (he.derives (hu.clean hu')) hsemi
          (hall.finish_covers hs (by simp)) hrest
        simpa using h
      · refine .step rfl ?_
        split
        · exact .pure ⟨ts, .left he.steps fun hclean _ => .bodyValue (he.derives hclean)⟩
        · next hclose =>
          have hgoes : u.kind ≠ .rBrace := fun hk => hclose (decide_eq_true hk)
          split
          · next hlike =>
            refine .pure ⟨_, hadds he.steps hts fun ss value v vs hv hclean hk hrest => ?_⟩
            have hu := hv.clean hclean
            have hok := he.steps.ok hs
            have hvs : vs ≠ [] := by
              rintro rfl
              rw [State.kind, (hv.here_of_nil hok).1] at hk
              exact hgoes hk
            refine .bodyForm (he.derives hu) hlike hvs ?_ ?_ hrest
            · rw [hv.firstKind hok hvs]
              exact hnext
            · rw [he.steps.firstKind hs hts]
              exact (hends hu).imp_right fun hstops => hv.apart hok hstops
          · refine (runs_expect names (he.steps.ok hs) .rBrace (by simp) _).bind fun _ v h => ?_
            obtain ⟨vs, hv, -, -, hfound⟩ := h
            refine .pure ⟨_, hadds (he.steps.trans hv) (by simp [hts])
              fun ss value w ws hw hclean _ _ => ?_⟩
            obtain ⟨-, x, rfl, hx⟩ := hfound (hw.clean hclean)
            have hhead := hv.head (he.steps.ok hs) (by simp)
            rw [List.head?_cons, Option.some.injEq] at hhead
            rw [hhead] at hx
            exact absurd hx hgoes
    · have hk : (s.complain .blockElement "block").kind ≠ .eof := by
        rw [State.kind, State.complain_here]
        exact heof
      have hskip : Steps s [(s.complain .blockElement "block").here]
          (s.complain .blockElement "block").bump := .complain _ _ (steps_bump hk)
      refine .step rfl (.step rfl (.pure ⟨_, .on hskip (by simp) fun body ts t ht _ hclean _ => ?_⟩))
      exact absurd ((steps_bump hk).clean (ht.clean hclean)) (hs.not_clean_complain _ _)

theorem runs_blockBody (hcalls : 4 * s.left + 2 ≤ calls) :
    Runs (blockBody r) s fun body t => ∃ ts, Steps s ts t ∧
      (t.Clean names → t.kind = .rBrace →
        Derives names .exact (.body t.here body.1 body.2) ts) :=
  runs_loop hs (runs_blockBodyTurn hr hs hcalls) fun t ht hleft => hr.blockBody t ht (by omega)

end Statements

/-! ## Modules -/

section Modules

/-- A search that goes on is not at the end of the source. -/
theorem kind_of_searchTurn {s : State} {depth depth' : Nat} (h : s.searchTurn depth = .inr depth') :
    s.kind ≠ .eof := by
  intro heof
  simp only [State.searchTurn, heof] at h
  cases h

theorem steps_searchTurn {s t : State} {depth : Nat} (h : s.searchTurn depth = .inl t) :
    ∃ ts, Steps s ts t := by
  rcases State.searchTurn_stops h with rfl | ⟨hk, rfl⟩
  · exact ⟨[], .refl t⟩
  · exact ⟨_, steps_bump hk⟩

theorem steps_synchronize (rounds depth : Nat) (s : State) :
    ∃ ts, Steps s ts (s.synchronize rounds depth) := by
  induction rounds generalizing depth s with
  | zero => exact ⟨[], .refl _⟩
  | succ rounds ih =>
    rw [State.synchronize]
    split
    · next hturn => exact steps_searchTurn hturn
    · next depth' hturn =>
      obtain ⟨ts, h⟩ := ih depth' s.bump
      exact ⟨_, (steps_bump (kind_of_searchTurn hturn)).trans h⟩

/-- Where nothing was reported there is nothing to recover from. -/
theorem steps_recover (reported : Nat) (s : State) :
    ∃ ts, Steps s ts (s.recover reported) ∧
      (¬ reported < s.reports.size → ts = [] ∧ s.recover reported = s) := by
  by_cases h : reported < s.reports.size ∧ s.prevKind ≠ .semi ∧ s.prevKind ≠ .rBrace
  · obtain ⟨ts, hsteps⟩ := steps_synchronize (s.beyond.length + 1) 0 s
    rw [State.recover, if_pos h]
    exact ⟨ts, hsteps, fun hn => absurd h.1 hn⟩
  · rw [State.recover, if_neg h]
    exact ⟨[], .refl s, fun _ => ⟨rfl, rfl⟩⟩

variable (hr : r.Sound names calls)

include hr

theorem runs_stmnt (hs : s.Ok) (hstarts : s.kind.startsStmnt = true) (construct : String)
    (hcalls : 4 * s.left + 2 ≤ calls) :
    Runs (stmnt r construct) s fun st t => ∃ ts, Steps s ts t ∧ ts ≠ [] ∧
      (t.Clean names → ∀ ss us u, Steps t us u → Derives names .exact (.stmnts ss) us →
        Derives names .exact (.stmnts (st :: ss)) (ts ++ us)) := by
  refine .step rfl ?_
  split
  · next hlet =>
    exact (runs_letStmnt hr hs hlet (by omega)).mono fun st t ⟨ts, hst, hne⟩ =>
      ⟨ts, hst.steps, hne, fun ht ss us _ _ hss => .stmntsBinding (hst.derives ht) hss⟩
  · next hdef =>
    exact (runs_defItem hr hs hdef (by omega)).bind fun it t ⟨ts, hit, hne⟩ => .pure
      ⟨ts, hit.steps, hne, fun ht ss us _ _ hss => .stmntsBinding (hit.derives ht) hss⟩
  · next hfn =>
    exact (runs_fnItem hr hs hfn (by omega)).bind fun it t ⟨ts, hit, hne⟩ => .pure
      ⟨ts, hit.steps, hne, fun ht ss us _ _ hss => .stmntsBinding (hit.derives ht) hss⟩
  · next hlet hdef hfn =>
    have hexpr : s.kind.startsExpr = true := by
      simp only [TokenKind.startsStmnt] at hstarts
      exact hstarts
    refine .step rfl ((runs_stmntExpr hr hs construct hcalls).bind fun e t h => ?_)
    obtain ⟨ts, he, hne, hends⟩ := h
    have hts := hne hexpr
    refine (runs_accept .semi (by simp)).bind fun accepted u h => ?_
    rcases h with ⟨rfl, hsemi, hu⟩ | ⟨rfl, hnext, rfl⟩
    · have hall := he.steps.trans hu
      refine .step rfl (.pure ⟨_, hall, by simp, fun hclean ss us v hv hss => ?_⟩)
      have h := Derives.stmntsExpr (he.derives (hu.clean hclean)) hsemi
        (hall.finish_covers hs (by simp)) hss
      simpa using h
    · rw [if_neg Bool.false_ne_true]
      split
      · next hlike =>
        refine .step rfl (.pure ⟨ts, he.steps, hts, fun hclean ss us v hv hss => ?_⟩)
        have hok := he.steps.ok hs
        refine .stmntsForm (he.derives hclean) hlike ?_ ?_ (he.steps.finish_covers hs hts) hss
        · by_cases hus : us = []
          · subst hus
            simp [Token.firstKind]
          · rw [hv.firstKind hok hus]
            exact hnext
        · rw [he.steps.firstKind hs hts]
          exact (hends hclean).imp_right fun hstops => hv.apart hok hstops
      · refine (runs_expect names (he.steps.ok hs) .semi (by simp) _).bind fun _ v h => ?_
        obtain ⟨vs, hv, -, -, hsemi⟩ := h
        have hall := he.steps.trans hv
        refine .step rfl (.pure ⟨_, hall, by simp [hts], fun hclean ss us v hv hss => ?_⟩)
        obtain ⟨-, x, rfl, hx⟩ := hsemi hclean
        have h := Derives.stmntsExpr (he.derives (hv.clean hclean)) hx
          (hall.finish_covers hs (by simp)) hss
        simpa using h

/-- A round of the module loop consumes a token or is the last. -/
theorem runs_stmntsTurn (hs : s.Ok) (hcalls : 4 * s.left + 2 ≤ calls) :
    Runs (stmntsTurn r) s fun turn t => ∃ ts, Turned (EndSpelled names) s turn ts t := by
  refine .step rfl ?_
  split
  · next heof => exact .pure ⟨[], .left (.refl _) ⟨heof, fun _ => .stmntsNil⟩⟩
  · next hsemi =>
    have hbump := steps_bump (s := s) (by simp [hsemi])
    refine .step rfl (.pure ⟨_, .on hbump (by simp) fun ss ts t _ hss => ⟨hss.1, fun ht => ?_⟩⟩)
    exact .stmntsSemi hsemi (hss.2 ht)
  · next heof _ =>
    split
    · next hstarts =>
      refine .step rfl ((runs_stmnt hr hs hstarts _ hcalls).bind fun st t ⟨ts, ht, hne, hst⟩ => ?_)
      obtain ⟨us, hu, hrecover⟩ := steps_recover s.reports.size t
      refine .step rfl (.pure ⟨_, .on (ht.trans hu) (by simp [hne]) fun ss vs v hv hss =>
        ⟨hss.1, fun hclean => ?_⟩⟩)
      have hu' := hv.clean hclean
      have hreports : t.reports = #[] := (hu.clean hu').reports
      obtain ⟨rfl, -⟩ := hrecover (by rw [hreports]; exact Nat.not_lt_zero _)
      rw [List.append_nil]
      exact hst (hu.clean hu') ss vs v (hu.trans hv) (hss.2 hclean)
    · have hk : (s.complain .statement "module").kind ≠ .eof := by
        rw [State.kind, State.complain_here]
        exact heof
      have hskip : Steps s [(s.complain .statement "module").here]
          (s.complain .statement "module").bump := .complain _ _ (steps_bump hk)
      refine .step rfl (.step rfl (.pure ⟨_, .on hskip (by simp) fun ss ts t ht hss =>
        ⟨hss.1, fun hclean => ?_⟩⟩))
      exact absurd ((steps_bump hk).clean (ht.clean hclean)) (hs.not_clean_complain _ _)

theorem runs_stmnts (rounds : Nat) (hs : s.Ok) (hrounds : s.left < rounds)
    (hcalls : 4 * s.left + 2 ≤ calls) :
    Runs (stmnts r rounds) s fun ss t => ∃ ts, Steps s ts t ∧ EndSpelled names ss ts t := by
  induction rounds generalizing s with
  | zero => omega
  | succ rounds ih =>
    exact runs_loop hs (runs_stmntsTurn hr hs hcalls) fun t ht hleft =>
      ih ht (by omega) (by omega)

end Modules

/-- Every production is sound, whatever the number of nested calls that are left. -/
theorem rules_sound (names : Interner) (calls : Nat) : (rules calls).Sound names calls := by
  induction calls with
  | zero =>
    exact {
      expr := fun _ _ _ _ hcalls => by omega
      operators := fun _ _ _ _ _ _ _ _ _ _ _ hcalls => by omega
      ptrn := fun _ _ _ _ hcalls => by omega
      ptrnElems := fun _ _ _ hcalls => by omega
      tupleElems := fun _ _ hcalls => by omega
      sigmaElems := fun _ _ hcalls => by omega
      block := fun _ _ _ hcalls => by omega
      blockBody := fun _ _ hcalls => by omega
      branch := fun _ _ hcalls => by omega
      arms := fun _ _ hcalls => by omega }
  | succ calls ih =>
    exact {
      expr := fun min construct s hs hcalls => runs_expr hs ih min construct (by omega)
      operators := fun start min left o s ts ho h hne hstart hready hcalls => by
        subst hstart
        exact runs_operators ih min ho h hne hready (by omega)
      ptrn := fun typed construct s hs hcalls => runs_ptrn ih hs typed construct (by omega)
      ptrnElems := fun typed s hs hcalls => runs_ptrnElems ih hs typed (by omega)
      tupleElems := fun s hs hcalls => runs_tupleElems ih hs (by omega)
      sigmaElems := fun s hs hcalls => runs_sigmaElems ih hs (by omega)
      block := fun construct s hs hcalls => runs_block ih hs construct (by omega)
      blockBody := fun s hs hcalls => runs_blockBody ih hs (by omega)
      branch := fun s hs hcalls hk => runs_branch ih hs hk (by omega)
      arms := fun s hs hcalls => runs_arms ih hs (by omega) }

end Parser

end ImpLang
