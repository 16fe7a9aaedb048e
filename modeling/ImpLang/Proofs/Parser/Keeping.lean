import Mathlib.Tactic.ByContra
import ImpLang.Proofs.Parser.Fence
import ImpLang.Proofs.Parser.Soundness

/-!
Every production of the grammar stays in front of a fence, whatever it reads and whatever it complains
about.
-/

namespace ImpLang

namespace Parser

variable (bs : List Token)

/-- In braces, and in front of the one that closes them. -/
def Closing (n : Nat) (s : State) : Prop := Braced bs (n + 1) s ∧ s.kind = .rBrace

/-- Productions that stay in front of a fence. Those inside of braces go on until the braces close. -/
structure Rules.Kept (r : Rules) : Prop where
  expr : ∀ n min construct, Keeps bs n Anywhere (r.expr min construct)
  operators : ∀ n start min left, Keeps bs n Anywhere (r.operators start min left)
  ptrn : ∀ n typed construct, Keeps bs n Anywhere (r.ptrn typed construct)
  ptrnElems : ∀ n typed, Keeps bs n Anywhere (r.ptrnElems typed)
  tupleElems : ∀ n, Keeps bs n Anywhere r.tupleElems
  sigmaElems : ∀ n, Keeps bs n Anywhere r.sigmaElems
  block : ∀ n construct, Keeps bs n Anywhere (r.block construct)
  blockBody : ∀ n, Sends (Braced bs (n + 1)) r.blockBody fun _ => Closing bs n
  branch : ∀ n, Keeps bs n Loose r.branch
  arms : ∀ n, Sends (Braced bs (n + 1)) r.arms fun _ => Closing bs n
  /-- A brace in front is consumed. -/
  enters : ∀ n k min construct,
    Sends (fun s => (Braced bs n s ∧ s.kind = .lBrace) ∧ s.behind.length = k)
      (r.expr min construct) fun _ t => k < t.behind.length
  enters_block : ∀ n k construct,
    Sends (fun s => (Braced bs n s ∧ s.kind = .lBrace) ∧ s.behind.length = k)
      (r.block construct) fun _ t => k < t.behind.length

variable {bs} {n : Nat} {P : State → Prop} {r : Rules}

theorem keeps_loop {α : Type} {round : Parser (Turn α)} {rest : Parser α}
    (hround : Keeps bs n P round) (hrest : Keeps bs n Anywhere rest) :
    Keeps bs n P (loop round rest) := by
  refine Keeps.bind hround fun turn => ?_
  cases turn with
  | leave a => exact .pure a
  | goOn wrap => exact hrest.bind fun a => .pure _

theorem keeps_single (expr : Span → Expr) : Keeps bs n Loose (single expr) :=
  .track fun _ => Keeps.bump.bind fun _ => .pure _

theorem keeps_literal : Keeps bs n Loose literal := by
  refine .peek fun token => (Keeps.bump.weaken fun _ hs => hs.1).bind fun _ => ?_
  split
  · exact (Keeps.intern _).bind fun _ => .pure _
  all_goals exact .pure _

/-- The token behind an identifier comes in front. -/
theorem sends_ident (next : TokenKind) (construct : String) :
    Sends (fun s => Braced bs n s ∧ s.kind = .identifier ∧ s.nextKind = next) (ident construct)
      fun _ t => Braced bs n t ∧ t.kind = next := by
  intro s id t ⟨hs, hkind, hnext⟩ hrun
  obtain ⟨id', t', hrun', ts, hsteps, hts, -⟩ := runs_ident ⟨#[]⟩ hs.ok construct
  cases hrun.symm.trans hrun'
  obtain rfl := hts hkind
  refine ⟨⟨_, hsteps⟩, ?_, (hsteps.kind_of_singleton hs.ok).trans hnext⟩
  exact (Keeps.ident (P := Anywhere) construct s id t ⟨hs, trivial⟩ hrun).2

theorem keeps_elemName : Keeps bs n P elemName := by
  refine .kind fun here => .nextKind fun next => .ite (fun hhere => ?_) fun _ => .pure _
  obtain ⟨rfl, rfl⟩ := hhere
  exact Sends.bind ((sends_ident .assign _).weaken fun s hs => ⟨hs.1, hs.2.1.2, hs.2.2⟩) fun id =>
    (Keeps.bump.at_kind rfl).bind fun _ => .pure _

/-- The token behind one that is loose comes in front. -/
theorem sends_bump (kind next : TokenKind) (hkind : kind.isLoose = true) :
    Sends (fun s => Braced bs n s ∧ s.kind = kind ∧ s.nextKind = next) bump
      fun _ t => Braced bs n t ∧ t.kind = next := by
  refine Sends.bump fun s ⟨hs, hhere, hnext⟩ => ?_
  obtain ⟨hsteps, hbump⟩ := hs.bump_loose ((congrArg TokenKind.isLoose hhere).trans hkind)
  exact ⟨hsteps, hbump, (hsteps.kind_of_singleton hs.ok).trans hnext⟩

theorem sends_open (construct : String) :
    Sends (Braced bs n) (expect .lBrace construct)
      fun found => Braced bs (if found then n + 1 else n) := by
  show Sends _ (kind >>= fun here => if here = .lBrace then _ else _) _
  refine Sends.look (f := State.kind) (fun _ => rfl) fun here => Sends.ite (fun hhere => ?_)
    fun _ => ?_
  · refine Sends.bind (Sends.bump fun s hs => ?_) fun _ => Sends.pure fun _ => id
    exact hs.1.bump_open (hs.2.trans hhere)
  · exact Sends.bind (Keeps.unexpected (P := fun s => s.kind = here) _ _) fun _ => Sends.pure fun _ => id

theorem sends_close (construct : String) :
    Sends (Closing bs n) (expect .rBrace construct) fun _ => Braced bs n := by
  show Sends _ (kind >>= fun here => if here = .rBrace then _ else _) _
  refine Sends.look (f := State.kind) (fun _ => rfl) fun here => Sends.ite (fun hhere => ?_)
    fun hhere => ?_
  · exact Sends.bind (Sends.bump fun s hs => hs.1.1.bump_close hs.1.2) fun _ => Sends.pure fun _ => id
  · exact fun s a t hs => absurd (hs.2.symm.trans hs.1.2) hhere

theorem sends_unclosed (construct : String) :
    Sends (fun s => Braced bs n s ∧ s.kind ≠ .rBrace) (expect .rBrace construct)
      fun _ => Braced bs n := by
  show Sends _ (kind >>= fun here => if here = .rBrace then _ else _) _
  refine Sends.look (f := State.kind) (fun _ => rfl) fun here => Sends.ite (fun hhere => ?_)
    fun _ => ?_
  · exact fun s a t hs => absurd (hs.2.trans hhere) hs.1.2
  · exact Sends.bind (Sends.weaken (Keeps.unexpected (P := Anywhere) _ _) fun _ hs => ⟨hs.1.1, trivial⟩)
      fun _ => Sends.pure fun _ => id

/-- Where no separator is found nothing happens. -/
theorem sends_acceptSeparator :
    Sends (fun s => Braced bs n s ∧ P s) acceptSeparator
      fun found t => Braced bs n t ∧ (found = false → P t) := by
  intro s found t hs hrun
  obtain ⟨hsteps, ht⟩ := Keeps.acceptSeparator s found t hs hrun
  refine ⟨hsteps, ht, fun hfound => ?_⟩
  obtain ⟨found', t', hrun', hsep⟩ := runs_acceptSeparator (s := s)
  cases hrun.symm.trans hrun'
  rcases hsep with ⟨hfound', -⟩ | ⟨-, rfl⟩
  · cases hfound.symm.trans hfound'
  · exact hs.2

section Productions

variable (hr : r.Kept bs)

include hr

theorem keeps_ascription : Keeps bs n P (ascription r) :=
  (Keeps.accept rfl).bind fun _ => .ite (fun _ => (hr.expr n _ _).bind fun _ => .pure _)
    fun _ => .pure _

theorem keeps_ptrn (typed : Bool) (construct : String) :
    Keeps bs n Anywhere (ptrn r typed construct) := by
  refine .track fun start => .kind fun here => ?_
  split
  · exact (Keeps.ident construct).bind fun id => (Keeps.declare id .binding (by decide)).bind fun _ =>
      (keeps_ascription hr).bind fun _ => .finish fun _ => .pure _
  · exact (Keeps.bump.on rfl).bind fun _ => (hr.ptrnElems n typed).bind fun _ =>
      (Keeps.expect rfl _).bind fun _ => (keeps_ascription hr).bind fun _ =>
      .finish fun _ => .pure _
  · exact (Keeps.unexpected _ _).bind fun _ => .finish fun _ => .pure _

theorem keeps_ptrnElemsTurn (typed : Bool) : Keeps bs n Anywhere (ptrnElemsTurn r typed) := by
  refine .kind fun here => ?_
  split
  · exact .pure _
  · exact .pure _
  · exact (hr.ptrn n typed _).everywhere.bind fun elem => .ite (fun _ => .pure _) fun _ =>
      Keeps.acceptSeparator.bind fun _ => .ite (fun _ => .pure _) fun _ => .pure _

theorem keeps_tupleElemsTurn : Keeps bs n Anywhere (tupleElemsTurn r) := by
  refine .kind fun here => ?_
  split
  · exact .pure _
  · exact .pure _
  · exact keeps_elemName.bind fun id => (hr.expr n _ _).bind fun expr => .ite (fun _ => .pure _)
      fun _ => Keeps.acceptSeparator.bind fun _ => .ite (fun _ => .pure _) fun _ => .pure _

theorem keeps_tuple : Keeps bs n Loose (tuple r) :=
  .track fun _ => Keeps.bump.bind fun _ => (hr.tupleElems n).bind fun _ =>
    (Keeps.expect rfl _).bind fun _ => .finish fun _ => .pure _

theorem keeps_sigmaElem : Keeps bs n P (sigmaElem r) := by
  refine .track fun start => .kind fun here => .nextKind fun next => .ite (fun hhere => ?_)
    fun _ => ?_
  · obtain ⟨rfl, rfl⟩ := hhere
    exact Sends.bind ((sends_ident .colon _).weaken fun s hs => ⟨hs.1, hs.2.1.2, hs.2.2⟩) fun id =>
      Sends.bind (Keeps.sends_declare id .binding (by decide)) fun _ => (Keeps.bump.at_kind rfl).bind fun _ =>
      (hr.expr n _ _).bind fun _ => .finish fun _ => .pure _
  · exact (hr.expr n _ _).everywhere.bind fun ty => (Keeps.intern _).bind fun _ =>
      (Keeps.declare _ .binding (by decide)).bind fun _ => .pure _

theorem keeps_sigmaElemsTurn : Keeps bs n Anywhere (sigmaElemsTurn r) := by
  refine .kind fun here => ?_
  split
  · exact .pure _
  · exact .pure _
  · exact (keeps_sigmaElem hr).bind fun elem => .ite (fun _ => .pure _) fun _ =>
      Keeps.acceptSeparator.bind fun _ => .ite (fun _ => .pure _) fun _ => .pure _

theorem keeps_sigma : Keeps bs n Loose (sigma r) :=
  .track fun _ => Keeps.bump.bind fun _ => (hr.sigmaElems n).bind fun _ =>
    (Keeps.expect rfl _).bind fun _ => .finish fun _ => .pure _

theorem keeps_codomain (construct : String) : Keeps bs n P (codomain r construct) :=
  (Keeps.accept rfl).bind fun _ => .ite (fun _ => hr.expr n _ _) fun _ => .prev fun _ => .pure _

theorem keeps_lambda : Keeps bs n Loose (lambda r) :=
  .track fun _ => Keeps.bump.bind fun _ => (hr.ptrn n _ _).bind fun _ =>
    (keeps_codomain hr _).bind fun _ => (hr.block n _).bind fun _ => .finish fun _ => .pure _

theorem keeps_pi : Keeps bs n Loose (pi r) :=
  .track fun _ => Keeps.bump.bind fun _ => (hr.ptrn n _ _).bind fun _ =>
    (Keeps.expect rfl _).bind fun _ => (hr.expr n _ _).bind fun _ => .finish fun _ => .pure _

theorem keeps_continuation : Keeps bs n Loose (continuation r) :=
  .track fun _ => Keeps.bump.bind fun _ => (hr.ptrn n _ _).bind fun _ =>
    .prev fun _ => .finish fun _ => .pure _

theorem keeps_pack : Keeps bs n Loose (pack r) :=
  .track fun _ => Keeps.bump.bind fun _ => (hr.ptrn n _ _).bind fun _ =>
    (Keeps.expect rfl _).bind fun _ => (hr.expr n _ _).bind fun _ =>
    (Keeps.expect rfl _).bind fun _ => .finish fun _ => .pure _

theorem keeps_variadic : Keeps bs n Loose (variadic r) :=
  .track fun _ => Keeps.bump.bind fun _ => (hr.ptrn n _ _).bind fun _ =>
    (Keeps.expect rfl _).bind fun _ => (hr.expr n _ _).bind fun _ =>
    (Keeps.expect rfl _).bind fun _ => .finish fun _ => .pure _

theorem keeps_otherwise : Keeps bs n P (otherwise r) := by
  refine (Keeps.accept rfl).bind fun _ => .ite (fun _ => .isAt fun here => .ite (fun hhere => ?_)
    fun _ => (hr.block n _).everywhere) fun _ => .prev fun _ => .pure _
  refine (hr.branch n).weaken fun s hs => ?_
  rw [Loose, of_decide_eq_true (hs.2.trans hhere)]
  rfl

theorem keeps_branch : Keeps bs n Loose (branch r) :=
  .track fun _ => Keeps.bump.bind fun _ => (hr.expr n _ _).bind fun _ =>
    (hr.block n _).bind fun _ => (keeps_otherwise hr).bind fun _ => .finish fun _ => .pure _

theorem keeps_forLoop : Keeps bs n Loose (forLoop r) :=
  .track fun _ => Keeps.bump.bind fun _ => (hr.ptrn n _ _).bind fun _ =>
    (Keeps.expect rfl _).bind fun _ => (hr.expr n _ _).bind fun _ =>
    (hr.block n _).bind fun _ => .finish fun _ => .pure _

theorem keeps_whileLoop : Keeps bs n Loose (whileLoop r) :=
  .track fun _ => Keeps.bump.bind fun _ => (hr.expr n _ _).bind fun _ =>
    (hr.block n _).bind fun _ => .finish fun _ => .pure _

theorem keeps_select : Keeps bs n Loose (select r) := by
  refine .track fun start => Keeps.bump.bind fun _ => (hr.expr n _ _).bind fun scrutinee =>
    Sends.weaken (Sends.bind (sends_open _) fun found => .ite (fun hfound => ?_) fun hfound => ?_)
      fun _ hs => hs.1
  · rw [hfound]
    exact Sends.bind (hr.arms n) fun _ => Sends.bind (sends_close _) fun _ =>
      .finish fun _ => .pure fun _ => id
  · rw [eq_false_of_ne_true hfound]
    exact .finish fun _ => .pure fun _ => id

theorem keeps_primary (construct : String) : Keeps bs n P (primary r construct) := by
  refine .kind fun here => ?_
  split
  · exact (Keeps.ident construct).bind fun _ => .pure _
  · exact keeps_literal.on rfl
  · exact (keeps_tuple hr).on rfl
  · exact (keeps_sigma hr).on rfl
  · exact (hr.block n construct).everywhere
  · exact (hr.branch n).on rfl
  · exact (keeps_select hr).on rfl
  · exact (keeps_forLoop hr).on rfl
  · exact (keeps_whileLoop hr).on rfl
  · exact (keeps_lambda hr).on rfl
  · exact (keeps_pi hr).on rfl
  · exact (keeps_continuation hr).on rfl
  · exact (keeps_pack hr).on rfl
  · exact (keeps_variadic hr).on rfl
  · exact (keeps_single _).on rfl
  · exact (keeps_single _).on rfl
  · exact (keeps_single _).on rfl
  · exact (keeps_single _).on rfl
  · exact (keeps_single _).on rfl
  · exact (keeps_single _).on rfl
  · exact .track fun _ => (Keeps.unexpected _ _).bind fun _ => .finish fun _ => .pure _

theorem keeps_expr (min : Prec) (construct : String) :
    Keeps bs n Anywhere (expr r min construct) := by
  refine .track fun start => .kind fun here => ?_
  split
  · next op hop =>
    exact (Keeps.bump.on (TokenKind.isLoose_of_prefixOp? hop)).bind fun _ =>
      (hr.expr n _ _).bind fun _ => .finish fun _ => hr.operators n _ _ _
  · exact (keeps_primary hr construct).bind fun operand => .ite (fun _ => .pure _)
      fun _ => hr.operators n _ _ _

theorem keeps_operators (start : Span) (min : Prec) (left : Expr) :
    Keeps bs n Anywhere (operators r start min left) := by
  refine .kind fun here => ?_
  split
  · next op hop =>
    exact (Keeps.bump.on (TokenKind.isLoose_of_postfixOp? hop)).bind fun _ =>
      .finish fun _ => hr.operators n _ _ _
  · refine .ite (fun hhere => ?_) fun _ => .nextKind fun next => .ite (fun hhere => ?_) fun _ =>
      .ite (fun hhere => ?_) fun _ => ?_
    · exact ((keeps_tuple hr).on (hhere ▸ rfl)).bind fun _ => .finish fun _ => hr.operators n _ _ _
    · obtain ⟨rfl, rfl⟩ := hhere
      exact Sends.bind ((sends_bump .not .lParen rfl).weaken fun s hs => ⟨hs.1, hs.2.1.2, hs.2.2⟩)
        fun _ => ((keeps_tuple hr).at_kind rfl).bind fun _ => .finish fun _ => hr.operators n _ _ _
    · exact ((Keeps.bump.on (P := Anywhere) (hhere ▸ rfl)).weaken fun _ hs => hs.1).bind fun _ =>
        (Keeps.ident _).bind fun _ => .finish fun _ => hr.operators n _ _ _
    · split
      · next op hop =>
        refine .ite (fun _ => .pure _) fun _ => ?_
        exact ((Keeps.bump.on (P := Anywhere) (TokenKind.isLoose_of_infixOp? hop)).weaken
          fun _ hs => hs.1).bind fun _ => (hr.expr n _ _).bind fun _ =>
          .finish fun _ => hr.operators n _ _ _
      · exact .pure _

theorem keeps_stmntExpr (construct : String) : Keeps bs n P (stmntExpr r construct) := by
  refine .kind fun here => ?_
  split
  · exact (hr.block n construct).everywhere
  · exact (hr.branch n).on rfl
  · exact (keeps_select hr).on rfl
  · exact (keeps_forLoop hr).on rfl
  · exact (keeps_whileLoop hr).on rfl
  · exact (hr.expr n _ _).everywhere

/-! ## Statements and blocks -/

theorem keeps_letStmnt : Keeps bs n (Passable bs) (letStmnt r) :=
  .track fun _ => Keeps.step.bind fun _ => (hr.ptrn n _ _).bind fun _ =>
    (Keeps.expect rfl _).bind fun _ => (hr.expr n _ _).bind fun _ =>
    (Keeps.expect rfl _).bind fun _ => .finish fun _ => .pure _

theorem keeps_defItem : Keeps bs n (Passable bs) (defItem r) :=
  .track fun _ => Keeps.step.bind fun _ => (Keeps.ident _).bind fun id =>
    (Keeps.declare id .item (by decide)).bind fun _ => (Keeps.expect rfl _).bind fun _ =>
    (hr.expr n _ _).bind fun _ => (Keeps.expect rfl _).bind fun _ => .finish fun _ => .pure _

theorem keeps_fnItem : Keeps bs n (Passable bs) (fnItem r) :=
  .track fun _ => Keeps.step.bind fun _ => (Keeps.ident _).bind fun id =>
    (Keeps.declare id .item (by decide)).bind fun _ => .track fun _ => (hr.ptrn n _ _).bind fun _ =>
    (keeps_codomain hr _).bind fun _ => (hr.block n _).bind fun _ => .finish fun _ =>
    .finish fun _ => .pure _

theorem keeps_stmnt (construct : String) :
    Keeps bs n (fun s => s.pending ≠ bs) (stmnt r construct) := by
  have hword : ∀ {kind : TokenKind}, kind ∈ TokenKind.stmntWords → ∀ s : State,
      (s.pending ≠ bs ∧ s.kind = kind) → Passable bs s := by
    intro kind hkind s ⟨hs, hhere⟩
    subst hhere
    exact ⟨hs, fun h => absurd (h ▸ hkind) (by decide), fun h => absurd (h ▸ hkind) (by decide)⟩
  refine .kind fun here => ?_
  split
  · exact (keeps_letStmnt hr).weaken (hword (by decide))
  · exact ((keeps_defItem hr).weaken (hword (by decide))).bind fun _ => .pure _
  · exact ((keeps_fnItem hr).weaken (hword (by decide))).bind fun _ => .pure _
  · refine .track fun start => (keeps_stmntExpr hr _).bind fun expr => (Keeps.accept rfl).bind fun _ => ?_
    refine .ite (fun _ => .finish fun _ => .pure _) fun _ => .ite (fun _ => .finish fun _ => .pure _)
      fun _ => (Keeps.expect rfl _).bind fun _ => .finish fun _ => .pure _

theorem keeps_block (construct : String) : Keeps bs n P (block r construct) := by
  refine .track fun start => Sends.weaken (Sends.bind (sends_open _) fun found =>
    .ite (fun hfound => ?_) fun hfound => ?_) fun _ hs => hs.1
  · rw [hfound]
    exact Sends.bind (hr.blockBody n) fun _ => Sends.bind (sends_close _) fun _ =>
      .finish fun _ => .pure fun _ => id
  · rw [eq_false_of_ne_true hfound]
    exact .finish fun _ => .pure fun _ => id

omit hr in
/-- How a round of a loop in braces ends: in front of the closing brace if it is the last. -/
def Inside (bs : List Token) (n : Nat) {α : Type} (turn : Turn α) (t : State) : Prop :=
  Braced bs (n + 1) t ∧ (turn.goesOn = false → t.kind = .rBrace)

omit hr in
theorem sends_loop {α : Type} {round : Parser (Turn α)} {rest : Parser α}
    (hround : Sends (Braced bs (n + 1)) round (Inside bs n))
    (hrest : Sends (Braced bs (n + 1)) rest fun _ => Closing bs n) :
    Sends (Braced bs (n + 1)) (loop round rest) fun _ => Closing bs n := by
  refine Sends.bind hround fun turn => ?_
  cases turn with
  | leave a => exact .pure fun _ hs => ⟨hs.1, hs.2 rfl⟩
  | goOn wrap => exact Sends.bind (hrest.weaken fun _ hs => hs.1) fun _ => .pure fun _ => id

omit hr in
/-- Inside of braces the source does not end. -/
theorem not_eof_of_braced {α : Type} {m : Parser α} {Q : α → State → Prop} :
    Sends (fun s => Braced bs (n + 1) s ∧ s.kind = .eof) m Q :=
  fun _ _ _ hs => absurd hs.2 (hs.1.kind_ne_eof (hs.1.pending_ne (.inr (Nat.succ_ne_zero n))))

theorem sends_blockBodyTurn : Sends (Braced bs (n + 1)) (blockBodyTurn r) (Inside bs n) := by
  have hon : ∀ wrap : List Stmnt × Expr → List Stmnt × Expr,
      Sends (Braced bs (n + 1)) (pure (.goOn wrap)) (Inside bs n) :=
    fun wrap => .pure fun _ hs => ⟨hs, nofun⟩
  have hword : ∀ {kind : TokenKind}, kind ∈ TokenKind.stmntWords → ∀ s : State,
      Braced bs (n + 1) s ∧ s.kind = kind → Braced bs (n + 1) s ∧ Passable bs s := by
    intro kind hkind s ⟨hs, hhere⟩
    subst hhere
    exact ⟨hs, hs.pending_ne (.inr (Nat.succ_ne_zero n)),
      fun h => absurd (h ▸ hkind) (by decide), fun h => absurd (h ▸ hkind) (by decide)⟩
  refine Sends.look (f := State.kind) (fun _ => rfl) fun here => ?_
  split
  · exact Sends.bind (Keeps.bump.at_kind rfl) fun _ => hon _
  · exact .track fun _ => .pure fun _ hs => ⟨hs.1, fun _ => hs.2⟩
  · exact not_eof_of_braced
  · exact Sends.bind (Sends.weaken (keeps_letStmnt hr) (hword (by decide))) fun _ => hon _
  · exact Sends.bind (Sends.weaken (keeps_defItem hr) (hword (by decide))) fun _ => hon _
  · exact Sends.bind (Sends.weaken (keeps_fnItem hr) (hword (by decide))) fun _ => hon _
  · next hclose _ _ _ _ =>
    refine .ite (fun _ => ?_) fun hstarts => ?_
    · refine .track fun start => Sends.bind (keeps_stmntExpr hr _) fun expr =>
        Sends.bind (Sends.weaken (Keeps.accept (P := Anywhere) rfl) fun _ hs => ⟨hs, trivial⟩) fun _ =>
        .ite (fun _ => .finish fun _ => hon _) fun _ => ?_
      refine Sends.look (f := fun s => decide (s.kind = .rBrace)) (fun _ => rfl) fun closes =>
        .ite (fun hcloses => ?_) fun hopen => ?_
      · exact .pure fun _ hs => ⟨hs.1, fun _ => of_decide_eq_true (hs.2.trans hcloses)⟩
      · refine .ite (fun _ => (hon _).weaken fun _ hs => hs.1) fun _ => ?_
        refine Sends.bind ((sends_unclosed _).weaken fun _ hs => ⟨hs.1, fun h => ?_⟩) fun _ => hon _
        exact hopen (hs.2.symm.trans (decide_eq_true h))
    · refine Sends.bind (Keeps.sends_unexpected _ _) fun _ =>
        Sends.bind (Sends.weaken Keeps.step fun s hs => ?_) fun _ => hon _
      obtain ⟨hs, rfl⟩ := hs
      refine ⟨hs, hs.pending_ne (.inr (Nat.succ_ne_zero n)), fun h => ?_, hclose⟩
      rw [h] at hstarts
      exact hstarts rfl

omit hr in
/-- Behind moves from a state on, which consumed a brace if one stood there. -/
def Entered (first s : State) : Prop :=
  ∃ ts, Steps first ts s ∧ (first.kind = .lBrace → ts ≠ [])

theorem sends_entering {first : State} (hfirst : first.Ok) (min : Prec) (construct : String) :
    Sends (fun s => Braced bs n s ∧ ∃ us, Steps first us s) (r.expr min construct)
      fun _ t => Braced bs n t ∧ Entered first t := by
  intro s a t ⟨hs, us, hus⟩ hrun
  obtain ⟨⟨ts, hts⟩, ht⟩ := hr.expr n min construct s a t ⟨hs, trivial⟩ hrun
  refine ⟨⟨ts, hts⟩, ht, us ++ ts, hus.trans hts, fun hbrace hnil => ?_⟩
  obtain ⟨rfl, rfl⟩ := List.append_eq_nil_iff.1 hnil
  have hkind : s.kind = .lBrace := by
    rw [State.kind, (hus.here_of_nil hfirst).1]
    exact hbrace
  have hlt := (hr.enters n _ min construct s a t ⟨⟨hs, hkind⟩, rfl⟩ hrun).2
  exact absurd (congrArg List.length hts.behind) (Nat.ne_of_gt hlt)

/-- An attempt at a case that consumes nothing skips a token, but no brace: one that opens would have been
consumed, and one that closes ends the loop. -/
theorem sends_armsTurn : Sends (Braced bs (n + 1)) (armsTurn r) (Inside bs n) := by
  have hon : ∀ wrap : List Arm → List Arm,
      Sends (Braced bs (n + 1)) (pure (.goOn wrap)) (Inside bs n) :=
    fun wrap => .pure fun _ hs => ⟨hs, nofun⟩
  refine .each fun first hfirst => Sends.look (f := State.kind) (fun _ => rfl) fun here => ?_
  split
  · exact .pure fun s hs => ⟨hs.1 ▸ hfirst, fun _ => hs.2⟩
  · exact not_eof_of_braced.weaken fun s hs => ⟨hs.1 ▸ hfirst, hs.2⟩
  · next hclose _ =>
    by_cases hhere : first.kind = here
    case neg => exact fun s a t hs => absurd (hs.1 ▸ hs.2) hhere
    have hsince : ∀ s ts t, Steps s ts t → (∃ us, Steps first us s) → ∃ us, Steps first us t :=
      fun s ts t hsteps ⟨us, hus⟩ => ⟨us ++ ts, hus.trans hsteps⟩
    refine Sends.look (f := fun s => s.here.span) (fun _ => rfl) fun start => ?_
    by_cases hstart : first.here.span = start
    case neg => exact fun s a t hs => absurd (hs.1.1 ▸ hs.2) hstart
    refine Sends.bind (((hr.ptrn (n + 1) _ _).frame hsince).weaken fun s hs => ?_) fun ptrn =>
      Sends.bind (((Keeps.expect (P := Anywhere) rfl _).frame hsince).weaken
        fun s hs => ⟨⟨hs.1, trivial⟩, hs.2⟩) fun _ =>
      Sends.bind (sends_entering hr hfirst.ok _ _) fun body =>
      Sends.look (f := State.prev) (fun _ => rfl) fun last => .finish fun span => ?_
    · obtain ⟨⟨rfl, -⟩, -⟩ := hs
      exact ⟨⟨hfirst, trivial⟩, [], .refl s⟩
    · refine Sends.bind (Sends.weaken (sends_acceptSeparator (P := fun s => Entered first s ∧
        s.prev = last)) fun s hs => ⟨hs.1.1, hs.1.2, hs.2⟩) fun separated => ?_
      refine .ite (fun _ => (hon _).weaken fun _ hs => hs.1) fun hseparated =>
        .ite (fun _ => (hon _).weaken fun _ hs => hs.1) fun hconsumed => ?_
      refine Sends.bind (Sends.weaken Keeps.step fun s hs => ?_) fun _ => hon _
      obtain ⟨hs, hnone⟩ := hs
      obtain ⟨⟨ts, hts, hbrace⟩, hlast⟩ := hnone (eq_false_of_ne_true hseparated)
      -- What consumed a token ends behind the begin of the case, and then nothing is skipped.
      have hnil : ts = [] := by
        by_contra hne
        exact hconsumed (hstart ▸ hlast ▸ hts.start_lt hfirst.ok hne)
      subst hnil
      have hkind : s.kind = first.kind := congrArg Token.kind (hts.here_of_nil hfirst.ok).1
      refine ⟨hs, hs.pending_ne (.inr (Nat.succ_ne_zero n)), fun h => ?_, fun h => ?_⟩
      · exact hbrace (hkind.symm.trans h) rfl
      · exact hclose (hhere.symm.trans (hkind.symm.trans h))

theorem enters_block (k : Nat) (construct : String) :
    Sends (fun s => (Braced bs n s ∧ s.kind = .lBrace) ∧ s.behind.length = k)
      (block r construct) fun _ t => k < t.behind.length := by
  have hopen : Sends (fun s => (Braced bs n s ∧ s.kind = .lBrace) ∧ s.behind.length = k)
      (expect .lBrace construct)
      fun found t => found = true ∧ Braced bs (n + 1) t ∧ k < t.behind.length := by
    show Sends _ (kind >>= fun here => if here = .lBrace then _ else _) _
    refine Sends.look (f := State.kind) (fun _ => rfl) fun here => Sends.ite (fun hhere => ?_)
      fun hhere => ?_
    · refine Sends.bind (M := fun _ t => Braced bs (n + 1) t ∧ k < t.behind.length)
        (Sends.bump fun s ⟨⟨⟨hs, hkind⟩, hk⟩, _⟩ => ?_) fun _ => Sends.pure fun _ ht => ⟨rfl, ht⟩
      obtain ⟨hsteps, hbump⟩ := hs.bump_open hkind
      refine ⟨hsteps, hbump, ?_⟩
      rw [s.behind_bump, ← hk]
      exact Nat.lt_succ_self _
    · exact fun s a t hs => absurd (hs.2.symm.trans hs.1.1.2) hhere
  refine .track fun start => Sends.bind hopen fun found => .ite (fun _ => ?_)
    fun hfound => fun s a t hs => absurd hs.1 hfound
  refine Sends.bind (((hr.blockBody n).onward k).weaken fun s hs => hs.2) fun _ =>
    Sends.bind ((sends_close _).onward k) fun _ => .finish fun _ => .pure fun _ hs => hs.2

theorem enters_expr (k : Nat) (min : Prec) (construct : String) :
    Sends (fun s => (Braced bs n s ∧ s.kind = .lBrace) ∧ s.behind.length = k)
      (expr r min construct) fun _ t => k < t.behind.length := by
  have hprimary : Sends (fun s => (Braced bs n s ∧ s.kind = .lBrace) ∧ s.behind.length = k)
      (primary r construct) fun _ t => Braced bs n t ∧ k < t.behind.length := by
    refine Sends.look (f := State.kind) (fun _ => rfl) fun here => ?_
    by_cases hhere : here = .lBrace
    case neg => exact fun s a t hs => absurd (hs.2.symm.trans hs.1.1.2) hhere
    subst hhere
    exact Sends.weaken (Sends.both (Sends.weaken (hr.block n construct) fun _ hs => ⟨hs.1.1, trivial⟩)
      (hr.enters_block n k construct)) fun _ hs => hs.1
  refine .track fun start => Sends.look (f := State.kind) (fun _ => rfl) fun here => ?_
  split
  · next op hop =>
    intro s a t hs
    rw [← hs.2, hs.1.1.2] at hop
    cases hop
  · refine Sends.bind (hprimary.weaken fun s hs => hs.1) fun operand =>
      .ite (fun _ => .pure fun _ hs => hs.2) fun _ => ?_
    exact (((hr.operators n _ _ _).onward k).weaken fun s hs => ⟨⟨hs.1, trivial⟩, hs.2⟩).strengthen
      fun _ _ ht => ht.2

end Productions

theorem kept_rules (calls : Nat) : (rules calls).Kept bs := by
  induction calls with
  | zero =>
    exact {
      expr _ _ _ := .failure
      operators _ _ _ _ := .failure
      ptrn _ _ _ := .failure
      ptrnElems _ _ := .failure
      tupleElems _ := .failure
      sigmaElems _ := .failure
      block _ _ := .failure
      blockBody _ := .failure
      branch _ := .failure
      arms _ := .failure
      enters _ _ _ _ := .failure
      enters_block _ _ _ := .failure }
  | succ calls hr =>
    exact {
      expr _ := keeps_expr hr
      operators _ := keeps_operators hr
      ptrn _ := keeps_ptrn hr
      ptrnElems n typed := keeps_loop (keeps_ptrnElemsTurn hr typed) (hr.ptrnElems n typed)
      tupleElems n := keeps_loop (keeps_tupleElemsTurn hr) (hr.tupleElems n)
      sigmaElems n := keeps_loop (keeps_sigmaElemsTurn hr) (hr.sigmaElems n)
      block _ := keeps_block hr
      blockBody n := sends_loop (sends_blockBodyTurn hr) (hr.blockBody n)
      branch _ := keeps_branch hr
      arms n := sends_loop (sends_armsTurn hr) (hr.arms n)
      enters _ := enters_expr hr
      enters_block _ := enters_block hr }

/-! ## Statements outside of blocks -/

/-- A search ends where it is or behind the token in front, or it goes on and counts the brackets. -/
theorem searchTurn_cases (s : State) (depth : Nat) :
    s.searchTurn depth = .inl s ∨ s.searchTurn depth = .inl s.bump ∨
      s.searchTurn depth = .inr (if s.kind.closer?.isSome then depth + 1
        else if s.kind.isCloser then depth - 1 else depth) := by
  rw [State.searchTurn]
  generalize s.kind = kind
  by_cases hdepth : depth = 0
  · cases kind <;> first
      | exact .inl rfl
      | exact .inl (if_pos hdepth)
      | exact .inr (.inl (if_pos hdepth))
      | exact .inr (.inr rfl)
  · cases kind <;> first
      | exact .inl rfl
      | exact .inr (.inr (if_neg hdepth))
      | exact .inr (.inr rfl)

/-- A search has found no more brackets open than are due, so none at the fence. -/
theorem Fenced.searchTurn {s : State} {closers : List TokenKind} {depth : Nat}
    (hs : Fenced bs closers s) (hdepth : depth ≤ closers.length) :
    (∀ t, s.searchTurn depth = .inl t → ∃ closers, Fenced bs closers t) ∧
      ∀ deeper, s.searchTurn depth = .inr deeper →
        ∃ closers, Fenced bs closers s.bump ∧ deeper ≤ closers.length := by
  by_cases hfence : s.pending = bs
  · -- At the fence nothing is due, so the search has counted down to zero and stops at the word.
    obtain ⟨word, rest, rfl, hword⟩ := hs.word
    obtain ⟨ts, hts, hnested⟩ := hs.ahead
    obtain rfl : ts = [] := List.self_eq_append_left.1 (hfence.symm.trans hts)
    obtain rfl : closers = [] := List.isEmpty_iff.1 hnested
    obtain rfl : depth = 0 := Nat.le_zero.1 hdepth
    have hstop : s.searchTurn 0 = .inl s := by
      obtain ⟨rfl, -⟩ := List.cons.inj hfence
      simp only [TokenKind.stmntWords, List.mem_cons, List.not_mem_nil, or_false] at hword
      rcases hword with hword | hword | hword <;> simp [State.searchTurn, State.kind, hword]
    rw [hstop]
    exact ⟨fun t ht => ⟨[], Sum.inl.inj ht ▸ hs⟩, fun _ h => absurd h Sum.inl_ne_inr⟩
  · obtain ⟨hk, behind, hdue, hbump⟩ := hs.bump hfence
    rcases searchTurn_cases s depth with hturn | hturn | hturn
    · rw [hturn]
      exact ⟨fun t ht => ⟨closers, Sum.inl.inj ht ▸ hs⟩, fun _ h => absurd h Sum.inl_ne_inr⟩
    · rw [hturn]
      exact ⟨fun t ht => ⟨behind, Sum.inl.inj ht ▸ hbump⟩, fun _ h => absurd h Sum.inl_ne_inr⟩
    · rw [hturn]
      refine ⟨fun t ht => absurd ht Sum.inr_ne_inl, fun deeper hdeeper => ⟨behind, hbump, ?_⟩⟩
      obtain rfl := Sum.inr.inj hdeeper
      rcases TokenKind.due?_cases hdue with ⟨closer, hcloser, rfl⟩ | ⟨hclose, rfl⟩ | ⟨hopen, hclose, rfl⟩
      · rw [hcloser, if_pos Option.isSome_some, List.length_cons]
        exact Nat.succ_le_succ hdepth
      · have hopen : s.kind.closer? = none := by
          generalize s.kind = kind at hclose
          cases kind <;> first | rfl | cases hclose
        rw [hopen, hclose, Option.isSome_none, if_neg Bool.false_ne_true, if_pos rfl]
        exact Nat.sub_le_of_le_add hdepth
      · rw [hopen, hclose, Option.isSome_none, if_neg Bool.false_ne_true, if_neg Bool.false_ne_true]
        exact hdepth

/-- A search stops at the fence at the latest: as many brackets are due there as it has found open. -/
theorem Fenced.synchronize {s : State} {closers : List TokenKind} (hs : Fenced bs closers s)
    (rounds : Nat) {depth : Nat} (hdepth : depth ≤ closers.length) :
    ∃ closers, Fenced bs closers (s.synchronize rounds depth) := by
  induction rounds generalizing s closers depth with
  | zero => exact ⟨closers, hs⟩
  | succ rounds ih =>
    obtain ⟨hfound, hgo⟩ := hs.searchTurn hdepth
    rw [State.synchronize]
    split
    · next t hturn => exact hfound t hturn
    · next deeper hturn =>
      obtain ⟨closers, hbump, hdeeper⟩ := hgo deeper hturn
      exact ih hbump hdeeper

/-- On the way to a fence, with whatever brackets open. -/
def Outside (bs : List Token) (s : State) : Prop := ∃ closers, Fenced bs closers s

theorem Outside.of_braced {s : State} (h : Braced bs n s) : Outside bs s := by
  obtain ⟨closers, hs, -⟩ := h
  exact ⟨closers, hs⟩

/-- Every token on the way to the fence may be skipped. -/
theorem sends_skip : Sends (fun s => Outside bs s ∧ s.pending ≠ bs) bump fun _ => Outside bs := by
  refine Sends.bump fun s hs => ?_
  obtain ⟨⟨closers, hfenced⟩, hne⟩ := hs
  obtain ⟨hk, behind, -, hbump⟩ := hfenced.bump hne
  exact ⟨steps_bump hk, behind, hbump⟩

theorem sends_recover (reported : Nat) :
    Sends (Braced bs n) (recover reported) fun _ => Outside bs := by
  intro s _ t ⟨closers, hs, _⟩ hrun
  cases hrun
  obtain ⟨ts, hsteps, -⟩ := steps_recover reported s
  refine ⟨⟨ts, hsteps⟩, ?_⟩
  show Outside bs (s.recover reported)
  rw [State.recover]
  split
  · exact hs.synchronize _ (Nat.zero_le _)
  · exact ⟨closers, hs⟩

/-- A round that goes on and puts statements in front of those of the rounds behind it. -/
def Prepends (turn : Turn (List Stmnt)) : Prop :=
  ∃ wrap before, turn = .goOn wrap ∧ ∀ rest, wrap rest = before ++ rest

/-- A round of the statements of a source comes no farther than the fence. -/
theorem sends_stmntsTurn (hr : r.Kept bs) :
    Sends (fun s => Outside bs s ∧ s.pending ≠ bs) (stmntsTurn r)
      fun turn t => Prepends turn ∧ Outside bs t := by
  have hskip : Sends (Outside bs) (pure (.goOn id)) fun turn t => Prepends turn ∧ Outside bs t :=
    .pure fun _ hs => ⟨⟨id, [], rfl, fun _ => rfl⟩, hs⟩
  refine Sends.look (f := State.kind) (fun _ => rfl) fun here => ?_
  split
  · refine fun s a t hs => absurd hs.2 ?_
    obtain ⟨⟨⟨closers, hfenced⟩, hne⟩, -⟩ := hs
    exact (hfenced.bump hne).1
  · exact Sends.bind (sends_skip.weaken fun s hs => hs.1) fun _ => hskip
  · refine .ite (fun _ => ?_) fun _ => ?_
    · refine Sends.look (f := fun s => s.reports.size) (fun _ => rfl) fun reported => .each fun s hs => ?_
      obtain ⟨⟨⟨⟨closers, hfenced⟩, hne⟩, -⟩, -⟩ := hs
      refine Sends.bind (Sends.weaken (keeps_stmnt (n := closers.count .rBrace) hr _) fun u hu => ?_)
        fun stmnt => Sends.bind (sends_recover _) fun _ =>
          .pure fun _ hs => ⟨⟨(stmnt :: ·), [stmnt], rfl, fun _ => rfl⟩, hs⟩
      exact hu ▸ ⟨⟨closers, hfenced, rfl⟩, hne⟩
    · have hunexpected : ∀ expected construct, Sends (fun s => Outside bs s ∧ s.pending ≠ bs)
          (unexpected expected construct) fun _ t => Outside bs t ∧ t.pending ≠ bs := by
        intro expected construct s _ t ⟨⟨closers, hfenced⟩, hne⟩ hrun
        cases hrun
        have hsteps : Steps s [] (s.complain expected construct) := .complain _ _ (.refl _)
        have hbraced : Braced bs _ s := ⟨closers, hfenced, rfl⟩
        refine ⟨⟨[], hsteps⟩, .of_braced (hbraced.of_steps hsteps), ?_⟩
        rwa [State.complain_pending]
      exact Sends.bind ((hunexpected _ _).weaken fun s hs => hs.1) fun _ =>
        Sends.bind sends_skip fun _ => hskip

/-- The statements of a source come to stand in front of the fence between two rounds. -/
theorem stmnts_reach (hr : r.Kept bs) (rounds : Nat) {s t : State} {ss : List Stmnt}
    (hs : Outside bs s) (hrun : stmnts r rounds s = some (ss, t)) :
    ∃ before rest rounds' u ts, Steps s ts u ∧ u.pending = bs ∧
      stmnts r rounds' u = some (rest, t) ∧ ss = before ++ rest := by
  -- Every round begins in front of the fence or at it, and one at the fence is the last that counts.
  induction rounds generalizing s ss with
  | zero => cases hrun
  | succ rounds ih =>
    by_cases hfence : s.pending = bs
    · exact ⟨[], ss, rounds + 1, s, [], .refl s, hfence, hrun, rfl⟩
    · obtain ⟨⟨turn, u⟩, hturn, hrest⟩ := Option.bind_eq_some_iff.1 hrun
      obtain ⟨⟨ts, hts⟩, ⟨wrap, front, rfl, hwrap⟩, hu⟩ := sends_stmntsTurn hr s turn u ⟨hs, hfence⟩ hturn
      obtain ⟨⟨others, t'⟩, hothers, hwrapped⟩ := Option.bind_eq_some_iff.1 hrest
      cases hwrapped
      obtain ⟨before, rest, rounds', v, us, hus, hpending, hrun', rfl⟩ := ih hu hothers
      refine ⟨front ++ before, rest, rounds', v, _, hts.trans hus, hpending, hrun', ?_⟩
      rw [hwrap, List.append_assoc]

end Parser

end ImpLang
