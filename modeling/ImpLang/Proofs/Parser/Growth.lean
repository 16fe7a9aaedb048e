import ImpLang.Parser.Source
import ImpLang.Proofs.Parser.Steps

/-!
What the moves of a parser have in common. A relation between the states before and behind that lasts
through every move lasts through every parser that is made of them, which is found from its text. So
no parser takes a name back, whatever its number of nested calls: the symbols it was given keep their
texts.
-/

namespace ImpLang

namespace Parser

/-! ## Moves -/

/-- A relation between the states before and behind that lasts through every move of a parser, but
for the making of a declaration. -/
structure Lasting where
  rel : State → State → Prop
  refl : ∀ s, rel s s
  trans : ∀ {s t u}, rel s t → rel t u → rel s u
  bump : ∀ s : State, rel s s.bump
  complain : ∀ (s : State) expected construct, rel s (s.complain expected construct)
  intern : ∀ (s : State) text, rel s (s.intern text).2

/-- A parser that goes from a state to related ones only. -/
class Leads (R : Lasting) {α : Type} (m : Parser α) : Prop where
  related : ∀ s a t, m s = some (a, t) → R.rel s t

namespace Leads

variable {R : Lasting} {α β : Type}

/-- A parser that moves from state to state by a function. -/
theorem of_move {m : Parser α} {f : State → α × State} (h : ∀ s, m s = some (f s))
    (hf : ∀ s, R.rel s (f s).2) : Leads R m where
  related s a t hrun := by
    rw [h] at hrun
    have hmove := hf s
    rwa [Option.some.inj hrun] at hmove

instance failure : Leads R (failure : Parser α) where
  related _ _ _ hrun := by cases hrun

instance ite {p : Prop} [Decidable p] {m m' : Parser α} [hm : Leads R m] [hm' : Leads R m'] :
    Leads R (if p then m else m') := by
  by_cases h : p
  · rwa [if_pos h]
  · rwa [if_neg h]

instance get_bind {f : State → Parser α} [hf : ∀ s, Leads R (f s)] : Leads R (get >>= f) where
  related s a t hrun := (hf s).related s a t hrun

instance pure (a : α) : Leads R (pure a) := of_move (fun _ => rfl) R.refl

instance bind {m : Parser α} {f : α → Parser β} [hm : Leads R m] [hf : ∀ a, Leads R (f a)] :
    Leads R (m >>= f) where
  related s b u hrun := by
    obtain ⟨⟨a, t⟩, ha, hb⟩ := Option.bind_eq_some_iff.1 hrun
    exact R.trans (hm.related s a t ha) ((hf a).related t b u hb)

instance kind : Leads R Parser.kind := of_move (fun _ => rfl) R.refl
instance nextKind : Leads R Parser.nextKind := of_move (fun _ => rfl) R.refl
instance isAt (kind : TokenKind) : Leads R (isAt kind) := of_move (fun _ => rfl) R.refl
instance peek : Leads R peek := of_move (fun _ => rfl) R.refl
instance track : Leads R track := of_move (fun _ => rfl) R.refl
instance prev : Leads R Parser.prev := of_move (fun _ => rfl) R.refl
instance reported : Leads R reported := of_move (fun _ => rfl) R.refl
instance finish (start : Span) : Leads R (finish start) := of_move (fun _ => rfl) R.refl

instance bump : Leads R Parser.bump := of_move (fun _ => rfl) R.bump

instance intern (text : String) : Leads R (intern text) :=
  of_move (fun _ => rfl) fun s => R.intern s text

instance unexpected (expected : Expected) (construct : String) :
    Leads R (unexpected expected construct) :=
  of_move (fun _ => rfl) fun s => R.complain s expected construct

theorem related_synchronize (rounds depth : Nat) (s : State) : R.rel s (s.synchronize rounds depth) := by
  induction rounds generalizing depth s with
  | zero => exact R.refl s
  | succ rounds ih =>
    rw [State.synchronize]
    split
    · next found hturn =>
      rcases State.searchTurn_stops hturn with rfl | ⟨-, rfl⟩
      · exact R.refl _
      · exact R.bump s
    · exact R.trans (R.bump s) (ih _ _)

instance recover (reported : Nat) : Leads R (recover reported) :=
  of_move (fun _ => rfl) fun s => by
    show R.rel s (s.recover reported)
    rw [State.recover]
    split
    · exact related_synchronize _ _ s
    · exact R.refl s

instance accept (kind : TokenKind) : Leads R (accept kind) := by
  unfold Parser.accept
  infer_instance

instance expect (kind : TokenKind) (construct : String) : Leads R (expect kind construct) := by
  unfold Parser.expect
  infer_instance

instance acceptSeparator : Leads R acceptSeparator := by
  unfold Parser.acceptSeparator
  infer_instance

instance ident (construct : String) : Leads R (ident construct) := by
  unfold Parser.ident
  refine @bind _ _ _ _ _ _ fun token => ?_
  split <;> infer_instance

instance elemName : Leads R elemName := by
  unfold Parser.elemName
  infer_instance

instance loop {round : Parser (Turn α)} {rest : Parser α} [Leads R round] [Leads R rest] :
    Leads R (loop round rest) := by
  unfold Parser.loop
  refine @bind _ _ _ _ _ _ fun turn => ?_
  cases turn <;> infer_instance

end Leads

/-! ## Names -/

/-- No name is taken back. -/
def Lasting.names : Lasting where
  rel s t := s.names ≤ t.names
  refl s := Interner.le_refl s.names
  trans := Interner.le_trans
  bump := State.names_bump
  complain s expected construct := by
    rw [State.complain_names]
    exact Interner.le_refl s.names
  intern s text := Interner.le_intern s.names text

/-- A parser only adds to the name table. -/
abbrev Grows {α : Type} (m : Parser α) : Prop := Leads .names m

theorem Grows.names {α : Type} {m : Parser α} (h : Grows m) {s t : State} {a : α}
    (hrun : m s = some (a, t)) : s.names ≤ t.names := h.related s a t hrun

instance Grows.declare (id : Id) (kind : DeclKind) : Grows (declare id kind) :=
  .of_move (fun _ => rfl) fun s => Interner.le_refl s.names

/-- Productions that only add to the name table. -/
class Rules.Growing (r : Rules) : Prop where
  expr : ∀ min construct, Grows (r.expr min construct)
  operators : ∀ start min left, Grows (r.operators start min left)
  ptrn : ∀ typed construct, Grows (r.ptrn typed construct)
  ptrnElems : ∀ typed, Grows (r.ptrnElems typed)
  tupleElems : Grows r.tupleElems
  sigmaElems : Grows r.sigmaElems
  block : ∀ construct, Grows (r.block construct)
  blockBody : Grows r.blockBody
  branch : Grows r.branch
  arms : Grows r.arms

attribute [instance] Rules.Growing.expr Rules.Growing.operators Rules.Growing.ptrn
  Rules.Growing.ptrnElems Rules.Growing.tupleElems Rules.Growing.sigmaElems Rules.Growing.block
  Rules.Growing.blockBody Rules.Growing.branch Rules.Growing.arms

namespace Grows

variable (r : Rules) [r.Growing]

instance ascription : Grows (ascription r) := by
  unfold Parser.ascription
  infer_instance

theorem ptrn (typed : Bool) (construct : String) : Grows (ptrn r typed construct) := by
  unfold Parser.ptrn
  refine @Leads.bind _ _ _ _ _ _ fun start => @Leads.bind _ _ _ _ _ _ fun kind => ?_
  split <;> infer_instance

attribute [instance] ptrn

theorem ptrnElemsTurn (typed : Bool) : Grows (ptrnElemsTurn r typed) := by
  unfold Parser.ptrnElemsTurn
  refine @Leads.bind _ _ _ _ _ _ fun kind => ?_
  split <;> infer_instance

attribute [instance] ptrnElemsTurn

theorem tupleElemsTurn : Grows (tupleElemsTurn r) := by
  unfold Parser.tupleElemsTurn
  refine @Leads.bind _ _ _ _ _ _ fun kind => ?_
  split <;> infer_instance

attribute [instance] tupleElemsTurn

instance tuple : Grows (tuple r) := by
  unfold Parser.tuple
  infer_instance

instance sigmaElem : Grows (sigmaElem r) := by
  unfold Parser.sigmaElem
  infer_instance

theorem sigmaElemsTurn : Grows (sigmaElemsTurn r) := by
  unfold Parser.sigmaElemsTurn
  refine @Leads.bind _ _ _ _ _ _ fun kind => ?_
  split <;> infer_instance

attribute [instance] sigmaElemsTurn

instance sigma : Grows (sigma r) := by
  unfold Parser.sigma
  infer_instance

instance codomain (construct : String) : Grows (codomain r construct) := by
  unfold Parser.codomain
  infer_instance

instance lambda : Grows (lambda r) := by
  unfold Parser.lambda
  infer_instance

instance pi : Grows (pi r) := by
  unfold Parser.pi
  infer_instance

instance continuation : Grows (continuation r) := by
  unfold Parser.continuation
  infer_instance

instance pack : Grows (pack r) := by
  unfold Parser.pack
  infer_instance

instance variadic : Grows (variadic r) := by
  unfold Parser.variadic
  infer_instance

instance otherwise : Grows (otherwise r) := by
  unfold Parser.otherwise
  infer_instance

instance branch : Grows (branch r) := by
  unfold Parser.branch
  infer_instance

theorem armsTurn : Grows (armsTurn r) := by
  unfold Parser.armsTurn
  refine @Leads.bind _ _ _ _ _ _ fun kind => ?_
  split <;> infer_instance

attribute [instance] armsTurn

instance select : Grows (select r) := by
  unfold Parser.select
  infer_instance

instance forLoop : Grows (forLoop r) := by
  unfold Parser.forLoop
  infer_instance

instance whileLoop : Grows (whileLoop r) := by
  unfold Parser.whileLoop
  infer_instance

instance single (expr : Span → Expr) : Grows (single expr) := by
  unfold Parser.single
  infer_instance

theorem literal : Grows literal := by
  unfold Parser.literal
  refine @Leads.bind _ _ _ _ _ _ fun token => @Leads.bind _ _ _ _ _ _ fun _ => ?_
  split <;> infer_instance

attribute [instance] literal

instance letStmnt : Grows (letStmnt r) := by
  unfold Parser.letStmnt
  infer_instance

instance defItem : Grows (defItem r) := by
  unfold Parser.defItem
  infer_instance

instance fnItem : Grows (fnItem r) := by
  unfold Parser.fnItem
  infer_instance

theorem primary (construct : String) : Grows (primary r construct) := by
  unfold Parser.primary
  refine @Leads.bind _ _ _ _ _ _ fun kind => ?_
  split <;> infer_instance

attribute [instance] primary

theorem stmntExpr (construct : String) : Grows (stmntExpr r construct) := by
  unfold Parser.stmntExpr
  refine @Leads.bind _ _ _ _ _ _ fun kind => ?_
  split <;> infer_instance

attribute [instance] stmntExpr

theorem stmnt (construct : String) : Grows (stmnt r construct) := by
  unfold Parser.stmnt
  refine @Leads.bind _ _ _ _ _ _ fun kind => ?_
  split <;> infer_instance

attribute [instance] stmnt

theorem expr (min : Prec) (construct : String) : Grows (expr r min construct) := by
  unfold Parser.expr
  refine @Leads.bind _ _ _ _ _ _ fun start => @Leads.bind _ _ _ _ _ _ fun kind => ?_
  split <;> infer_instance

attribute [instance] expr

theorem operators (start : Span) (min : Prec) (left : Expr) :
    Grows (operators r start min left) := by
  unfold Parser.operators
  refine @Leads.bind _ _ _ _ _ _ fun kind => ?_
  split
  · infer_instance
  · refine @Leads.ite _ _ _ _ _ _ _ (@Leads.bind _ _ _ _ _ _ fun next => ?_)
    refine @Leads.ite _ _ _ _ _ _ _ (@Leads.ite _ _ _ _ _ _ _ ?_)
    split <;> infer_instance

attribute [instance] operators

instance block (construct : String) : Grows (block r construct) := by
  unfold Parser.block
  infer_instance

theorem blockBodyTurn : Grows (blockBodyTurn r) := by
  unfold Parser.blockBodyTurn
  refine @Leads.bind _ _ _ _ _ _ fun kind => ?_
  split <;> infer_instance

attribute [instance] blockBodyTurn

theorem stmntsTurn : Grows (stmntsTurn r) := by
  unfold Parser.stmntsTurn
  refine @Leads.bind _ _ _ _ _ _ fun kind => ?_
  split <;> infer_instance

attribute [instance] stmntsTurn

instance stmnts (rounds : Nat) : Grows (stmnts r rounds) := by
  induction rounds with
  | zero => exact Leads.failure
  | succ rounds ih => exact Leads.loop

end Grows

instance growing_rules (calls : Nat) : (rules calls).Growing := by
  induction calls with
  | zero =>
    exact {
      expr _ _ := .failure
      operators _ _ _ := .failure
      ptrn _ _ := .failure
      ptrnElems _ := .failure
      tupleElems := .failure
      sigmaElems := .failure
      block _ := .failure
      blockBody := .failure
      branch := .failure
      arms := .failure }
  | succ calls ih =>
    exact {
      expr := Grows.expr (rules calls)
      operators := Grows.operators (rules calls)
      ptrn := Grows.ptrn (rules calls)
      ptrnElems _ := Leads.loop
      tupleElems := Leads.loop
      sigmaElems := Leads.loop
      block := Grows.block (rules calls)
      blockBody := Leads.loop
      branch := Grows.branch (rules calls)
      arms := Leads.loop }

/-! ## Whole sources -/

theorem names_opening (file : FileId) {tokens : List Lexed} (names : Interner) :
    names ≤ (State.opening file tokens names).names := by
  simp only [State.opening]
  split
  · exact Interner.le_refl names
  · exact State.enter_names ..
  · exact Interner.le_trans (State.enter_names ..) (State.enter_names ..)

instance grows_mapM {α β : Type} {f : α → Parser β} [∀ a, Grows (f a)] (as : List α) :
    Grows (as.mapM f) := by
  induction as with
  | nil => exact Leads.pure []
  | cons a as ih =>
    rw [List.mapM_cons]
    infer_instance

theorem names_runFrom {α : Type} (parser : Rules → Parser α) {default : α} (s : State)
    (h : ∀ r : Rules, r.Growing → Grows (parser r)) : s.names ≤ (runFrom parser default s).2.names := by
  rw [runFrom]
  cases hrun : parser (rules (callLimit s)) s with
  | none => exact Interner.le_refl s.names
  | some out => exact (h _ inferInstance).names hrun

end Parser

/-- Reading a module numbers texts only. -/
theorem Module.names_ofTokens (file : FileId) (tokens : List Lexed) (names : Interner) :
    names ≤ (Module.ofTokens file tokens names).names :=
  Interner.le_trans (Parser.names_opening file names)
    (Parser.names_runFrom _ _ fun r _ => Parser.Grows.stmnts r _)

/-- Reading expressions numbers texts only. -/
theorem Expr.names_ofTokens (count : Nat) (construct : String) (file : FileId) (tokens : List Lexed)
    (names : Interner) : names ≤ (Expr.ofTokens count construct file tokens names).names :=
  Interner.le_trans (Parser.names_opening file names)
    (Parser.names_runFrom _ _ fun _ _ => Parser.grows_mapM _)

end ImpLang
