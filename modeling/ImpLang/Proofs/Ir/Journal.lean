import ImpLang.Ir.Emit
import ImpLang.Proofs.Tree.Filling
import Mathlib.Algebra.Order.Group.Multiset

/-!
Emission with a journal. An emission that leaves the tree alone and notes which item gets which
value asks and answers the same as the one that writes the values at once. Where no two items have
one declaration the journal says all: the tree that the other one leaves is this tree with the values
of the journal in it.
-/

namespace ImpLang

/-- The declarations of the items among some nodes. -/
def Node.items (nodes : List Node) : Multiset DeclId := nodes.filterMap fun
  | .item it => some it.decl
  | _ => none

namespace Node

@[simp] theorem items_nil : items [] = 0 := rfl

@[simp] theorem items_append (nodes more : List Node) :
    items (nodes ++ more) = items nodes + items more := by
  simp [items]

@[simp] theorem items_expr (e : Expr) (nodes : List Node) :
    items (.expr e :: nodes) = items nodes := rfl

@[simp] theorem items_ptrn (p : Ptrn) (nodes : List Node) :
    items (.ptrn p :: nodes) = items nodes := rfl

@[simp] theorem items_stmnt (s : Stmnt) (nodes : List Node) :
    items (.stmnt s :: nodes) = items nodes := rfl

@[simp] theorem items_item (it : Item) (nodes : List Node) :
    items (.item it :: nodes) = {it.decl} + items nodes := rfl

theorem mem_items {decl : DeclId} {nodes : List Node} :
    decl ∈ items nodes ↔ ∃ it, .item it ∈ nodes ∧ it.decl = decl := by
  rw [items, Multiset.mem_coe, List.mem_filterMap]
  constructor
  · rintro ⟨node, hnode, hdecl⟩
    cases node with
    | item it => exact ⟨it, hnode, Option.some.inj hdecl⟩
    | stmnt s => cases hdecl
    | expr e => cases hdecl
    | ptrn p => cases hdecl
  · rintro ⟨it, hit, rfl⟩
    exact ⟨_, hit, rfl⟩

theorem items_mapSlots (name : Slot DeclId → Slot DeclId) (item : Slot Value → Slot Value)
    (nodes : List Node) : items (nodes.map (mapSlots name item)) = items nodes := by
  induction nodes with
  | nil => rfl
  | cons node nodes ih =>
    cases node with
    | item it =>
      cases it
      rw [List.map_cons, mapSlots, items_item, items_item, ih]
    | stmnt s => exact ih
    | expr e => exact ih
    | ptrn p => exact ih

/-- Where nothing is found there is no use for it. -/
theorem Sated.of_none {found : ItemValues} {nodes : List Node}
    (h : ∀ decl ∈ items nodes, found decl = none) : Sated found nodes := by
  intro it hit
  rw [h it.decl (mem_items.2 ⟨it, hit, rfl⟩), Slot.offer?_none]

end Node

/-- A builder together with the items' values in the order of their writing. -/
structure EmitState (σ : Type) where
  builder : σ
  written : Array (DeclId × Value)

/-- An emission that keeps a journal. -/
abbrev Emitter (σ : Type) := ExceptT SlotError (StateM (EmitState σ))

instance {σ : Type} : Asks σ (Emitter σ) where
  ask request := modifyGet fun s =>
    let (answer, builder) := request s.builder
    (answer, { s with builder := builder })

namespace Emitter

/-- Note the value of an item, unless its slot refuses the value. -/
def write {σ : Type} (item : DeclId) (slot : Slot Value) (value : Value) : Emitter σ Unit := do
  match slot.set value with
  | .ok _ => modify fun s => { s with written := s.written.push (item, value) }
  | .error e => throw e

variable {σ : Type} [Builder σ] (decls : Decls)

mutual

def emitExpr : Expr → Emitter σ Value
  | .name span _ decl => use decls span decl
  | .literal span value => ask (Builder.literal span value)
  | .tuple span elems => do
    let values ← emitElems elems
    build span .tuple values
  | .sigma span elems => do
    let values ← emitParams elems
    build span .sigma values
  | .pi span domain codomain => do
    let domain ← emitParam domain
    let codomain ← emitExpr codomain
    build span .pi [domain, codomain]
  | .lambda span domain codomain body => do
    let domain ← emitParam domain
    let codomain ← emitExpr codomain
    let body ← emitExpr body
    build span .lambda [domain, codomain, body]
  | .app span callee arg cps => do
    let callee ← emitExpr callee
    let arg ← emitExpr arg
    build span (.app cps) [callee, arg]
  | .field span value id => do
    let value ← emitExpr value
    build span (.field id.symbol) [value]
  | .prefixed span op operand => do
    let operand ← emitExpr operand
    build span (.prefixed op) [operand]
  | .postfixed span operand op => do
    let operand ← emitExpr operand
    build span (.postfixed op) [operand]
  | .binary span left op right => do
    let left ← emitExpr left
    let right ← emitExpr right
    build span (.binary op) [left, right]
  | .block span stmnts value => do
    placeholders stmnts
    let values ← emitStmnts stmnts
    let value ← emitExpr value
    build span .block (values ++ [value])
  | .branch span cond yes no => do
    let cond ← emitExpr cond
    let yes ← emitExpr yes
    let no ← emitExpr no
    build span .branch [cond, yes, no]
  | .select span scrutinee arms => do
    let scrutinee ← emitExpr scrutinee
    let values ← emitArms scrutinee arms
    build span .select (scrutinee :: values)
  | .forLoop span ptrn iter body => do
    let iter ← emitExpr iter
    let param ← emitParam ptrn
    let body ← emitExpr body
    build span .forLoop [iter, param, body]
  | .whileLoop span cond body => do
    let cond ← emitExpr cond
    let body ← emitExpr body
    build span .whileLoop [cond, body]
  | .pack span domain body => do
    let param ← emitParam domain
    let body ← emitExpr body
    build span .pack [param, body]
  | .variadic span domain body => do
    let param ← emitParam domain
    let body ← emitExpr body
    build span .variadic [param, body]
  | .qualifier span value => build span (.qualifier value) []
  | .bottom span => build span .bottom []
  | .unknown span => build span .unknown []
  | .error span => error span

def emitExpr? : Option Expr → Emitter σ (Option Value)
  | none => return none
  | some expr => return some (← emitExpr expr)

def emitParam : Ptrn → Emitter σ Value
  | .name span id decl ty typed => do
    let value ← emitExpr? ty
    parameter (.name span id decl ty typed) value
  | .tuple span elems ty typed => do
    let value ← emitExpr? ty
    parameter (.tuple span elems ty typed) value
  | .error span => parameter (.error span) none

def emitParams : List Ptrn → Emitter σ (List Value)
  | [] => return []
  | ptrn :: ptrns => do
    let value ← emitParam ptrn
    let values ← emitParams ptrns
    return value :: values

def emitElems : List Elem → Emitter σ (List Value)
  | [] => return []
  | ⟨_, expr⟩ :: elems => do
    let value ← emitExpr expr
    let values ← emitElems elems
    return value :: values

def emitArms (scrutinee : Value) : List Arm → Emitter σ (List Value)
  | [] => return []
  | ⟨_, ptrn, body⟩ :: arms => do
    destructure ptrn scrutinee
    let value ← emitExpr body
    let values ← emitArms scrutinee arms
    return value :: values

def emitStmnt : Stmnt → Emitter σ Value
  | .expr _ expr => emitExpr expr
  | .bind _ ptrn init => do
    let value ← emitExpr init
    destructure ptrn value
    return value
  | .item ⟨_, _, expr, decl, slot⟩ => do
    let value ← emitExpr expr
    bind decl value
    write decl slot value
    return value

def emitStmnts : List Stmnt → Emitter σ (List Value)
  | [] => return []
  | stmnt :: stmnts => do
    let value ← emitStmnt stmnt
    let values ← emitStmnts stmnts
    return value :: values

end

/-- The values of the statements of a module. -/
def emitModule (stmnts : List Stmnt) : Emitter σ (List Value) := do
  placeholders stmnts
  emitStmnts decls stmnts

/-! ## Requests -/

section Requests

theorem ask_bind {σ α β : Type} (request : StateM σ α) (next : α → StateM σ β) :
    (ask (request >>= next) : Emitter σ β) = ask request >>= fun a => ask (next a) := rfl

theorem ask_use (span : Span) (slot : Slot DeclId) :
    (ask (use decls span slot : StateM σ Value) : Emitter σ Value) = use decls span slot := by
  unfold use
  cases slot.get? with
  | none => rfl
  | some decl =>
    by_cases herror : decls.isError decl
    · simp only [herror, if_true]
      rfl
    · simp only [herror]
      refine (ask_bind _ _).trans (congrArg _ (funext fun answer => ?_))
      cases answer <;> rfl

mutual

theorem ask_destructure (ptrn : Ptrn) (value : Value) :
    (ask (destructure ptrn value : StateM σ Unit) : Emitter σ Unit) = destructure ptrn value := by
  cases ptrn with
  | name span id decl ty typed => rfl
  | tuple span elems ty typed => exact ask_extract 0 elems value
  | error span => rfl

theorem ask_extract (index : Nat) (elems : List Ptrn) (value : Value) :
    (ask (extract index elems value : StateM σ Unit) : Emitter σ Unit) =
      extract index elems value := by
  cases elems with
  | nil => rfl
  | cons elem elems =>
    simp only [extract, ask_bind, ask_destructure elem, ask_extract (index + 1) elems]
    rfl

end

theorem ask_placeholders (stmnts : List Stmnt) :
    (ask (placeholders stmnts : StateM σ Unit) : Emitter σ Unit) = placeholders stmnts := by
  induction stmnts with
  | nil => rfl
  | cons stmnt stmnts ih =>
    cases stmnt with
    | item it =>
      simp only [placeholders, ask_bind, ih]
      rfl
    | expr span expr => exact ih
    | bind span ptrn init => exact ih

theorem ask_parameter (ptrn : Ptrn) (ty : Option Value) :
    (ask (parameter ptrn ty : StateM σ Value) : Emitter σ Value) = parameter ptrn ty := by
  simp only [parameter, ask_bind, ask_destructure]
  rfl

end Requests

/-! ## Parts of a tree -/

end Emitter

/-- A part of a tree in which values can be filled in, with the declarations of its items. -/
structure Fillable (τ : Type) where
  part : τ
  items : Multiset DeclId
  fill : ItemValues → τ
  /-- Without values for its items it stays as it is. -/
  fill_of_none : ∀ found, (∀ decl ∈ items, found decl = none) → fill found = part

namespace Fillable

variable {τ υ : Type}

@[simps items]
def leaf (part : τ) : Fillable τ := ⟨part, 0, fun _ => part, fun _ _ => rfl⟩

@[simps items]
def both (p : Fillable τ) (q : Fillable υ) : Fillable (τ × υ) where
  part := (p.part, q.part)
  items := p.items + q.items
  fill found := (p.fill found, q.fill found)
  fill_of_none found h := by
    have hp := p.fill_of_none found fun decl hdecl => h decl (Multiset.mem_add.2 (.inl hdecl))
    have hq := q.fill_of_none found fun decl hdecl => h decl (Multiset.mem_add.2 (.inr hdecl))
    rw [hp, hq]

/-- An empty slot takes a value. -/
@[simps items]
def slot (decl : DeclId) (slot : Slot Value) : Fillable (Slot Value) where
  part := slot
  items := {decl}
  fill found := slot.offer? (found decl)
  fill_of_none found h := by rw [h decl (Multiset.mem_singleton_self decl), Slot.offer?_none]

@[simps items]
def expr (e : Expr) : Fillable Expr :=
  ⟨e, Node.items e.nodes, fun found => e.fill found, fun _ h => Expr.fill_of_sated (.of_none h)⟩

@[simps items]
def expr? (e : Option Expr) : Fillable (Option Expr) :=
  ⟨e, Node.items (Expr.nodesOf? e), fun found => Expr.fill? found e,
    fun _ h => Expr.fill?_of_sated (.of_none h)⟩

@[simps items]
def ptrn (p : Ptrn) : Fillable Ptrn :=
  ⟨p, Node.items p.nodes, fun found => p.fill found, fun _ h => Ptrn.fill_of_sated (.of_none h)⟩

@[simps items]
def ptrns (ps : List Ptrn) : Fillable (List Ptrn) :=
  ⟨ps, Node.items (Ptrn.nodesOf ps), fun found => Ptrn.fillList found ps,
    fun _ h => Ptrn.fillList_of_sated (.of_none h)⟩

@[simps items]
def elems (es : List Elem) : Fillable (List Elem) :=
  ⟨es, Node.items (Elem.nodesOf es), fun found => Elem.fillList found es,
    fun _ h => Elem.fillList_of_sated (.of_none h)⟩

@[simps items]
def arms (arms : List Arm) : Fillable (List Arm) :=
  ⟨arms, Node.items (Arm.nodesOf arms), fun found => Arm.fillList found arms,
    fun _ h => Arm.fillList_of_sated (.of_none h)⟩

@[simps items]
def stmnt (s : Stmnt) : Fillable Stmnt :=
  ⟨s, Node.items s.nodes, fun found => s.fill found, fun _ h => Stmnt.fill_of_sated (.of_none h)⟩

@[simps items]
def stmnts (ss : List Stmnt) : Fillable (List Stmnt) :=
  ⟨ss, Node.items (Stmnt.nodesOf ss), fun found => Stmnt.fillList found ss,
    fun _ h => Stmnt.fillList_of_sated (.of_none h)⟩

end Fillable

/-! ## Runs -/

namespace Emitter

variable {τ υ α β : Type} {p : Fillable τ} {q : Fillable υ}

/-- A step in place and one with a journal. They answer the same and leave the same builder. The
journal has entries for items of the part only, and if these are different items, the part comes out
with the values of the journal. -/
def Journals (p : Fillable τ) (step : Step σ τ α) (run : Emitter σ α) : Prop :=
  ∀ b written, ∃ entries : List (DeclId × Value),
    run.run.run ⟨b, written⟩ = ((step b).answer, ⟨(step b).builder, written ++ entries.toArray⟩) ∧
      (∀ entry ∈ entries, entry.1 ∈ p.items) ∧
      (p.items.Nodup → ∀ found : ItemValues, (∀ decl ∈ p.items, found decl = entries.lookup decl) →
        (step b).part = p.fill found)

/-- What is not in a journal is not found there. -/
theorem lookup_eq_none {entries : List (DeclId × Value)} {items : Multiset DeclId}
    (h : ∀ entry ∈ entries, entry.1 ∈ items) {decl : DeclId} (hdecl : decl ∉ items) :
    entries.lookup decl = none := by
  refine List.lookup_eq_none_iff.2 fun entry hentry => ?_
  rw [bne_iff_ne]
  rintro rfl
  exact hdecl (h entry hentry)

namespace Journals

theorem done (part : τ) (a : α) :
    Journals (.leaf part) (Step.done part a : Step σ τ α) (pure a) := by
  intro b written
  refine ⟨[], ?_, List.forall_mem_nil _, fun _ _ _ => rfl⟩
  rw [Array.append_empty]
  rfl

theorem asks (part : τ) {request : StateM σ α} {run : Emitter σ α} (h : ask request = run) :
    Journals (.leaf part) (Step.asks part request) run := by
  subst h
  intro b written
  refine ⟨[], ?_, List.forall_mem_nil _, fun _ _ _ => rfl⟩
  rw [Array.append_empty]
  rfl

theorem behind {request : StateM σ α} {run : Emitter σ α} (h : ask request = run)
    {step : α → Step σ τ β} {next : α → Emitter σ β} (hnext : ∀ a, Journals p (step a) (next a)) :
    Journals p (Step.behind request step) (run >>= next) := by
  subst h
  intro b written
  exact hnext (request b).1 (request b).2 written

theorem andAsk {step : Step σ τ α} {run : Emitter σ α} (h : Journals p step run)
    {request : α → StateM σ β} {next : α → Emitter σ β} (hnext : ∀ a, ask (request a) = next a) :
    Journals p (step.andAsk request) (run >>= next) := by
  obtain rfl : (fun a => ask (request a)) = next := funext hnext
  intro b written
  obtain ⟨entries, hrun, hentries, hpart⟩ := h b written
  have hleft : (step.andAsk request b).part = (step b).part := by
    simp only [Step.andAsk]
    split <;> rfl
  refine ⟨entries, ?_, hentries, hleft ▸ hpart⟩
  rw [ExceptT.run_bind, StateT.run_bind, hrun]
  simp only [Step.andAsk]
  cases (step b).answer with
  | ok a => rfl
  | error e => rfl

/-- The journal of two steps is that of the one and that of the other. If the first one fails there is
nothing in it for the part of the second. -/
theorem both {first : Step σ τ α} {run : Emitter σ α} (h : Journals p first run)
    {second : α → Step σ υ β} {next : α → Emitter σ β}
    (hnext : ∀ a, Journals q (second a) (next a)) :
    Journals (p.both q) (first.both q.part second) (run >>= next) := by
  intro b written
  obtain ⟨entries, hrun, hentries, hpart⟩ := h b written
  rw [ExceptT.run_bind, StateT.run_bind, hrun]
  simp only [Step.both]
  cases (first b).answer with
  | error e =>
    refine ⟨entries, rfl, fun entry hentry => Multiset.mem_add.2 (.inl (hentries entry hentry)), ?_⟩
    intro hnodup found hfound
    obtain ⟨hp, -, hdisjoint⟩ := Multiset.nodup_add.1 hnodup
    have hnone : ∀ decl ∈ q.items, found decl = none := by
      intro decl hdecl
      rw [hfound decl (Multiset.mem_add.2 (.inr hdecl))]
      exact lookup_eq_none hentries (Multiset.disjoint_right.1 hdisjoint hdecl)
    exact Prod.ext (hpart hp found fun decl hdecl => hfound decl (Multiset.mem_add.2 (.inl hdecl)))
      (q.fill_of_none found hnone).symm
  | ok a =>
    obtain ⟨more, hrun', hmore, hpart'⟩ := hnext a (first b).builder (written ++ entries.toArray)
    refine ⟨entries ++ more, ?_, ?_, ?_⟩
    · rw [← List.append_toArray, ← Array.append_assoc]
      exact hrun'
    · intro entry hentry
      rcases List.mem_append.1 hentry with hentry | hentry
      · exact Multiset.mem_add.2 (.inl (hentries entry hentry))
      · exact Multiset.mem_add.2 (.inr (hmore entry hentry))
    · intro hnodup found hfound
      obtain ⟨hp, hq, hdisjoint⟩ := Multiset.nodup_add.1 hnodup
      refine Prod.ext (hpart hp found fun decl hdecl => ?_) (hpart' hq found fun decl hdecl => ?_)
      · have hother := lookup_eq_none hmore (Multiset.disjoint_left.1 hdisjoint hdecl)
        rw [hfound decl (Multiset.mem_add.2 (.inl hdecl)), List.lookup_append, hother,
          Option.or_none]
      · have hother := lookup_eq_none hentries (Multiset.disjoint_right.1 hdisjoint hdecl)
        rw [hfound decl (Multiset.mem_add.2 (.inr hdecl)), List.lookup_append, hother,
          Option.none_or]

/-- A part is put where it belongs, beside others that may have items but get no values. -/
theorem within {step : Step σ τ α} {run : Emitter σ α} (h : Journals p step run)
    {place : τ → υ} (others : Multiset DeclId) (hitems : q.items = p.items + others)
    (hfill : ∀ found, (∀ decl ∈ others, found decl = none) → place (p.fill found) = q.fill found) :
    Journals q (step.within place) run := by
  intro b written
  obtain ⟨entries, hrun, hentries, hpart⟩ := h b written
  rw [hitems]
  refine ⟨entries, hrun, fun entry hentry => Multiset.mem_add.2 (.inl (hentries entry hentry)), ?_⟩
  intro hnodup found hfound
  obtain ⟨hp, -, hdisjoint⟩ := Multiset.nodup_add.1 hnodup
  have hnone : ∀ decl ∈ others, found decl = none := by
    intro decl hdecl
    rw [hfound decl (Multiset.mem_add.2 (.inr hdecl))]
    exact lookup_eq_none hentries (Multiset.disjoint_right.1 hdisjoint hdecl)
  have hfirst := hpart hp found fun decl hdecl => hfound decl (Multiset.mem_add.2 (.inl hdecl))
  rw [← hfill found hnone, ← hfirst]
  rfl

theorem placed {step : Step σ τ α} {run : Emitter σ α} (h : Journals p step run) {place : τ → υ}
    (hitems : q.items = p.items) (hfill : ∀ found, place (p.fill found) = q.fill found) :
    Journals q (step.within place) run :=
  h.within 0 (by rw [hitems, add_zero]) fun found _ => hfill found

end Journals

variable [Builder σ]

/-- The value of an item goes to its slot, or nowhere. -/
theorem journals_assign (decl : DeclId) (slot : Slot Value) (value : Value) :
    Journals (.slot decl slot) (assign decl slot value : Step σ (Slot Value) Value)
      (do bind decl value; write decl slot value; return value) := by
  intro b written
  cases hset : slot.set value with
  | ok next =>
    refine ⟨[(decl, value)], ?_, List.forall_mem_singleton.2 (Multiset.mem_singleton_self decl), ?_⟩
    · simp only [assign, write, hset]
      rfl
    · intro _ found hfound
      obtain ⟨hslot, rfl⟩ := Slot.set_eq_ok_iff.1 hset
      have hvalue : found decl = some value :=
        (hfound decl (Multiset.mem_singleton_self decl)).trans List.lookup_cons_self
      simp only [assign, hset, Fillable.slot, hvalue, Slot.offer?]
      rcases hslot with hslot | hslot <;> rw [hslot] <;> rfl
  | error e =>
    refine ⟨[], ?_, List.forall_mem_nil _, ?_⟩
    · simp only [assign, write, hset, Array.append_empty]
      rfl
    · intro _ found hfound
      have hnone : found decl = none := hfound decl (Multiset.mem_singleton_self decl)
      simp only [assign, hset, Fillable.slot, hnone, Slot.offer?_none]

variable (decls : Decls)

mutual

/-- Emission does the same whether it writes values at once or notes them. -/
theorem journals_expr (e : Expr) :
    Journals (.expr e) (lowerExpr decls e : Step σ Expr Value) (emitExpr decls e) := by
  cases e <;> simp only [lowerExpr, emitExpr]
  case name span id slot => exact Journals.asks _ (ask_use decls span slot)
  case literal span value => exact Journals.asks _ rfl
  case tuple span elems =>
    exact ((journals_elems elems).andAsk fun values => rfl).placed
      (by simp [Expr.nodes]) fun _ => rfl
  case sigma span elems =>
    exact ((journals_params elems).andAsk fun values => rfl).placed
      (by simp [Expr.nodes]) fun _ => rfl
  case pi span domain codomain =>
    exact ((journals_param domain).both fun d =>
      (journals_expr codomain).andAsk fun c => rfl).placed (by simp [Expr.nodes]) fun _ => rfl
  case lambda span domain codomain body =>
    exact ((journals_param domain).both fun d => (journals_expr codomain).both fun c =>
      (journals_expr body).andAsk fun b => rfl).placed (by simp [Expr.nodes]) fun _ => rfl
  case app span callee arg cps =>
    exact ((journals_expr callee).both fun f => (journals_expr arg).andAsk fun a => rfl).placed
      (by simp [Expr.nodes]) fun _ => rfl
  case field span value id =>
    exact ((journals_expr value).andAsk fun v => rfl).placed (by simp [Expr.nodes]) fun _ => rfl
  case prefixed span op operand =>
    exact ((journals_expr operand).andAsk fun v => rfl).placed (by simp [Expr.nodes]) fun _ => rfl
  case postfixed span operand op =>
    exact ((journals_expr operand).andAsk fun v => rfl).placed (by simp [Expr.nodes]) fun _ => rfl
  case binary span left op right =>
    exact ((journals_expr left).both fun l => (journals_expr right).andAsk fun r => rfl).placed
      (by simp [Expr.nodes]) fun _ => rfl
  case block span stmnts value =>
    exact (Journals.behind (ask_placeholders stmnts) fun _ =>
      (journals_stmnts stmnts).both fun values =>
      (journals_expr value).andAsk fun v => rfl).placed (by simp [Expr.nodes]) fun _ => rfl
  case branch span cond yes no =>
    exact ((journals_expr cond).both fun c => (journals_expr yes).both fun y =>
      (journals_expr no).andAsk fun n => rfl).placed (by simp [Expr.nodes]) fun _ => rfl
  case select span scrutinee arms =>
    exact ((journals_expr scrutinee).both fun v => (journals_arms v arms).andAsk fun values =>
      rfl).placed (by simp [Expr.nodes]) fun _ => rfl
  case forLoop span ptrn iter body =>
    -- What a loop runs over is emitted in front of its pattern.
    exact ((journals_expr iter).both fun i => (journals_param ptrn).both fun p =>
      (journals_expr body).andAsk fun b => rfl).placed
        (by simp [Expr.nodes, add_left_comm]) fun _ => rfl
  case whileLoop span cond body =>
    exact ((journals_expr cond).both fun c => (journals_expr body).andAsk fun b => rfl).placed
      (by simp [Expr.nodes]) fun _ => rfl
  case pack span domain body =>
    exact ((journals_param domain).both fun d => (journals_expr body).andAsk fun b => rfl).placed
      (by simp [Expr.nodes]) fun _ => rfl
  case variadic span domain body =>
    exact ((journals_param domain).both fun d => (journals_expr body).andAsk fun b => rfl).placed
      (by simp [Expr.nodes]) fun _ => rfl
  case qualifier span value => exact Journals.asks _ rfl
  case bottom span => exact Journals.asks _ rfl
  case unknown span => exact Journals.asks _ rfl
  case error span => exact Journals.asks _ rfl

theorem journals_expr? (e : Option Expr) :
    Journals (.expr? e) (lowerExpr? decls e : Step σ (Option Expr) (Option Value))
      (emitExpr? decls e) := by
  cases e with
  | none => exact Journals.done _ none
  | some e =>
    exact ((journals_expr e).andAsk fun value => rfl).placed (by simp [Expr.nodesOf?]) fun _ => rfl

theorem journals_param (p : Ptrn) :
    Journals (.ptrn p) (lowerParam decls p : Step σ Ptrn Value) (emitParam decls p) := by
  cases p with
  | name span id decl ty typed =>
    exact ((journals_expr? ty).andAsk fun value => ask_parameter _ value).placed
      (by simp [Ptrn.nodes]) fun _ => rfl
  | tuple span elems ty typed =>
    -- Nothing is written into the elements.
    refine ((journals_expr? ty).andAsk fun value => ask_parameter _ value).within
      (Node.items (Ptrn.nodesOf elems)) (by simp [Ptrn.nodes]) fun found hnone => ?_
    have helems : Ptrn.fillList found elems = elems := Ptrn.fillList_of_sated (.of_none hnone)
    simp only [Fillable.ptrn, Ptrn.fill, helems]
    rfl
  | error span => exact Journals.asks _ (ask_parameter _ none)

theorem journals_params (ps : List Ptrn) :
    Journals (.ptrns ps) (lowerParams decls ps : Step σ (List Ptrn) (List Value))
      (emitParams decls ps) := by
  cases ps with
  | nil => exact Journals.done _ []
  | cons p ps =>
    exact ((journals_param p).both fun value =>
      (journals_params ps).andAsk fun values => rfl).placed (by simp [Ptrn.nodesOf]) fun _ => rfl

theorem journals_elems (es : List Elem) :
    Journals (.elems es) (lowerElems decls es : Step σ (List Elem) (List Value))
      (emitElems decls es) := by
  match es with
  | [] => exact Journals.done _ []
  | ⟨id, e⟩ :: es =>
    exact ((journals_expr e).both fun value => (journals_elems es).andAsk fun values => rfl).placed
      (by simp [Elem.nodesOf]) fun _ => rfl

theorem journals_arms (scrutinee : Value) (arms : List Arm) :
    Journals (.arms arms) (lowerArms decls scrutinee arms : Step σ (List Arm) (List Value))
      (emitArms decls scrutinee arms) := by
  match arms with
  | [] => exact Journals.done _ []
  | ⟨span, p, e⟩ :: arms =>
    refine (Journals.behind (ask_destructure p scrutinee) fun _ =>
      (journals_expr e).both fun value =>
      (journals_arms scrutinee arms).andAsk fun values => rfl).within (Node.items p.nodes)
        (by simp [Arm.nodesOf, add_comm]) fun found hnone => ?_
    have hp : p.fill found = p := Ptrn.fill_of_sated (.of_none hnone)
    simp only [Fillable.arms, Arm.fillList, hp]
    rfl

theorem journals_stmnt (s : Stmnt) :
    Journals (.stmnt s) (lowerStmnt decls s : Step σ Stmnt Value) (emitStmnt decls s) := by
  match s with
  | .expr span e => exact (journals_expr e).placed (by simp [Stmnt.nodes]) fun _ => rfl
  | .bind span p e =>
    refine ((journals_expr e).andAsk fun value => ?_).within (Node.items p.nodes)
      (by simp [Stmnt.nodes, add_comm]) fun found hnone => ?_
    · rw [ask_bind, ask_destructure]
      rfl
    · have hp : p.fill found = p := Ptrn.fill_of_sated (.of_none hnone)
      simp only [Fillable.stmnt, Stmnt.fill, hp]
      rfl
  | .item ⟨span, id, e, decl, slot⟩ =>
    exact ((journals_expr e).both fun value => journals_assign decl slot value).placed
      (by simp [Stmnt.nodes, add_comm]) fun _ => rfl

theorem journals_stmnts (ss : List Stmnt) :
    Journals (.stmnts ss) (lowerStmnts decls ss : Step σ (List Stmnt) (List Value))
      (emitStmnts decls ss) := by
  cases ss with
  | nil => exact Journals.done _ []
  | cons s ss =>
    exact ((journals_stmnt s).both fun value =>
      (journals_stmnts ss).andAsk fun values => rfl).placed (by simp [Stmnt.nodesOf]) fun _ => rfl

end

theorem journals_module (ss : List Stmnt) :
    Journals (.stmnts ss) (lowerModule decls ss : Step σ (List Stmnt) (List Value))
      (emitModule decls ss) :=
  .behind (ask_placeholders ss) fun _ => journals_stmnts decls ss

end Emitter

/-! ## Modules -/

namespace Module

/-- No two items have one declaration. -/
def Distinct (module : Module) : Prop := (Node.items module.walk).Nodup

variable {σ : Type} [Builder σ] (b : σ) (module : Module)

/-- The emission with a journal. -/
def journal : Except SlotError (List Value) × EmitState σ :=
  (Emitter.emitModule module.decls module.stmnts).run.run ⟨b, #[]⟩

/-- The values that an emission has found when it ends. -/
def emitValues : ItemValues := fun decl => (module.journal b).2.written.toList.lookup decl

theorem emit_values : (module.emit b).values = (module.journal b).1 := by
  obtain ⟨entries, hrun, -⟩ := Emitter.journals_module module.decls module.stmnts b #[]
  rw [journal, hrun]
  rfl

theorem emit_builder : (module.emit b).builder = (module.journal b).2.builder := by
  obtain ⟨entries, hrun, -⟩ := Emitter.journals_module module.decls module.stmnts b #[]
  rw [journal, hrun]
  rfl

variable {module} in
/-- An emission leaves the tree with the values that it has found. -/
theorem emit_module (h : module.Distinct) :
    (module.emit b).module = module.fill (module.emitValues b) := by
  obtain ⟨entries, hrun, -, hpart⟩ := Emitter.journals_module module.decls module.stmnts b #[]
  have hfilled := hpart h (module.emitValues b) fun decl _ => by
    rw [emitValues, journal, hrun]
    simp
  exact congrArg (fun stmnts => { module with stmnts := stmnts }) hfilled

end Module

end ImpLang
