import ImpLang.Proofs.Ir.Journal

/-!
What an emission writes. It comes to the same items of a tree whatever their values, so once it has
written all of them it has nothing to write any more, and refuses or repeats. An emission that is
refused leaves its module as it was, unless some of these items had values and others had not.
-/

namespace ImpLang

/-! ## The items that emission comes to -/

mutual

/-- The items in an expression whose values are written, in this order. Ascriptions are emitted where
they are the types of parameters, and nowhere else. -/
def Expr.reached : Expr → List DeclId
  | .tuple _ elems => Elem.reachedList elems
  | .sigma _ elems => Ptrn.reachedList elems
  | .pi _ domain codomain => domain.reached ++ codomain.reached
  | .lambda _ domain codomain body => domain.reached ++ (codomain.reached ++ body.reached)
  | .app _ callee arg _ => callee.reached ++ arg.reached
  | .field _ value _ => value.reached
  | .prefixed _ _ operand => operand.reached
  | .postfixed _ operand _ => operand.reached
  | .binary _ left _ right => left.reached ++ right.reached
  | .block _ stmnts value => Stmnt.reachedList stmnts ++ value.reached
  | .branch _ cond yes no => cond.reached ++ (yes.reached ++ no.reached)
  | .select _ scrutinee arms => scrutinee.reached ++ Arm.reachedList arms
  | .forLoop _ ptrn iter body => iter.reached ++ (ptrn.reached ++ body.reached)
  | .whileLoop _ cond body => cond.reached ++ body.reached
  | .pack _ domain body => domain.reached ++ body.reached
  | .variadic _ domain body => domain.reached ++ body.reached
  | .name .. | .literal .. | .qualifier .. | .bottom _ | .unknown _ | .error _ => []

def Expr.reached? : Option Expr → List DeclId
  | none => []
  | some expr => expr.reached

/-- The items in the type of a parameter. -/
def Ptrn.reached : Ptrn → List DeclId
  | .name _ _ _ ty _ => Expr.reached? ty
  | .tuple _ _ ty _ => Expr.reached? ty
  | .error _ => []

def Ptrn.reachedList : List Ptrn → List DeclId
  | [] => []
  | ptrn :: ptrns => ptrn.reached ++ Ptrn.reachedList ptrns

def Elem.reachedList : List Elem → List DeclId
  | [] => []
  | ⟨_, expr⟩ :: elems => expr.reached ++ Elem.reachedList elems

def Arm.reachedList : List Arm → List DeclId
  | [] => []
  | ⟨_, _, body⟩ :: arms => body.reached ++ Arm.reachedList arms

def Stmnt.reached : Stmnt → List DeclId
  | .expr _ expr => expr.reached
  | .bind _ _ init => init.reached
  | .item ⟨_, _, expr, decl, _⟩ => expr.reached ++ [decl]

def Stmnt.reachedList : List Stmnt → List DeclId
  | [] => []
  | stmnt :: stmnts => stmnt.reached ++ Stmnt.reachedList stmnts

end

theorem Stmnt.mem_reachedList {decl : DeclId} {stmnts : List Stmnt} :
    decl ∈ reachedList stmnts ↔ ∃ stmnt ∈ stmnts, decl ∈ stmnt.reached := by
  induction stmnts with
  | nil => simp [reachedList]
  | cons stmnt stmnts ih => simp [reachedList, ih]

theorem Stmnt.mem_nodesOf {node : Node} {stmnts : List Stmnt} :
    node ∈ nodesOf stmnts ↔ ∃ stmnt ∈ stmnts, node ∈ stmnt.nodes := by
  induction stmnts with
  | nil => simp [nodesOf]
  | cons stmnt stmnts ih => simp [nodesOf, ih]

section

variable (name : Slot DeclId → Slot DeclId) (item : Slot Value → Slot Value)

mutual

/-- Where emission comes to does not depend on annotations. -/
theorem Expr.reached_mapSlots (e : Expr) : (e.mapSlots name item).reached = e.reached := by
  cases e <;> simp only [Expr.mapSlots, Expr.reached, Expr.reached_mapSlots, Ptrn.reached_mapSlots,
    Ptrn.reachedList_mapSlotsList, Elem.reachedList_mapSlotsList, Arm.reachedList_mapSlotsList,
    Stmnt.reachedList_mapSlotsList]

theorem Expr.reached?_mapSlots? (e : Option Expr) :
    Expr.reached? (Expr.mapSlots? name item e) = Expr.reached? e := by
  cases e with
  | none => rfl
  | some e => exact Expr.reached_mapSlots e

theorem Ptrn.reached_mapSlots (p : Ptrn) : (p.mapSlots name item).reached = p.reached := by
  cases p <;> simp only [Ptrn.mapSlots, Ptrn.reached, Expr.reached?_mapSlots?]

theorem Ptrn.reachedList_mapSlotsList (ps : List Ptrn) :
    Ptrn.reachedList (Ptrn.mapSlotsList name item ps) = Ptrn.reachedList ps := by
  cases ps with
  | nil => rfl
  | cons p ps =>
    simp only [Ptrn.mapSlotsList, Ptrn.reachedList, Ptrn.reached_mapSlots p,
      Ptrn.reachedList_mapSlotsList ps]

theorem Elem.reachedList_mapSlotsList (es : List Elem) :
    Elem.reachedList (Elem.mapSlotsList name item es) = Elem.reachedList es := by
  match es with
  | [] => rfl
  | ⟨id, e⟩ :: es =>
    simp only [Elem.mapSlotsList, Elem.reachedList, Expr.reached_mapSlots e,
      Elem.reachedList_mapSlotsList es]

theorem Arm.reachedList_mapSlotsList (arms : List Arm) :
    Arm.reachedList (Arm.mapSlotsList name item arms) = Arm.reachedList arms := by
  match arms with
  | [] => rfl
  | ⟨span, p, e⟩ :: arms =>
    simp only [Arm.mapSlotsList, Arm.reachedList, Expr.reached_mapSlots e,
      Arm.reachedList_mapSlotsList arms]

theorem Stmnt.reached_mapSlots (s : Stmnt) : (s.mapSlots name item).reached = s.reached := by
  match s with
  | .expr span e => simp only [Stmnt.mapSlots, Stmnt.reached, Expr.reached_mapSlots e]
  | .bind span p e => simp only [Stmnt.mapSlots, Stmnt.reached, Expr.reached_mapSlots e]
  | .item ⟨span, id, e, decl, slot⟩ =>
    simp only [Stmnt.mapSlots, Stmnt.reached, Expr.reached_mapSlots e]

theorem Stmnt.reachedList_mapSlotsList (ss : List Stmnt) :
    Stmnt.reachedList (Stmnt.mapSlotsList name item ss) = Stmnt.reachedList ss := by
  cases ss with
  | nil => rfl
  | cons s ss =>
    simp only [Stmnt.mapSlotsList, Stmnt.reachedList, Stmnt.reached_mapSlots s,
      Stmnt.reachedList_mapSlotsList ss]

end

variable {name item}

theorem Stmnt.reachedList_congr {ss ss' : List Stmnt}
    (h : mapSlotsList name item ss' = mapSlotsList name item ss) :
    reachedList ss' = reachedList ss := by
  rw [← reachedList_mapSlotsList name item, h, reachedList_mapSlotsList]

end

/-- If a pass is to be fresh, the items among some nodes have no values. -/
def Node.Fresh (fresh : Prop) (nodes : List Node) : Prop :=
  ∀ it, .item it ∈ nodes → fresh → it.value.get? = none

namespace Node

variable {fresh : Prop}

theorem fresh_cons {node : Node} {nodes : List Node} :
    Fresh fresh (node :: nodes) ↔
      (∀ it, node = .item it → fresh → it.value.get? = none) ∧ Fresh fresh nodes := by
  simp only [Fresh, List.mem_cons, or_imp, forall_and, eq_comm]

theorem fresh_append {nodes more : List Node} :
    Fresh fresh (nodes ++ more) ↔ Fresh fresh nodes ∧ Fresh fresh more := by
  simp only [Fresh, List.mem_append, or_imp, forall_and]

end Node

/-! ## Runs -/

/-- The items whose values have been written. -/
def EmitState.items {σ : Type} (s : EmitState σ) : List DeclId := s.written.toList.map Prod.fst

namespace Emitter

variable {σ : Type} (fresh : Prop)

/-- A step writes its items one by one. It is not refused if it is fresh. -/
def Writes {α : Type} (m : Emitter σ α) (items : List DeclId) : Prop :=
  ∀ s r t, m.run.run s = (r, t) → ∃ done, t.items = s.items ++ done ∧
    match r with
    | .ok _ => done = items
    | .error _ => done ⊆ items ∧ ¬fresh

namespace Writes

variable {fresh} {α β : Type} {items more : List DeclId}

theorem pure (a : α) : Writes fresh (Pure.pure a : Emitter σ α) [] := by
  intro s r t hrun
  cases hrun
  exact ⟨[], (List.append_nil _).symm, rfl⟩

theorem bind {m : Emitter σ α} {f : α → Emitter σ β} (hm : Writes fresh m items)
    (hf : ∀ a, Writes fresh (f a) more) : Writes fresh (m >>= f) (items ++ more) := by
  intro s r u hrun
  rw [ExceptT.run_bind, StateT.run_bind] at hrun
  cases hfirst : m.run.run s with
  | mk q t =>
    obtain ⟨done, htitems, hdone⟩ := hm s q t hfirst
    rw [hfirst] at hrun
    cases q with
    | error e =>
      cases hrun
      obtain ⟨hsub, hfresh⟩ := hdone
      exact ⟨done, htitems, fun decl hdecl => List.mem_append_left _ (hsub hdecl), hfresh⟩
    | ok a =>
      obtain rfl : done = items := hdone
      obtain ⟨last, huitems, hlast⟩ := hf a t r u hrun
      refine ⟨done ++ last, by rw [huitems, htitems, List.append_assoc], ?_⟩
      cases r with
      | ok b => exact congrArg (done ++ ·) hlast
      | error e =>
        obtain ⟨hsub, hfresh⟩ := hlast
        refine ⟨?_, hfresh⟩
        intro decl hdecl
        rcases List.mem_append.1 hdecl with hdecl | hdecl
        · exact List.mem_append_left _ hdecl
        · exact List.mem_append_right _ (hsub hdecl)

/-- A step behind which nothing is written. -/
theorem last {m : Emitter σ α} {f : α → Emitter σ β} (hm : Writes fresh m items)
    (hf : ∀ a, Writes fresh (f a) []) : Writes fresh (m >>= f) items :=
  List.append_nil items ▸ hm.bind hf

/-- A step that writes nothing. -/
theorem skip {m : Emitter σ α} {f : α → Emitter σ β} (hm : Writes fresh m [])
    (hf : ∀ a, Writes fresh (f a) items) : Writes fresh (m >>= f) items := hm.bind hf

end Writes

variable {fresh}

theorem writes_ask {α : Type} (request : σ → α × σ) : Writes fresh (ask request) [] := by
  intro s r t hrun
  cases hrun
  exact ⟨[], (List.append_nil _).symm, rfl⟩

/-- Only a slot that has a value refuses one. -/
theorem writes_write {decl : DeclId} {slot : Slot Value} (value : Value)
    (h : fresh → slot.get? = none) : Writes fresh (write decl slot value : Emitter σ Unit) [decl] := by
  intro s r t hrun
  rw [write] at hrun
  cases hset : slot.set value with
  | ok next =>
    rw [hset] at hrun
    cases hrun
    refine ⟨[decl], ?_, rfl⟩
    show (s.written.push (decl, value)).toList.map Prod.fst = _
    simp [EmitState.items]
  | error e =>
    rw [hset] at hrun
    cases hrun
    refine ⟨[], (List.append_nil _).symm, List.nil_subset _, ?_⟩
    intro hfresh
    rw [Slot.set, h hfresh] at hset
    cases hset

variable [Builder σ]

theorem writes_build (span : Span) (op : Op) (operands : List Value) :
    Writes fresh (build span op operands : Emitter σ Value) [] := writes_ask _

theorem writes_bind (decl : DeclId) (value : Value) :
    Writes fresh (bind decl value : Emitter σ Unit) [] := writes_ask _

theorem writes_use (decls : Decls) (span : Span) (slot : Slot DeclId) :
    Writes fresh (use decls span slot : Emitter σ Value) [] := by
  rw [use]
  split
  · split
    · exact writes_ask _
    · refine (writes_ask _).skip fun value => ?_
      split
      · exact .pure _
      · exact writes_ask _
  · exact writes_ask _

mutual

theorem writes_destructure (ptrn : Ptrn) (value : Value) :
    Writes fresh (destructure ptrn value : Emitter σ Unit) [] := by
  cases ptrn with
  | name span id decl ty typed => exact writes_bind decl value
  | tuple span elems ty typed => exact writes_extract 0 elems value
  | error span => exact .pure ()

theorem writes_extract (index : Nat) (elems : List Ptrn) (value : Value) :
    Writes fresh (extract index elems value : Emitter σ Unit) [] := by
  cases elems with
  | nil => exact .pure ()
  | cons elem elems =>
    exact (writes_build _ _ _).skip fun part => (writes_destructure elem part).skip fun _ =>
      writes_extract (index + 1) elems value

end

theorem writes_placeholders (stmnts : List Stmnt) :
    Writes fresh (placeholders stmnts : Emitter σ Unit) [] := by
  induction stmnts with
  | nil => exact .pure ()
  | cons stmnt stmnts ih =>
    cases stmnt with
    | expr span expr => exact ih
    | bind span ptrn init => exact ih
    | item it => exact (writes_ask _).skip fun value => (writes_bind it.decl value).skip fun _ => ih

theorem writes_parameter (ptrn : Ptrn) (ty : Option Value) :
    Writes fresh (parameter ptrn ty : Emitter σ Value) [] :=
  (writes_ask _).skip fun value => (writes_destructure ptrn value).skip fun _ => .pure value

variable (decls : Decls)

mutual

/-- Emission writes the items that it comes to. -/
theorem writes_expr {expr : Expr} (h : Node.Fresh fresh expr.nodes) :
    Writes fresh (emitExpr decls expr : Emitter σ Value) expr.reached := by
  cases expr <;> simp only [Expr.nodes, Node.fresh_cons, Node.fresh_append] at h <;>
    simp only [emitExpr, Expr.reached]
  case name span id slot => exact writes_use decls span slot
  case literal span value => exact writes_ask _
  case tuple span elems => exact (writes_elems h.2).last fun values => writes_build _ _ _
  case sigma span elems => exact (writes_params h.2).last fun values => writes_build _ _ _
  case pi span domain codomain =>
    exact (writes_param h.2.1).bind fun d => (writes_expr h.2.2).last fun c => writes_build _ _ _
  case lambda span domain codomain body =>
    exact (writes_param h.2.1.1).bind fun d => (writes_expr h.2.1.2).bind fun c =>
      (writes_expr h.2.2).last fun b => writes_build _ _ _
  case app span callee arg cps =>
    exact (writes_expr h.2.1).bind fun f => (writes_expr h.2.2).last fun a => writes_build _ _ _
  case field span value id => exact (writes_expr h.2).last fun v => writes_build _ _ _
  case prefixed span op operand => exact (writes_expr h.2).last fun v => writes_build _ _ _
  case postfixed span operand op => exact (writes_expr h.2).last fun v => writes_build _ _ _
  case binary span left op right =>
    exact (writes_expr h.2.1).bind fun l => (writes_expr h.2.2).last fun r => writes_build _ _ _
  case block span stmnts value =>
    exact (writes_placeholders stmnts).skip fun _ => (writes_stmnts h.2.1).bind fun values =>
      (writes_expr h.2.2).last fun v => writes_build _ _ _
  case branch span cond yes no =>
    exact (writes_expr h.2.1.1).bind fun c => (writes_expr h.2.1.2).bind fun y =>
      (writes_expr h.2.2).last fun n => writes_build _ _ _
  case select span scrutinee arms =>
    exact (writes_expr h.2.1).bind fun v => (writes_arms v h.2.2).last fun values => writes_build _ _ _
  case forLoop span ptrn iter body =>
    exact (writes_expr h.2.1.2).bind fun i => (writes_param h.2.1.1).bind fun p =>
      (writes_expr h.2.2).last fun b => writes_build _ _ _
  case whileLoop span cond body =>
    exact (writes_expr h.2.1).bind fun c => (writes_expr h.2.2).last fun b => writes_build _ _ _
  case pack span domain body =>
    exact (writes_param h.2.1).bind fun d => (writes_expr h.2.2).last fun b => writes_build _ _ _
  case variadic span domain body =>
    exact (writes_param h.2.1).bind fun d => (writes_expr h.2.2).last fun b => writes_build _ _ _
  case qualifier span value => exact writes_build _ _ _
  case bottom span => exact writes_build _ _ _
  case unknown span => exact writes_build _ _ _
  case error span => exact writes_ask _

theorem writes_expr? {expr : Option Expr} (h : Node.Fresh fresh (Expr.nodesOf? expr)) :
    Writes fresh (emitExpr? decls expr : Emitter σ (Option Value)) (Expr.reached? expr) := by
  cases expr with
  | none => exact .pure none
  | some expr => exact (writes_expr h).last fun value => .pure (some value)

theorem writes_param {ptrn : Ptrn} (h : Node.Fresh fresh ptrn.nodes) :
    Writes fresh (emitParam decls ptrn : Emitter σ Value) ptrn.reached := by
  cases ptrn with
  | name span id decl ty typed =>
    exact (writes_expr? (Node.fresh_cons.1 h).2).last fun value => writes_parameter _ value
  | tuple span elems ty typed =>
    have hty := (Node.fresh_append.1 (Node.fresh_cons.1 h).2).1
    exact (writes_expr? hty).last fun value => writes_parameter _ value
  | error span => exact writes_parameter _ none

theorem writes_params {ptrns : List Ptrn} (h : Node.Fresh fresh (Ptrn.nodesOf ptrns)) :
    Writes fresh (emitParams decls ptrns : Emitter σ (List Value)) (Ptrn.reachedList ptrns) := by
  cases ptrns with
  | nil => exact .pure []
  | cons ptrn ptrns =>
    obtain ⟨hptrn, hptrns⟩ := Node.fresh_append.1 h
    exact (writes_param hptrn).bind fun value => (writes_params hptrns).last fun values => .pure _

theorem writes_elems {elems : List Elem} (h : Node.Fresh fresh (Elem.nodesOf elems)) :
    Writes fresh (emitElems decls elems : Emitter σ (List Value)) (Elem.reachedList elems) := by
  match elems with
  | [] => exact .pure []
  | ⟨id, expr⟩ :: elems =>
    obtain ⟨hexpr, helems⟩ := Node.fresh_append.1 h
    exact (writes_expr hexpr).bind fun value => (writes_elems helems).last fun values => .pure _

theorem writes_arms (scrutinee : Value) {arms : List Arm} (h : Node.Fresh fresh (Arm.nodesOf arms)) :
    Writes fresh (emitArms decls scrutinee arms : Emitter σ (List Value)) (Arm.reachedList arms) := by
  match arms with
  | [] => exact .pure []
  | ⟨span, ptrn, body⟩ :: arms =>
    obtain ⟨hfirst, harms⟩ := Node.fresh_append.1 h
    obtain ⟨-, hbody⟩ := Node.fresh_append.1 hfirst
    exact (writes_destructure ptrn scrutinee).skip fun _ => (writes_expr hbody).bind fun value =>
      (writes_arms scrutinee harms).last fun values => .pure _

theorem writes_stmnt {stmnt : Stmnt} (h : Node.Fresh fresh stmnt.nodes) :
    Writes fresh (emitStmnt decls stmnt : Emitter σ Value) stmnt.reached := by
  match stmnt with
  | .expr span expr => exact writes_expr (Node.fresh_cons.1 h).2
  | .bind span ptrn init =>
    obtain ⟨-, hinit⟩ := Node.fresh_append.1 (Node.fresh_cons.1 h).2
    exact (writes_expr hinit).last fun value => (writes_destructure ptrn value).skip fun _ =>
      .pure value
  | .item ⟨span, id, expr, decl, slot⟩ =>
    obtain ⟨hitem, hexpr⟩ := Node.fresh_cons.1 (Node.fresh_cons.1 h).2
    have hslot : fresh → slot.get? = none := hitem _ rfl
    exact (writes_expr hexpr).bind fun value => (writes_bind decl value).skip fun _ =>
      (writes_write value hslot).last fun _ => .pure value

theorem writes_stmnts {stmnts : List Stmnt} (h : Node.Fresh fresh (Stmnt.nodesOf stmnts)) :
    Writes fresh (emitStmnts decls stmnts : Emitter σ (List Value)) (Stmnt.reachedList stmnts) := by
  cases stmnts with
  | nil => exact .pure []
  | cons stmnt stmnts =>
    obtain ⟨hstmnt, hstmnts⟩ := Node.fresh_append.1 h
    exact (writes_stmnt hstmnt).bind fun value => (writes_stmnts hstmnts).last fun values => .pure _

end

theorem writes_module {stmnts : List Stmnt} (h : Node.Fresh fresh (Stmnt.nodesOf stmnts)) :
    Writes fresh (emitModule decls stmnts : Emitter σ (List Value)) (Stmnt.reachedList stmnts) :=
  (writes_placeholders stmnts).skip fun _ => writes_stmnts decls h

end Emitter

/-! ## Modules -/

/-- Items without values in a list of nodes. -/
theorem Node.unset_of_reset {nodes : List Node} (h : nodes.map (mapSlots id Slot.reset) = nodes) :
    ∀ item, .item item ∈ nodes → item.value.get? = none := by
  intro ⟨span, name, e, decl, slot⟩ hitem
  have hself := List.map_inj_left.1 (h.trans (List.map_id nodes).symm) _ hitem
  simp only [mapSlots, id_eq, Node.item.injEq, Item.mk.injEq] at hself
  have hslot : slot.reset = slot := hself.2.2.2.2
  exact hslot ▸ rfl

namespace Module

/-- No item has a value. -/
def Unset (module : Module) : Prop := ∀ it, .item it ∈ module.walk → it.value.get? = none

/-- No item has a value, or all those have one that emission comes to. -/
def AllOrNone (module : Module) : Prop :=
  (∀ it, .item it ∈ module.walk → it.value.get? = none) ∨
    ∀ it, .item it ∈ module.walk → it.decl ∈ Stmnt.reachedList module.stmnts → it.value.isSet

section

variable {module module' : Module} (hstmnts : ∀ stmnt ∈ module'.stmnts, stmnt ∈ module.stmnts)

include hstmnts

theorem walk_subset : ∀ node ∈ module'.walk, node ∈ module.walk := by
  intro node hnode
  obtain ⟨stmnt, hstmnt, hmem⟩ := Stmnt.mem_nodesOf.1 hnode
  exact Stmnt.mem_nodesOf.2 ⟨stmnt, hstmnts stmnt hstmnt, hmem⟩

theorem Unset.subset (h : module.Unset) : module'.Unset :=
  fun it hit => h it (walk_subset hstmnts _ hit)

/-- With less to reach this stays so. -/
theorem AllOrNone.subset (h : module.AllOrNone) : module'.AllOrNone := by
  rcases h with hnone | hall
  · exact .inl (Unset.subset hstmnts hnone)
  · refine .inr fun it hit hreached => hall it (walk_subset hstmnts _ hit) ?_
    obtain ⟨stmnt, hstmnt, hmem⟩ := Stmnt.mem_reachedList.1 hreached
    exact Stmnt.mem_reachedList.2 ⟨stmnt, hstmnts stmnt hstmnt, hmem⟩

end

variable {σ : Type} [Builder σ] (b : σ) (module : Module)

/-- An emission has values for items that it comes to only. If no item had one it has them for all
of these, and is not refused. -/
theorem emit_writes (fresh : Prop)
    (h : fresh → ∀ it, .item it ∈ module.walk → it.value.get? = none) :
    (∀ decl, (module.emitValues b decl).isSome → decl ∈ Stmnt.reachedList module.stmnts) ∧
      (fresh → (∃ values, (module.emit b).values = .ok values) ∧
        ∀ decl ∈ Stmnt.reachedList module.stmnts, (module.emitValues b decl).isSome) := by
  have hfresh : Node.Fresh fresh module.walk := fun it hit hf => h hf it hit
  cases hrun : module.journal b with
  | mk r t =>
    obtain ⟨done, hitems, hdone⟩ := Emitter.writes_module module.decls hfresh _ r t hrun
    have hmem : ∀ decl, (module.emitValues b decl).isSome ↔ decl ∈ done := by
      intro decl
      have hdecls : t.written.toList.map Prod.fst = done := hitems
      rw [emitValues, hrun, List.lookup_isSome_iff, ← hdecls]
      simp only [beq_iff_eq, List.mem_map, eq_comm (a := decl)]
    have hvalues : (module.emit b).values = r := by rw [emit_values, hrun]
    rw [hvalues]
    cases r with
    | ok values =>
      obtain rfl : done = Stmnt.reachedList module.stmnts := hdone
      exact ⟨fun decl => (hmem decl).1, fun _ => ⟨⟨values, rfl⟩, fun decl => (hmem decl).2⟩⟩
    | error e =>
      obtain ⟨hsub, hnot⟩ := hdone
      exact ⟨fun decl hsome => hsub ((hmem decl).1 hsome), fun hf => absurd hf hnot⟩

/-- Emission offers every item what it has found for it. -/
theorem item_of_emit (hdistinct : module.Distinct) {it : Item} (h : .item it ∈ (module.emit b).module.walk) :
    ∃ old, .item old ∈ module.walk ∧ old.decl = it.decl ∧
      it.value = old.value.offer? (module.emitValues b it.decl) := by
  rw [emit_module b hdistinct, fill, walk, Stmnt.nodesOf_fillList] at h
  obtain ⟨node, hnode, hfill⟩ := List.mem_map.1 h
  cases node with
  | item old =>
    obtain ⟨span, name, expr, decl, slot⟩ := old
    cases hfill
    exact ⟨_, hnode, rfl, rfl⟩
  | stmnt s => cases hfill
  | expr e => cases hfill
  | ptrn p => cases hfill

/-- The values of a module that had none are those that its emission has found. -/
theorem emit_stored (hdistinct : module.Distinct) (hmodule : module.Unset) {it : Item}
    (hit : .item it ∈ (module.emit b).module.walk) {value : Value}
    (hvalue : it.value.get? = some value) : module.emitValues b it.decl = some value := by
  obtain ⟨old, hold, -, hoffer⟩ := module.item_of_emit b hdistinct hit
  have hslot : old.value.get? = none := hmodule old hold
  rw [hoffer] at hvalue
  cases hfound : module.emitValues b it.decl with
  | none => simp [hfound, hslot] at hvalue
  | some found => simpa [hfound, Slot.offer?, hslot] using hvalue

variable {module}

/-- Where all have values there is nothing to write. -/
theorem emit_of_all (hdistinct : module.Distinct) (h : ∀ it, .item it ∈ module.walk →
    it.decl ∈ Stmnt.reachedList module.stmnts → it.value.isSet) :
    (module.emit b).module = module := by
  have hreached := (module.emit_writes b False (fun hf => hf.elim)).1
  have hsated : Node.Sated (module.emitValues b) module.walk := by
    intro it hit
    cases hvalue : module.emitValues b it.decl with
    | none => exact Slot.offer?_none it.value
    | some value =>
      have hset := h it hit (hreached it.decl (by rw [hvalue]; rfl))
      exact Slot.offer?_of_isSet hset _
  rw [emit_module b hdistinct, fill, Stmnt.fillList_of_sated hsated]

/-- The first emission gives values to the items that it comes to, and to no others. -/
theorem Unset.isSet_emit_iff (h : module.Unset) (hdistinct : module.Distinct) {it : Item}
    (hit : .item it ∈ (module.emit b).module.walk) :
    it.value.isSet ↔ it.decl ∈ Stmnt.reachedList module.stmnts := by
  obtain ⟨hreached, hfresh⟩ := module.emit_writes b True fun _ => h
  constructor
  · intro hset
    obtain ⟨value, hvalue⟩ := Option.isSome_iff_exists.1 hset
    have hfound := module.emit_stored b hdistinct h hit hvalue
    exact hreached it.decl (by rw [hfound]; rfl)
  · intro hmem
    obtain ⟨value, hvalue⟩ := Option.isSome_iff_exists.1 ((hfresh trivial).2 it.decl hmem)
    obtain ⟨old, -, -, hoffer⟩ := module.item_of_emit b hdistinct hit
    rw [hoffer, hvalue]
    exact Slot.isSet_offer? old.value value

theorem AllOrNone.emit (h : module.AllOrNone) (hdistinct : module.Distinct) :
    (module.emit b).module.AllOrNone := by
  rcases h with hnone | hall
  · refine .inr fun it hit hreached => (Unset.isSet_emit_iff b hnone hdistinct hit).2 ?_
    rwa [emit_module b hdistinct, fill, Stmnt.reachedList_congr
      (Stmnt.mapSlotsList_fillList _ id module.stmnts)] at hreached
  · rw [emit_of_all b hdistinct hall]
    exact .inr hall

/-- An emission that is refused leaves the module as it was. -/
theorem AllOrNone.emit_error (h : module.AllOrNone) (hdistinct : module.Distinct) {e : SlotError}
    (herror : (module.emit b).values = .error e) : (module.emit b).module = module := by
  rcases h with hnone | hall
  · obtain ⟨⟨values, hok⟩, -⟩ := (module.emit_writes b True fun _ => hnone).2 trivial
    rw [hok] at herror
    cases herror
  · exact emit_of_all b hdistinct hall

end Module

end ImpLang
