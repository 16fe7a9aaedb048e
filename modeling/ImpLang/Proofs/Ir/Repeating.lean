import ImpLang.Proofs.Passes

/-!
Emission of a tree that has values already. Up to its writes it does what an emission of the tree
without values does: if every item takes its value it ends in the same way, and if one refuses it the
emission does too.
-/

namespace ImpLang

/-- Items that have none of these values, or the same. -/
def ItemValues.Agree (found : ItemValues) (entries : List (DeclId × Value)) : Prop :=
  ∀ entry ∈ entries, ∀ value, found entry.1 = some value → value = entry.2

namespace ItemValues

variable {found : ItemValues}

theorem agree_append {entries more : List (DeclId × Value)} :
    found.Agree (entries ++ more) ↔ found.Agree entries ∧ found.Agree more :=
  List.forall_mem_append

/-- The first value that has been written for an item is the one that is found. -/
theorem agree_lookup {entries : List (DeclId × Value)} (h : (entries.map Prod.fst).Nodup) :
    Agree (fun decl => entries.lookup decl) entries := by
  intro entry hentry value hvalue
  have hmem := mem_of_lookup hvalue
  have hsame : (entry.1, value) = entry := List.inj_on_of_nodup_map h hmem hentry rfl
  rw [← hsame]

end ItemValues

/-! ## The items that are reached -/

mutual

/-- Emission comes to an item of a tree once, or not at all. -/
theorem Expr.reached_le (e : Expr) : (e.reached : Multiset DeclId) ≤ Node.items e.nodes := by
  cases e <;> simp only [Expr.reached, Expr.nodes, Node.items_expr, Node.items_append,
    Node.items_nil, ← Multiset.coe_add, Multiset.coe_nil, le_refl]
  case tuple span elems => exact Elem.reachedList_le elems
  case sigma span elems => exact Ptrn.reachedList_le elems
  case pi span domain codomain =>
    exact add_le_add (Ptrn.reached_le domain) (Expr.reached_le codomain)
  case lambda span domain codomain body =>
    rw [add_assoc]
    exact add_le_add (Ptrn.reached_le domain)
      (add_le_add (Expr.reached_le codomain) (Expr.reached_le body))
  case app span callee arg cps => exact add_le_add (Expr.reached_le callee) (Expr.reached_le arg)
  case field span value id => exact Expr.reached_le value
  case prefixed span op operand => exact Expr.reached_le operand
  case postfixed span operand op => exact Expr.reached_le operand
  case binary span left op right => exact add_le_add (Expr.reached_le left) (Expr.reached_le right)
  case block span stmnts value =>
    exact add_le_add (Stmnt.reachedList_le stmnts) (Expr.reached_le value)
  case branch span cond yes no =>
    rw [add_assoc]
    exact add_le_add (Expr.reached_le cond) (add_le_add (Expr.reached_le yes) (Expr.reached_le no))
  case select span scrutinee arms =>
    exact add_le_add (Expr.reached_le scrutinee) (Arm.reachedList_le arms)
  case forLoop span ptrn iter body =>
    -- What a loop runs over is emitted in front of its pattern.
    rw [add_assoc, add_left_comm]
    exact add_le_add (Ptrn.reached_le ptrn) (add_le_add (Expr.reached_le iter) (Expr.reached_le body))
  case whileLoop span cond body => exact add_le_add (Expr.reached_le cond) (Expr.reached_le body)
  case pack span domain body => exact add_le_add (Ptrn.reached_le domain) (Expr.reached_le body)
  case variadic span domain body => exact add_le_add (Ptrn.reached_le domain) (Expr.reached_le body)

theorem Expr.reached?_le (e : Option Expr) :
    (Expr.reached? e : Multiset DeclId) ≤ Node.items (Expr.nodesOf? e) := by
  cases e with
  | none => exact le_refl _
  | some e => exact Expr.reached_le e

theorem Ptrn.reached_le (p : Ptrn) : (p.reached : Multiset DeclId) ≤ Node.items p.nodes := by
  cases p <;> simp only [Ptrn.reached, Ptrn.nodes, Node.items_ptrn, Node.items_append, Node.items_nil,
    Multiset.coe_nil, le_refl]
  case name span id decl ty typed => exact Expr.reached?_le ty
  case tuple span elems ty typed => exact (Expr.reached?_le ty).trans (Multiset.le_add_right _ _)

theorem Ptrn.reachedList_le (ps : List Ptrn) :
    (Ptrn.reachedList ps : Multiset DeclId) ≤ Node.items (Ptrn.nodesOf ps) := by
  cases ps with
  | nil => exact le_refl _
  | cons p ps =>
    rw [Ptrn.reachedList, Ptrn.nodesOf, Node.items_append, ← Multiset.coe_add]
    exact add_le_add (Ptrn.reached_le p) (Ptrn.reachedList_le ps)

theorem Elem.reachedList_le (es : List Elem) :
    (Elem.reachedList es : Multiset DeclId) ≤ Node.items (Elem.nodesOf es) := by
  match es with
  | [] => exact le_refl _
  | ⟨id, e⟩ :: es =>
    rw [Elem.reachedList, Elem.nodesOf, Node.items_append, ← Multiset.coe_add]
    exact add_le_add (Expr.reached_le e) (Elem.reachedList_le es)

theorem Arm.reachedList_le (arms : List Arm) :
    (Arm.reachedList arms : Multiset DeclId) ≤ Node.items (Arm.nodesOf arms) := by
  match arms with
  | [] => exact le_refl _
  | ⟨span, p, e⟩ :: arms =>
    rw [Arm.reachedList, Arm.nodesOf, Node.items_append, Node.items_append, ← Multiset.coe_add]
    exact add_le_add ((Expr.reached_le e).trans (Multiset.le_add_left _ _)) (Arm.reachedList_le arms)

theorem Stmnt.reached_le (s : Stmnt) : (s.reached : Multiset DeclId) ≤ Node.items s.nodes := by
  match s with
  | .expr span e => exact Expr.reached_le e
  | .bind span p e =>
    rw [Stmnt.reached, Stmnt.nodes, Node.items_stmnt, Node.items_append]
    exact (Expr.reached_le e).trans (Multiset.le_add_left _ _)
  | .item ⟨span, id, e, decl, slot⟩ =>
    rw [Stmnt.reached, Stmnt.nodes, Node.items_stmnt, Node.items_item, ← Multiset.coe_add, add_comm]
    exact add_le_add (le_refl _) (Expr.reached_le e)

theorem Stmnt.reachedList_le (ss : List Stmnt) :
    (Stmnt.reachedList ss : Multiset DeclId) ≤ Node.items (Stmnt.nodesOf ss) := by
  cases ss with
  | nil => exact le_refl _
  | cons s ss =>
    rw [Stmnt.reachedList, Stmnt.nodesOf, Node.items_append, ← Multiset.coe_add]
    exact add_le_add (Stmnt.reached_le s) (Stmnt.reachedList_le ss)

end

/-- Emission leaves the pattern of a `let` alone but for its names. It comes to no item in an
ascription there. -/
theorem Stmnt.not_mem_reachedList {ss : List Stmnt} (h : (Node.items (nodesOf ss)).Nodup)
    {span : Span} {p : Ptrn} {e : Expr} (hlet : .bind span p e ∈ ss) {decl : DeclId}
    (hdecl : decl ∈ Node.items p.nodes) : decl ∉ reachedList ss := by
  induction ss with
  | nil => cases hlet
  | cons s ss ih =>
    rw [nodesOf, Node.items_append, Multiset.nodup_add] at h
    obtain ⟨hs, hss, hdisjoint⟩ := h
    rw [reachedList, List.mem_append, not_or]
    rcases List.mem_cons.1 hlet with rfl | hlet
    · have hin : decl ∈ Node.items (nodes (.bind span p e)) := by
        rw [nodes, Node.items_stmnt, Node.items_append]
        exact Multiset.mem_add.2 (.inl hdecl)
      rw [nodes, Node.items_stmnt, Node.items_append, Multiset.nodup_add] at hs
      exact ⟨fun hmem => Multiset.disjoint_left.1 hs.2.2 hdecl
          (Multiset.mem_of_le (Expr.reached_le e) hmem),
        fun hmem => Multiset.disjoint_left.1 hdisjoint hin
          (Multiset.mem_of_le (reachedList_le ss) hmem)⟩
    · have hin : decl ∈ Node.items (nodesOf ss) := by
        obtain ⟨it, hit, rfl⟩ := Node.mem_items.1 hdecl
        refine Node.mem_items.2 ⟨it, mem_nodesOf.2 ⟨_, hlet, ?_⟩, rfl⟩
        simp [nodes, hit]
      exact ⟨fun hmem => Multiset.disjoint_right.1 hdisjoint hin
        (Multiset.mem_of_le (reached_le s) hmem), ih hss hlet⟩

/-! ## Runs -/

namespace Emitter

variable {σ : Type} {found : ItemValues}

/-- A step that succeeds, and one that does the same for items with values: it succeeds like the
other if the values that this one writes agree with what is there, and is refused if not. -/
def Repeats (found : ItemValues) {α : Type} (m m' : Emitter σ α) : Prop :=
  ∀ s, ∃ a t entries, m.run.run s = (.ok a, t) ∧
    t.written.toList = s.written.toList ++ entries ∧
    (found.Agree entries → m'.run.run s = (.ok a, t)) ∧
    (¬found.Agree entries → (m'.run.run s).1 = .error .alreadySet)

namespace Repeats

variable {α β : Type}

theorem pure (a : α) : Repeats found (Pure.pure a : Emitter σ α) (Pure.pure a) :=
  fun s => ⟨a, s, [], rfl, (List.append_nil _).symm, fun _ => rfl,
    fun h => absurd (List.forall_mem_nil _) h⟩

theorem bind {m m' : Emitter σ α} {f f' : α → Emitter σ β} (hm : Repeats found m m')
    (hf : ∀ a, Repeats found (f a) (f' a)) : Repeats found (m >>= f) (m' >>= f') := by
  intro s
  obtain ⟨a, t, entries, hrun, hwritten, hagree, hrefuse⟩ := hm s
  obtain ⟨b, u, more, hrun', hwritten', hagree', hrefuse'⟩ := hf a t
  refine ⟨b, u, entries ++ more, ?_, ?_, ?_, ?_⟩
  · rw [ExceptT.run_bind, StateT.run_bind, hrun]
    exact hrun'
  · rw [hwritten', hwritten, List.append_assoc]
  · intro hall
    obtain ⟨hfirst, hmore⟩ := ItemValues.agree_append.1 hall
    rw [ExceptT.run_bind, StateT.run_bind, hagree hfirst]
    exact hagree' hmore
  · intro hnot
    rw [ExceptT.run_bind, StateT.run_bind]
    by_cases hfirst : found.Agree entries
    · rw [hagree hfirst]
      exact hrefuse' fun hmore => hnot (ItemValues.agree_append.2 ⟨hfirst, hmore⟩)
    · -- The refusal of the first step is that of both.
      have hrefused := hrefuse hfirst
      cases hout : m'.run.run s with
      | mk r t' =>
        rw [hout] at hrefused
        obtain rfl : r = .error .alreadySet := hrefused
        rfl

end Repeats

theorem repeats_ask {α : Type} (request : σ → α × σ) :
    Repeats found (ask request) (ask request) :=
  fun _ => ⟨_, _, [], rfl, (List.append_nil _).symm, fun _ => rfl,
    fun h => absurd (List.forall_mem_nil _) h⟩

/-- An item without a value takes any; one with a value takes that one only. -/
theorem repeats_write {decl : DeclId} {slot : Slot Value} (value : Value) (h : slot.get? = none) :
    Repeats found (write decl slot value : Emitter σ Unit)
      (write decl (slot.offer? (found decl)) value) := by
  obtain ⟨current⟩ := slot
  cases h
  intro s
  refine ⟨(), { s with written := s.written.push (decl, value) }, [(decl, value)], rfl, by simp, ?_, ?_⟩
  · intro hagree
    cases hfound : found decl with
    | none => rfl
    | some current =>
      obtain rfl : current = value := hagree _ (List.mem_singleton_self _) current hfound
      simp only [write, Slot.set, Slot.offer?, Option.orElse_eq_orElse, Option.orElse_eq_or,
        Option.none_or, if_true]
      rfl
  · intro hnot
    have hother : ∃ current, found decl = some current ∧ current ≠ value := by
      simpa [ItemValues.Agree] using hnot
    obtain ⟨current, hfound, hne⟩ := hother
    simp only [write, Slot.set, Slot.offer?, hfound, Option.orElse_eq_orElse, Option.orElse_eq_or,
      Option.none_or, if_neg hne]
    rfl

variable [Builder σ]

theorem repeats_build (span : Span) (op : Op) (operands : List Value) :
    Repeats found (build span op operands : Emitter σ Value) (build span op operands) := repeats_ask _

theorem repeats_bind (decl : DeclId) (value : Value) :
    Repeats found (bind decl value : Emitter σ Unit) (bind decl value) := repeats_ask _

theorem repeats_use (decls : Decls) (span : Span) (slot : Slot DeclId) :
    Repeats found (use decls span slot : Emitter σ Value) (use decls span slot) := by
  rw [use]
  split
  · split
    · exact repeats_ask _
    · refine (repeats_ask _).bind fun value => ?_
      split
      · exact .pure _
      · exact repeats_ask _
  · exact repeats_ask _

theorem span_fill (ptrn : Ptrn) : (ptrn.fill found).span = ptrn.span := by
  cases ptrn <;> rfl

mutual

theorem repeats_destructure (ptrn : Ptrn) (value : Value) :
    Repeats found (destructure ptrn value : Emitter σ Unit) (destructure (ptrn.fill found) value) := by
  cases ptrn with
  | name span id decl ty typed => exact repeats_bind decl value
  | tuple span elems ty typed => exact repeats_extract 0 elems value
  | error span => exact .pure ()

theorem repeats_extract (index : Nat) (elems : List Ptrn) (value : Value) :
    Repeats found (extract index elems value : Emitter σ Unit)
      (extract index (Ptrn.fillList found elems) value) := by
  cases elems with
  | nil => exact .pure ()
  | cons elem elems =>
    simp only [extract, Ptrn.fillList, span_fill]
    exact (repeats_build _ _ _).bind fun part => (repeats_destructure elem part).bind fun _ =>
      repeats_extract (index + 1) elems value

end

theorem repeats_placeholders (stmnts : List Stmnt) :
    Repeats found (placeholders stmnts : Emitter σ Unit)
      (placeholders (Stmnt.fillList found stmnts)) := by
  induction stmnts with
  | nil => exact .pure ()
  | cons stmnt stmnts ih =>
    cases stmnt with
    | expr span expr => exact ih
    | bind span ptrn init => exact ih
    | item it =>
      obtain ⟨span, id, expr, decl, slot⟩ := it
      exact (repeats_ask _).bind fun value => (repeats_bind decl value).bind fun _ => ih

theorem repeats_parameter (ptrn : Ptrn) (ty : Option Value) :
    Repeats found (parameter ptrn ty : Emitter σ Value) (parameter (ptrn.fill found) ty) := by
  rw [parameter, parameter, span_fill]
  exact (repeats_ask _).bind fun value => (repeats_destructure ptrn value).bind fun _ => .pure value

variable (decls : Decls)

mutual

/-- Emission comes to the same items in the same order whether they have values or not. -/
theorem repeats_expr {expr : Expr} (h : Node.Fresh True expr.nodes) :
    Repeats found (emitExpr decls expr : Emitter σ Value) (emitExpr decls (expr.fill found)) := by
  cases expr <;> simp only [Expr.nodes, Node.fresh_cons, Node.fresh_append] at h <;>
    simp only [emitExpr, Expr.fill]
  case name span id slot => exact repeats_use decls span slot
  case literal span value => exact repeats_ask _
  case tuple span elems => exact (repeats_elems h.2).bind fun values => repeats_build _ _ _
  case sigma span elems => exact (repeats_params h.2).bind fun values => repeats_build _ _ _
  case pi span domain codomain =>
    exact (repeats_param h.2.1).bind fun d => (repeats_expr h.2.2).bind fun c => repeats_build _ _ _
  case lambda span domain codomain body =>
    exact (repeats_param h.2.1.1).bind fun d => (repeats_expr h.2.1.2).bind fun c =>
      (repeats_expr h.2.2).bind fun b => repeats_build _ _ _
  case app span callee arg cps =>
    exact (repeats_expr h.2.1).bind fun f => (repeats_expr h.2.2).bind fun a => repeats_build _ _ _
  case field span value id => exact (repeats_expr h.2).bind fun v => repeats_build _ _ _
  case prefixed span op operand => exact (repeats_expr h.2).bind fun v => repeats_build _ _ _
  case postfixed span operand op => exact (repeats_expr h.2).bind fun v => repeats_build _ _ _
  case binary span left op right =>
    exact (repeats_expr h.2.1).bind fun l => (repeats_expr h.2.2).bind fun r => repeats_build _ _ _
  case block span stmnts value =>
    exact (repeats_placeholders stmnts).bind fun _ => (repeats_stmnts h.2.1).bind fun values =>
      (repeats_expr h.2.2).bind fun v => repeats_build _ _ _
  case branch span cond yes no =>
    exact (repeats_expr h.2.1.1).bind fun c => (repeats_expr h.2.1.2).bind fun y =>
      (repeats_expr h.2.2).bind fun n => repeats_build _ _ _
  case select span scrutinee arms =>
    exact (repeats_expr h.2.1).bind fun v => (repeats_arms v h.2.2).bind fun values =>
      repeats_build _ _ _
  case forLoop span ptrn iter body =>
    exact (repeats_expr h.2.1.2).bind fun i => (repeats_param h.2.1.1).bind fun p =>
      (repeats_expr h.2.2).bind fun b => repeats_build _ _ _
  case whileLoop span cond body =>
    exact (repeats_expr h.2.1).bind fun c => (repeats_expr h.2.2).bind fun b => repeats_build _ _ _
  case pack span domain body =>
    exact (repeats_param h.2.1).bind fun d => (repeats_expr h.2.2).bind fun b => repeats_build _ _ _
  case variadic span domain body =>
    exact (repeats_param h.2.1).bind fun d => (repeats_expr h.2.2).bind fun b => repeats_build _ _ _
  case qualifier span value => exact repeats_build _ _ _
  case bottom span => exact repeats_build _ _ _
  case unknown span => exact repeats_build _ _ _
  case error span => exact repeats_ask _

theorem repeats_expr? {expr : Option Expr} (h : Node.Fresh True (Expr.nodesOf? expr)) :
    Repeats found (emitExpr? decls expr : Emitter σ (Option Value))
      (emitExpr? decls (Expr.fill? found expr)) := by
  cases expr with
  | none => exact .pure none
  | some expr => exact (repeats_expr h).bind fun value => .pure (some value)

theorem repeats_param {ptrn : Ptrn} (h : Node.Fresh True ptrn.nodes) :
    Repeats found (emitParam decls ptrn : Emitter σ Value) (emitParam decls (ptrn.fill found)) := by
  cases ptrn with
  | name span id decl ty typed =>
    exact (repeats_expr? (Node.fresh_cons.1 h).2).bind fun value =>
      repeats_parameter (.name span id decl ty typed) value
  | tuple span elems ty typed =>
    have hty := (Node.fresh_append.1 (Node.fresh_cons.1 h).2).1
    exact (repeats_expr? hty).bind fun value => repeats_parameter (.tuple span elems ty typed) value
  | error span => exact repeats_parameter (.error span) none

theorem repeats_params {ptrns : List Ptrn} (h : Node.Fresh True (Ptrn.nodesOf ptrns)) :
    Repeats found (emitParams decls ptrns : Emitter σ (List Value))
      (emitParams decls (Ptrn.fillList found ptrns)) := by
  cases ptrns with
  | nil => exact .pure []
  | cons ptrn ptrns =>
    obtain ⟨hptrn, hptrns⟩ := Node.fresh_append.1 h
    exact (repeats_param hptrn).bind fun value => (repeats_params hptrns).bind fun values => .pure _

theorem repeats_elems {elems : List Elem} (h : Node.Fresh True (Elem.nodesOf elems)) :
    Repeats found (emitElems decls elems : Emitter σ (List Value))
      (emitElems decls (Elem.fillList found elems)) := by
  match elems with
  | [] => exact .pure []
  | ⟨id, expr⟩ :: elems =>
    obtain ⟨hexpr, helems⟩ := Node.fresh_append.1 h
    exact (repeats_expr hexpr).bind fun value => (repeats_elems helems).bind fun values => .pure _

theorem repeats_arms (scrutinee : Value) {arms : List Arm}
    (h : Node.Fresh True (Arm.nodesOf arms)) :
    Repeats found (emitArms decls scrutinee arms : Emitter σ (List Value))
      (emitArms decls scrutinee (Arm.fillList found arms)) := by
  match arms with
  | [] => exact .pure []
  | ⟨span, ptrn, body⟩ :: arms =>
    obtain ⟨hfirst, harms⟩ := Node.fresh_append.1 h
    obtain ⟨-, hbody⟩ := Node.fresh_append.1 hfirst
    exact (repeats_destructure ptrn scrutinee).bind fun _ => (repeats_expr hbody).bind fun value =>
      (repeats_arms scrutinee harms).bind fun values => .pure _

theorem repeats_stmnt {stmnt : Stmnt} (h : Node.Fresh True stmnt.nodes) :
    Repeats found (emitStmnt decls stmnt : Emitter σ Value) (emitStmnt decls (stmnt.fill found)) := by
  match stmnt with
  | .expr span expr => exact repeats_expr (Node.fresh_cons.1 h).2
  | .bind span ptrn init =>
    obtain ⟨-, hinit⟩ := Node.fresh_append.1 (Node.fresh_cons.1 h).2
    exact (repeats_expr hinit).bind fun value => (repeats_destructure ptrn value).bind fun _ =>
      .pure value
  | .item ⟨span, id, expr, decl, slot⟩ =>
    obtain ⟨hitem, hexpr⟩ := Node.fresh_cons.1 (Node.fresh_cons.1 h).2
    have hslot : slot.get? = none := hitem _ rfl trivial
    exact (repeats_expr hexpr).bind fun value => (repeats_bind decl value).bind fun _ =>
      (repeats_write value hslot).bind fun _ => .pure value

theorem repeats_stmnts {stmnts : List Stmnt} (h : Node.Fresh True (Stmnt.nodesOf stmnts)) :
    Repeats found (emitStmnts decls stmnts : Emitter σ (List Value))
      (emitStmnts decls (Stmnt.fillList found stmnts)) := by
  cases stmnts with
  | nil => exact .pure []
  | cons stmnt stmnts =>
    obtain ⟨hstmnt, hstmnts⟩ := Node.fresh_append.1 h
    exact (repeats_stmnt hstmnt).bind fun value => (repeats_stmnts hstmnts).bind fun values =>
      .pure _

end

theorem repeats_module {stmnts : List Stmnt} (h : Node.Fresh True (Stmnt.nodesOf stmnts)) :
    Repeats found (emitModule decls stmnts : Emitter σ (List Value))
      (emitModule decls (Stmnt.fillList found stmnts)) :=
  (repeats_placeholders stmnts).bind fun _ => repeats_stmnts decls h

end Emitter

/-! ## Modules -/

namespace Module

theorem distinct_compile (c : Compiler) (name source : String) :
    (c.compile name source).1.Distinct := by
  rw [c.compile_eq, Compiler.module_bind]
  exact (distinct_parseSource c name source).resolveNames _

theorem unset_compile (c : Compiler) (name source : String) : (c.compile name source).1.Unset := by
  rw [c.compile_eq, Compiler.module_bind]
  exact (unset_parseSource c name source).resolveNames _

variable {σ : Type} [Builder σ]

/-- The items whose values an emission writes, with these values, in the order of its writes. -/
def written (b : σ) (module : Module) : List (DeclId × Value) := (module.journal b).2.written.toList

theorem emitValues_eq_lookup (b : σ) (module : Module) (decl : DeclId) :
    module.emitValues b decl = (module.written b).lookup decl := rfl

variable {module : Module}

theorem Unset.map_fst_written (h : module.Unset) (b : σ) :
    (module.written b).map Prod.fst = Stmnt.reachedList module.stmnts := by
  have hfresh : Node.Fresh True module.walk := fun it hit _ => h it hit
  cases hrun : module.journal b with
  | mk r t =>
    obtain ⟨done, hitems, hdone⟩ := Emitter.writes_module module.decls hfresh _ r t hrun
    rw [written, hrun]
    cases r with
    | ok values => exact (hitems.trans (List.nil_append done)).trans hdone
    | error e => exact absurd trivial hdone.2

/-- An item gets a value if the emission writes anything at all. -/
theorem Unset.exists_isSet_iff (h : module.Unset) (hdistinct : module.Distinct) (b : σ) :
    (∃ it, .item it ∈ (module.emit b).module.walk ∧ it.value.isSet) ↔ module.written b ≠ [] := by
  constructor
  · rintro ⟨it, hit, hset⟩ hnone
    have hreached := (h.isSet_emit_iff b hdistinct hit).1 hset
    rw [← h.map_fst_written b, hnone] at hreached
    cases hreached
  · intro hwritten
    obtain ⟨⟨decl, value⟩, hentry⟩ := List.exists_mem_of_ne_nil _ hwritten
    have hreached : decl ∈ Stmnt.reachedList module.stmnts := by
      rw [← h.map_fst_written b]
      exact List.mem_map_of_mem hentry
    obtain ⟨⟨span, id, expr, _, slot⟩, hit, rfl⟩ := Node.mem_items.1
      (Multiset.mem_of_le (Stmnt.reachedList_le module.stmnts) hreached)
    obtain ⟨found, hfound⟩ := Option.isSome_iff_exists.1
      (((module.emit_writes b True fun _ => h).2 trivial).2 _ hreached)
    have hfilled := List.mem_map_of_mem (f := Node.fill (module.emitValues b)) hit
    rw [Node.fill, hfound, ← Stmnt.nodesOf_fillList] at hfilled
    have hset := Slot.isSet_offer? slot found
    rw [emit_module b hdistinct]
    exact ⟨_, hfilled, hset⟩

variable (σ) in
theorem Unset.repeats (h : module.Unset) (found : ItemValues) :
    Emitter.Repeats found (Emitter.emitModule module.decls module.stmnts : Emitter σ (List Value))
      (Emitter.emitModule (module.fill found).decls (module.fill found).stmnts) :=
  Emitter.repeats_module module.decls fun it hit _ => h it hit

/-- With values that agree with what it writes, an emission is as without values. -/
theorem Unset.emit_fill_of_agree (h : module.Unset) {found : ItemValues} (b : σ)
    (hagree : found.Agree (module.written b)) :
    ((module.fill found).emit b).values = (module.emit b).values ∧
      ((module.fill found).emit b).builder = (module.emit b).builder ∧
      (module.fill found).written b = module.written b := by
  obtain ⟨a, t, entries, hrun, hwritten, hsame, -⟩ := h.repeats σ found ⟨b, #[]⟩
  rw [List.nil_append] at hwritten
  rw [written, journal, hrun, hwritten] at hagree
  simp only [emit_values, emit_builder, written, journal, hrun, hsame hagree, and_self]

/-- An item that has another value refuses the one that it is to get. -/
theorem Unset.emit_fill_of_not_agree (h : module.Unset) {found : ItemValues} (b : σ)
    (hnot : ¬found.Agree (module.written b)) :
    ((module.fill found).emit b).values = .error .alreadySet := by
  obtain ⟨a, t, entries, hrun, hwritten, -, hrefuse⟩ := h.repeats σ found ⟨b, #[]⟩
  rw [List.nil_append] at hwritten
  rw [written, journal, hrun, hwritten] at hnot
  rw [emit_values]
  exact hrefuse hnot

/-- Emission passes over items: those in the ascriptions of a `let` are walked and their names are
resolved, and they never get a value. -/
theorem unset_emit_compile (c : Compiler) (name source : String) (b : σ) :
    let module := (c.compile name source).1
    ∀ span ptrn init, .bind span ptrn init ∈ module.stmnts →
      ∀ it, .item it ∈ (module.emit b).module.walk → it.decl ∈ Node.items ptrn.nodes →
        it.value.get? = none := by
  intro module span ptrn init hlet it hit hdecl
  have hdistinct : module.Distinct := distinct_compile c name source
  have hnot := Stmnt.not_mem_reachedList hdistinct hlet hdecl
  have hset := mt ((unset_compile c name source).isSet_emit_iff b hdistinct hit).1 hnot
  exact Option.not_isSome_iff_eq_none.1 hset

/-- An item without a value in what compiles without errors. -/
example :
    let compiled := Compiler.new.compile "a" "def b = ?; let x: { def a = b; a } = b;"
    let emitted := compiled.1.emit Listing.empty
    compiled.2.counts.errors = 0 ∧
      (Node.values emitted.module.walk).map Slot.isSet = [true, false] := by
  decide +kernel

end Module

end ImpLang
