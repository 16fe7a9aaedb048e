import ImpLang.Proofs.Tree.Annotation

/-!
Writing values into the items of a tree, at any depth. It reaches the slots of items and nothing else,
and an item that has a value keeps it.
-/

namespace ImpLang

/-- An empty slot takes what is offered, a full one keeps what it has. -/
def Slot.offer? {α : Type} (slot : Slot α) (value : Option α) : Slot α :=
  ⟨slot.get? <|> value⟩

/-- The value found for each declaration. -/
abbrev ItemValues := DeclId → Option Value

mutual

def Expr.fill (values : ItemValues) : Expr → Expr
  | .name span id decl => .name span id decl
  | .literal span value => .literal span value
  | .tuple span elems => .tuple span (Elem.fillList values elems)
  | .sigma span elems => .sigma span (Ptrn.fillList values elems)
  | .pi span domain codomain => .pi span (domain.fill values) (codomain.fill values)
  | .lambda span domain codomain body =>
    .lambda span (domain.fill values) (codomain.fill values) (body.fill values)
  | .app span callee arg cps => .app span (callee.fill values) (arg.fill values) cps
  | .field span value id => .field span (value.fill values) id
  | .prefixed span op operand => .prefixed span op (operand.fill values)
  | .postfixed span operand op => .postfixed span (operand.fill values) op
  | .binary span left op right => .binary span (left.fill values) op (right.fill values)
  | .block span stmnts value =>
    .block span (Stmnt.fillList values stmnts) (value.fill values)
  | .branch span cond yes no =>
    .branch span (cond.fill values) (yes.fill values) (no.fill values)
  | .select span scrutinee arms =>
    .select span (scrutinee.fill values) (Arm.fillList values arms)
  | .forLoop span ptrn iter body =>
    .forLoop span (ptrn.fill values) (iter.fill values) (body.fill values)
  | .whileLoop span cond body => .whileLoop span (cond.fill values) (body.fill values)
  | .pack span domain body => .pack span (domain.fill values) (body.fill values)
  | .variadic span domain body => .variadic span (domain.fill values) (body.fill values)
  | .qualifier span value => .qualifier span value
  | .bottom span => .bottom span
  | .unknown span => .unknown span
  | .error span => .error span

def Expr.fill? (values : ItemValues) : Option Expr → Option Expr
  | none => none
  | some expr => some (expr.fill values)

def Ptrn.fill (values : ItemValues) : Ptrn → Ptrn
  | .name span id decl ty typed => .name span id decl (Expr.fill? values ty) typed
  | .tuple span elems ty typed =>
    .tuple span (Ptrn.fillList values elems) (Expr.fill? values ty) typed
  | .error span => .error span

def Ptrn.fillList (values : ItemValues) : List Ptrn → List Ptrn
  | [] => []
  | ptrn :: ptrns => ptrn.fill values :: Ptrn.fillList values ptrns

def Elem.fillList (values : ItemValues) : List Elem → List Elem
  | [] => []
  | ⟨id, expr⟩ :: elems => ⟨id, expr.fill values⟩ :: Elem.fillList values elems

def Arm.fillList (values : ItemValues) : List Arm → List Arm
  | [] => []
  | ⟨span, ptrn, body⟩ :: arms =>
    ⟨span, ptrn.fill values, body.fill values⟩ :: Arm.fillList values arms

def Stmnt.fill (values : ItemValues) : Stmnt → Stmnt
  | .expr span expr => .expr span (expr.fill values)
  | .bind span ptrn init => .bind span (ptrn.fill values) (init.fill values)
  | .item ⟨span, id, expr, decl, value⟩ =>
    .item ⟨span, id, expr.fill values, decl, value.offer? (values decl)⟩

def Stmnt.fillList (values : ItemValues) : List Stmnt → List Stmnt
  | [] => []
  | stmnt :: stmnts => stmnt.fill values :: Stmnt.fillList values stmnts

end

def Module.fill (values : ItemValues) (module : Module) : Module :=
  { module with stmnts := Stmnt.fillList values module.stmnts }

namespace Slot

variable {α : Type} {slot : Slot α}

@[simp] theorem offer?_none (slot : Slot α) : slot.offer? none = slot := by
  cases h : slot.get? <;> simp [offer?, ← h]

theorem offer?_of_isSet (h : slot.isSet) (value : Option α) : slot.offer? value = slot := by
  obtain ⟨current⟩ := slot
  cases current with
  | none => cases h
  | some current => rfl

theorem isSet_offer? (slot : Slot α) (value : α) : (slot.offer? (some value)).isSet := by
  obtain ⟨current⟩ := slot
  cases current <;> rfl

end Slot

/-- Write values at a node and below it. -/
def Node.fill (values : ItemValues) : Node → Node
  | .stmnt s => .stmnt (s.fill values)
  | .item ⟨span, id, e, decl, slot⟩ =>
    .item ⟨span, id, e.fill values, decl, slot.offer? (values decl)⟩
  | .expr e => .expr (e.fill values)
  | .ptrn p => .ptrn (p.fill values)

variable (values : ItemValues)

theorem Stmnt.fillList_eq_map (ss : List Stmnt) : fillList values ss = ss.map (fill values) := by
  induction ss with
  | nil => rfl
  | cons s ss ih => rw [fillList, ih, List.map_cons]

mutual

/-- A walk over a filled tree visits the same nodes with more values. -/
theorem Expr.nodes_fill (e : Expr) : (e.fill values).nodes = e.nodes.map (Node.fill values) := by
  cases e <;> simp only [Expr.fill, Expr.nodes, List.map_cons, List.map_append, List.map_nil,
    Node.fill, Expr.nodes_fill, Ptrn.nodes_fill, Ptrn.nodesOf_fillList, Elem.nodesOf_fillList,
    Arm.nodesOf_fillList, Stmnt.nodesOf_fillList]

theorem Expr.nodesOf?_fill? (e : Option Expr) :
    Expr.nodesOf? (Expr.fill? values e) = (Expr.nodesOf? e).map (Node.fill values) := by
  cases e with
  | none => rfl
  | some e => exact Expr.nodes_fill e

theorem Ptrn.nodes_fill (p : Ptrn) : (p.fill values).nodes = p.nodes.map (Node.fill values) := by
  cases p <;> simp only [Ptrn.fill, Ptrn.nodes, List.map_cons, List.map_append, List.map_nil,
    Node.fill, Expr.nodesOf?_fill?, Ptrn.nodesOf_fillList]

theorem Ptrn.nodesOf_fillList (ps : List Ptrn) :
    Ptrn.nodesOf (Ptrn.fillList values ps) = (Ptrn.nodesOf ps).map (Node.fill values) := by
  cases ps with
  | nil => rfl
  | cons p ps =>
    simp only [Ptrn.fillList, Ptrn.nodesOf, List.map_append, Ptrn.nodes_fill p,
      Ptrn.nodesOf_fillList ps]

theorem Elem.nodesOf_fillList (es : List Elem) :
    Elem.nodesOf (Elem.fillList values es) = (Elem.nodesOf es).map (Node.fill values) := by
  match es with
  | [] => rfl
  | ⟨id, e⟩ :: es =>
    simp only [Elem.fillList, Elem.nodesOf, List.map_append, Expr.nodes_fill e,
      Elem.nodesOf_fillList es]

theorem Arm.nodesOf_fillList (arms : List Arm) :
    Arm.nodesOf (Arm.fillList values arms) = (Arm.nodesOf arms).map (Node.fill values) := by
  match arms with
  | [] => rfl
  | ⟨span, p, e⟩ :: arms =>
    simp only [Arm.fillList, Arm.nodesOf, List.map_append, Ptrn.nodes_fill p, Expr.nodes_fill e,
      Arm.nodesOf_fillList arms]

theorem Stmnt.nodes_fill (s : Stmnt) :
    (s.fill values).nodes = s.nodes.map (Node.fill values) := by
  match s with
  | .expr span e =>
    simp only [Stmnt.fill, Stmnt.nodes, List.map_cons, Node.fill, Expr.nodes_fill e]
  | .bind span p e =>
    simp only [Stmnt.fill, Stmnt.nodes, List.map_cons, List.map_append, Node.fill,
      Ptrn.nodes_fill p, Expr.nodes_fill e]
  | .item ⟨span, id, e, decl, slot⟩ =>
    simp only [Stmnt.fill, Stmnt.nodes, List.map_cons, Node.fill, Expr.nodes_fill e]

theorem Stmnt.nodesOf_fillList (ss : List Stmnt) :
    Stmnt.nodesOf (Stmnt.fillList values ss) = (Stmnt.nodesOf ss).map (Node.fill values) := by
  cases ss with
  | nil => rfl
  | cons s ss =>
    simp only [Stmnt.fillList, Stmnt.nodesOf, List.map_append, Stmnt.nodes_fill s,
      Stmnt.nodesOf_fillList ss]

end

variable (name : Slot DeclId → Slot DeclId)

mutual

/-- Up to the values of its items a filled tree is the same. -/
theorem Expr.mapSlots_fill (e : Expr) :
    (e.fill values).mapSlots name Slot.reset = e.mapSlots name Slot.reset := by
  cases e <;> simp only [Expr.fill, Expr.mapSlots, Expr.mapSlots_fill, Ptrn.mapSlots_fill,
    Ptrn.mapSlotsList_fillList, Elem.mapSlotsList_fillList, Arm.mapSlotsList_fillList,
    Stmnt.mapSlotsList_fillList]

theorem Expr.mapSlots?_fill? (e : Option Expr) :
    Expr.mapSlots? name Slot.reset (Expr.fill? values e) = Expr.mapSlots? name Slot.reset e := by
  cases e with
  | none => rfl
  | some e => rw [Expr.fill?, Expr.mapSlots?, Expr.mapSlots_fill e, Expr.mapSlots?]

theorem Ptrn.mapSlots_fill (p : Ptrn) :
    (p.fill values).mapSlots name Slot.reset = p.mapSlots name Slot.reset := by
  cases p <;> simp only [Ptrn.fill, Ptrn.mapSlots, Expr.mapSlots?_fill?, Ptrn.mapSlotsList_fillList]

theorem Ptrn.mapSlotsList_fillList (ps : List Ptrn) :
    Ptrn.mapSlotsList name Slot.reset (Ptrn.fillList values ps) =
      Ptrn.mapSlotsList name Slot.reset ps := by
  cases ps with
  | nil => rfl
  | cons p ps =>
    simp only [Ptrn.fillList, Ptrn.mapSlotsList, Ptrn.mapSlots_fill p, Ptrn.mapSlotsList_fillList ps]

theorem Elem.mapSlotsList_fillList (es : List Elem) :
    Elem.mapSlotsList name Slot.reset (Elem.fillList values es) =
      Elem.mapSlotsList name Slot.reset es := by
  match es with
  | [] => rfl
  | ⟨id, e⟩ :: es =>
    simp only [Elem.fillList, Elem.mapSlotsList, Expr.mapSlots_fill e, Elem.mapSlotsList_fillList es]

theorem Arm.mapSlotsList_fillList (arms : List Arm) :
    Arm.mapSlotsList name Slot.reset (Arm.fillList values arms) =
      Arm.mapSlotsList name Slot.reset arms := by
  match arms with
  | [] => rfl
  | ⟨span, p, e⟩ :: arms =>
    simp only [Arm.fillList, Arm.mapSlotsList, Ptrn.mapSlots_fill p, Expr.mapSlots_fill e,
      Arm.mapSlotsList_fillList arms]

theorem Stmnt.mapSlots_fill (s : Stmnt) :
    (s.fill values).mapSlots name Slot.reset = s.mapSlots name Slot.reset := by
  match s with
  | .expr span e => simp only [Stmnt.fill, Stmnt.mapSlots, Expr.mapSlots_fill e]
  | .bind span p e =>
    simp only [Stmnt.fill, Stmnt.mapSlots, Ptrn.mapSlots_fill p, Expr.mapSlots_fill e]
  | .item ⟨span, id, e, decl, slot⟩ =>
    simp only [Stmnt.fill, Stmnt.mapSlots, Expr.mapSlots_fill e, Slot.reset]

theorem Stmnt.mapSlotsList_fillList (ss : List Stmnt) :
    Stmnt.mapSlotsList name Slot.reset (Stmnt.fillList values ss) =
      Stmnt.mapSlotsList name Slot.reset ss := by
  cases ss with
  | nil => rfl
  | cons s ss =>
    simp only [Stmnt.fillList, Stmnt.mapSlotsList, Stmnt.mapSlots_fill s,
      Stmnt.mapSlotsList_fillList ss]

end

/-- The items among some nodes have no use for the values. -/
def Node.Sated (nodes : List Node) : Prop :=
  ∀ it, .item it ∈ nodes → it.value.offer? (values it.decl) = it.value

variable {values}

namespace Node

theorem sated_cons {node : Node} {nodes : List Node} :
    Sated values (node :: nodes) ↔
      (∀ it, node = .item it → it.value.offer? (values it.decl) = it.value) ∧
        Sated values nodes := by
  simp only [Sated, List.mem_cons, or_imp, forall_and, eq_comm]

theorem sated_append {nodes more : List Node} :
    Sated values (nodes ++ more) ↔ Sated values nodes ∧ Sated values more := by
  simp only [Sated, List.mem_append, or_imp, forall_and]

end Node

mutual

/-- A tree whose items have no use for the values stays as it is. -/
theorem Expr.fill_of_sated {e : Expr} (h : Node.Sated values e.nodes) : e.fill values = e := by
  cases e <;> simp only [Expr.nodes, Node.sated_cons, Node.sated_append] at h <;>
    simp only [Expr.fill, Expr.fill_of_sated, Ptrn.fill_of_sated, Ptrn.fillList_of_sated,
      Elem.fillList_of_sated, Arm.fillList_of_sated, Stmnt.fillList_of_sated, h]

theorem Expr.fill?_of_sated {e : Option Expr} (h : Node.Sated values (Expr.nodesOf? e)) :
    Expr.fill? values e = e := by
  cases e with
  | none => rfl
  | some e => rw [Expr.fill?, Expr.fill_of_sated h]

theorem Ptrn.fill_of_sated {p : Ptrn} (h : Node.Sated values p.nodes) : p.fill values = p := by
  cases p <;> simp only [Ptrn.nodes, Node.sated_cons, Node.sated_append] at h <;>
    simp only [Ptrn.fill, Expr.fill?_of_sated, Ptrn.fillList_of_sated, h]

theorem Ptrn.fillList_of_sated {ps : List Ptrn} (h : Node.Sated values (Ptrn.nodesOf ps)) :
    Ptrn.fillList values ps = ps := by
  cases ps with
  | nil => rfl
  | cons p ps =>
    obtain ⟨hp, hps⟩ := Node.sated_append.1 h
    rw [Ptrn.fillList, Ptrn.fill_of_sated hp, Ptrn.fillList_of_sated hps]

theorem Elem.fillList_of_sated {es : List Elem} (h : Node.Sated values (Elem.nodesOf es)) :
    Elem.fillList values es = es := by
  match es with
  | [] => rfl
  | ⟨id, e⟩ :: es =>
    obtain ⟨he, hes⟩ := Node.sated_append.1 h
    rw [Elem.fillList, Expr.fill_of_sated he, Elem.fillList_of_sated hes]

theorem Arm.fillList_of_sated {arms : List Arm} (h : Node.Sated values (Arm.nodesOf arms)) :
    Arm.fillList values arms = arms := by
  match arms with
  | [] => rfl
  | ⟨span, p, e⟩ :: arms =>
    obtain ⟨hfirst, harms⟩ := Node.sated_append.1 h
    obtain ⟨hp, he⟩ := Node.sated_append.1 hfirst
    rw [Arm.fillList, Ptrn.fill_of_sated hp, Expr.fill_of_sated he, Arm.fillList_of_sated harms]

theorem Stmnt.fill_of_sated {s : Stmnt} (h : Node.Sated values s.nodes) : s.fill values = s := by
  match s with
  | .expr span e =>
    obtain ⟨-, he⟩ := Node.sated_cons.1 h
    rw [Stmnt.fill, Expr.fill_of_sated he]
  | .bind span p e =>
    obtain ⟨hp, he⟩ := Node.sated_append.1 (Node.sated_cons.1 h).2
    rw [Stmnt.fill, Ptrn.fill_of_sated hp, Expr.fill_of_sated he]
  | .item ⟨span, id, e, decl, slot⟩ =>
    obtain ⟨hitem, he⟩ := Node.sated_cons.1 (Node.sated_cons.1 h).2
    have hslot : slot.offer? (values decl) = slot := hitem _ rfl
    rw [Stmnt.fill, Expr.fill_of_sated he, hslot]

theorem Stmnt.fillList_of_sated {ss : List Stmnt} (h : Node.Sated values (Stmnt.nodesOf ss)) :
    Stmnt.fillList values ss = ss := by
  cases ss with
  | nil => rfl
  | cons s ss =>
    obtain ⟨hs, hss⟩ := Node.sated_append.1 h
    rw [Stmnt.fillList, Stmnt.fill_of_sated hs, Stmnt.fillList_of_sated hss]

end

end ImpLang
