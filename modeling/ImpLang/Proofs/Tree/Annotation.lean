import ImpLang.Tree.Walk

/-!
Trees up to their annotations. A pass that only annotates leaves a tree that agrees with the one
before it as soon as the slots it writes are reset.
-/

namespace ImpLang

/-- Forget the annotation of a slot. -/
def Slot.reset {α : Type} (_ : Slot α) : Slot α := unset

variable (name : Slot DeclId → Slot DeclId) (item : Slot Value → Slot Value)

mutual

/-- Replace the annotations of a tree, those of names and those of items. -/
def Expr.mapSlots : Expr → Expr
  | .name span id slot => .name span id (name slot)
  | .literal span value => .literal span value
  | .tuple span elems => .tuple span (Elem.mapSlotsList elems)
  | .sigma span elems => .sigma span (Ptrn.mapSlotsList elems)
  | .pi span domain codomain => .pi span domain.mapSlots codomain.mapSlots
  | .lambda span domain codomain body =>
    .lambda span domain.mapSlots codomain.mapSlots body.mapSlots
  | .app span callee arg cps => .app span callee.mapSlots arg.mapSlots cps
  | .field span value id => .field span value.mapSlots id
  | .prefixed span op operand => .prefixed span op operand.mapSlots
  | .postfixed span operand op => .postfixed span operand.mapSlots op
  | .binary span left op right => .binary span left.mapSlots op right.mapSlots
  | .block span stmnts value => .block span (Stmnt.mapSlotsList stmnts) value.mapSlots
  | .branch span cond yes no => .branch span cond.mapSlots yes.mapSlots no.mapSlots
  | .select span scrutinee arms => .select span scrutinee.mapSlots (Arm.mapSlotsList arms)
  | .forLoop span ptrn iter body => .forLoop span ptrn.mapSlots iter.mapSlots body.mapSlots
  | .whileLoop span cond body => .whileLoop span cond.mapSlots body.mapSlots
  | .pack span domain body => .pack span domain.mapSlots body.mapSlots
  | .variadic span domain body => .variadic span domain.mapSlots body.mapSlots
  | .qualifier span value => .qualifier span value
  | .bottom span => .bottom span
  | .unknown span => .unknown span
  | .error span => .error span

def Expr.mapSlots? : Option Expr → Option Expr
  | none => none
  | some expr => some expr.mapSlots

def Ptrn.mapSlots : Ptrn → Ptrn
  | .name span id decl ty typed => .name span id decl (Expr.mapSlots? ty) typed
  | .tuple span elems ty typed => .tuple span (Ptrn.mapSlotsList elems) (Expr.mapSlots? ty) typed
  | .error span => .error span

def Ptrn.mapSlotsList : List Ptrn → List Ptrn
  | [] => []
  | ptrn :: ptrns => ptrn.mapSlots :: Ptrn.mapSlotsList ptrns

def Elem.mapSlotsList : List Elem → List Elem
  | [] => []
  | ⟨id, expr⟩ :: elems => ⟨id, expr.mapSlots⟩ :: Elem.mapSlotsList elems

def Arm.mapSlotsList : List Arm → List Arm
  | [] => []
  | ⟨span, ptrn, body⟩ :: arms => ⟨span, ptrn.mapSlots, body.mapSlots⟩ :: Arm.mapSlotsList arms

def Stmnt.mapSlots : Stmnt → Stmnt
  | .expr span expr => .expr span expr.mapSlots
  | .bind span ptrn init => .bind span ptrn.mapSlots init.mapSlots
  | .item ⟨span, id, expr, decl, value⟩ => .item ⟨span, id, expr.mapSlots, decl, item value⟩

def Stmnt.mapSlotsList : List Stmnt → List Stmnt
  | [] => []
  | stmnt :: stmnts => stmnt.mapSlots :: Stmnt.mapSlotsList stmnts

end

mutual

theorem Expr.mapSlots_id (e : Expr) : e.mapSlots id id = e := by
  cases e <;> simp only [Expr.mapSlots, id_eq, Expr.mapSlots_id, Ptrn.mapSlots_id,
    Ptrn.mapSlotsList_id, Elem.mapSlotsList_id, Arm.mapSlotsList_id, Stmnt.mapSlotsList_id]

theorem Expr.mapSlots?_id (e : Option Expr) : Expr.mapSlots? id id e = e := by
  cases e with
  | none => rfl
  | some e => rw [Expr.mapSlots?, Expr.mapSlots_id e]

theorem Ptrn.mapSlots_id (p : Ptrn) : p.mapSlots id id = p := by
  cases p <;> simp only [Ptrn.mapSlots, Expr.mapSlots?_id, Ptrn.mapSlotsList_id]

theorem Ptrn.mapSlotsList_id (ps : List Ptrn) : Ptrn.mapSlotsList id id ps = ps := by
  cases ps with
  | nil => rfl
  | cons p ps => rw [Ptrn.mapSlotsList, Ptrn.mapSlots_id p, Ptrn.mapSlotsList_id ps]

theorem Elem.mapSlotsList_id (es : List Elem) : Elem.mapSlotsList id id es = es := by
  match es with
  | [] => rfl
  | ⟨name, e⟩ :: es => rw [Elem.mapSlotsList, Expr.mapSlots_id e, Elem.mapSlotsList_id es]

theorem Arm.mapSlotsList_id (arms : List Arm) : Arm.mapSlotsList id id arms = arms := by
  match arms with
  | [] => rfl
  | ⟨span, p, e⟩ :: arms =>
    rw [Arm.mapSlotsList, Ptrn.mapSlots_id p, Expr.mapSlots_id e, Arm.mapSlotsList_id arms]

theorem Stmnt.mapSlots_id (s : Stmnt) : s.mapSlots id id = s := by
  match s with
  | .expr span e => rw [Stmnt.mapSlots, Expr.mapSlots_id e]
  | .bind span p e => rw [Stmnt.mapSlots, Ptrn.mapSlots_id p, Expr.mapSlots_id e]
  | .item ⟨span, name, e, decl, slot⟩ => rw [Stmnt.mapSlots, Expr.mapSlots_id e, id_eq]

theorem Stmnt.mapSlotsList_id (ss : List Stmnt) : Stmnt.mapSlotsList id id ss = ss := by
  cases ss with
  | nil => rfl
  | cons s ss => rw [Stmnt.mapSlotsList, Stmnt.mapSlots_id s, Stmnt.mapSlotsList_id ss]

end

section

variable (name' : Slot DeclId → Slot DeclId) (item' : Slot Value → Slot Value)

mutual

theorem Expr.mapSlots_mapSlots (e : Expr) :
    (e.mapSlots name item).mapSlots name' item' = e.mapSlots (name' ∘ name) (item' ∘ item) := by
  cases e <;> simp only [Expr.mapSlots, Function.comp_apply, Expr.mapSlots_mapSlots,
    Ptrn.mapSlots_mapSlots, Ptrn.mapSlotsList_mapSlotsList, Elem.mapSlotsList_mapSlotsList,
    Arm.mapSlotsList_mapSlotsList, Stmnt.mapSlotsList_mapSlotsList]

theorem Expr.mapSlots?_mapSlots? (e : Option Expr) :
    Expr.mapSlots? name' item' (Expr.mapSlots? name item e) =
      Expr.mapSlots? (name' ∘ name) (item' ∘ item) e := by
  cases e with
  | none => rfl
  | some e => exact congrArg some (Expr.mapSlots_mapSlots e)

theorem Ptrn.mapSlots_mapSlots (p : Ptrn) :
    (p.mapSlots name item).mapSlots name' item' = p.mapSlots (name' ∘ name) (item' ∘ item) := by
  cases p <;> simp only [Ptrn.mapSlots, Expr.mapSlots?_mapSlots?, Ptrn.mapSlotsList_mapSlotsList]

theorem Ptrn.mapSlotsList_mapSlotsList (ps : List Ptrn) :
    Ptrn.mapSlotsList name' item' (Ptrn.mapSlotsList name item ps) =
      Ptrn.mapSlotsList (name' ∘ name) (item' ∘ item) ps := by
  cases ps with
  | nil => rfl
  | cons p ps =>
    simp only [Ptrn.mapSlotsList, Ptrn.mapSlots_mapSlots p, Ptrn.mapSlotsList_mapSlotsList ps]

theorem Elem.mapSlotsList_mapSlotsList (es : List Elem) :
    Elem.mapSlotsList name' item' (Elem.mapSlotsList name item es) =
      Elem.mapSlotsList (name' ∘ name) (item' ∘ item) es := by
  match es with
  | [] => rfl
  | ⟨id, e⟩ :: es =>
    simp only [Elem.mapSlotsList, Expr.mapSlots_mapSlots e, Elem.mapSlotsList_mapSlotsList es]

theorem Arm.mapSlotsList_mapSlotsList (arms : List Arm) :
    Arm.mapSlotsList name' item' (Arm.mapSlotsList name item arms) =
      Arm.mapSlotsList (name' ∘ name) (item' ∘ item) arms := by
  match arms with
  | [] => rfl
  | ⟨span, p, e⟩ :: arms =>
    simp only [Arm.mapSlotsList, Ptrn.mapSlots_mapSlots p, Expr.mapSlots_mapSlots e,
      Arm.mapSlotsList_mapSlotsList arms]

theorem Stmnt.mapSlots_mapSlots (s : Stmnt) :
    (s.mapSlots name item).mapSlots name' item' = s.mapSlots (name' ∘ name) (item' ∘ item) := by
  match s with
  | .expr span e => simp only [Stmnt.mapSlots, Expr.mapSlots_mapSlots e]
  | .bind span p e =>
    simp only [Stmnt.mapSlots, Ptrn.mapSlots_mapSlots p, Expr.mapSlots_mapSlots e]
  | .item ⟨span, id, e, decl, slot⟩ =>
    simp only [Stmnt.mapSlots, Expr.mapSlots_mapSlots e, Function.comp_apply]

theorem Stmnt.mapSlotsList_mapSlotsList (ss : List Stmnt) :
    Stmnt.mapSlotsList name' item' (Stmnt.mapSlotsList name item ss) =
      Stmnt.mapSlotsList (name' ∘ name) (item' ∘ item) ss := by
  cases ss with
  | nil => rfl
  | cons s ss =>
    simp only [Stmnt.mapSlotsList, Stmnt.mapSlots_mapSlots s, Stmnt.mapSlotsList_mapSlotsList ss]

end

end

/-- Replace the annotations at a node and below it. -/
def Node.mapSlots : Node → Node
  | .stmnt s => .stmnt (s.mapSlots name item)
  | .item ⟨span, id, e, decl, slot⟩ => .item ⟨span, id, e.mapSlots name item, decl, item slot⟩
  | .expr e => .expr (e.mapSlots name item)
  | .ptrn p => .ptrn (p.mapSlots name item)

theorem Node.isError_mapSlots (node : Node) : (node.mapSlots name item).isError = node.isError := by
  cases node with
  | stmnt s => rfl
  | item it => cases it; rfl
  | expr e => cases e <;> rfl
  | ptrn p => cases p <;> rfl

mutual

/-- A walk over a tree with other annotations visits the same nodes with other annotations. -/
theorem Expr.nodes_mapSlots (e : Expr) :
    (e.mapSlots name item).nodes = e.nodes.map (Node.mapSlots name item) := by
  cases e <;> simp only [Expr.mapSlots, Expr.nodes, List.map_cons, List.map_append, List.map_nil,
    Node.mapSlots, Expr.nodes_mapSlots, Ptrn.nodes_mapSlots, Ptrn.nodesOf_mapSlotsList,
    Elem.nodesOf_mapSlotsList, Arm.nodesOf_mapSlotsList, Stmnt.nodesOf_mapSlotsList]

theorem Expr.nodesOf?_mapSlots? (e : Option Expr) :
    Expr.nodesOf? (Expr.mapSlots? name item e) =
      (Expr.nodesOf? e).map (Node.mapSlots name item) := by
  cases e with
  | none => rfl
  | some e => exact Expr.nodes_mapSlots e

theorem Ptrn.nodes_mapSlots (p : Ptrn) :
    (p.mapSlots name item).nodes = p.nodes.map (Node.mapSlots name item) := by
  cases p <;> simp only [Ptrn.mapSlots, Ptrn.nodes, List.map_cons, List.map_append, List.map_nil,
    Node.mapSlots, Expr.nodesOf?_mapSlots?, Ptrn.nodesOf_mapSlotsList]

theorem Ptrn.nodesOf_mapSlotsList (ps : List Ptrn) :
    Ptrn.nodesOf (Ptrn.mapSlotsList name item ps) =
      (Ptrn.nodesOf ps).map (Node.mapSlots name item) := by
  cases ps with
  | nil => rfl
  | cons p ps =>
    simp only [Ptrn.mapSlotsList, Ptrn.nodesOf, List.map_append, Ptrn.nodes_mapSlots p,
      Ptrn.nodesOf_mapSlotsList ps]

theorem Elem.nodesOf_mapSlotsList (es : List Elem) :
    Elem.nodesOf (Elem.mapSlotsList name item es) =
      (Elem.nodesOf es).map (Node.mapSlots name item) := by
  match es with
  | [] => rfl
  | ⟨id, e⟩ :: es =>
    simp only [Elem.mapSlotsList, Elem.nodesOf, List.map_append, Expr.nodes_mapSlots e,
      Elem.nodesOf_mapSlotsList es]

theorem Arm.nodesOf_mapSlotsList (arms : List Arm) :
    Arm.nodesOf (Arm.mapSlotsList name item arms) =
      (Arm.nodesOf arms).map (Node.mapSlots name item) := by
  match arms with
  | [] => rfl
  | ⟨span, p, e⟩ :: arms =>
    simp only [Arm.mapSlotsList, Arm.nodesOf, List.map_append, Ptrn.nodes_mapSlots p,
      Expr.nodes_mapSlots e, Arm.nodesOf_mapSlotsList arms]

theorem Stmnt.nodes_mapSlots (s : Stmnt) :
    (s.mapSlots name item).nodes = s.nodes.map (Node.mapSlots name item) := by
  match s with
  | .expr span e =>
    simp only [Stmnt.mapSlots, Stmnt.nodes, List.map_cons, Node.mapSlots, Expr.nodes_mapSlots e]
  | .bind span p e =>
    simp only [Stmnt.mapSlots, Stmnt.nodes, List.map_cons, List.map_append, Node.mapSlots,
      Ptrn.nodes_mapSlots p, Expr.nodes_mapSlots e]
  | .item ⟨span, id, e, decl, slot⟩ =>
    simp only [Stmnt.mapSlots, Stmnt.nodes, List.map_cons, Node.mapSlots, Expr.nodes_mapSlots e]

theorem Stmnt.nodesOf_mapSlotsList (ss : List Stmnt) :
    Stmnt.nodesOf (Stmnt.mapSlotsList name item ss) =
      (Stmnt.nodesOf ss).map (Node.mapSlots name item) := by
  cases ss with
  | nil => rfl
  | cons s ss =>
    simp only [Stmnt.mapSlotsList, Stmnt.nodesOf, List.map_append, Stmnt.nodes_mapSlots s,
      Stmnt.nodesOf_mapSlotsList ss]

end

end ImpLang
