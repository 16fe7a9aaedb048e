import ImpLang.Proofs.Tree.Annotation
import ImpLang.Proofs.Tree.Parts

/-!
What holds of every span in a tree, those of its identifiers included.
-/

namespace ImpLang

namespace Part

/-- The identifiers written directly in a part. -/
def ids : Part → List Id
  | expr (.name _ id _) => [id]
  | expr (.field _ _ id) => [id]
  | expr (.tuple _ elems) => elems.filterMap Elem.id
  | ptrn (.name _ id _ _ _) => [id]
  | item it => [it.id]
  | _ => []

/-- All spans of a tree have a property. -/
def Spanned (p : Span → Prop) (tree : Part) : Prop :=
  ∀ part, tree.Has part → p part.span ∧ ∀ id ∈ part.ids, p id.span

variable {p : Span → Prop} {tree : Part}

/-- From the root down. -/
theorem Spanned.mk (hspan : p tree.span) (hids : ∀ id ∈ tree.ids, p id.span)
    (hchildren : ∀ child ∈ tree.children, child.Spanned p) : tree.Spanned p := by
  intro part hpart
  rcases hpart.cases_head with rfl | ⟨child, hchild, hpart⟩
  · exact ⟨hspan, hids⟩
  · exact hchildren child hchild part hpart

theorem Spanned.span (h : tree.Spanned p) : p tree.span := (h tree .refl).1

theorem Spanned.id (h : tree.Spanned p) : ∀ id ∈ tree.ids, p id.span := (h tree .refl).2

theorem Spanned.child (h : tree.Spanned p) : ∀ child ∈ tree.children, child.Spanned p :=
  fun _ hchild part hpart => h part (.head hchild hpart)

theorem Spanned.only {a : Part} (h : tree.Spanned p) (hchildren : tree.children = [a]) :
    a.Spanned p := h.child a (by simp [hchildren])

theorem Spanned.pair {a b : Part} (h : tree.Spanned p) (hchildren : tree.children = [a, b]) :
    a.Spanned p ∧ b.Spanned p :=
  ⟨h.child a (by simp [hchildren]), h.child b (by simp [hchildren])⟩

theorem Spanned.triple {a b c : Part} (h : tree.Spanned p)
    (hchildren : tree.children = [a, b, c]) : a.Spanned p ∧ b.Spanned p ∧ c.Spanned p :=
  ⟨h.child a (by simp [hchildren]), h.child b (by simp [hchildren]),
    h.child c (by simp [hchildren])⟩

theorem Spanned.withSpan {span : ImpLang.Span} {e : Expr} (hspan : p span)
    (h : (Part.expr e).Spanned p) : (Part.expr (e.withSpan span)).Spanned p := by
  refine .mk ?_ ?_ ?_
  · have heq : (e.withSpan span).span = span := by cases e <;> rfl
    rw [Part.span, heq]
    exact hspan
  · have heq : (Part.expr (e.withSpan span)).ids = (Part.expr e).ids := by cases e <;> rfl
    rw [heq]
    exact h.id
  · rw [children, Expr.parts_withSpan]
    exact h.child

end Part

/-! ## Annotations -/

variable (name : Slot DeclId → Slot DeclId) (item : Slot Value → Slot Value)

theorem Stmnt.mapSlotsList_eq (ss : List Stmnt) :
    Stmnt.mapSlotsList name item ss = ss.map (Stmnt.mapSlots name item) := by
  induction ss with
  | nil => rfl
  | cons s ss ih => rw [Stmnt.mapSlotsList, ih, List.map_cons]

theorem Ptrn.mapSlotsList_eq (ps : List Ptrn) :
    Ptrn.mapSlotsList name item ps = ps.map (Ptrn.mapSlots name item) := by
  induction ps with
  | nil => rfl
  | cons p ps ih => rw [Ptrn.mapSlotsList, ih, List.map_cons]

theorem Elem.mapSlotsList_eq (es : List Elem) :
    Elem.mapSlotsList name item es =
      es.map fun elem => ⟨elem.id, elem.expr.mapSlots name item⟩ := by
  induction es with
  | nil => rfl
  | cons e es ih =>
    cases e
    rw [Elem.mapSlotsList, ih, List.map_cons]

theorem Arm.mapSlotsList_eq (as : List Arm) :
    Arm.mapSlotsList name item as =
      as.map fun arm => ⟨arm.span, arm.ptrn.mapSlots name item, arm.body.mapSlots name item⟩ := by
  induction as with
  | nil => rfl
  | cons a as ih =>
    cases a
    rw [Arm.mapSlotsList, ih, List.map_cons]

namespace Part

/-- Replace the annotations of a part. -/
def mapSlots : Part → Part
  | .module m => .module { m with stmnts := Stmnt.mapSlotsList name item m.stmnts }
  | .stmnt s => .stmnt (s.mapSlots name item)
  | .item it => .item { it with expr := it.expr.mapSlots name item, value := item it.value }
  | .expr e => .expr (e.mapSlots name item)
  | .ptrn p => .ptrn (p.mapSlots name item)
  | .arm a => .arm ⟨a.span, a.ptrn.mapSlots name item, a.body.mapSlots name item⟩

theorem span_mapSlots (part : Part) : (part.mapSlots name item).span = part.span := by
  cases part with
  | module m => rfl
  | stmnt s =>
    cases s
    case item it => cases it; rfl
    all_goals rfl
  | item it => rfl
  | expr e => cases e <;> rfl
  | ptrn p => cases p <;> rfl
  | arm a => rfl

theorem ids_mapSlots (part : Part) : (part.mapSlots name item).ids = part.ids := by
  cases part with
  | expr e =>
    cases e
    case tuple span elems =>
      simp only [mapSlots, Expr.mapSlots, ids, Elem.mapSlotsList_eq, List.filterMap_map]
      rfl
    all_goals rfl
  | ptrn p => cases p <;> rfl
  | module | stmnt | item | arm => rfl

theorem children_mapSlots (part : Part) :
    (part.mapSlots name item).children = part.children.map (mapSlots name item) := by
  cases part with
  | module m => simp [mapSlots, children, Stmnt.mapSlotsList_eq]
  | stmnt s =>
    cases s
    case item it => cases it; rfl
    all_goals rfl
  | item it => rfl
  | expr e =>
    cases e <;> simp [mapSlots, children, Expr.parts, Expr.mapSlots, Elem.mapSlotsList_eq,
      Ptrn.mapSlotsList_eq, Stmnt.mapSlotsList_eq, Arm.mapSlotsList_eq]
  | ptrn p =>
    cases p with
    | name span id decl ty typed => cases ty <;> rfl
    | tuple span elems ty typed =>
      cases ty <;> simp [mapSlots, children, Ptrn.parts, Ptrn.mapSlots, Ptrn.mapSlotsList_eq,
        Expr.mapSlots?]
    | error span => rfl
  | arm a => rfl

theorem Has.mapSlots {tree part : Part} (h : tree.Has part) :
    (tree.mapSlots name item).Has (part.mapSlots name item) := by
  induction h with
  | refl => exact .refl
  | tail _ hchild ih =>
    refine ih.tail ?_
    rw [children_mapSlots]
    exact List.mem_map_of_mem hchild

/-- Annotations have no spans. -/
theorem Spanned.of_mapSlots {p : ImpLang.Span → Prop} {tree : Part}
    (h : (tree.mapSlots name item).Spanned p) : tree.Spanned p := by
  intro part hpart
  have hp := h _ (hpart.mapSlots name item)
  rwa [span_mapSlots, ids_mapSlots] at hp

end Part

end ImpLang
