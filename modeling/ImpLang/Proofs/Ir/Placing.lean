import ImpLang.Ir.Emit
import ImpLang.Proofs.Tree.Annotation

/-!
Emission puts every part of a tree back in its place. Whatever it writes, and wherever it stops, the
tree that it leaves is the one that it was given, up to the values of items.
-/

namespace ImpLang

namespace Emitter

variable {σ τ υ α β : Type}

/-- A step that leaves its part as it was, up to what is erased. -/
def Restores (erase : τ → τ) (part : τ) (step : Step σ τ α) : Prop :=
  ∀ b, erase (step b).part = erase part

namespace Restores

variable {erase : τ → τ} {part : τ} {erase' : υ → υ} {part' : υ}

theorem done (erase : τ → τ) (part : τ) (a : α) : Restores erase part (Step.done part a : Step σ τ α) :=
  fun _ => rfl

theorem asks (erase : τ → τ) (part : τ) (request : StateM σ α) :
    Restores erase part (Step.asks part request) := fun _ => rfl

theorem behind (request : StateM σ α) {step : α → Step σ τ β}
    (h : ∀ a, Restores erase part (step a)) : Restores erase part (Step.behind request step) :=
  fun b => h (request b).1 (request b).2

theorem andAsk {step : Step σ τ α} (h : Restores erase part step) (request : α → StateM σ β) :
    Restores erase part (step.andAsk request) := by
  intro b
  have hleft : (step.andAsk request b).part = (step b).part := by
    simp only [Step.andAsk]
    split <;> rfl
  rw [hleft]
  exact h b

/-- If the first step fails the part of the second one is still there. -/
theorem both {first : Step σ τ α} (h : Restores erase part first) {second : α → Step σ υ β}
    (hsecond : ∀ a, Restores erase' part' (second a)) :
    Restores (Prod.map erase erase') (part, part') (first.both part' second) := by
  intro b
  simp only [Step.both]
  split
  · next a _ => exact Prod.ext (h b) (hsecond a (first b).builder)
  · exact Prod.ext (h b) rfl

/-- A part is put where it belongs, and what is erased there is what is erased in it and beside it. -/
theorem within {step : Step σ τ α} (h : Restores erase part step) {place : τ → υ} (erased : τ → υ)
    (hplace : ∀ part, erase' (place part) = erased (erase part)) :
    Restores erase' (place part) (step.within place) := by
  intro b
  exact (hplace _).trans ((congrArg erased (h b)).trans (hplace part).symm)

theorem placed {step : Step σ τ α} (h : Restores erase part step) {place : τ → υ}
    (hplace : ∀ part, erase' (place part) = place (erase part)) :
    Restores erase' (place part) (step.within place) := h.within place hplace

end Restores

variable [Builder σ]

theorem restores_assign (decl : DeclId) (slot : Slot Value) (value : Value) :
    Restores Slot.reset slot (assign decl slot value : Step σ (Slot Value) Value) := fun _ => rfl

variable (decls : Decls)

mutual

/-- Every child of an expression is put back in its place, whether it is reached or not. -/
theorem restores_expr (e : Expr) :
    Restores (Expr.mapSlots id Slot.reset) e (lowerExpr decls e : Step σ Expr Value) := by
  cases e <;> simp only [lowerExpr]
  case name span id slot => exact .asks _ _ _
  case literal span value => exact .asks _ _ _
  case tuple span elems => exact ((restores_elems elems).andAsk _).placed fun _ => rfl
  case sigma span elems => exact ((restores_params elems).andAsk _).placed fun _ => rfl
  case pi span domain codomain =>
    exact ((restores_param domain).both fun d => (restores_expr codomain).andAsk _).placed fun _ => rfl
  case lambda span domain codomain body =>
    exact ((restores_param domain).both fun d => (restores_expr codomain).both fun c =>
      (restores_expr body).andAsk _).placed fun _ => rfl
  case app span callee arg cps =>
    exact ((restores_expr callee).both fun f => (restores_expr arg).andAsk _).placed fun _ => rfl
  case field span value id => exact ((restores_expr value).andAsk _).placed fun _ => rfl
  case prefixed span op operand => exact ((restores_expr operand).andAsk _).placed fun _ => rfl
  case postfixed span operand op => exact ((restores_expr operand).andAsk _).placed fun _ => rfl
  case binary span left op right =>
    exact ((restores_expr left).both fun l => (restores_expr right).andAsk _).placed fun _ => rfl
  case block span stmnts value =>
    exact (Restores.behind _ fun _ => (restores_stmnts stmnts).both fun values =>
      (restores_expr value).andAsk _).placed fun _ => rfl
  case branch span cond yes no =>
    exact ((restores_expr cond).both fun c => (restores_expr yes).both fun y =>
      (restores_expr no).andAsk _).placed fun _ => rfl
  case select span scrutinee arms =>
    exact ((restores_expr scrutinee).both fun v => (restores_arms v arms).andAsk _).placed fun _ => rfl
  case forLoop span ptrn iter body =>
    exact ((restores_expr iter).both fun i => (restores_param ptrn).both fun p =>
      (restores_expr body).andAsk _).placed fun _ => rfl
  case whileLoop span cond body =>
    exact ((restores_expr cond).both fun c => (restores_expr body).andAsk _).placed fun _ => rfl
  case pack span domain body =>
    exact ((restores_param domain).both fun d => (restores_expr body).andAsk _).placed fun _ => rfl
  case variadic span domain body =>
    exact ((restores_param domain).both fun d => (restores_expr body).andAsk _).placed fun _ => rfl
  case qualifier span value => exact .asks _ _ _
  case bottom span => exact .asks _ _ _
  case unknown span => exact .asks _ _ _
  case error span => exact .asks _ _ _

theorem restores_expr? (e : Option Expr) :
    Restores (Expr.mapSlots? id Slot.reset) e
      (lowerExpr? decls e : Step σ (Option Expr) (Option Value)) := by
  cases e with
  | none => exact .done _ _ _
  | some e => exact ((restores_expr e).andAsk _).placed fun _ => rfl

/-- Only the ascription of a pattern is emitted; its elements stay as they are. -/
theorem restores_param (p : Ptrn) :
    Restores (Ptrn.mapSlots id Slot.reset) p (lowerParam decls p : Step σ Ptrn Value) := by
  cases p with
  | name span name decl ty typed => exact ((restores_expr? ty).andAsk _).placed fun _ => rfl
  | tuple span elems ty typed =>
    exact ((restores_expr? ty).andAsk _).within
      (fun ty => .tuple span (Ptrn.mapSlotsList id Slot.reset elems) ty typed) fun _ => rfl
  | error span => exact .asks _ _ _

theorem restores_params (ps : List Ptrn) :
    Restores (Ptrn.mapSlotsList id Slot.reset) ps
      (lowerParams decls ps : Step σ (List Ptrn) (List Value)) := by
  cases ps with
  | nil => exact .done _ _ _
  | cons p ps =>
    exact ((restores_param p).both fun value => (restores_params ps).andAsk _).placed fun _ => rfl

theorem restores_elems (es : List Elem) :
    Restores (Elem.mapSlotsList id Slot.reset) es
      (lowerElems decls es : Step σ (List Elem) (List Value)) := by
  match es with
  | [] => exact .done _ _ _
  | ⟨name, e⟩ :: es =>
    exact ((restores_expr e).both fun value => (restores_elems es).andAsk _).placed fun _ => rfl

theorem restores_arms (scrutinee : Value) (arms : List Arm) :
    Restores (Arm.mapSlotsList id Slot.reset) arms
      (lowerArms decls scrutinee arms : Step σ (List Arm) (List Value)) := by
  match arms with
  | [] => exact .done _ _ _
  | ⟨span, p, e⟩ :: arms =>
    exact (Restores.behind _ fun _ => (restores_expr e).both fun value =>
      (restores_arms scrutinee arms).andAsk _).within
        (fun part => ⟨span, p.mapSlots id Slot.reset, part.1⟩ :: part.2) fun _ => rfl

theorem restores_stmnt (s : Stmnt) :
    Restores (Stmnt.mapSlots id Slot.reset) s (lowerStmnt decls s : Step σ Stmnt Value) := by
  match s with
  | .expr span e => exact (restores_expr e).placed fun _ => rfl
  | .bind span p e =>
    exact ((restores_expr e).andAsk _).within (fun e => .bind span (p.mapSlots id Slot.reset) e)
      fun _ => rfl
  | .item ⟨span, name, e, decl, slot⟩ =>
    exact ((restores_expr e).both fun value => restores_assign decl slot value).placed fun _ => rfl

theorem restores_stmnts (ss : List Stmnt) :
    Restores (Stmnt.mapSlotsList id Slot.reset) ss
      (lowerStmnts decls ss : Step σ (List Stmnt) (List Value)) := by
  cases ss with
  | nil => exact .done _ _ _
  | cons s ss =>
    exact ((restores_stmnt s).both fun value => (restores_stmnts ss).andAsk _).placed fun _ => rfl

end

end Emitter

/-- Up to the values of its items a module is the same behind an emission, done or refused. -/
theorem Module.mapSlots_emit {σ : Type} [Builder σ] (b : σ) (module : Module) :
    Stmnt.mapSlotsList id Slot.reset (module.emit b).module.stmnts =
      Stmnt.mapSlotsList id Slot.reset module.stmnts :=
  Emitter.Restores.behind _ (fun _ => Emitter.restores_stmnts module.decls module.stmnts) b

end ImpLang
