import ImpLang.Proofs.Ir.Ordering
import ImpLang.Proofs.Ir.Repeating
import ImpLang.Proofs.Ir.Simulation

/-!
Emission does not depend on where it starts. Behind any lines that are there already it makes the
same definitions, moved by the number of these lines, so a second emission gives the items of a
module their values again if it starts at the same number, and is refused if it starts at another.
Numbers are those of values, so they are compared, and moved, in 32 bits.
-/

namespace ImpLang

/-- The value some numbers further on. -/
def Value.shift (distance : UInt32) (value : Value) : Value := ⟨value.index + distance⟩

/-- How far the number behind `target` lines is from that behind `start` lines. -/
def Value.distance (start target : Nat) : UInt32 := .ofNat target - .ofNat start

/-- The value of one of some lines that have been made behind others. -/
def Value.IsMade (before made : Nat) (value : Value) : Prop := ∃ n < made, value = .ofNat (before + n)

namespace Value

theorem shift_injective (distance : UInt32) : Function.Injective (shift distance) := by
  rintro ⟨i⟩ ⟨j⟩ h
  exact congrArg mk ((UInt32.add_left_inj distance).1 (Value.mk.inj h))

theorem shift_ofNat (n k : Nat) : shift (.ofNat n) (ofNat k) = ofNat (n + k) := by
  rw [shift, ofNat, ofNat, UInt32.ofNat_add, UInt32.add_comm]

/-- From the beginning of a listing every other place is reached in one step. -/
theorem shift_shift (n k : Nat) : shift (distance n k) ∘ shift (.ofNat n) = shift (.ofNat k) := by
  funext ⟨i⟩
  simp only [Function.comp_apply, shift, distance, Value.mk.injEq, UInt32.add_assoc]
  rw [UInt32.add_comm (.ofNat n), UInt32.sub_add_cancel]

theorem shift_eq_iff {n k : Nat} {value : Value} :
    shift (.ofNat n) value = shift (.ofNat k) value ↔ n % 2 ^ 32 = k % 2 ^ 32 := by
  rw [← ofNat_eq_iff, shift, shift, ofNat, ofNat, Value.mk.injEq, Value.mk.injEq,
    UInt32.add_right_inj]

theorem shift_congr {n k : Nat} (h : n % 2 ^ 32 = k % 2 ^ 32) : shift (.ofNat n) = shift (.ofNat k) :=
  funext fun _ => shift_eq_iff.2 h

theorem isMade_shift {listing : Listing} {value : Value} (h : listing.Has value) (before : Nat) :
    (shift (.ofNat before) value).IsMade before listing.entries.size := by
  refine ⟨value.index.toNat, h, ?_⟩
  rw [← shift_ofNat, ofNat_toNat_index]

end Value

/-- A definition with other values. -/
def Definition.mapValues (f : Value → Value) : Definition → Definition
  | error => error
  | literal value => literal value
  | param ty => param (ty.map f)
  | operation op operands => operation op (operands.map f)

namespace Definition

theorem uses_mapValues (f : Value → Value) (definition : Definition) :
    (definition.mapValues f).uses = definition.uses.map f := by
  cases definition with
  | param ty => cases ty <;> rfl
  | _ => rfl

theorem mapValues_comp (f g : Value → Value) : mapValues g ∘ mapValues f = mapValues (g ∘ f) := by
  funext definition
  cases definition <;> simp [mapValues]

end Definition

theorem Slot.offer?_offer? {α : Type} (slot : Slot α) (value : Option α) :
    (slot.offer? value).offer? value = slot.offer? value := by
  cases h : slot.get? <;> cases value <;> simp [Slot.offer?, h]

theorem Slot.map_comp {α β γ : Type} (f : α → β) (g : β → γ) :
    Slot.map g ∘ Slot.map f = Slot.map (g ∘ f) := by
  funext ⟨value⟩
  simp [Slot.map]

/-- What is found under a key of a list is found when the values in it are replaced. -/
theorem lookup_map_snd {α β γ : Type} [BEq α] (f : β → γ) (entries : List (α × β)) (key : α) :
    (entries.map (Prod.map id f)).lookup key = (entries.lookup key).map f := by
  induction entries with
  | nil => rfl
  | cons entry entries ih =>
    obtain ⟨other, value⟩ := entry
    rw [List.map_cons, Prod.map_apply, id_eq, List.lookup_cons, List.lookup_cons, ih]
    split <;> rfl

/-- A line with other values. -/
def Line.mapValues (f : Value → Value) (line : Line) : Line :=
  ⟨f line.value, line.definition.mapValues f⟩

theorem Line.mapValues_comp (f g : Value → Value) :
    mapValues g ∘ mapValues f = mapValues (g ∘ f) := by
  funext line
  exact congrArg (mk _) (congrFun (Definition.mapValues_comp f g) line.definition)

namespace Listing

/-- A listing of given definitions, in which nothing is bound. -/
def ofDefinitions (front : Array Definition) : Listing where
  entries := front.mapIdx fun n definition => ⟨.ofNat n, definition⟩
  bindings := []

/-- A listing with some lines in front, on which nothing in it depends. -/
def behind (front : Array Definition) (listing : Listing) : Listing where
  entries := (ofDefinitions front).entries ++
    listing.entries.map (.mapValues (.shift (.ofNat front.size)))
  bindings := listing.bindings.map (Prod.map id (.shift (.ofNat front.size)))

variable (front : Array Definition)

theorem push_behind (listing : Listing) (definition : Definition) :
    (listing.behind front).push (definition.mapValues (.shift (.ofNat front.size))) =
      Prod.map (Value.shift (.ofNat front.size)) (behind front) (listing.push definition) := by
  simp [push, behind, ofDefinitions, Line.mapValues, Value.shift_ofNat]

/-- Requests to a listing are answered behind other lines as without these. -/
def shifted : Builder.Simulation Listing Listing where
  value := .shift (.ofNat front.size)
  injective := Value.shift_injective (.ofNat front.size)
  symbol := id
  rel listing listing' := listing' = listing.behind front
  error _ listing _ h := by
    subst h
    exact Prod.ext_iff.1 (push_behind front listing .error)
  literal _ value listing _ h := by
    subst h
    rw [Literal.map_id]
    exact Prod.ext_iff.1 (push_behind front listing (.literal value))
  param _ ty listing _ h := by
    subst h
    exact Prod.ext_iff.1 (push_behind front listing (.param ty))
  lookup decl listing _ h := by
    subst h
    exact ⟨lookup_map_snd _ listing.bindings decl, rfl⟩
  bind decl value listing _ h := by
    subst h
    rfl
  build _ op operands listing _ h := by
    subst h
    rw [Op.rename_id]
    exact Prod.ext_iff.1 (push_behind front listing (.operation op operands))

end Listing

/-! ## Modules -/

/-- What an emission behind some lines has come to, and one of the same module behind others. Both
succeed, and make, give and store the same, except that every number is as far from that of the lines
`back` in the second as it is from that of `front` in the first. No value is one of these lines. -/
structure Emitted.Shifts (front back : Array Definition) (first second : Emitted Listing) : Prop where
  made : ∃ made : Array Line,
    first.builder.entries = (Listing.ofDefinitions front).entries ++ made ∧
      second.builder.entries = (Listing.ofDefinitions back).entries ++
        made.map (.mapValues (.shift (Value.distance front.size back.size))) ∧
      (∀ line ∈ made, ∀ value ∈ line.definition.uses, value.IsMade front.size made.size) ∧
      (∃ values, first.values = .ok values ∧
        second.values = .ok (values.map (.shift (Value.distance front.size back.size))) ∧
        ∀ value ∈ values, value.IsMade front.size made.size) ∧
      ∀ slot ∈ Node.values first.module.walk, ∀ value, slot.get? = some value →
        value.IsMade front.size made.size
  stored : Node.values second.module.walk =
    (Node.values first.module.walk).map (Slot.map (.shift (Value.distance front.size back.size)))

namespace Node

/-- Where there were no values, those that are filled in may as well be replaced afterwards. -/
theorem values_fill_map {nodes : List Node} (h : Fresh True nodes) (found : ItemValues)
    (f : Value → Value) :
    values (nodes.map (fill fun decl => (found decl).map f)) =
      (values (nodes.map (fill found))).map (Slot.map f) := by
  induction nodes with
  | nil => rfl
  | cons node nodes ih =>
    obtain ⟨hnode, hnodes⟩ := fresh_cons.1 h
    cases node with
    | item it =>
      obtain ⟨span, id, expr, decl, slot⟩ := it
      have hslot : slot.get? = none := hnode _ rfl trivial
      have hfirst : slot.offer? ((found decl).map f) = (slot.offer? (found decl)).map f := by
        simp [Slot.offer?, Slot.map, hslot]
      exact congrArg₂ List.cons hfirst (ih hnodes)
    | stmnt s => exact ih hnodes
    | expr e => exact ih hnodes
    | ptrn p => exact ih hnodes

theorem mem_values {nodes : List Node} {slot : Slot Value} (h : slot ∈ values nodes) :
    ∃ it, .item it ∈ nodes ∧ it.value = slot := by
  obtain ⟨node, hnode, hslot⟩ := List.mem_filterMap.1 h
  cases node with
  | item it => exact ⟨it, hnode, Option.some.inj hslot⟩
  | stmnt s => cases hslot
  | expr e => cases hslot
  | ptrn p => cases hslot

end Node

attribute [ext] Emitted

namespace Module

variable {module : Module}

theorem emitValues_congr {σ : Type} [Builder σ] {b b' : σ} (h : module.written b = module.written b') :
    module.emitValues b = module.emitValues b' := by
  funext decl
  rw [emitValues_eq_lookup, emitValues_eq_lookup, h]

/-- What has been filled in once is not changed by filling it in again. -/
theorem emit_module_emit {σ : Type} [Builder σ] (b : σ) (hdistinct : module.Distinct)
    (h : (module.emit b).module.written b = module.written b) :
    ((module.emit b).module.emit b).module = (module.emit b).module := by
  have hfound : (module.emit b).module.emitValues b = module.emitValues b := by
    funext decl
    rw [emitValues_eq_lookup, emitValues_eq_lookup, h]
  have hsated : Node.Sated (module.emitValues b) (module.emit b).module.walk := by
    intro it hit
    obtain ⟨old, -, -, hoffer⟩ := module.item_of_emit b hdistinct hit
    rw [hoffer, Slot.offer?_offer?]
  rw [emit_module b (hdistinct.emit b), hfound, fill, Stmnt.fillList_of_sated hsated]

namespace Unset

/-- Emission behind some lines is emission into an empty listing, moved there. -/
theorem emit_behind (h : module.Unset) (front : Array Definition) :
    (module.emit (Listing.ofDefinitions front)).values =
        (module.emit Listing.empty).values.map (List.map (.shift (.ofNat front.size))) ∧
      (module.emit (Listing.ofDefinitions front)).builder =
        (module.emit Listing.empty).builder.behind front ∧
      module.written (Listing.ofDefinitions front) =
        (module.written Listing.empty).map (Prod.map id (.shift (.ofNat front.size))) := by
  have hfixed : Node.Fixed (Value.shift (.ofNat front.size)) module.walk := by
    intro it hit
    have hslot : it.value = .unset := congrArg Slot.mk (h it hit)
    rw [hslot, Slot.map_unset]
  have hfollows := Emitter.follows_module (S := Listing.shifted front)
    (fun id => Eq.refl (module.decls.isError id)) module.stmnts
  have hrelabel : Stmnt.relabelList (Listing.shifted front).relabel module.stmnts = module.stmnts :=
    Stmnt.relabelList_values hfixed
  rw [hrelabel] at hfollows
  have hstart : Emitter.Related (Listing.shifted front) ⟨Listing.empty, #[]⟩
      ⟨Listing.ofDefinitions front, #[]⟩ :=
    ⟨by simp [Listing.shifted, Listing.behind, Listing.empty, Listing.ofDefinitions],
      Array.map_empty.symm⟩
  obtain ⟨hvalues, hbuilder, hwritten⟩ := hfollows _ _ hstart
  rw [emit_values, emit_values, emit_builder, emit_builder]
  exact ⟨hvalues, hbuilder, (congrArg Array.toList hwritten).trans (Array.toList_map ..)⟩

/-- The same for the values of items. -/
theorem values_emit_behind (h : module.Unset) (hdistinct : module.Distinct)
    (front : Array Definition) :
    Node.values (module.emit (Listing.ofDefinitions front)).module.walk =
      (Node.values (module.emit Listing.empty).module.walk).map
        (Slot.map (.shift (.ofNat front.size))) := by
  have hfound : module.emitValues (Listing.ofDefinitions front) =
      fun decl => (module.emitValues Listing.empty decl).map (.shift (.ofNat front.size)) := by
    funext decl
    rw [emitValues_eq_lookup, (h.emit_behind front).2.2, lookup_map_snd, ← emitValues_eq_lookup]
  rw [emit_module _ hdistinct, emit_module _ hdistinct, fill, fill, walk, walk,
    Stmnt.nodesOf_fillList, Stmnt.nodesOf_fillList, hfound]
  exact Node.values_fill_map (fun it hit _ => h it hit) _ _

/-- Two emissions behind different lines are both that into an empty listing, moved. -/
theorem emit_shifts (h : module.Unset) (hdistinct : module.Distinct) (front back : Array Definition) :
    (module.emit (Listing.ofDefinitions front)).Shifts front back
      (module.emit (Listing.ofDefinitions back)) := by
  -- In the empty listing all values are those of lines, and there are no lines but those made.
  have horder : (module.emit Listing.empty).InOrder 0 Listing.empty
      (module.emit Listing.empty).builder :=
    emitted_inOrder Listing.view hdistinct h (Listing.ordered_empty 0)
  obtain ⟨values, hvalues, hhas⟩ := horder.values
  obtain ⟨hfront, hlisting, -⟩ := h.emit_behind front
  obtain ⟨hback, hlisting', -⟩ := h.emit_behind back
  rw [hvalues] at hfront hback
  have hshift := Value.shift_shift front.size back.size
  let made := (module.emit Listing.empty).builder.entries.map
    (Line.mapValues (.shift (.ofNat front.size)))
  have hsize : made.size = (module.emit Listing.empty).builder.entries.size := Array.size_map
  refine ⟨⟨made, congrArg Listing.entries hlisting, ?_, ?_,
    ⟨values.map (.shift (.ofNat front.size)), hfront, ?_, ?_⟩, ?_⟩, ?_⟩
  · rw [Array.map_map, Line.mapValues_comp, hshift, hlisting']
    rfl
  · intro line hline value hvalue
    obtain ⟨old, hold, rfl⟩ := Array.mem_map.1 hline
    obtain ⟨n, hn⟩ := Array.getElem?_of_mem hold
    rw [Line.mapValues, Definition.uses_mapValues] at hvalue
    obtain ⟨operand, hoperand, rfl⟩ := List.mem_map.1 hvalue
    rw [hsize]
    have hlt := horder.ordered.uses n old n.zero_le hn operand hoperand
    exact Value.isMade_shift (hlt.trans (Array.getElem?_eq_some_iff.1 hn).1) _
  · rw [hback, List.map_map, hshift]
    rfl
  · intro value hvalue
    obtain ⟨old, hold, rfl⟩ := List.mem_map.1 hvalue
    rw [hsize]
    exact Value.isMade_shift (hhas old hold) _
  · intro slot hslot value hvalue
    rw [h.values_emit_behind hdistinct front] at hslot
    obtain ⟨old, hold, rfl⟩ := List.mem_map.1 hslot
    obtain ⟨found, hfound, rfl⟩ := Option.map_eq_some_iff.1 hvalue
    obtain ⟨it, hit, rfl⟩ := Node.mem_values hold
    rw [hsize]
    exact Value.isMade_shift (horder.stored it hit found hfound) _
  · rw [h.values_emit_behind hdistinct front, h.values_emit_behind hdistinct back, List.map_map,
      Slot.map_comp, hshift]

/-- A second emission that starts at the same number finds every value that it comes to. -/
theorem emit_emit_of_size_eq (h : module.Unset) (hdistinct : module.Distinct)
    {front back : Array Definition} (hsize : front.size % 2 ^ 32 = back.size % 2 ^ 32) :
    (module.emit (Listing.ofDefinitions front)).module.emit (Listing.ofDefinitions back) =
      module.emit (Listing.ofDefinitions back) := by
  have hwritten : module.written (Listing.ofDefinitions front) =
      module.written (Listing.ofDefinitions back) := by
    rw [(h.emit_behind front).2.2, (h.emit_behind back).2.2, Value.shift_congr hsize]
  have hmodule : (module.emit (Listing.ofDefinitions front)).module =
      (module.emit (Listing.ofDefinitions back)).module := by
    rw [emit_module _ hdistinct, emit_module _ hdistinct, emitValues_congr hwritten]
  have hnodup : (Stmnt.reachedList module.stmnts).Nodup := Multiset.coe_nodup.1
    (Multiset.nodup_of_le (Stmnt.reachedList_le _) hdistinct)
  rw [← h.map_fst_written (Listing.ofDefinitions back)] at hnodup
  obtain ⟨hvalues, hbuilder, hagain⟩ := h.emit_fill_of_agree (Listing.ofDefinitions back)
    (ItemValues.agree_lookup hnodup)
  have hfilled : (module.emit (Listing.ofDefinitions back)).module = module.fill fun decl =>
      (module.written (Listing.ofDefinitions back)).lookup decl := emit_module _ hdistinct
  rw [← hfilled] at hvalues hbuilder hagain
  rw [hmodule]
  exact Emitted.ext hvalues (emit_module_emit (Listing.ofDefinitions back) hdistinct hagain) hbuilder

/-- One that starts at another number is refused as soon as it comes to an item. -/
theorem emit_emit_of_size_ne (h : module.Unset) (hdistinct : module.Distinct)
    {front back : Array Definition} (hsize : front.size % 2 ^ 32 ≠ back.size % 2 ^ 32) :
    ((module.emit (Listing.ofDefinitions front)).module.emit (Listing.ofDefinitions back)).values =
        .error .alreadySet ↔
      ∃ it, .item it ∈ (module.emit (Listing.ofDefinitions front)).module.walk ∧ it.value.isSet := by
  have hfront := (h.emit_behind front).2.2
  have hback := (h.emit_behind back).2.2
  rw [h.exists_isSet_iff hdistinct, hfront, emit_module _ hdistinct]
  cases hwritten : module.written Listing.empty with
  | nil =>
    -- Nothing is written, so nothing can be refused.
    have hagree : (module.emitValues (Listing.ofDefinitions front)).Agree
        (module.written (Listing.ofDefinitions back)) := by
      rw [hback, hwritten]
      exact List.forall_mem_nil _
    obtain ⟨⟨values, hvalues⟩, -⟩ :=
      (module.emit_writes (Listing.ofDefinitions back) True fun _ => h).2 trivial
    rw [(h.emit_fill_of_agree _ hagree).1, hvalues]
    simp
  | cons entry entries =>
    refine iff_of_true (h.emit_fill_of_not_agree _ fun hagree => ?_) (by simp)
    have hfound : module.emitValues (Listing.ofDefinitions front) entry.1 =
        some (.shift (.ofNat front.size) entry.2) := by
      rw [emitValues_eq_lookup, hfront, hwritten, lookup_map_snd, List.lookup_cons_self]
      rfl
    have hentry : Prod.map id (Value.shift (.ofNat back.size)) entry ∈
        module.written (Listing.ofDefinitions back) := by
      rw [hback, hwritten]
      exact List.mem_cons_self
    exact hsize (Value.shift_eq_iff.1 (hagree _ hentry _ hfound))

end Unset

end Module

end ImpLang
