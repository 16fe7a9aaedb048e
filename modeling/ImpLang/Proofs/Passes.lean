import ImpLang.Compiler
import ImpLang.Ir.Listing
import ImpLang.Proofs.Ir.Placing
import ImpLang.Proofs.Ir.Writing
import ImpLang.Proofs.Parser.Declared
import ImpLang.Proofs.Scope.Annotating
import ImpLang.Tree.Edit
import Mathlib.Algebra.BigOperators.Group.Multiset.Basic

/-!
Passes and edits in any order. Whatever is done to a module after it has been read, an annotation
that has been made stays with its statement, and an emission that is refused changes nothing.
-/

namespace ImpLang

/-- Something that is done to a module. -/
inductive Pass : Type 1 where
  | resolve (names : Interner)
  /-- Emission into any builder, empty or not. -/
  | emit {σ : Type} [Builder σ] (b : σ)
  | swap (i j : Nat)
  | remove (i : Nat)
  | setBound (bound : Bool)
  /-- Going on with a copy. -/
  | copy

namespace Pass

/-- The module behind a pass. An edit of a statement that does not exist is none. -/
def apply (module : Module) : Pass → Module
  | resolve names => (module.resolveNames names).module
  | emit b => (module.emit b).module
  | swap i j => (module.swap? i j).getD module
  | remove i => (module.remove? i).getD module
  | setBound bound => module.setBound bound
  | copy => module

/-- Where the statement that stands at a place behind a pass has stood before. -/
def origin (module : Module) (k : Nat) : Pass → Nat
  | swap i j =>
    if i < module.stmnts.length ∧ j < module.stmnts.length then
      if k = j then i else if k = i then j else k
    else k
  | remove i => if i < module.stmnts.length ∧ i ≤ k then k + 1 else k
  | resolve _ | emit _ | setBound _ | copy => k

end Pass

namespace Module

/-- The module behind some passes. -/
def run (module : Module) : List Pass → Module
  | [] => module
  | pass :: passes => (pass.apply module).run passes

/-- Where the statement that stands at a place behind some passes has stood before them. -/
def origin (module : Module) (k : Nat) : List Pass → Nat
  | [] => k
  | pass :: passes => pass.origin module ((pass.apply module).origin k passes)

end Module

/-! ## Annotations that stay -/

/-- A slot that was set is as it was. -/
def Slot.Kept {α : Type} (before after : Slot α) : Prop :=
  ∀ value, before.get? = some value → after.get? = some value

namespace Slot

variable {α : Type}

theorem kept_refl (slots : List (Slot α)) : List.Forall₂ Kept slots slots :=
  List.forall₂_same.2 fun _ _ _ h => h

theorem kept_trans {a b c : List (Slot α)} (h : List.Forall₂ Kept a b)
    (h' : List.Forall₂ Kept b c) : List.Forall₂ Kept a c := by
  induction h generalizing c with
  | nil => exact h'
  | cons hfirst _ ih =>
    cases h' with
    | cons hfirst' hrest' =>
      exact .cons (fun value hvalue => hfirst' value (hfirst value hvalue)) (ih hrest')

theorem kept_offer? (slot : Slot α) (value : Option α) : slot.Kept (slot.offer? value) := by
  intro current hcurrent
  simp [Slot.offer?, hcurrent]

end Slot

namespace Node

/-- The slots of the names among some nodes. -/
def names (nodes : List Node) : List (Slot DeclId) := (uses nodes).map Prod.snd

def value? : Node → Option (Slot Value)
  | .item it => some it.value
  | _ => none

/-- The slots of the items among some nodes. -/
def values (nodes : List Node) : List (Slot Value) := nodes.filterMap value?

theorem uses_append (nodes more : List Node) : uses (nodes ++ more) = uses nodes ++ uses more :=
  List.filterMap_append

variable (name : Slot DeclId → Slot DeclId) (item : Slot Value → Slot Value)

theorem use?_mapSlots (node : Node) :
    (node.mapSlots name item).use? = node.use?.map fun use => (use.1, name use.2) := by
  cases node with
  | stmnt s => rfl
  | item it => cases it; rfl
  | ptrn p => rfl
  | expr e => cases e <;> rfl

theorem uses_mapSlots (nodes : List Node) :
    uses (nodes.map (mapSlots name item)) = (uses nodes).map fun use => (use.1, name use.2) := by
  rw [uses, uses, List.filterMap_map, List.map_filterMap]
  exact List.filterMap_congr fun node _ => use?_mapSlots name item node

theorem value?_mapSlots (node : Node) : (node.mapSlots name item).value? = node.value?.map item := by
  cases node with
  | item it => cases it; rfl
  | _ => rfl

theorem values_mapSlots (nodes : List Node) :
    values (nodes.map (mapSlots name item)) = (values nodes).map item := by
  rw [values, values, List.filterMap_map, List.map_filterMap]
  exact List.filterMap_congr fun node _ => value?_mapSlots name item node

variable (found : ItemValues)

theorem use?_fill (node : Node) : (node.fill found).use? = node.use? := by
  cases node with
  | stmnt s => rfl
  | item it => cases it; rfl
  | ptrn p => rfl
  | expr e => cases e <;> rfl

theorem uses_fill (nodes : List Node) : uses (nodes.map (fill found)) = uses nodes := by
  rw [uses, uses, List.filterMap_map]
  exact List.filterMap_congr fun node _ => use?_fill found node

/-- Values are written into empty slots only. -/
theorem kept_fill (nodes : List Node) :
    List.Forall₂ Slot.Kept (values nodes) (values (nodes.map (fill found))) := by
  induction nodes with
  | nil => exact .nil
  | cons node nodes ih =>
    cases node with
    | item it =>
      obtain ⟨span, id, expr, decl, slot⟩ := it
      exact .cons (Slot.kept_offer? slot _) ih
    | stmnt s => exact ih
    | ptrn p => exact ih
    | expr e => exact ih

end Node

/-- A statement and the same statement later: it has changed in annotations only, and none of those
that it had. -/
structure Stmnt.Kept (before after : Stmnt) : Prop where
  same : after.mapSlots Slot.reset Slot.reset = before.mapSlots Slot.reset Slot.reset
  names : List.Forall₂ Slot.Kept (Node.names before.nodes) (Node.names after.nodes)
  values : List.Forall₂ Slot.Kept (Node.values before.nodes) (Node.values after.nodes)

namespace Stmnt

namespace Kept

theorem refl (s : Stmnt) : s.Kept s := ⟨rfl, Slot.kept_refl _, Slot.kept_refl _⟩

theorem trans {s t u : Stmnt} (h : s.Kept t) (h' : t.Kept u) : s.Kept u :=
  ⟨h'.same.trans h.same, Slot.kept_trans h.names h'.names, Slot.kept_trans h.values h'.values⟩

end Kept

theorem kept_fill (found : ItemValues) (s : Stmnt) : s.Kept (s.fill found) where
  same := mapSlots_fill found Slot.reset s
  names := by
    rw [nodes_fill, Node.names, Node.names, Node.uses_fill]
    exact Slot.kept_refl _
  values := by
    rw [nodes_fill]
    exact Node.kept_fill found s.nodes

variable {known : Symbol → DeclId → Prop}

theorem kept_of_annotated {s s' : Stmnt}
    (hsame : s'.mapSlots Slot.reset id = s.mapSlots Slot.reset id)
    (h : Node.Annotated known s.nodes s'.nodes) : s.Kept s' where
  same := by
    have hall := congrArg (mapSlots Slot.reset Slot.reset) hsame
    rwa [mapSlots_mapSlots, mapSlots_mapSlots] at hall
  names := by
    rw [Node.names, Node.names, List.forall₂_map_left_iff, List.forall₂_map_right_iff]
    exact h.imp fun use use' huse => huse.kept
  values := by
    have hnodes : s'.nodes.map (Node.mapSlots Slot.reset id) = s.nodes.map (Node.mapSlots Slot.reset id) := by
      rw [← nodes_mapSlots, ← nodes_mapSlots, hsame]
    have hvalues := congrArg Node.values hnodes
    rw [Node.values_mapSlots, Node.values_mapSlots, List.map_id, List.map_id] at hvalues
    rw [hvalues]
    exact Slot.kept_refl _

/-- What holds of lists of statements as a whole holds of them one by one. -/
theorem forall₂_kept_of_annotated {ss ss' : List Stmnt}
    (hsame : mapSlotsList Slot.reset id ss' = mapSlotsList Slot.reset id ss)
    (h : Node.Annotated known (nodesOf ss) (nodesOf ss')) : List.Forall₂ Kept ss ss' := by
  induction ss generalizing ss' with
  | nil =>
    cases ss' with
    | nil => exact .nil
    | cons s' ss' => cases hsame
  | cons s ss ih =>
    cases ss' with
    | nil => cases hsame
    | cons s' ss' =>
      obtain ⟨hfirst, hrest⟩ := List.cons_eq_cons.1 hsame
      -- Both first statements use as many names, so the lists of uses part at the same place.
      have hlength : (Node.uses s.nodes).length = (Node.uses s'.nodes).length := by
        have hnodes := congrArg (fun s => (Node.uses (nodes s)).length) hfirst
        simpa only [nodes_mapSlots, Node.uses_mapSlots, List.length_map] using hnodes.symm
      rw [Node.Annotated, nodesOf, nodesOf, Node.uses_append, Node.uses_append] at h
      have hhead := List.forall₂_take_append _ _ _ h
      have htail := List.forall₂_drop_append _ _ _ h
      rw [List.take_left' hlength] at hhead
      rw [List.drop_left' hlength] at htail
      exact .cons (kept_of_annotated hfirst hhead) (ih hrest htail)

end Stmnt

/-! ## Items -/

/-- The items among some nodes are some of those that introduce declarations. -/
theorem Node.items_le_declared (nodes : List Node) : items nodes ≤ (declared nodes).map Prod.fst := by
  induction nodes with
  | nil => exact le_refl _
  | cons node nodes ih =>
    cases node with
    | item it =>
      rw [items_item, declared_item, Multiset.map_add, Multiset.map_singleton]
      exact add_le_add (le_refl _) ih
    | ptrn p =>
      rw [items_ptrn]
      cases p with
      | name span id decl ty typed =>
        rw [declared_ptrn_name, Multiset.map_add]
        exact ih.trans (Multiset.le_add_left _ _)
      | tuple span elems ty typed => exact ih
      | error span => exact ih
    | expr e => exact ih
    | stmnt s => exact ih

theorem Stmnt.items_nodesOf (ss : List Stmnt) : Node.items (nodesOf ss) =
    ((ss : Multiset Stmnt).map fun s => Node.items s.nodes).sum := by
  induction ss with
  | nil => rfl
  | cons s ss ih =>
    rw [nodesOf, Node.items_append, ih, ← Multiset.cons_coe, Multiset.map_cons, Multiset.sum_cons]

/-! ## Passes -/

namespace Pass

theorem getElem?_of_forall₂ {α β : Type} {R : α → β → Prop} {a : List α} {b : List β}
    (h : List.Forall₂ R a b) {k : Nat} {y : β} (hy : b[k]? = some y) :
    ∃ x, a[k]? = some x ∧ R x y := by
  induction h generalizing k with
  | nil => cases hy
  | cons hfirst _ ih =>
    cases k with
    | zero =>
      cases hy
      exact ⟨_, rfl, hfirst⟩
    | succ k => exact ih hy

end Pass

namespace Module

variable (module : Module)

theorem swap?_cases (i j : Nat) :
    (¬(i < module.stmnts.length ∧ j < module.stmnts.length) ∧ module.swap? i j = none) ∨
      ∃ first second, module.stmnts[i]? = some first ∧ module.stmnts[j]? = some second ∧
        module.swap? i j =
          some { module with stmnts := (module.stmnts.set i second).set j first } := by
  cases hi : module.stmnts[i]? with
  | none =>
    have hlen := List.getElem?_eq_none_iff.1 hi
    exact .inl ⟨by omega, by simp only [swap?, hi]; rfl⟩
  | some first =>
    cases hj : module.stmnts[j]? with
    | none =>
      have hlen := List.getElem?_eq_none_iff.1 hj
      exact .inl ⟨by omega, by simp only [swap?, hi, hj]; rfl⟩
    | some second => exact .inr ⟨first, second, rfl, rfl, by simp only [swap?, hi, hj]; rfl⟩

/-- No item gets or loses its value when names are resolved. -/
theorem item_of_resolveNames (names : Interner) {it : Item}
    (h : .item it ∈ (module.resolveNames names).module.walk) :
    ∃ old, .item old ∈ module.walk ∧ old.decl = it.decl ∧ old.value = it.value := by
  have hnodes := congrArg Stmnt.nodesOf (module.mapSlots_resolveNames names)
  rw [Stmnt.nodesOf_mapSlotsList, Stmnt.nodesOf_mapSlotsList] at hnodes
  have hmem := List.mem_map_of_mem (f := Node.mapSlots Slot.reset id) h
  rw [walk, hnodes] at hmem
  obtain ⟨node, hnode, heq⟩ := List.mem_map.1 hmem
  obtain ⟨span, id, expr, decl, slot⟩ := it
  cases node with
  | item old =>
    obtain ⟨span', id', expr', decl', slot'⟩ := old
    simp only [Node.mapSlots, Node.item.injEq, Item.mk.injEq] at heq
    exact ⟨_, hnode, heq.2.2.2.1, heq.2.2.2.2⟩
  | stmnt s => cases heq
  | expr e => cases heq
  | ptrn p => cases heq

variable {module}

theorem Unset.resolveNames (h : module.Unset) (names : Interner) :
    (module.resolveNames names).module.Unset := by
  intro it hit
  obtain ⟨old, hold, -, hvalue⟩ := module.item_of_resolveNames names hit
  rw [← hvalue]
  exact h old hold

theorem AllOrNone.resolveNames (h : module.AllOrNone) (names : Interner) :
    (module.resolveNames names).module.AllOrNone := by
  rcases h with hnone | hall
  · exact .inl (Unset.resolveNames hnone names)
  · have hreached : Stmnt.reachedList (module.resolveNames names).module.stmnts =
        Stmnt.reachedList module.stmnts :=
      Stmnt.reachedList_congr (module.mapSlots_resolveNames names)
    refine .inr fun it hit hdecl => ?_
    obtain ⟨old, hold, hsamedecl, hvalue⟩ := module.item_of_resolveNames names hit
    rw [← hvalue]
    rw [hreached, ← hsamedecl] at hdecl
    exact hall old hold hdecl

/-- Items are told apart by their declarations, which do not depend on annotations. -/
theorem Distinct.of_mapSlots {name : Slot DeclId → Slot DeclId} {item : Slot Value → Slot Value}
    {module' : Module} (h : module.Distinct)
    (hsame : Stmnt.mapSlotsList name item module'.stmnts = Stmnt.mapSlotsList name item module.stmnts) :
    module'.Distinct := by
  have hitems := congrArg (fun stmnts => Node.items (Stmnt.nodesOf stmnts)) hsame
  simp only [Stmnt.nodesOf_mapSlotsList, Node.items_mapSlots] at hitems
  rw [Distinct, walk, hitems]
  exact h

theorem Distinct.resolveNames (h : module.Distinct) (names : Interner) :
    (module.resolveNames names).module.Distinct :=
  h.of_mapSlots (module.mapSlots_resolveNames names)

theorem Distinct.emit {σ : Type} [Builder σ] (h : module.Distinct) (b : σ) :
    (module.emit b).module.Distinct := h.of_mapSlots (module.mapSlots_emit b)

/-- They are told apart in what is left of the statements, in any order. -/
theorem Distinct.of_le {module' : Module} (h : module.Distinct)
    (hstmnts : (module'.stmnts : Multiset Stmnt) ≤ module.stmnts) : module'.Distinct := by
  obtain ⟨others, hsum⟩ := Multiset.le_iff_exists_add.1 hstmnts
  refine Multiset.nodup_of_le ?_ h
  rw [walk, walk, Stmnt.items_nodesOf, Stmnt.items_nodesOf, hsum, Multiset.map_add, Multiset.sum_add]
  exact Multiset.le_add_right _ _

end Module

namespace Pass

variable (module : Module)

/-- Every statement behind a pass has stood before it, with no other annotations. -/
theorem kept_apply (hdistinct : module.Distinct) (pass : Pass) {k : Nat} {stmnt : Stmnt}
    (h : (pass.apply module).stmnts[k]? = some stmnt) :
    ∃ old, module.stmnts[pass.origin module k]? = some old ∧ old.Kept stmnt := by
  cases pass with
  | resolve names =>
    exact getElem?_of_forall₂ (Stmnt.forall₂_kept_of_annotated (module.mapSlots_resolveNames names)
      (module.annotated_resolveNames names)) h
  | emit b =>
    rw [apply, Module.emit_module b hdistinct, Module.fill, Stmnt.fillList_eq_map,
      List.getElem?_map] at h
    obtain ⟨old, hold, rfl⟩ := Option.map_eq_some_iff.1 h
    exact ⟨old, hold, old.kept_fill _⟩
  | swap i j =>
    refine ⟨stmnt, ?_, .refl stmnt⟩
    rcases module.swap?_cases i j with ⟨hout, hnone⟩ | ⟨first, second, hi, hj, hsome⟩
    · rw [apply, hnone] at h
      rw [origin, if_neg hout]
      exact h
    · obtain ⟨hilt, -⟩ := List.getElem?_eq_some_iff.1 hi
      obtain ⟨hjlt, -⟩ := List.getElem?_eq_some_iff.1 hj
      rw [apply, hsome] at h
      simp only [Option.getD_some, List.getElem?_set, List.length_set] at h
      rw [origin, if_pos ⟨hilt, hjlt⟩]
      by_cases hkj : k = j
      · subst hkj
        simp only [if_true, if_pos hjlt] at h ⊢
        rw [hi, h]
      · by_cases hki : k = i
        · subst hki
          simp only [if_neg hkj, if_neg (Ne.symm hkj), if_true, if_pos hilt] at h ⊢
          rw [hj, h]
        · simp only [if_neg hkj, if_neg hki, if_neg (Ne.symm hkj), if_neg (Ne.symm hki)] at h ⊢
          exact h
  | remove i =>
    refine ⟨stmnt, ?_, .refl stmnt⟩
    by_cases hi : i < module.stmnts.length
    · rw [apply, Module.remove?, if_pos hi] at h
      simp only [Option.getD_some, List.getElem?_eraseIdx] at h
      by_cases hk : k < i
      · rw [if_pos hk] at h
        rw [origin, if_neg (by omega)]
        exact h
      · rw [if_neg hk] at h
        rw [origin, if_pos ⟨hi, by omega⟩]
        exact h
    · rw [apply, Module.remove?, if_neg hi] at h
      rw [origin, if_neg (by omega)]
      exact h
  | setBound bound => exact ⟨stmnt, h, .refl stmnt⟩
  | copy => exact ⟨stmnt, h, .refl stmnt⟩

variable {module}

/-- Statements that are exchanged are the same statements. -/
theorem swap_le (i j : Nat) : (((swap i j).apply module).stmnts : Multiset Stmnt) ≤ module.stmnts := by
  rcases module.swap?_cases i j with ⟨-, hnone⟩ | ⟨first, second, hi, hj, hsome⟩
  · rw [apply, hnone]
    exact le_refl _
  · obtain ⟨hilt, rfl⟩ := List.getElem?_eq_some_iff.1 hi
    obtain ⟨hjlt, rfl⟩ := List.getElem?_eq_some_iff.1 hj
    rw [apply, hsome]
    exact (Multiset.coe_eq_coe.2 (List.set_set_perm hilt hjlt)).le

theorem remove_le (i : Nat) :
    (((remove i).apply module).stmnts : Multiset Stmnt) ≤ module.stmnts := by
  rw [apply, Module.remove?]
  split
  · exact Multiset.coe_le.2 (List.eraseIdx_sublist _ _).subperm
  · exact le_refl _

theorem mem_of_mem_swap {i j : Nat} {stmnt : Stmnt}
    (h : stmnt ∈ ((swap i j).apply module).stmnts) : stmnt ∈ module.stmnts :=
  Multiset.mem_of_le (swap_le i j) h

theorem mem_of_mem_remove {i : Nat} {stmnt : Stmnt}
    (h : stmnt ∈ ((remove i).apply module).stmnts) : stmnt ∈ module.stmnts :=
  Multiset.mem_of_le (remove_le i) h

theorem distinct_apply (pass : Pass) (h : module.Distinct) : (pass.apply module).Distinct := by
  cases pass with
  | resolve names => exact h.resolveNames names
  | emit b => exact h.emit b
  | swap i j => exact h.of_le (swap_le i j)
  | remove i => exact h.of_le (remove_le i)
  | setBound bound => exact h
  | copy => exact h

theorem allOrNone_apply (pass : Pass) (hdistinct : module.Distinct) (h : module.AllOrNone) :
    (pass.apply module).AllOrNone := by
  cases pass with
  | resolve names => exact h.resolveNames names
  | emit b => exact h.emit b hdistinct
  | swap i j => exact h.subset fun stmnt => mem_of_mem_swap
  | remove i => exact h.subset fun stmnt => mem_of_mem_remove
  | setBound bound => exact h
  | copy => exact h

end Pass

namespace Module

theorem kept_run (module : Module) (hdistinct : module.Distinct) (passes : List Pass) {k : Nat}
    {stmnt : Stmnt} (h : (module.run passes).stmnts[k]? = some stmnt) :
    ∃ old, module.stmnts[module.origin k passes]? = some old ∧ old.Kept stmnt := by
  induction passes generalizing module with
  | nil => exact ⟨stmnt, h, .refl stmnt⟩
  | cons pass passes ih =>
    obtain ⟨next, hnext, hkept⟩ := ih (pass.apply module) (Pass.distinct_apply pass hdistinct) h
    obtain ⟨old, hold, hkept'⟩ := Pass.kept_apply module hdistinct pass hnext
    exact ⟨old, hold, hkept'.trans hkept⟩

theorem distinct_run {module : Module} (h : module.Distinct) (passes : List Pass) :
    (module.run passes).Distinct := by
  induction passes generalizing module with
  | nil => exact h
  | cons pass passes ih => exact ih (Pass.distinct_apply pass h)

theorem allOrNone_run {module : Module} (hdistinct : module.Distinct) (h : module.AllOrNone)
    (passes : List Pass) : (module.run passes).AllOrNone := by
  induction passes generalizing module with
  | nil => exact h
  | cons pass passes ih =>
    exact ih (Pass.distinct_apply pass hdistinct) (Pass.allOrNone_apply pass hdistinct h)

/-- A parser makes a declaration for every item. -/
theorem distinct_parseSource (c : Compiler) (name source : String) :
    (c.parseSource name source).1.Distinct := by
  have hperm := Module.parse_introduces ⟨c.files.size⟩ source c.names
  rw [← Compiler.result_parseSource c name source] at hperm
  have hentries := (hperm.map Prod.fst).nodup_iff.2 <| by
    rw [Decls.map_fst_entries]
    exact List.nodup_range.map fun i j hij => congrArg DeclId.index hij
  exact Multiset.nodup_of_le (Node.items_le_declared _) (Multiset.coe_nodup.2 hentries)

/-- No item has a value when a module has just been read. -/
theorem unset_parseSource (c : Compiler) (name source : String) :
    (c.parseSource name source).1.Unset := by
  have hblank : Stmnt.mapSlotsList id Slot.reset (c.parseSource name source).1.stmnts =
      (c.parseSource name source).1.stmnts := by
    rw [Compiler.result_parseSource]
    exact Module.parse_blank rfl rfl _ _ _
  have hwalk := Stmnt.nodesOf_mapSlotsList id Slot.reset (c.parseSource name source).1.stmnts
  rw [hblank] at hwalk
  exact Node.unset_of_reset hwalk.symm

theorem allOrNone_parseSource (c : Compiler) (name source : String) :
    (c.parseSource name source).1.AllOrNone := .inl (unset_parseSource c name source)

/-- Annotations are made once. Whatever has been done to a module since it was read, however it goes
on, each of its statements keeps the annotations it has at any time; and each emission succeeds or
leaves the module as it was. -/
theorem annotations_made_once (c : Compiler) (name source : String) (before after : List Pass) :
    let module := (c.parseSource name source).1.run before
    (∀ k stmnt, (module.run after).stmnts[k]? = some stmnt →
      ∃ old, module.stmnts[module.origin k after]? = some old ∧ old.Kept stmnt) ∧
    ∀ (σ : Type) [Builder σ] (b : σ),
      (∃ values, (module.emit b).values = .ok values) ∨ (module.emit b).module = module := by
  intro module
  have hparsed := distinct_parseSource c name source
  have hdistinct : module.Distinct := distinct_run hparsed before
  have hmodule : module.AllOrNone := allOrNone_run hparsed (allOrNone_parseSource c name source) before
  refine ⟨fun k stmnt h => kept_run module hdistinct after h, fun σ _ b => ?_⟩
  cases hvalues : (module.emit b).values with
  | ok values => exact .inl ⟨values, rfl⟩
  | error e => exact .inr (hmodule.emit_error b hdistinct hvalues)

/-- An emission is refused when another one has given an item another value. -/
example :
    let it : Item := ⟨default, default, .bottom default, ⟨0⟩, .unset⟩
    let module : Module := ⟨default, default, [.item it], default, true⟩
    ((module.emit Listing.empty).module.emit (Builder.pad 1 Listing.empty)).values matches
      .error .alreadySet := by
  rfl

end Module

end ImpLang
