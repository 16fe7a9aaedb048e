import ImpLang.Proofs.Parser.Renaming
import ImpLang.Proofs.Passes
import ImpLang.Proofs.Tree.Printing

/-!
What the passes leave alone. Name resolution and emission write into slots; whatever they are run on,
in whatever order, the tree, its places, its text and the nodes of a walk over it stay.
-/

namespace ImpLang

namespace Pass

/-- Passes that only annotate. Edits are not among them. -/
def annotates : Pass → Bool
  | resolve _ | emit _ => true
  | swap .. | remove _ | setBound _ | copy => false

end Pass

namespace Module

/-- Nothing has been changed but slots, the mark of a module whose names have been resolved, and
placeholders behind the declarations. -/
structure Annotated (before after : Module) : Prop where
  span : after.span = before.span
  file : after.file = before.file
  stmnts : Stmnt.mapSlotsList Slot.reset Slot.reset after.stmnts =
    Stmnt.mapSlotsList Slot.reset Slot.reset before.stmnts
  decls : before.decls.Grows after.decls

namespace Annotated

theorem refl (module : Module) : module.Annotated module := ⟨rfl, rfl, rfl, .refl _⟩

variable {a b c : Module}

theorem trans (h : a.Annotated b) (h' : b.Annotated c) : a.Annotated c where
  span := h'.span.trans h.span
  file := h'.file.trans h.file
  stmnts := h'.stmnts.trans h.stmnts
  decls := h.decls.trans h'.decls

theorem walk (h : a.Annotated b) :
    b.walk.map (Node.mapSlots Slot.reset Slot.reset) =
      a.walk.map (Node.mapSlots Slot.reset Slot.reset) := by
  rw [Module.walk, Module.walk, ← Stmnt.nodesOf_mapSlotsList, ← Stmnt.nodesOf_mapSlotsList, h.stmnts]

theorem print (h : a.Annotated b) (names : Interner) : b.print names = a.print names :=
  print_congr h.stmnts names

end Annotated

variable (module : Module)

theorem annotated_of_resolveNames (names : Interner) :
    module.Annotated (module.resolveNames names).module where
  span := rfl
  file := rfl
  stmnts := by
    have hitems := congrArg (Stmnt.mapSlotsList Slot.reset Slot.reset)
      (module.mapSlots_resolveNames names)
    rwa [Stmnt.mapSlotsList_mapSlotsList, Stmnt.mapSlotsList_mapSlotsList] at hitems
  decls := module.grows_resolveNames names

/-- An emission writes what it has found so far, refused or not. -/
theorem annotated_of_emit {σ : Type} [Builder σ] (b : σ) :
    module.Annotated (module.emit b).module where
  span := rfl
  file := rfl
  stmnts := by
    have hnames := congrArg (Stmnt.mapSlotsList Slot.reset Slot.reset) (module.mapSlots_emit b)
    rwa [Stmnt.mapSlotsList_mapSlotsList, Stmnt.mapSlotsList_mapSlotsList] at hnames
  decls := .refl _

theorem annotated_apply {pass : Pass} (h : pass.annotates = true) :
    module.Annotated (pass.apply module) := by
  cases pass with
  | resolve names => exact module.annotated_of_resolveNames names
  | emit b => exact module.annotated_of_emit b
  | swap i j => cases h
  | remove i => cases h
  | setBound bound => cases h
  | copy => cases h

theorem annotated_run {passes : List Pass} (h : ∀ pass ∈ passes, pass.annotates = true) :
    module.Annotated (module.run passes) := by
  induction passes generalizing module with
  | nil => exact .refl module
  | cons pass passes ih =>
    obtain ⟨hfirst, hrest⟩ := List.forall_mem_cons.1 h
    exact (module.annotated_apply hfirst).trans (ih (pass.apply module) hrest)

/-- The text of a tree that has been read does not depend on what the name table gets later. -/
theorem print_parseSource (c : Compiler) (name source : String) {table : Interner}
    (h : (c.parseSource name source).2.names ≤ table) :
    (c.parseSource name source).1.print table =
      (c.parseSource name source).1.print (c.parseSource name source).2.names := by
  let parsed := Module.parse ⟨c.files.size⟩ source c.names
  have hresult : (c.parseSource name source).1 = parsed.result := c.result_parseSource name source
  have hnames : (c.parseSource name source).2.names = parsed.names := c.names_parseSource name source
  rw [hnames] at h
  rw [hresult, hnames]
  have hwithin : parsed.names.Within table := Interner.within_of_le h
  have hkeeps : (Relabel.symbols (parsed.names.carry table)).KeepsTexts parsed.names table :=
    Interner.resolve?_carry hwithin
  have hsame : parsed.result = parsed.result.relabel (.symbols (parsed.names.carry table)) :=
    (parse_rename (fun _ htext => htext) _ source).2.2 _ _ (Interner.le_refl _) h
  calc parsed.result.print table
      = (parsed.result.relabel (.symbols (parsed.names.carry table))).print table := by rw [← hsame]
    _ = parsed.result.print parsed.names := print_relabel hkeeps _

/-- Passes only annotate. Name resolution changes nothing in a module but the slots of names, the
placeholders behind its declarations and its mark; emission, done or refused, nothing but the slots
of items; and behind any number of them the tree, its text and the nodes of a walk over it are what
they were. -/
theorem passes_only_annotate :
    (∀ names, let bound := (module.resolveNames names).module
      bound = { module with stmnts := bound.stmnts, decls := bound.decls, bound := true } ∧
        Stmnt.mapSlotsList Slot.reset id bound.stmnts =
          Stmnt.mapSlotsList Slot.reset id module.stmnts ∧
        module.decls.Grows bound.decls) ∧
      (∀ (σ : Type) [Builder σ] (b : σ), let after := (module.emit b).module
        after = { module with stmnts := after.stmnts } ∧
          Stmnt.mapSlotsList id Slot.reset after.stmnts =
            Stmnt.mapSlotsList id Slot.reset module.stmnts) ∧
      ∀ passes : List Pass, (∀ pass ∈ passes, pass.annotates = true) →
        let after := module.run passes
        module.Annotated after ∧
          after.walk.map (Node.mapSlots Slot.reset Slot.reset) =
            module.walk.map (Node.mapSlots Slot.reset Slot.reset) ∧
          (∀ names, after.print names = module.print names) ∧
          ∀ (c : Compiler) (name source : String), (c.parseSource name source).1 = module →
            ∀ table, (c.parseSource name source).2.names ≤ table →
              after.print table = module.print (c.parseSource name source).2.names := by
  refine ⟨fun names => ⟨rfl, module.mapSlots_resolveNames names, module.grows_resolveNames names⟩,
    fun σ _ b => ⟨rfl, module.mapSlots_emit b⟩, fun passes h => ?_⟩
  have hafter : module.Annotated (module.run passes) := module.annotated_run h
  refine ⟨hafter, hafter.walk, hafter.print, ?_⟩
  rintro c name source rfl table htable
  rw [hafter.print, print_parseSource c name source htable]

/-- A use of a name that nothing declares, resolved before and after the emission of the module. -/
theorem passes_only_annotate_undeclared :
    let names := Interner.empty
    let use : Expr := .name default default .unset
    let module : Module := ⟨default, default, [.expr default use], default, false⟩
    let passes : List Pass := [.resolve names, .emit Listing.empty, .resolve names]
    (∀ pass ∈ passes, pass.annotates = true) ∧ module.Annotated (module.run passes) :=
  have h : ∀ pass ∈ [Pass.resolve Interner.empty, .emit Listing.empty, .resolve Interner.empty],
      pass.annotates = true := by simp [Pass.annotates]
  ⟨h, ((passes_only_annotate _).2.2 _ h).1⟩

end Module

end ImpLang
