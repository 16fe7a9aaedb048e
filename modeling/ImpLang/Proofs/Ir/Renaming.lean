import ImpLang.Cli.Unit
import ImpLang.Proofs.Ir.Simulation
import ImpLang.Proofs.Scope.Renaming
import ImpLang.Proofs.Tree.Printing

/-!
The textual intermediate representation of a module shows of its symbols only the texts behind them.
-/

namespace ImpLang

/-- A definition with other symbols. -/
def Definition.rename (f : Symbol → Symbol) : Definition → Definition
  | error => error
  | literal value => literal (value.map f)
  | param ty => param ty
  | operation op operands => operation (op.rename f) operands

theorem Op.text_rename {g : Relabel} {names names' : Interner} (h : g.KeepsTexts names names')
    (op : Op) : (op.rename g.symbol).text names' = op.text names := by
  cases op
  case field symbol => exact congrArg ("field ." ++ ·) (h.name symbol)
  case app cps => cases cps <;> rfl
  all_goals rfl

theorem Definition.text_rename {g : Relabel} {names names' : Interner}
    (h : g.KeepsTexts names names') (definition : Definition) :
    (definition.rename g.symbol).text names' = definition.text names := by
  cases definition with
  | error => rfl
  | literal value => exact congrArg (fun value => "literal " ++ value.print) (h.literal value)
  | param ty => cases ty <;> rfl
  | operation op operands => exact congrArg (· ++ _) (Op.text_rename h op)

/-- A line with other symbols. -/
def Line.rename (f : Symbol → Symbol) (line : Line) : Line :=
  ⟨line.value, line.definition.rename f⟩

namespace Listing

theorem push_rename {f : Symbol → Symbol} {listing listing' : Listing}
    (h : listing'.entries = listing.entries.map (Line.rename f) ∧
      listing'.bindings = listing.bindings) (definition : Definition) :
    (listing'.push (definition.rename f)).1 = (listing.push definition).1 ∧
      (listing'.push (definition.rename f)).2.entries =
        (listing.push definition).2.entries.map (Line.rename f) ∧
      (listing'.push (definition.rename f)).2.bindings = (listing.push definition).2.bindings := by
  refine ⟨?_, ?_, h.2⟩
  · simp [push, h.1]
  · simp [push, h.1, Line.rename]

/-- Listings of the same lines with other symbols. -/
def renamed (f : Symbol → Symbol) : Builder.Simulation Listing Listing where
  value := id
  injective := Function.injective_id
  symbol := f
  rel listing listing' := listing'.entries = listing.entries.map (Line.rename f) ∧
    listing'.bindings = listing.bindings
  error _ _ _ h := push_rename h .error
  literal _ value _ _ h := push_rename h (.literal value)
  param _ ty _ _ h := by
    rw [Option.map_id_fun, id_eq]
    exact push_rename h (.param ty)
  lookup decl listing listing' h := by
    refine ⟨?_, h⟩
    show listing'.bindings.lookup decl = _
    rw [h.2, Option.map_id_fun]
    rfl
  bind decl value _ _ h := ⟨h.1, congrArg ((decl, value) :: ·) h.2⟩
  build _ op operands _ _ h := by
    rw [List.map_id_fun, id_eq]
    exact push_rename h (.operation op operands)

/-- The text of a listing depends on the number of a symbol no more than its definitions do. -/
theorem text_rename {g : Relabel} {names names' : Interner} (h : g.KeepsTexts names names')
    {listing listing' : Listing}
    (hsame : listing'.entries = listing.entries.map (Line.rename g.symbol)) :
    listing'.text names' = listing.text names := by
  have hline : Line.text names' ∘ Line.rename g.symbol = Line.text names :=
    funext fun line => congrArg (toString line.value ++ " = " ++ ·)
      (Definition.text_rename h line.definition)
  rw [text, text, lines, lines, hsame, Array.toList_map, List.map_map, hline]

end Listing

namespace Cli

/-- A module with other symbols has the same text, and fails to have one for the same reason. -/
theorem irText_relabel {f : Symbol → Symbol} {names names' : Interner}
    (h : (Relabel.symbols f).KeepsTexts names names') (module : Module) :
    irText names' (module.relabel (.symbols f)) = irText names module := by
  have hfollows := Emitter.follows_module (S := Listing.renamed f)
    (Decls.isError_relabel (.symbols f) module.decls) module.stmnts
  obtain ⟨hvalues, hrelated⟩ := hfollows ⟨.empty, #[]⟩ ⟨.empty, #[]⟩
    ⟨⟨Array.map_empty.symm, rfl⟩, Array.map_empty.symm⟩
  have hsame : List.map (Listing.renamed f).value = id := List.map_id_fun
  rw [hsame, Except.map_id] at hvalues
  have hemitted : ((module.relabel (.symbols f)).emit Listing.empty).values =
      (module.emit Listing.empty).values := by
    rw [Module.emit_values, Module.emit_values]
    exact hvalues
  have htext : ((module.relabel (.symbols f)).emit Listing.empty).builder.text names' =
      (module.emit Listing.empty).builder.text names := by
    rw [Module.emit_builder, Module.emit_builder]
    exact Listing.text_rename h hrelated.1.1
  show Except.map _ _ = Except.map _ _
  rw [hemitted, htext]

end Cli

end ImpLang
