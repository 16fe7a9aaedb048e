import ImpLang.Proofs.Ir.Emission
import ImpLang.Proofs.Ir.Simulation

/-!
Recording the requests of an emission: the record changes nothing, and it shows what is asked.
-/

namespace ImpLang

/-- A request that succeeds: neither an error nor a look-up that finds nothing. -/
def Call.Answered : Call → Prop
  | .error .. => False
  | .lookup _ value => value.isSome
  | .literal .. | .param .. | .build .. | .bind .. => True

namespace Traced

variable {σ : Type} [Builder σ]

/-- A builder with a record of its requests answers as the builder itself. -/
def transparent (σ : Type) [Builder σ] : Builder.Simulation σ (Traced σ) where
  value := id
  injective := Function.injective_id
  symbol := id
  rel b c := c.inner = b
  error _ _ _ h := h ▸ ⟨rfl, rfl⟩
  literal _ _ _ _ h := by
    rw [Literal.map_id, h.symm]
    exact ⟨rfl, rfl⟩
  param _ ty _ _ h := by
    rw [Option.map_id_fun, id_eq, h.symm]
    exact ⟨rfl, rfl⟩
  lookup _ _ _ h := by
    rw [Option.map_id_fun, h.symm]
    exact ⟨rfl, rfl⟩
  bind _ _ _ _ h := h ▸ rfl
  build _ op operands _ _ h := by
    rw [List.map_id_fun, id_eq, Op.rename_id, h.symm]
    exact ⟨rfl, rfl⟩

/-- With a record, an emission gives the same values and leaves the same builder. -/
theorem emit_inner (module : Module) (b : σ) (calls : Array Call) :
    (module.emit (Traced.mk b calls)).values = (module.emit b).values ∧
      (module.emit (Traced.mk b calls)).builder.inner = (module.emit b).builder := by
  have hfollows := Emitter.follows_module (S := transparent σ)
    (fun id => Eq.refl (module.decls.isError id)) module.stmnts
  have hrelabel : (transparent σ).relabel = .refl := rfl
  rw [hrelabel, Stmnt.relabelList_refl] at hfollows
  obtain ⟨hvalues, hbuilder, -⟩ := hfollows ⟨b, #[]⟩ ⟨Traced.mk b calls, #[]⟩
    ⟨rfl, Array.map_empty.symm⟩
  have hsame : List.map (transparent σ).value = id := List.map_id_fun
  rw [hsame, Except.map_id] at hvalues
  rw [Module.emit_values, Module.emit_values, Module.emit_builder, Module.emit_builder]
  exact ⟨hvalues, hbuilder⟩

/-- What holds of a builder holds beside a record, in which all requests succeed. -/
def invariant (I : Builder.Invariant σ) : Builder.Invariant (Traced σ) where
  fit b := I.fit b.inner ∧ ∀ call ∈ b.calls, call.Answered
  bound b decl := I.bound b.inner decl
  literal span value b h := by
    obtain ⟨hfit, hkeeps⟩ := I.literal span value b.inner h.1
    exact ⟨⟨hfit, by simpa [Builder.literal, or_imp, forall_and, Call.Answered] using h.2⟩, hkeeps⟩
  param span ty b h := by
    obtain ⟨hfit, hkeeps⟩ := I.param span ty b.inner h.1
    exact ⟨⟨hfit, by simpa [Builder.param, or_imp, forall_and, Call.Answered] using h.2⟩, hkeeps⟩
  build span op operands b h := by
    obtain ⟨hfit, hkeeps⟩ := I.build span op operands b.inner h.1
    exact ⟨⟨hfit, by simpa [Builder.build, or_imp, forall_and, Call.Answered] using h.2⟩, hkeeps⟩
  bind decl value b h := by
    obtain ⟨hfit, hbound⟩ := I.bind decl value b.inner h.1
    exact ⟨⟨hfit, by simpa [Builder.bind, or_imp, forall_and, Call.Answered] using h.2⟩, hbound⟩
  lookup decl b h hbound := by
    obtain ⟨value, inner, hlookup, hfit, hkeeps⟩ := I.lookup decl b.inner h.1 hbound
    refine ⟨value, ⟨inner, b.calls.push (.lookup decl (some value))⟩, ?_, ⟨hfit, ?_⟩, hkeeps⟩
    · simp only [Builder.lookup] at hlookup ⊢
      rw [hlookup]
    · simpa [or_imp, forall_and, Call.Answered] using h.2

end Traced

/-- A listing without errors, in which what has been bound is found. -/
def Listing.invariant : Builder.Invariant Listing where
  fit listing := ∀ definition ∈ listing.definitions, definition ≠ .error
  bound listing decl := (listing.bindings.lookup decl).isSome
  literal _ _ listing h := ⟨by simpa [Builder.literal, or_imp, forall_and] using h, fun _ => id⟩
  param _ _ listing h := ⟨by simpa [Builder.param, or_imp, forall_and] using h, fun _ => id⟩
  build _ _ _ listing h := ⟨by simpa [Builder.build, or_imp, forall_and] using h, fun _ => id⟩
  bind decl value listing h := by
    refine ⟨h, by simp [Builder.bind], fun other hother => ?_⟩
    by_cases heq : other = decl
    · simp [Builder.bind, heq]
    · simpa [Builder.bind, List.lookup_cons, beq_eq_false_iff_ne.2 heq] using hother
  lookup decl listing h hbound := by
    obtain ⟨value, hvalue⟩ := Option.isSome_iff_exists.1 hbound
    exact ⟨value, listing, by simp [Builder.lookup, hvalue], h, fun _ => id⟩

end ImpLang
