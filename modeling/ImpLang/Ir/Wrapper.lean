import ImpLang.Ir.Builder

/-!
Builders around other builders: one that forgets all bindings, and one that keeps a record of what
it is asked.
-/

namespace ImpLang

/-- A builder whose look-ups find nothing. -/
structure Blind (σ : Type) where
  inner : σ

namespace Blind

variable {σ : Type} [Builder σ]

instance : Builder (Blind σ) where
  error span b := let (v, b) := Builder.error span b.inner; (v, ⟨b⟩)
  literal span value b := let (v, b) := Builder.literal span value b.inner; (v, ⟨b⟩)
  param span ty b := let (v, b) := Builder.param span ty b.inner; (v, ⟨b⟩)
  lookup _ b := (none, b)
  bind decl value b := ⟨Builder.bind decl value b.inner⟩
  build span op operands b := let (v, b) := Builder.build span op operands b.inner; (v, ⟨b⟩)

end Blind

/-- A request to a builder with its answer. -/
inductive Call where
  | error (value : Value) (span : Span)
  | literal (value : Value) (span : Span)
  | param (value : Value) (span : Span)
  | build (value : Value) (span : Span)
  | lookup (decl : DeclId) (value : Option Value)
  | bind (decl : DeclId) (value : Value)
deriving DecidableEq, Repr

/-- A builder with the requests made to it. -/
structure Traced (σ : Type) where
  inner : σ
  calls : Array Call

namespace Traced

variable {σ : Type} [Builder σ]

instance : Builder (Traced σ) where
  error span b :=
    let (v, inner) := Builder.error span b.inner
    (v, ⟨inner, b.calls.push (.error v span)⟩)
  literal span value b :=
    let (v, inner) := Builder.literal span value b.inner
    (v, ⟨inner, b.calls.push (.literal v span)⟩)
  param span ty b :=
    let (v, inner) := Builder.param span ty b.inner
    (v, ⟨inner, b.calls.push (.param v span)⟩)
  lookup decl b :=
    let (v, inner) := Builder.lookup decl b.inner
    (v, ⟨inner, b.calls.push (.lookup decl v)⟩)
  bind decl value b := ⟨Builder.bind decl value b.inner, b.calls.push (.bind decl value)⟩
  build span op operands b :=
    let (v, inner) := Builder.build span op operands b.inner
    (v, ⟨inner, b.calls.push (.build v span)⟩)

end Traced

end ImpLang
