import ImpLang.Tree.Basic

/-!
What emission needs of an intermediate representation: ways to make values, and a table from
declarations to values.
-/

namespace ImpLang

/-- An operation on values. -/
inductive Op where
  | tuple
  | sigma
  | pi
  | lambda
  | app (cps : Bool)
  | field (symbol : Symbol)
  /-- A component of a tuple. -/
  | extract (index : UInt32)
  | prefixed (op : PrefixOp)
  | postfixed (op : PostfixOp)
  | binary (op : InfixOp)
  | block
  | branch
  | select
  | forLoop
  | whileLoop
  | pack
  | variadic
  | qualifier (value : Qualifier)
  | bottom
  | unknown
deriving DecidableEq, Repr

/-- A state in which values can be made. What a value is belongs to the builder alone. -/
class Builder (σ : Type) where
  /-- Stands for whatever an earlier pass could not make sense of. -/
  error : Span → σ → Value × σ
  literal : Span → Literal Symbol → σ → Value × σ
  /-- A new parameter, of a given type if one is written. -/
  param : Span → Option Value → σ → Value × σ
  lookup : DeclId → σ → Option Value × σ
  bind : DeclId → Value → σ → σ
  build : Span → Op → List Value → σ → Value × σ

namespace Builder

variable {σ : Type} [Builder σ]

/-- Make a number of untyped parameters. -/
def pad : Nat → σ → σ
  | 0, builder => builder
  | n + 1, builder => pad n (Builder.param default none builder).2

end Builder

end ImpLang
