/-!
Operators, their binding strengths, and the substructural qualifiers.
-/

namespace ImpLang

/-- Binding strengths, weakest first. -/
inductive Prec where
  | bottom
  | assign
  | orOr
  | andAnd
  | rel
  | or
  | xor
  | and
  | shift
  | add
  | mul
  | prefixed
  | postfixed
deriving DecidableEq, Repr, Inhabited

namespace Prec

/-- Strengths are compared by their place in the order. -/
def rank : Prec → Nat
  | bottom => 0
  | assign => 1
  | orOr => 2
  | andAnd => 3
  | rel => 4
  | or => 5
  | xor => 6
  | and => 7
  | shift => 8
  | add => 9
  | mul => 10
  | prefixed => 11
  | postfixed => 12

instance : LE Prec := ⟨fun a b => a.rank ≤ b.rank⟩
instance : LT Prec := ⟨fun a b => a.rank < b.rank⟩
instance (a b : Prec) : Decidable (a ≤ b) := inferInstanceAs (Decidable (a.rank ≤ b.rank))
instance (a b : Prec) : Decidable (a < b) := inferInstanceAs (Decidable (a.rank < b.rank))

/-- The next stronger level; nothing is stronger than a postfix operator. -/
def next : Prec → Prec
  | bottom => assign
  | assign => orOr
  | orOr => andAnd
  | andAnd => rel
  | rel => or
  | or => xor
  | xor => and
  | and => shift
  | shift => add
  | add => mul
  | mul => prefixed
  | prefixed => postfixed
  | postfixed => postfixed

/-- The first `n` levels from a given one upwards. -/
def chain (p : Prec) : Nat → List Prec
  | 0 => []
  | n + 1 => p :: chain p.next n

end Prec

inductive PrefixOp where
  | inc
  | dec
  | plus
  | minus
  | not
  | tilde
  | ref
  | deref
deriving DecidableEq, Repr, Inhabited

namespace PrefixOp

def text : PrefixOp → String
  | inc => "++"
  | dec => "--"
  | plus => "+"
  | minus => "-"
  | not => "!"
  | tilde => "~"
  | ref => "&"
  | deref => "*"

end PrefixOp

inductive PostfixOp where
  | inc
  | dec
deriving DecidableEq, Repr, Inhabited

namespace PostfixOp

def text : PostfixOp → String
  | inc => "++"
  | dec => "--"

end PostfixOp

inductive InfixOp where
  | assign
  | addAssign
  | subAssign
  | mulAssign
  | divAssign
  | remAssign
  | andAssign
  | orAssign
  | xorAssign
  | shlAssign
  | shrAssign
  | orOr
  | andAnd
  | eq
  | ne
  | lt
  | le
  | gt
  | ge
  | or
  | xor
  | and
  | shl
  | shr
  | add
  | sub
  | mul
  | div
  | rem
deriving DecidableEq, Repr, Inhabited

namespace InfixOp

def prec : InfixOp → Prec
  | assign | addAssign | subAssign | mulAssign | divAssign | remAssign | andAssign | orAssign
  | xorAssign | shlAssign | shrAssign => .assign
  | orOr => .orOr
  | andAnd => .andAnd
  | eq | ne | lt | le | gt | ge => .rel
  | or => .or
  | xor => .xor
  | and => .and
  | shl | shr => .shift
  | add | sub => .add
  | mul | div | rem => .mul

/-- Only assignments group to the right. -/
def isRightAssoc (op : InfixOp) : Bool := op.prec == .assign

/-- The least strength an operator accepts in its right operand. -/
def rightLevel (op : InfixOp) : Prec :=
  if op.isRightAssoc then op.prec else op.prec.next

def text : InfixOp → String
  | assign => "="
  | addAssign => "+="
  | subAssign => "-="
  | mulAssign => "*="
  | divAssign => "/="
  | remAssign => "%="
  | andAssign => "&="
  | orAssign => "|="
  | xorAssign => "^="
  | shlAssign => "<<="
  | shrAssign => ">>="
  | orOr => "||"
  | andAnd => "&&"
  | eq => "=="
  | ne => "!="
  | lt => "<"
  | le => "<="
  | gt => ">"
  | ge => ">="
  | or => "|"
  | xor => "^"
  | and => "&"
  | shl => "<<"
  | shr => ">>"
  | add => "+"
  | sub => "-"
  | mul => "*"
  | div => "/"
  | rem => "%"

end InfixOp

/-- How often a value may be used. -/
inductive Qualifier where
  | unlimited
  | relevant
  | affine
  | linear
deriving DecidableEq, Repr, Inhabited

namespace Qualifier

def text : Qualifier → String
  | unlimited => "ᵁ"
  | relevant => "ᴿ"
  | affine => "ᴬ"
  | linear => "ᴸ"

end Qualifier

end ImpLang
