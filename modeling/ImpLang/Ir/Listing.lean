import ImpLang.Ir.Builder

/-!
The textual intermediate representation: one definition per value, in the order of their making, and
one line per definition.
-/

namespace ImpLang

def Op.text (names : Interner) : Op → String
  | tuple => "tuple"
  | sigma => "sigma"
  | pi => "pi"
  | lambda => "lambda"
  | app false => "app"
  | app true => "app!"
  | field symbol => "field ." ++ names.name symbol
  | extract index => "extract " ++ toString index
  | prefixed op => "prefix " ++ op.text
  | postfixed op => "postfix " ++ op.text
  | binary op => "infix " ++ op.text
  | block => "block"
  | branch => "if"
  | select => "match"
  | forLoop => "for"
  | whileLoop => "while"
  | pack => "pack"
  | variadic => "variadic"
  | qualifier value => "qualifier " ++ value.text
  | bottom => "bottom"
  | unknown => "unknown"

/-- How a value is made. -/
inductive Definition where
  | error
  | literal (value : Literal Symbol)
  | param (ty : Option Value)
  | operation (op : Op) (operands : List Value)
deriving DecidableEq, Repr

namespace Definition

/-- The values that a definition refers to. -/
def uses : Definition → List Value
  | error => []
  | literal _ => []
  | param ty => ty.toList
  | operation _ operands => operands

def text (names : Interner) : Definition → String
  | error => "error"
  | literal value => "literal " ++ (value.map names.name).print
  | param none => "param"
  | param (some ty) => "param : " ++ toString ty
  | operation op operands =>
    op.text names ++ String.join (operands.map fun value => " " ++ toString value)

end Definition

/-- The definition of a value, with the number that the value got when it was made. -/
structure Line where
  value : Value
  definition : Definition
deriving DecidableEq, Repr

def Line.text (names : Interner) (line : Line) : String :=
  toString line.value ++ " = " ++ line.definition.text names

/-- The lines written so far. A value is the number of its line, as far as 32 bits hold it. -/
structure Listing where
  entries : Array Line
  /-- The values of declarations, the latest first. -/
  bindings : List (DeclId × Value)

namespace Listing

def empty : Listing := ⟨#[], []⟩

/-- Write a line for the next value. -/
def push (listing : Listing) (definition : Definition) : Value × Listing :=
  let value := Value.ofNat listing.entries.size
  (value, { listing with entries := listing.entries.push ⟨value, definition⟩ })

@[simp] theorem size_entries_push (listing : Listing) (definition : Definition) :
    (listing.push definition).2.entries.size = listing.entries.size + 1 := by
  simp [push]

@[simp] theorem bindings_push (listing : Listing) (definition : Definition) :
    (listing.push definition).2.bindings = listing.bindings := rfl

instance : Builder Listing where
  error _ listing := listing.push .error
  literal _ value listing := listing.push (.literal value)
  param _ ty listing := listing.push (.param ty)
  lookup decl listing := (listing.bindings.lookup decl, listing)
  bind decl value listing := { listing with bindings := (decl, value) :: listing.bindings }
  build _ op operands listing := listing.push (.operation op operands)

/-- What the lines define their values as. -/
def definitions (listing : Listing) : Array Definition := listing.entries.map Line.definition

@[simp] theorem definitions_empty : empty.definitions = #[] := Array.map_empty

@[simp] theorem definitions_push (listing : Listing) (definition : Definition) :
    (listing.push definition).2.definitions = listing.definitions.push definition := by
  simp [push, definitions]

/-- The lines as texts. -/
def lines (names : Interner) (listing : Listing) : List String :=
  listing.entries.toList.map (Line.text names)

/-- The lines as one text, with a line end behind the last even if there is none. -/
def text (names : Interner) (listing : Listing) : String :=
  String.intercalate "\n" (listing.lines names) ++ "\n"

end Listing

end ImpLang
