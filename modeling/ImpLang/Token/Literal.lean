import ImpLang.Decimal.Layout
import ImpLang.Text.Escape

/-!
Values of literals and their canonical text.
-/

namespace ImpLang

/-- Width and signedness of a number, left open by a literal without suffix. -/
inductive NumKind where
  | untyped
  | i8
  | i16
  | i32
  | i64
  | u8
  | u16
  | u32
  | u64
  | f32
  | f64
deriving DecidableEq, Repr, Inhabited

namespace NumKind

def suffix : NumKind → String
  | untyped => ""
  | i8 => "i8"
  | i16 => "i16"
  | i32 => "i32"
  | i64 => "i64"
  | u8 => "u8"
  | u16 => "u16"
  | u32 => "u32"
  | u64 => "u64"
  | f32 => "f32"
  | f64 => "f64"

/-- The kinds that have a suffix. -/
def typed : List NumKind := [i8, i16, i32, i64, u8, u16, u32, u64, f32, f64]

/-- The kind a suffix names. -/
def ofSuffix? : String → Option NumKind
  | "i8" => some i8
  | "i16" => some i16
  | "i32" => some i32
  | "i64" => some i64
  | "u8" => some u8
  | "u16" => some u16
  | "u32" => some u32
  | "u64" => some u64
  | "f32" => some f32
  | "f64" => some f64
  | _ => none

/-- A suffix names the kind that it is the suffix of. -/
theorem ofSuffix?_eq_some_iff {text : String} {kind : NumKind} :
    ofSuffix? text = some kind ↔ kind ∈ typed ∧ kind.suffix = text := by
  constructor
  · intro h
    unfold ofSuffix? at h
    split at h <;> cases h <;> exact ⟨by decide, rfl⟩
  · rintro ⟨htyped, rfl⟩
    cases kind with
    | untyped => exact absurd htyped (by decide)
    | i8 | i16 | i32 | i64 | u8 | u16 | u32 | u64 | f32 | f64 => rfl

def isFloat : NumKind → Bool
  | f32 | f64 => true
  | _ => false

end NumKind

/-- The value of a literal. Strings are of a type of choice: the text itself in a token, its symbol
in a tree. A float holds a binary64 number whatever its kind. -/
inductive Literal (α : Type) where
  | int (value : UInt64) (kind : NumKind)
  | float (value : Binary64) (kind : NumKind)
  | bool (value : Bool)
  | char (value : Char)
  | str (text : α)
deriving DecidableEq, Repr, Inhabited

namespace Literal

def map {α β : Type} (f : α → β) : Literal α → Literal β
  | int value kind => int value kind
  | float value kind => float value kind
  | bool value => bool value
  | char value => char value
  | str text => str (f text)

/-- Floats are positional from `1e-4` up to, but not including, `1e16`. -/
def floatLayout : Decimal.Layout := ⟨-3, 16⟩

/-- The canonical text of a literal: numbers in decimal with their suffix, characters and strings
between quotes with everything but printable ASCII escaped. -/
def print : Literal String → String
  | int value kind => toString value.toNat ++ kind.suffix
  | float value kind => String.ofList (floatLayout.write value) ++ kind.suffix
  | bool true => "true"
  | bool false => "false"
  | char value => String.ofList ('\'' :: (Text.escape value ++ ['\'']))
  | str text => String.ofList ('"' :: (text.toList.flatMap Text.escape ++ ['"']))

end Literal

end ImpLang
