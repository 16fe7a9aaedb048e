/-!
Characters spelled with printable ASCII only, as they stand in character and string literals.
-/

namespace ImpLang.Text

/-- A code point in hexadecimal between braces. -/
def codePointEscape (c : Char) : List Char :=
  '\\' :: 'u' :: '\x7b' :: (Nat.toDigits 16 c.toNat ++ ['\x7d'])

/-- Tabs, line ends, quotes and backslashes have escapes of two characters, other printable ASCII
stands for itself, and all else is written by its code point. -/
def escape (c : Char) : List Char :=
  match c with
  | '\t' => ['\\', 't']
  | '\r' => ['\\', 'r']
  | '\n' => ['\\', 'n']
  | '\'' => ['\\', '\'']
  | '"' => ['\\', '"']
  | '\\' => ['\\', '\\']
  | c => if 32 ≤ c.toNat ∧ c.toNat ≤ 126 then [c] else codePointEscape c

end ImpLang.Text
