import ImpLang.Token.Number

/-!
Character and string literals and the escapes in them.
-/

namespace ImpLang

namespace Quote

/-- The character with a code point in hexadecimal digits, if there is one. -/
def codePoint? (digits : List Char) : Option Char :=
  let n := Number.value 16 digits
  if digits ≠ [] ∧ n.isValidChar then some (Char.ofNat n) else none

/-- The character that an escape denotes, if it is valid, and the number of characters that belong
to it behind the backslash. -/
def escape (text : List Char) : Option Char × Nat :=
  match text with
  | [] => (none, 0)
  | 'n' :: _ => (some '\n', 1)
  | 't' :: _ => (some '\t', 1)
  | 'r' :: _ => (some '\r', 1)
  | '0' :: _ => (some '\x00', 1)
  | '\\' :: _ => (some '\\', 1)
  | '\'' :: _ => (some '\'', 1)
  | '"' :: _ => (some '"', 1)
  | 'u' :: '\x7b' :: rest =>
    let digits := rest.takeWhile (Number.isDigitOf 16)
    if (rest.drop digits.length).head? = some '\x7d' then (codePoint? digits, digits.length + 3)
    else (none, digits.length + 2)
  | _ => (none, 1)

/-- The report of an invalid escape whose backslash is the character `n` of its lexeme. -/
def escapeFaults (n : Nat) (decoded : Option Char × Nat) : List Fault :=
  if decoded.1 = none then [⟨.invalidEscape, n, n + 1 + decoded.2⟩] else []

/-- What the quotes of a string enclose, and the size of its lexeme. -/
structure Body where
  chars : List Char
  size : Nat
  faults : List Fault
deriving DecidableEq, Repr

/-- Read on in a string, of which `n` characters have been read. The next `skip` characters belong
to an escape that is decoded already. A string ends in front of a newline at the latest. -/
def body : (skip n : Nat) → List Char → Body
  | _, n, [] => ⟨[], n, [⟨.unterminatedString, 0, 1⟩]⟩
  | skip + 1, n, _ :: rest => body skip (n + 1) rest
  | 0, n, c :: rest =>
    if c = '"' then ⟨[], n + 1, []⟩
    else if c = '\n' then ⟨[], n, [⟨.unterminatedString, 0, 1⟩]⟩
    else if c = '\\' then
      let decoded := escape rest
      let tail := body decoded.2 (n + 1) rest
      { tail with
        chars := decoded.1.toList ++ tail.chars
        faults := escapeFaults n decoded ++ tail.faults }
    else
      let tail := body 0 (n + 1) rest
      { tail with chars := c :: tail.chars }

/-- The string literal at the front of a text that begins with a double quote. -/
def stringLexeme (text : List Char) : Lexeme :=
  let body := body 0 1 text.tail
  ⟨.literal, body.size, .literal (.str (String.ofList body.chars)), body.faults⟩

/-- The first character between single quotes, if there is a valid one, the number of characters
that spell it, and what is wrong with them. -/
def content (text : List Char) : Option Char × Nat × List Fault :=
  match text with
  | '\\' :: rest =>
    let decoded := escape rest
    (decoded.1, decoded.2 + 1, escapeFaults 1 decoded)
  | c :: _ => if c = '\n' then (none, 0, []) else (some c, 1, [])
  | [] => (none, 0, [])

/-- The character literal at the front of a text that begins with a single quote. Whatever follows
its first character up to the closing quote or the end of the line is skipped. -/
def charLexeme (text : List Char) : Lexeme :=
  let rest := text.tail
  if rest.head? = some '\'' then
    ⟨.literal, 2, .literal (.char '\x00'), [⟨.emptyChar, 0, 2⟩]⟩
  else
    let (value, size, faults) := content rest
    let payload := Payload.literal (.char (value.getD '\x00'))
    let behind := rest.drop size
    if behind.head? = some '\'' then ⟨.literal, size + 2, payload, faults⟩
    else
      let excess := behind.takeWhile fun c => c != '\'' && c != '\n'
      let size := size + excess.length
      if (rest.drop size).head? = some '\'' then
        ⟨.literal, size + 2, payload, faults ++ [⟨.longChar, 0, size + 2⟩]⟩
      else ⟨.literal, size + 1, payload, faults ++ [⟨.unterminatedChar, 0, 1⟩]⟩

end Quote

end ImpLang
