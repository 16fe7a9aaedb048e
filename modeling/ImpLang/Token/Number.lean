import ImpLang.Token.Lexeme

/-!
Number literals: decimal integers and floats, integers with a base prefix, and type suffixes.
Underscores may stand between digits and count for nothing.
-/

namespace ImpLang

namespace Number

/-- The value of a digit, letters counting from ten. -/
def digitValue (c : Char) : Nat :=
  if c.isDigit then c.toNat - 48
  else if 'a' ≤ c ∧ c ≤ 'z' then c.toNat - 87
  else if 'A' ≤ c ∧ c ≤ 'Z' then c.toNat - 55
  else 36

def isDigitOf (radix : Nat) (c : Char) : Bool := digitValue c < radix

/-- A digit or the separator. -/
def isNumeral (radix : Nat) (c : Char) : Bool := isDigitOf radix c || c == '_'

def digitsOf (text : List Char) : List Char := text.filter (· != '_')

/-- The positional value of a sequence of digits. -/
def value (radix : Nat) (digits : List Char) : Nat :=
  digits.foldl (fun n c => n * radix + digitValue c) 0

/-- The value as a word of 64 bits, if it is small enough. -/
def word? (radix : Nat) (digits : List Char) : Option UInt64 :=
  let n := value radix digits
  if h : n < UInt64.size then some (UInt64.ofNatLT n h) else none

/-- The base that a letter behind a leading zero stands for. -/
def radix? : Char → Option Nat
  | 'x' | 'X' => some 16
  | 'o' | 'O' => some 8
  | 'b' | 'B' => some 2
  | _ => none

/-- The suffix directly behind the digits. -/
def suffix (text : List Char) : List Char :=
  match text with
  | c :: _ => if isIdentStart c then text.takeWhile isIdentContinue else []
  | [] => []

/-- The kind that a suffix gives to a number, and what is wrong with it. A float takes float
suffixes only; a wrong suffix is dropped. -/
def kindOf (isFloat : Bool) (suffix : List Char) : NumKind × Option LexError :=
  if suffix = [] then (.untyped, none)
  else
    let name := String.ofList suffix
    match NumKind.ofSuffix? name with
    | some kind =>
      if isFloat && !kind.isFloat then (.untyped, some (.integerSuffixOnFloat name))
      else (kind, none)
    | none => (.untyped, some (.invalidSuffix name))

/-- A point with the digits behind it, of which there has to be one. -/
def fraction (text : List Char) : List Char :=
  match text with
  | '.' :: d :: rest => if d.isDigit then '.' :: (d :: rest).takeWhile (isNumeral 10) else []
  | _ => []

/-- The mark of an exponent with its sign and digits, of which there has to be one. -/
def exponent (text : List Char) : List Char :=
  match text with
  | e :: d :: rest =>
    if e = 'e' ∨ e = 'E' then
      if d.isDigit then e :: (d :: rest).takeWhile (isNumeral 10)
      else if d = '+' ∨ d = '-' then
        match rest with
        | x :: _ => if x.isDigit then e :: d :: rest.takeWhile (isNumeral 10) else []
        | [] => []
      else []
    else []
  | _ => []

/-- The number that an exponent denotes. -/
def exponentValue (text : List Char) : Int :=
  match text with
  | _ :: '-' :: digits => -(value 10 (digitsOf digits) : Int)
  | _ :: '+' :: digits => value 10 (digitsOf digits)
  | _ :: digits => value 10 (digitsOf digits)
  | [] => 0

/-- The binary64 number nearest to a decimal one. -/
def float (whole fraction exponent : List Char) : Binary64 :=
  let places := digitsOf fraction.tail
  Binary64.ofDecimal (value 10 (digitsOf whole ++ places)) (exponentValue exponent - places.length)

def faultOf (size : Nat) : Option LexError → List Fault
  | some error => [⟨error, 0, size⟩]
  | none => []

/-- A number with a base prefix. Its digits are judged before its suffix is read. -/
def basedLexeme (radix : Nat) (text : List Char) : Lexeme :=
  let numerals := (text.drop 2).takeWhile (isNumeral radix)
  let digits := digitsOf numerals
  let size := numerals.length + 2
  let word := word? radix digits
  let digitError : Option LexError :=
    if digits = [] then some .missingDigits
    else if word = none then some .integerTooLarge
    else none
  let value := word.getD 0
  let suffix := suffix (text.drop size)
  let (kind, suffixError) := kindOf false suffix
  let literal : Literal String :=
    if kind.isFloat then .float (Binary64.ofNat value.toNat) kind else .int value kind
  { kind := .literal
    size := size + suffix.length
    payload := .literal literal
    faults := faultOf size digitError ++ faultOf (size + suffix.length) suffixError }

/-- A decimal number: a float if it has a fraction, an exponent or a float suffix. Its suffix is
judged before its digits. -/
def decimalLexeme (text : List Char) : Lexeme :=
  let whole := text.takeWhile (isNumeral 10)
  let fraction := fraction (text.drop whole.length)
  let exponent := exponent (text.drop (whole.length + fraction.length))
  let isFloat := fraction != [] || exponent != []
  let size := whole.length + fraction.length + exponent.length
  let suffix := suffix (text.drop size)
  let (kind, suffixError) := kindOf isFloat suffix
  let faults := faultOf (size + suffix.length) suffixError
  if isFloat || kind.isFloat then
    { kind := .literal
      size := size + suffix.length
      payload := .literal (.float (float whole fraction exponent) kind)
      faults := faults }
  else
    let word := word? 10 (digitsOf whole)
    let digitError : Option LexError := if word = none then some .integerTooLarge else none
    { kind := .literal
      size := size + suffix.length
      payload := .literal (.int (word.getD 0) kind)
      faults := faults ++ faultOf (size + suffix.length) digitError }

/-- The number at the front of a text that begins with a digit. -/
def lexeme (text : List Char) : Lexeme :=
  match text with
  | '0' :: x :: _ =>
    match radix? x with
    | some radix => basedLexeme radix text
    | none => decimalLexeme text
  | _ => decimalLexeme text

end Number

end ImpLang
