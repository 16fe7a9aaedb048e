import ImpLang.Token.Fault
import ImpLang.Text.WhiteSpace

/-!
The text between tokens: white space, comments up to the end of a line, and block comments, which
nest.
-/

namespace ImpLang

/-- What a gap is made of at one of its characters. A block comment remembers where the outermost
one opened and how many others are open inside it. -/
inductive GapPart where
  | blank
  | line
  | block (opening depth : Nat)
deriving DecidableEq, Repr

/-- The number of characters between tokens at the front of a text, and where a block comment opens
that the text does not close. -/
structure Gap where
  size : Nat
  unclosed : Option Nat
deriving DecidableEq, Repr

namespace Gap

/-- Read on in a gap, of which `n` characters have been read. -/
def scanFrom : GapPart → Nat → List Char → Gap
  | .blank, n, '/' :: '/' :: text => scanFrom .line (n + 2) text
  | .blank, n, '/' :: '*' :: text => scanFrom (.block n 0) (n + 2) text
  | .blank, n, c :: text => if Text.isWhiteSpace c then scanFrom .blank (n + 1) text else ⟨n, none⟩
  | .blank, n, [] => ⟨n, none⟩
  | .line, n, c :: text => scanFrom (if c = '\n' then .blank else .line) (n + 1) text
  | .line, n, [] => ⟨n, none⟩
  | .block opening depth, n, '/' :: '*' :: text =>
    scanFrom (.block opening (depth + 1)) (n + 2) text
  | .block _ 0, n, '*' :: '/' :: text => scanFrom .blank (n + 2) text
  | .block opening (depth + 1), n, '*' :: '/' :: text =>
    scanFrom (.block opening depth) (n + 2) text
  | .block opening depth, n, _ :: text => scanFrom (.block opening depth) (n + 1) text
  | .block opening _, n, [] => ⟨n, some opening⟩

/-- The gap at the front of a text. -/
def scan (text : List Char) : Gap := scanFrom .blank 0 text

/-- An open block comment is reported at its two opening characters. -/
def faults (gap : Gap) : List Fault :=
  match gap.unclosed with
  | some opening => [⟨.unterminatedComment, opening, opening + 2⟩]
  | none => []

end Gap

end ImpLang
