import ImpLang.Text.Escape
import ImpLang.Text.Unprintable
import ImpLang.Text.GraphemeExtend

/-!
Texts between quotes for a reader: glyphs are kept, whatever would not show is escaped.
-/

namespace ImpLang.Text

/-- The halfwidth sound marks of kana extend a grapheme, but are letters with a cell of their
own. -/
def isHalfwidthMark (c : Char) : Bool := c == '\uff9e' || c == '\uff9f'

/-- The fillers of Hangul are letters without a glyph, which stand where a consonant or a vowel is
missing. -/
def isFiller (c : Char) : Bool :=
  ['\u115f', '\u1160', '\u3164', '\uffa0'].contains c

/-- Whether a character shows by itself. -/
def isVisible (c : Char) : Bool :=
  isPrintable c && !isFiller c && (!isGraphemeExtend c || isHalfwidthMark c)

/-- Line ends, tabs, NUL, double quotes and backslashes have escapes of two characters; marks that
attach to the character before them and characters without a glyph are written by code point. -/
def showChar (c : Char) : List Char :=
  match c with
  | '\x00' => ['\\', '0']
  | '\t' => ['\\', 't']
  | '\r' => ['\\', 'r']
  | '\n' => ['\\', 'n']
  | '"' => ['\\', '"']
  | '\\' => ['\\', '\\']
  | c => if isVisible c then [c] else codePointEscape c

/-- A text between double quotes. -/
def quoted (text : String) : String :=
  String.ofList ('"' :: (text.toList.flatMap showChar ++ ['"']))

end ImpLang.Text
