/-!
Places in a source text and the ranges between them.

A place carries its byte offset together with its line and column, so the two can only move
together: `Place.past` reads a piece of text and gives the place behind it. A span is a file and
two places.

Lines and columns are counted in 32 bits and begin anew behind the last number. Offsets are numbers of
any size, as texts have any size; `Proofs/Span` and `Proofs/Parser/Words` show that what is found by
comparing them is found in 32 bits as long as the text has fewer than 2 ^ 32 bytes. The indices of
files, declarations and symbols are numbers of any size likewise.
-/

namespace ImpLang

/-- Index of a source file in the file table of a compiler, a number of any size. -/
structure FileId where
  index : Nat
deriving DecidableEq, Repr, Inhabited

/-- A number that is kept in 32 bits is kept modulo 2 ^ 32. -/
instance coeWord : Coe Nat UInt32 := ⟨UInt32.ofNat⟩

/-- A line and a column, both counted from one. Columns count characters. -/
structure Pos where
  line : UInt32
  col : UInt32
deriving DecidableEq, Repr

namespace Pos

/-- The first character of a text. -/
def first : Pos := ⟨1, 1⟩

instance : Inhabited Pos := ⟨first⟩

instance : ToString Pos := ⟨fun p => s!"{p.line}:{p.col}"⟩

/-- A newline starts the next line; any other character takes one column. -/
def advance (p : Pos) (c : Char) : Pos :=
  if c = '\n' then ⟨p.line + 1, 1⟩ else ⟨p.line, p.col + 1⟩

end Pos

/-- The bytes that a piece of text fills. -/
def byteSize : List Char → Nat
  | [] => 0
  | c :: text => c.utf8Size + byteSize text

/-- A byte offset into a text with the position of the character found there. -/
structure Place where
  offset : Nat
  pos : Pos
deriving DecidableEq, Repr

namespace Place

/-- Where every text begins. -/
def first : Place := ⟨0, Pos.first⟩

instance : Inhabited Place := ⟨first⟩

/-- The place behind a character read here. -/
def advance (p : Place) (c : Char) : Place :=
  ⟨p.offset + c.utf8Size, p.pos.advance c⟩

/-- The place behind a piece of text read here. -/
def past (p : Place) (text : List Char) : Place :=
  text.foldl advance p

@[simp] theorem past_nil (p : Place) : p.past [] = p := rfl

@[simp] theorem past_cons (p : Place) (c : Char) (text : List Char) :
    p.past (c :: text) = (p.advance c).past text := rfl

theorem past_append (p : Place) (a b : List Char) : p.past (a ++ b) = (p.past a).past b := by
  simp [past]

/-- The offset moves by the bytes of the text. -/
theorem offset_past (p : Place) (text : List Char) :
    (p.past text).offset = p.offset + byteSize text := by
  induction text generalizing p with
  | nil => rfl
  | cons c text ih =>
    rw [past_cons, ih, byteSize]
    show p.offset + c.utf8Size + byteSize text = _
    omega

end Place

/-- A half-open range of a source file. -/
structure Span where
  file : FileId
  start : Place
  stop : Place
deriving DecidableEq, Repr, Inhabited

namespace Span

instance : ToString Span := ⟨fun s => s!"{s.start.pos}-{s.stop.pos}"⟩

/-- The empty span at the beginning of a file. -/
def origin (file : FileId) : Span := ⟨file, Place.first, Place.first⟩

/-- The empty span at the end of a span. -/
def endPoint (s : Span) : Span := { s with start := s.stop }

/-- The least span from the earlier start to the later stop; an end that both share is taken
from the first span. -/
def cover (a b : Span) : Span where
  file := a.file
  start := if b.start.offset < a.start.offset then b.start else a.start
  stop := if a.stop.offset < b.stop.offset then b.stop else a.stop

/-- The cover of two spans of one file. Spans of different files have none. -/
def merge? (a b : Span) : Option Span :=
  if a.file = b.file then some (a.cover b) else none

def isEmpty (s : Span) : Bool := s.start.offset == s.stop.offset

end Span

/-- The front of a text that fills exactly `n` bytes, and what follows it. There is none if the
text is shorter or a character straddles the cut. -/
def splitBytes? : Nat → List Char → Option (List Char × List Char)
  | 0, text => some ([], text)
  | _ + 1, [] => none
  | n + 1, c :: text =>
    if c.utf8Size ≤ n + 1 then
      (splitBytes? (n + 1 - c.utf8Size) text).map fun cut => (c :: cut.1, cut.2)
    else none
termination_by structural _ text => text

/-- The characters a span covers: none when it leaves the text, runs backwards or cuts a
character. -/
def Span.chars (s : Span) (source : List Char) : List Char :=
  if s.start.offset ≤ s.stop.offset then
    match splitBytes? s.start.offset source with
    | some (_, rest) =>
      match splitBytes? (s.stop.offset - s.start.offset) rest with
      | some (text, _) => text
      | none => []
    | none => []
  else []

/-- The text a span covers. -/
def Span.text (s : Span) (source : String) : String :=
  String.ofList (s.chars source.toList)

end ImpLang
