/-!
Paths as texts: steps between slashes.
-/

namespace ImpLang.Cli

namespace Path

/-- The pieces of a path between its slashes. -/
def pieces (path : String) : List String := (path.splitOn "/")

def isAbsolute (path : String) : Bool := path.toList.head? == some '/'

/-- The steps a path takes. Empty pieces lead nowhere. -/
def steps (path : String) : List String := (pieces path).filter (· != "")

/-- Whether a path ends with a slash, as only the path of a directory may. -/
def wantsDirectory (path : String) : Bool := path.toList.getLast? == some '/'

/-- Whether the piece at an index names something: a dot does so at the start of a path only. -/
def isComponent (index : Nat) (piece : String) : Bool :=
  piece != "" && (piece != "." || index == 0)

/-- Drop the pieces at the end that name nothing. -/
def trim (pieces : List String) : List String :=
  ((pieces.zipIdx.reverse.dropWhile fun entry => !isComponent entry.2 entry.1).map (·.1)).reverse

/-- The path without its last component. The root has no parent, and a single component has the
empty one. -/
def parent? (path : String) : Option String :=
  match trim (pieces path) with
  | [] => if isAbsolute path then none else some ""
  | components =>
    match trim components.dropLast with
    | [] => some (if isAbsolute path then "/" else "")
    | rest => some (String.intercalate "/" rest)

def join (directory name : String) : String :=
  if directory.toList.getLast? = some '/' then directory ++ name else directory ++ "/" ++ name

/-- Whether a file name has an extension, which begins at the last dot. A dot at the start of the
name begins none. -/
def hasExtension (extension name : String) : Bool :=
  let (last, before) := name.toList.reverse.span (· != '.')
  match before with
  | '.' :: _ :: _ => String.ofList last.reverse == extension
  | _ => false

end Path

end ImpLang.Cli
