/-!
What the command line needs of the system it runs on.
-/

namespace ImpLang.Cli

/-- Why a request to the file system failed. -/
inductive FileError where
  | notFound
  | notADirectory
  | isADirectory
  | alreadyExists
  | nameTooLong
  | nulInPath
  | notUtf8
  | system (text : String) (code : Nat)
deriving DecidableEq, Repr

namespace FileError

def coded (text : String) (code : Nat) : String :=
  text ++ " (os error " ++ toString code ++ ")"

def message : FileError → String
  | notFound => coded "No such file or directory" 2
  | notADirectory => coded "Not a directory" 20
  | isADirectory => coded "Is a directory" 21
  | alreadyExists => coded "File exists" 17
  | nameTooLong => coded "File name too long" 36
  | nulInPath => "file name contained an unexpected NUL byte"
  | notUtf8 => "stream did not contain valid UTF-8"
  | system text code => coded text code

end FileError

/-- An entry of a directory. -/
structure DirEntry where
  name : String
  isDir : Bool
  isFile : Bool
deriving DecidableEq, Repr

class Host (m : Type → Type) where
  stdin : m (Except FileError ByteArray)
  isDir : String → m Bool
  /-- The entries of a directory in any order. -/
  entries : String → m (Except FileError (List DirEntry))
  read : String → m (Except FileError ByteArray)
  makeDir : String → m (Except FileError Unit)
  write : String → String → m (Except FileError Unit)
  putOut : String → m Unit
  putErr : String → m Unit

/-- Bytes as text. -/
def decode (bytes : ByteArray) : Except FileError String :=
  match String.fromUTF8? bytes with
  | some text => .ok text
  | none => .error .notUtf8

end ImpLang.Cli
