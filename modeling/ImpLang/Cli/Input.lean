import ImpLang.Artifact
import ImpLang.Cli.Host

/-!
Source files as text.
-/

namespace ImpLang

namespace Cli

variable {m : Type → Type} [Monad m] [Host m]

/-- The text of a file, which has to be valid UTF-8. -/
def readText (path : String) : m (Except FileError String) := do
  let bytes : Except FileError ByteArray ← Host.read path
  return bytes.bind decode

/-- The text of the standard input. -/
def readStdin : m (Except FileError String) := do
  let bytes : Except FileError ByteArray ← Host.stdin
  return bytes.bind decode

end Cli

open Cli in
/-- Read a source file and resolve its names. -/
def Compiler.compileFile {m : Type → Type} [Monad m] [Host m] (c : Compiler) (path : String) :
    m (Except UnitError (Module × Compiler)) := do
  let text : Except FileError String ← readText path
  match text with
  | .ok source => return .ok (c.compile path source)
  | .error cause => return .error (.sourceFile path cause.message)

end ImpLang
