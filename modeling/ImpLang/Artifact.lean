import ImpLang.Compiler

/-!
The result of compiling one source with a compiler of its own.
-/

namespace ImpLang

/-- Why a unit has no usable result. -/
inductive UnitError where
  | sourceFile (path cause : String)
  | aborted (unit : String) (errors : Nat)
deriving DecidableEq, Repr

def UnitError.message : UnitError → String
  | sourceFile path cause => "failed to read " ++ path ++ ": " ++ cause
  | aborted unit errors =>
    "compilation of " ++ unit ++ " failed with " ++ toString errors ++ " error(s)"

structure Artifact where
  module : Module
  diagnostics : List Diagnostic
  rendered : List String
  counts : DiagnosticCounts
  names : Interner

namespace Artifact

/-- Compile a source from scratch. -/
def compile (name source : String) : Artifact :=
  let (module, c) := Compiler.new.compile name source
  { module := module
    diagnostics := c.diagnostics.toList
    rendered := c.rendered
    counts := c.counts
    names := c.names }

/-- An artifact with errors is refused on behalf of a unit. -/
def intoResult (artifact : Artifact) (unit : String) : Except UnitError Artifact :=
  if artifact.counts.hasErrors then .error (.aborted unit artifact.counts.errors)
  else .ok artifact

end Artifact

end ImpLang
