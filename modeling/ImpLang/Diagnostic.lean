import ImpLang.Span

/-!
What a pass reports about a source text, and the totals of such reports.
-/

namespace ImpLang

inductive Severity where
  | error
  | warning
  | note
deriving DecidableEq, Repr, Inhabited

namespace Severity

def label : Severity → String
  | error => "error"
  | warning => "warning"
  | note => "note"

end Severity

/-- One report. Problems found by the passes carry a stable code: `E00xx` for the lexer, `E01xx`
for the parser, `E02xx` for the binder. -/
structure Diagnostic where
  severity : Severity
  message : String
  span : Span
  code : Option String
deriving DecidableEq, Repr, Inhabited

namespace Diagnostic

def isError (d : Diagnostic) : Bool := d.severity == .error

/-- One line: file, place, severity with its code in brackets, message. -/
def render (file : String) (d : Diagnostic) : String :=
  let code := match d.code with
    | some code => "[" ++ code ++ "]"
    | none => ""
  file ++ ":" ++ toString d.span ++ ": " ++ d.severity.label ++ code ++ ": " ++ d.message

end Diagnostic

/-- Errors and warnings of one or more compilations. -/
structure DiagnosticCounts where
  errors : Nat
  warnings : Nat
deriving DecidableEq, Repr

namespace DiagnosticCounts

def zero : DiagnosticCounts := ⟨0, 0⟩

instance : Inhabited DiagnosticCounts := ⟨zero⟩

def merge (a b : DiagnosticCounts) : DiagnosticCounts :=
  ⟨a.errors + b.errors, a.warnings + b.warnings⟩

/-- Notes are not counted. -/
def add (counts : DiagnosticCounts) : Severity → DiagnosticCounts
  | .error => { counts with errors := counts.errors + 1 }
  | .warning => { counts with warnings := counts.warnings + 1 }
  | .note => counts

def hasErrors (counts : DiagnosticCounts) : Bool := 0 < counts.errors

/-- A number with its noun, which takes an `s` unless the number is one. -/
def counted (n : Nat) (noun : String) : String :=
  toString n ++ " " ++ noun ++ (if n = 1 then "" else "s")

instance : ToString DiagnosticCounts :=
  ⟨fun counts => counted counts.errors "error" ++ ", " ++ counted counts.warnings "warning"⟩

end DiagnosticCounts

end ImpLang
