import ImpLang.Diagnostic

/-!
What can be wrong with the names of a well-formed tree.
-/

namespace ImpLang

inductive ScopeError where
  | undeclared (name : String)
  | untyped (name : String)
  | rebound (name : String)
deriving DecidableEq, Repr

namespace ScopeError

def code : ScopeError → String
  | undeclared _ => "E0201"
  | untyped _ => "E0202"
  | rebound _ => "E0203"

def message : ScopeError → String
  | undeclared name => "use of undeclared identifier `" ++ name ++ "`"
  | untyped name => "type ascription required for `" ++ name ++ "`"
  | rebound name => "`" ++ name ++ "` is already bound to a different declaration"

def report (e : ScopeError) (span : Span) : Diagnostic :=
  ⟨.error, e.message, span, some e.code⟩

end ScopeError

end ImpLang
