import ImpLang.Tree.Basic

/-!
Edits of the top-level statements of a module. Declarations and annotations stay as they are.
-/

namespace ImpLang

namespace Module

/-- Exchange two statements; none if one of them does not exist. -/
def swap? (module : Module) (i j : Nat) : Option Module := do
  let first ← module.stmnts[i]?
  let second ← module.stmnts[j]?
  return { module with stmnts := (module.stmnts.set i second).set j first }

/-- Take a statement out; none if it does not exist. -/
def remove? (module : Module) (i : Nat) : Option Module :=
  if i < module.stmnts.length then some { module with stmnts := module.stmnts.eraseIdx i }
  else none

/-- Set the mark that names have been resolved. -/
def setBound (module : Module) (bound : Bool) : Module := { module with bound := bound }

end Module

end ImpLang
