import ImpLang.Compiler

/-!
Several compilers at work side by side, some of them with a name table in common, and the modules
they have made.
-/

namespace ImpLang

/-- A compiler and the number of its name table. Compilers with one number have one table. -/
structure Member where
  compiler : Compiler
  table : Nat
deriving Inhabited

structure Session where
  members : Array Member
  modules : Array Module
deriving Inhabited

namespace Session

def empty : Session := ⟨#[], #[]⟩

/-- Add a compiler, with a name table of its own or with that of another compiler. -/
def addCompiler? (session : Session) (share : Option Nat) (sink : Sink) :
    Option (Nat × Session) := do
  let n := session.members.size
  let member : Member ← match share with
    | none => some ⟨Compiler.withNames Interner.empty sink, n⟩
    | some other => do
      let member ← session.members[other]?
      some ⟨Compiler.withNames member.compiler.names sink, member.table⟩
  return (n, { session with members := session.members.push member })

def compiler? (session : Session) (i : Nat) : Option Compiler :=
  (session.members[i]?).map Member.compiler

/-- Put a compiler back in its place. Its name table goes to all compilers that share it, and with it
the symbols of the reserved words (`Lexicon.eq_of_names`). -/
def setCompiler (session : Session) (i : Nat) (compiler : Compiler) : Session :=
  match session.members[i]? with
  | none => session
  | some member =>
    let shareNames (other : Member) : Member :=
      if other.table = member.table then
        { other with compiler := other.compiler.adopt compiler.toLexicon }
      else other
    { session with
      members := (session.members.map shareNames).setIfInBounds i ⟨compiler, member.table⟩ }

def module? (session : Session) (i : Nat) : Option Module := session.modules[i]?

def addModule (session : Session) (module : Module) : Nat × Session :=
  (session.modules.size, { session with modules := session.modules.push module })

def setModule (session : Session) (i : Nat) (module : Module) : Session :=
  { session with modules := session.modules.setIfInBounds i module }

/-- The counts of all compilers together. -/
def totals (session : Session) : DiagnosticCounts :=
  session.members.foldl (fun counts member => counts.merge member.compiler.counts)
    DiagnosticCounts.zero

end Session

end ImpLang
