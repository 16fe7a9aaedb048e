import ImpLang.Span
import ImpLang.Symbol

/-!
Declarations. A module keeps them in an arena, and a use of a name refers to its declaration by the
index there.
-/

namespace ImpLang

/-- An occurrence of an identifier. -/
structure Id where
  symbol : Symbol
  span : Span
deriving DecidableEq, Repr, Inhabited

/-- Index into the declarations of a module, a number of any size. -/
structure DeclId where
  index : Nat
deriving DecidableEq, Repr, Inhabited

inductive DeclKind where
  /-- Introduced by `def` or `fn` and visible in its whole scope. -/
  | item
  /-- Introduced by a pattern and visible behind it. -/
  | binding
  /-- Stands for the declaration that a name lacks. -/
  | error
deriving DecidableEq, Repr, Inhabited

def DeclKind.label : DeclKind → String
  | item => "item"
  | binding => "binding"
  | error => "error"

structure Decl where
  symbol : Symbol
  span : Span
  kind : DeclKind
deriving DecidableEq, Repr, Inhabited

def Decl.isError (decl : Decl) : Bool := decl.kind == .error

/-- The declarations of a module in the order of their making. -/
structure Decls where
  toArray : Array Decl
deriving DecidableEq, Repr

namespace Decls

def empty : Decls := ⟨#[]⟩

instance : Inhabited Decls := ⟨empty⟩

def size (decls : Decls) : Nat := decls.toArray.size

def get? (decls : Decls) (id : DeclId) : Option Decl := decls.toArray[id.index]?

def push (decls : Decls) (decl : Decl) : DeclId × Decls :=
  (⟨decls.toArray.size⟩, ⟨decls.toArray.push decl⟩)

@[simp] theorem size_push (decls : Decls) (decl : Decl) :
    (decls.push decl).2.size = decls.size + 1 := by
  simp [push, size]

theorem get?_push (decls : Decls) (decl : Decl) (id : DeclId) :
    (decls.push decl).2.get? id =
      if id = (decls.push decl).1 then some decl else decls.get? id := by
  obtain ⟨i⟩ := id
  simp [push, get?, Array.getElem?_push]

/-- Whether an index stands for a missing declaration. -/
def isError (decls : Decls) (id : DeclId) : Bool :=
  match decls.get? id with
  | some decl => decl.isError
  | none => false

def toList (decls : Decls) : List Decl := decls.toArray.toList

end Decls

end ImpLang
