/-!
Annotations that a pass writes into a finished tree, each at most once.
-/

namespace ImpLang

/-- The answer to a write that would change a slot. -/
inductive SlotError where
  | alreadySet
deriving DecidableEq, Repr

def SlotError.message : SlotError → String
  | alreadySet => "annotation slot already holds a different value"

/-- A place for one annotation. A pass may write the same value again, so it can run twice over one
tree; any other value is refused. -/
structure Slot (α : Type) where
  get? : Option α
deriving DecidableEq, Repr

namespace Slot

variable {α : Type}

def unset : Slot α := ⟨none⟩

instance : Inhabited (Slot α) := ⟨unset⟩

def isSet (slot : Slot α) : Bool := slot.get?.isSome

def set [DecidableEq α] (slot : Slot α) (value : α) : Except SlotError (Slot α) :=
  match slot.get? with
  | none => .ok ⟨some value⟩
  | some current => if current = value then .ok slot else .error .alreadySet

theorem set_eq_ok_iff [DecidableEq α] {slot next : Slot α} {value : α} :
    slot.set value = .ok next ↔
      (slot.get? = none ∨ slot.get? = some value) ∧ next = ⟨some value⟩ := by
  obtain ⟨current⟩ := slot
  cases current with
  | none => simp [set, eq_comm]
  | some current =>
    by_cases h : current = value
    · subst h; simp [set, eq_comm]
    · simp [set, h]

end Slot

end ImpLang
