import ImpLang.Ir.Builder

/-!
Emission of a module through a builder.

Emission decides the order of evaluation and what each declaration is bound to. The items of a list
of statements are bound to parameters first, so that earlier uses find something, and each is bound
to its value when that is made; the value also goes into the item's slot, at once. A slot that
refuses its value stops the emission, and the values written up to then stay in the tree.
-/

namespace ImpLang

/-- A kind of computation in which a builder can be asked. -/
class Asks (σ : outParam Type) (m : Type → Type) where
  ask {α : Type} : (σ → α × σ) → m α

export Asks (ask)

instance {σ : Type} : Asks σ (StateM σ) := ⟨fun request => request⟩

/-! ## Requests -/

namespace Emitter

section Requests

variable {σ : Type} [Builder σ] {m : Type → Type} [Monad m] [Asks σ m]

def error (span : Span) : m Value := ask (Builder.error span)

def build (span : Span) (op : Op) (operands : List Value) : m Value :=
  ask (Builder.build span op operands)

def bind (decl : DeclId) (value : Value) : m Unit :=
  ask fun builder => ((), Builder.bind decl value builder)

/-- The value of a name: an error unless it has a declaration and that has a value. -/
def use (decls : Decls) (span : Span) (slot : Slot DeclId) : m Value := do
  match slot.get? with
  | some decl =>
    if decls.isError decl then error span
    else
      match ← ask (Builder.lookup decl) with
      | some value => return value
      | none => error span
  | none => error span

mutual

/-- Bind the names of a pattern to a value or to its components. -/
def destructure (ptrn : Ptrn) (value : Value) : m Unit :=
  match ptrn with
  | .name _ _ decl _ _ => bind decl value
  | .tuple _ elems _ _ => extract 0 elems value
  | .error _ => return ()

/-- Bind patterns to the components of a value from an index on. -/
def extract (index : Nat) (elems : List Ptrn) (value : Value) : m Unit :=
  match elems with
  | [] => return ()
  | elem :: elems => do
    let part ← build elem.span (.extract index) [value]
    destructure elem part
    extract (index + 1) elems value

end

/-- Bind the items of a list of statements to parameters. -/
def placeholders : List Stmnt → m Unit
  | [] => return ()
  | .item item :: stmnts => do
    let value ← ask (Builder.param item.span none)
    bind item.decl value
    placeholders stmnts
  | _ :: stmnts => placeholders stmnts

/-- A parameter with the names of its pattern. -/
def parameter (ptrn : Ptrn) (ty : Option Value) : m Value := do
  let value ← ask (Builder.param ptrn.span ty)
  destructure ptrn value
  return value

end Requests

/-! ## Writing -/

/-- What a step of an emission leaves: its answer or the reason why the emission stops, its part of
the tree with the values that have been written into it, and the builder. -/
structure Left (σ τ α : Type) where
  answer : Except SlotError α
  part : τ
  builder : σ

/-- A step of an emission, which writes into its part of the tree. -/
def Step (σ τ α : Type) : Type := σ → Left σ τ α

namespace Step

variable {σ τ υ α β : Type}

def done (part : τ) (a : α) : Step σ τ α := fun builder => ⟨.ok a, part, builder⟩

/-- A request, with nothing to write. -/
def asks (part : τ) (request : StateM σ α) : Step σ τ α := fun builder =>
  let (answer, builder) := request builder
  ⟨.ok answer, part, builder⟩

/-- A step behind a request. -/
def behind (request : StateM σ α) (step : α → Step σ τ β) : Step σ τ β := fun builder =>
  let (answer, builder) := request builder
  step answer builder

/-- A step and then a request with its answer. -/
def andAsk (step : Step σ τ α) (request : α → StateM σ β) : Step σ τ β := fun builder =>
  let left := step builder
  match left.answer with
  | .ok a =>
    let (answer, builder) := request a left.builder
    ⟨.ok answer, left.part, builder⟩
  | .error e => ⟨.error e, left.part, left.builder⟩

/-- A step and then one with another part, which stays as it is if the first step fails. -/
def both (first : Step σ τ α) (part : υ) (second : α → Step σ υ β) : Step σ (τ × υ) β :=
  fun builder =>
    let left := first builder
    match left.answer with
    | .ok a =>
      let next := second a left.builder
      ⟨next.answer, (left.part, next.part), next.builder⟩
    | .error e => ⟨.error e, (left.part, part), left.builder⟩

/-- Put the part of a step where it belongs. -/
def within (place : τ → υ) (step : Step σ τ α) : Step σ υ α := fun builder =>
  let left := step builder
  ⟨left.answer, place left.part, left.builder⟩

end Step

open Step

variable {σ : Type} [Builder σ]

/-- Bind an item to its value and write this into the item's slot. -/
def assign (decl : DeclId) (slot : Slot Value) (value : Value) : Step σ (Slot Value) Value :=
  fun builder =>
    let builder := Builder.bind decl value builder
    match slot.set value with
    | .ok slot => ⟨.ok value, slot, builder⟩
    | .error e => ⟨.error e, slot, builder⟩

variable (decls : Decls)

mutual

def lowerExpr : Expr → Step σ Expr Value
  | .name span id slot => asks (.name span id slot) (use decls span slot)
  | .literal span value => asks (.literal span value) (ask (Builder.literal span value))
  | .tuple span elems =>
    within (fun elems => .tuple span elems) <|
      (lowerElems elems).andAsk fun values => build span .tuple values
  | .sigma span elems =>
    within (fun elems => .sigma span elems) <|
      (lowerParams elems).andAsk fun values => build span .sigma values
  | .pi span domain codomain =>
    within (fun (domain, codomain) => .pi span domain codomain) <|
      (lowerParam domain).both codomain fun d =>
      (lowerExpr codomain).andAsk fun c => build span .pi [d, c]
  | .lambda span domain codomain body =>
    within (fun (domain, codomain, body) => .lambda span domain codomain body) <|
      (lowerParam domain).both (codomain, body) fun d =>
      (lowerExpr codomain).both body fun c =>
      (lowerExpr body).andAsk fun b => build span .lambda [d, c, b]
  | .app span callee arg cps =>
    within (fun (callee, arg) => .app span callee arg cps) <|
      (lowerExpr callee).both arg fun f =>
      (lowerExpr arg).andAsk fun a => build span (.app cps) [f, a]
  | .field span value id =>
    within (fun value => .field span value id) <|
      (lowerExpr value).andAsk fun v => build span (.field id.symbol) [v]
  | .prefixed span op operand =>
    within (fun operand => .prefixed span op operand) <|
      (lowerExpr operand).andAsk fun v => build span (.prefixed op) [v]
  | .postfixed span operand op =>
    within (fun operand => .postfixed span operand op) <|
      (lowerExpr operand).andAsk fun v => build span (.postfixed op) [v]
  | .binary span left op right =>
    within (fun (left, right) => .binary span left op right) <|
      (lowerExpr left).both right fun l =>
      (lowerExpr right).andAsk fun r => build span (.binary op) [l, r]
  | .block span stmnts value =>
    within (fun (stmnts, value) => .block span stmnts value) <|
      behind (placeholders stmnts) fun _ =>
      (lowerStmnts stmnts).both value fun values =>
      (lowerExpr value).andAsk fun v => build span .block (values ++ [v])
  | .branch span cond yes no =>
    within (fun (cond, yes, no) => .branch span cond yes no) <|
      (lowerExpr cond).both (yes, no) fun c =>
      (lowerExpr yes).both no fun y =>
      (lowerExpr no).andAsk fun n => build span .branch [c, y, n]
  | .select span scrutinee arms =>
    within (fun (scrutinee, arms) => .select span scrutinee arms) <|
      (lowerExpr scrutinee).both arms fun v =>
      (lowerArms v arms).andAsk fun values => build span .select (v :: values)
  | .forLoop span ptrn iter body =>
    within (fun (iter, ptrn, body) => .forLoop span ptrn iter body) <|
      (lowerExpr iter).both (ptrn, body) fun i =>
      (lowerParam ptrn).both body fun p =>
      (lowerExpr body).andAsk fun b => build span .forLoop [i, p, b]
  | .whileLoop span cond body =>
    within (fun (cond, body) => .whileLoop span cond body) <|
      (lowerExpr cond).both body fun c =>
      (lowerExpr body).andAsk fun b => build span .whileLoop [c, b]
  | .pack span domain body =>
    within (fun (domain, body) => .pack span domain body) <|
      (lowerParam domain).both body fun d =>
      (lowerExpr body).andAsk fun b => build span .pack [d, b]
  | .variadic span domain body =>
    within (fun (domain, body) => .variadic span domain body) <|
      (lowerParam domain).both body fun d =>
      (lowerExpr body).andAsk fun b => build span .variadic [d, b]
  | .qualifier span value => asks (.qualifier span value) (build span (.qualifier value) [])
  | .bottom span => asks (.bottom span) (build span .bottom [])
  | .unknown span => asks (.unknown span) (build span .unknown [])
  | .error span => asks (.error span) (error span)

def lowerExpr? : Option Expr → Step σ (Option Expr) (Option Value)
  | none => done none none
  | some expr => within some <| (lowerExpr expr).andAsk fun value => return some value

/-- The type of a pattern, then a parameter for it. Ascriptions inside a tuple are not emitted. -/
def lowerParam : Ptrn → Step σ Ptrn Value
  | .name span id decl ty typed =>
    within (fun ty => .name span id decl ty typed) <|
      (lowerExpr? ty).andAsk fun value => parameter (.name span id decl ty typed) value
  | .tuple span elems ty typed =>
    within (fun ty => .tuple span elems ty typed) <|
      (lowerExpr? ty).andAsk fun value => parameter (.tuple span elems ty typed) value
  | .error span => asks (.error span) (parameter (.error span) none)

def lowerParams : List Ptrn → Step σ (List Ptrn) (List Value)
  | [] => done [] []
  | ptrn :: ptrns =>
    within (fun (ptrn, ptrns) => ptrn :: ptrns) <|
      (lowerParam ptrn).both ptrns fun value =>
      (lowerParams ptrns).andAsk fun values => return value :: values

def lowerElems : List Elem → Step σ (List Elem) (List Value)
  | [] => done [] []
  | ⟨id, expr⟩ :: elems =>
    within (fun (expr, elems) => ⟨id, expr⟩ :: elems) <|
      (lowerExpr expr).both elems fun value =>
      (lowerElems elems).andAsk fun values => return value :: values

/-- Every case takes the value of the scrutinee apart before its body is emitted. -/
def lowerArms (scrutinee : Value) : List Arm → Step σ (List Arm) (List Value)
  | [] => done [] []
  | ⟨span, ptrn, body⟩ :: arms =>
    within (fun (body, arms) => ⟨span, ptrn, body⟩ :: arms) <|
      behind (destructure ptrn scrutinee) fun _ =>
      (lowerExpr body).both arms fun value =>
      (lowerArms scrutinee arms).andAsk fun values => return value :: values

def lowerStmnt : Stmnt → Step σ Stmnt Value
  | .expr span expr => within (fun expr => .expr span expr) (lowerExpr expr)
  | .bind span ptrn init =>
    within (fun init => .bind span ptrn init) <|
      (lowerExpr init).andAsk fun value => do
        destructure ptrn value
        return value
  | .item ⟨span, id, expr, decl, slot⟩ =>
    within (fun (expr, slot) => .item ⟨span, id, expr, decl, slot⟩) <|
      (lowerExpr expr).both slot fun value => assign decl slot value

def lowerStmnts : List Stmnt → Step σ (List Stmnt) (List Value)
  | [] => done [] []
  | stmnt :: stmnts =>
    within (fun (stmnt, stmnts) => stmnt :: stmnts) <|
      (lowerStmnt stmnt).both stmnts fun value =>
      (lowerStmnts stmnts).andAsk fun values => return value :: values

end

/-- The statements of a module. -/
def lowerModule (stmnts : List Stmnt) : Step σ (List Stmnt) (List Value) :=
  behind (placeholders stmnts) fun _ => lowerStmnts decls stmnts

end Emitter

/-- What an emission leaves: the values of the top-level statements or the reason why it stopped,
the module with the values of its items, and the builder. -/
structure Emitted (σ : Type) where
  values : Except SlotError (List Value)
  module : Module
  builder : σ

/-- Emit a module into a builder. -/
def Module.emit {σ : Type} [Builder σ] (builder : σ) (module : Module) : Emitted σ :=
  let left := Emitter.lowerModule module.decls module.stmnts builder
  { values := left.answer
    module := { module with stmnts := left.part }
    builder := left.builder }

end ImpLang
